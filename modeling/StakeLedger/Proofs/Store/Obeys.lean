import StakeLedger.Proofs.Store.Plain

/-!
# What scripts may do

Which keys a script sets and how it fails can be bounded by looking at its parts: `Script.Obeys`
names the keys and the failures that are allowed, and scripts one after another obey what each of
them does. If no failure of a script keeps updates, it leaves the backing store alone whenever it
fails.

Most failures are *ordinary*: they neither keep updates nor find fault with the input by itself.
-/

namespace StakeLedger

/-! ## Kinds of failures -/

namespace Failure

/-- The failure discards what was written before it. -/
abbrev Drops (f : Failure) : Prop := f.keepsUpdates = false

/-- The failure says that an amount, a key, a username or a parameter makes no sense by itself. -/
def Malformed : Failure → Prop
  | .invalidAmount .. | .badPublicKey _ | .badUsername _ | .config _ => True
  | _ => False

theorem Malformed.plain {f : Failure} (h : f.Malformed) : f.Plain := by
  cases f <;> trivial

theorem Malformed.drops {f : Failure} (h : f.Malformed) : f.Drops := h.plain.keepsUpdates

/-- The failure discards what was written before it, and it does not say that something makes no
sense by itself. -/
structure Ordinary (f : Failure) : Prop where
  drops : f.Drops
  proper : ¬f.Malformed

/-- The failure is ordinary, or it says that something makes no sense by itself where there is such
a flaw. -/
inductive Fair (flawed : Prop) (f : Failure) : Prop
  | ordinary (h : f.Ordinary)
  | malformed (flaw : flawed) (h : f.Malformed)

theorem Fair.drops {flawed : Prop} {f : Failure} (h : f.Fair flawed) : f.Drops := by
  cases h with
  | ordinary h => exact h.drops
  | malformed _ h => exact h.drops

theorem Fair.mono {flawed flawed' : Prop} (imp : flawed → flawed') {f : Failure}
    (h : f.Fair flawed) : f.Fair flawed' := by
  cases h with
  | ordinary h => exact .ordinary h
  | malformed flaw h => exact .malformed (imp flaw) h

/-- Where there is no flaw a fair failure is ordinary. -/
theorem Fair.ordinary_of_not {flawed : Prop} (flawless : ¬flawed) {f : Failure}
    (h : f.Fair flawed) : f.Ordinary := by
  cases h with
  | ordinary h => exact h
  | malformed flaw => exact absurd flaw flawless

end Failure

/-! ## What is allowed -/

namespace Script

variable {α β : Type} {mayWrite : Bytes → Prop} {mayFail : Failure → Prop}

/-- Every key that the script sets, and every failure that it ends with by itself, is allowed. -/
inductive Obeys (mayWrite : Bytes → Prop) (mayFail : Failure → Prop) : Script α → Prop
  | done (answer : α) : Obeys mayWrite mayFail (done answer)
  | fail {failure : Failure} (allowed : mayFail failure) : Obeys mayWrite mayFail (fail failure)
  | read {key : Bytes} {next : Option Bytes → Script α}
    (rest : ∀ found, Obeys mayWrite mayFail (next found)) : Obeys mayWrite mayFail (read key next)
  | write {key value : Bytes} {next : Script α} (allowed : mayWrite key)
    (rest : Obeys mayWrite mayFail next) : Obeys mayWrite mayFail (write key value next)

/-- The script may set any key, but all its failures discard what it has set. -/
abbrev Discards (script : Script α) : Prop := script.Obeys (fun _ => True) Failure.Drops

/-- The script sets no key, and all its failures are ordinary. -/
abbrev Looks (script : Script α) : Prop := script.Obeys (fun _ => False) Failure.Ordinary

/-- Every script may do anything. -/
theorem obeys_anything (script : Script α) : script.Obeys (fun _ => True) (fun _ => True) := by
  induction script with
  | done a => exact .done a
  | fail f => exact .fail trivial
  | read key next ih => exact .read ih
  | write key value next ih => exact .write trivial ih

namespace Obeys

theorem pure (a : α) : (Pure.pure a : Script α).Obeys mayWrite mayFail := done a

theorem bind {script : Script α} {next : α → Script β} (first : script.Obeys mayWrite mayFail)
    (rest : ∀ a, (next a).Obeys mayWrite mayFail) : (script >>= next).Obeys mayWrite mayFail := by
  induction first with
  | done a => exact rest a
  | fail allowed => exact fail allowed
  | read after ih => exact read ih
  | write allowed after ih => exact write allowed ih

theorem mono {script : Script α} (h : script.Obeys mayWrite mayFail)
    {mayWrite' : Bytes → Prop} {mayFail' : Failure → Prop} (write : ∀ k, mayWrite k → mayWrite' k)
    (fail : ∀ f, mayFail f → mayFail' f) : script.Obeys mayWrite' mayFail' := by
  induction h with
  | done a => exact .done a
  | fail allowed => exact .fail (fail _ allowed)
  | read rest ih => exact .read ih
  | write allowed rest ih => exact .write (write _ allowed) ih

theorem mono_fail {script : Script α} (h : script.Obeys mayWrite mayFail)
    {mayFail' : Failure → Prop} (fail : ∀ f, mayFail f → mayFail' f) :
    script.Obeys mayWrite mayFail' :=
  h.mono (fun _ allowed => allowed) fail

/-- What fails in ordinary ways only is fair about any flaw. -/
theorem fair {script : Script α} (h : script.Obeys mayWrite Failure.Ordinary) (flawed : Prop) :
    script.Obeys mayWrite (Failure.Fair flawed) :=
  h.mono_fail fun _ => .ordinary

theorem ite {c : Prop} [Decidable c] {yes no : Script α} (hyes : yes.Obeys mayWrite mayFail)
    (hno : no.Obeys mayWrite mayFail) : (if c then yes else no).Obeys mayWrite mayFail := by
  split
  · exact hyes
  · exact hno

theorem ofExcept {answer : Except Failure α} (h : ∀ f, answer = .error f → mayFail f) :
    (Script.ofExcept answer).Obeys mayWrite mayFail := by
  cases answer with
  | ok a => exact done a
  | error f => exact fail (h f rfl)

/-- The failures of a script are its own or those of the store. -/
theorem runBuffered_error {script : Script α} (h : script.Obeys mayWrite mayFail)
    (store : ∀ cause, mayFail (.store cause)) {b : Backend} {buffer after : Contents} {f : Failure}
    (run : script.runBuffered b buffer = (.error f, after)) : mayFail f := by
  induction h generalizing buffer with
  | done a => cases run
  | fail allowed =>
    cases run
    exact allowed
  | read rest ih =>
    simp only [runBuffered] at run
    split at run
    · cases run
      exact store _
    · exact ih _ run
  | write allowed rest ih => exact ih run

/-- The failures of a script that runs straight on a store are its own or those of the store. -/
theorem runOn_error {script : Script α} (h : script.Obeys mayWrite mayFail)
    (store : ∀ cause, mayFail (.store cause)) {b b' : Backend} {f : Failure}
    (run : script.runOn b = (.error f, b')) : mayFail f := by
  induction h generalizing b with
  | done a => cases run
  | fail allowed =>
    cases run
    exact allowed
  | read rest ih =>
    simp only [runOn] at run
    split at run
    · cases run
      exact store _
    · exact ih _ run
  | write allowed rest ih =>
    simp only [runOn] at run
    split at run
    · cases run
      exact store _
    · exact ih run

/-- And so they are if its updates are written when it has ended. -/
theorem commitOn_mayFail {script : Script α} (h : script.Obeys mayWrite mayFail)
    (store : ∀ cause, mayFail (.store cause)) {b b' : Backend} {f : Failure}
    (run : script.commitOn b = (.error f, b')) : mayFail f := by
  rcases hrun : script.runBuffered b .empty with ⟨answer, buffer⟩
  simp only [commitOn, hrun] at run
  split at run
  · simp only [Backend.absorb] at run
    split at run
    · rename_i written
      cases run
      exact h.runBuffered_error store hrun
    · rename_i unwritten
      cases run
      split at unwritten <;> cases unwritten
      exact store _
  · cases run
    exact h.runBuffered_error store hrun

/-- A script that sets no key leaves the buffer as it is. -/
theorem runBuffered_of_looks {script : Script α} (h : script.Looks) (b : Backend)
    (buffer : Contents) : (script.runBuffered b buffer).2 = buffer := by
  induction h with
  | done | fail => rfl
  | read rest ih =>
    simp only [runBuffered]
    split
    · rfl
    · exact ih _
  | write allowed rest ih => exact allowed.elim

theorem runPlain_of_looks {script : Script α} (h : script.Looks) (c : Contents) :
    (script.runPlain c).2 = c := by
  induction h with
  | done | fail => rfl
  | read rest ih => exact ih _
  | write allowed rest ih => exact allowed.elim

theorem eq_of_runPlain {script : Script α} (h : script.Looks) {c c' : Contents}
    {answer : Except Failure α} (run : script.runPlain c = (answer, c')) : c' = c := by
  have same := h.runPlain_of_looks c
  rwa [run] at same

end Obeys

/-! ## Scripts that fail -/

/-- Where a script that goes on after another fails, one of them does. -/
theorem bind_runBuffered_eq_error {script : Script α} {next : α → Script β}
    {b : Backend} {buffer after : Contents} {f : Failure} :
    (script >>= next).runBuffered b buffer = (.error f, after) ↔
      script.runBuffered b buffer = (.error f, after) ∨
        ∃ a mid, script.runBuffered b buffer = (.ok a, mid) ∧
          (next a).runBuffered b mid = (.error f, after) := by
  rw [runBuffered_bind]
  constructor
  · intro h
    split at h
    · rename_i a mid first
      exact .inr ⟨a, mid, first, h⟩
    · rename_i cause mid first
      cases h
      exact .inl first
  · rintro (first | ⟨a, mid, first, second⟩)
    · rw [first]
    · rw [first]
      exact second

/-- A script that fails on a store that takes all updates leaves its buffer there, if the failure
keeps updates, or nothing. -/
theorem commitOn_error {b b' : Backend} (settable : b.Settable) {script : Script α} {f : Failure}
    (run : script.commitOn b = (.error f, b')) :
    ∃ buffer, script.runBuffered b .empty = (.error f, buffer) ∧
      b' = if f.keepsUpdates then b.received buffer.entries else b := by
  rcases hrun : script.runBuffered b .empty with ⟨answer, buffer⟩
  simp only [commitOn, hrun, Backend.absorb_of_settable settable] at run
  split at run <;> cases run
  · rename_i kept
    exact ⟨buffer, rfl, (if_pos kept).symm⟩
  · rename_i dropped
    exact ⟨buffer, rfl, (if_neg dropped).symm⟩

/-- A script whose failures discard what it has set leaves the store alone when it fails. -/
theorem Obeys.commitOn_error {b b' : Backend} (settable : b.Settable) {script : Script α}
    (discards : script.Discards) {f : Failure} (run : script.commitOn b = (.error f, b')) :
    f.Drops ∧ b' = b := by
  obtain ⟨buffer, hrun, rfl⟩ := Script.commitOn_error settable run
  have drops := discards.runBuffered_error (fun _ => rfl) hrun
  refine ⟨drops, if_neg ?_⟩
  rw [drops]
  exact Bool.false_ne_true

/-- A script that succeeds on a reliable store leaves what it leaves of plain contents. -/
theorem commitOn_ok {b b' : Backend} (reliable : b.Reliable) {script : Script α} {a : α}
    (run : script.commitOn b = (.ok a, b')) :
    script.runPlain b.contents = (.ok a, b'.contents) ∧ b'.Reliable := by
  obtain ⟨answer, faults, contents⟩ := commitOn_eq_runPlain reliable script
  rw [run] at answer faults contents
  rw [← answer] at contents
  exact ⟨Prod.ext answer.symm contents.symm, reliable.of_faults faults⟩

end Script

end StakeLedger

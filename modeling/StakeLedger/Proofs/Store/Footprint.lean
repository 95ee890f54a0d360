import StakeLedger.Proofs.Store.Plain

/-!
# Footprints

What a script reads and sets on its way through certain contents is its footprint there. Contents
that agree on it make no difference to the script, and what lies outside stays as it was. So two
scripts with footprints that have no key in common can change places.
-/

namespace StakeLedger

/-- The contents have the same values under these keys. -/
def Contents.AgreeOn (K : Bytes → Prop) (c d : Contents) : Prop :=
  ∀ key, K key → c.get? key = d.get? key

theorem Contents.AgreeOn.insert {K : Bytes → Prop} {c d : Contents} (agree : c.AgreeOn K d)
    (key value : Bytes) : (c.insert key value).AgreeOn K (d.insert key value) := by
  intro other inside
  rw [get?_insert, get?_insert, agree other inside]

namespace Script

variable {α β : Type} {K : Bytes → Prop} {c d : Contents}

/-- Run on the contents, the script reads and sets these keys only. -/
inductive Within (K : Bytes → Prop) : Script α → Contents → Prop
  | done (answer : α) (c : Contents) : Within K (done answer) c
  | fail (failure : Failure) (c : Contents) : Within K (fail failure) c
  | read {key : Bytes} {next : Option Bytes → Script α} {c : Contents} (inside : K key)
    (rest : Within K (next (c.get? key)) c) : Within K (read key next) c
  | write {key value : Bytes} {next : Script α} {c : Contents} (inside : K key)
    (rest : Within K next (c.insert key value)) : Within K (write key value next) c

namespace Within

theorem pure (a : α) (c : Contents) : (Pure.pure a : Script α).Within K c := done a c

theorem ofExcept (answer : Except Failure α) (c : Contents) :
    (Script.ofExcept answer).Within K c := by
  cases answer with
  | ok a => exact done a c
  | error f => exact fail f c

theorem bind {script : Script α} {next : α → Script β} (first : script.Within K c)
    (rest : ∀ a d, script.runPlain c = (.ok a, d) → (next a).Within K d) :
    (script >>= next).Within K c := by
  induction first with
  | done a c => exact rest a c rfl
  | fail f c => exact fail f c
  | read inside after ih => exact read inside (ih rest)
  | write inside after ih => exact write inside (ih rest)

theorem ite {p : Prop} [Decidable p] {yes no : Script α} (hyes : yes.Within K c)
    (hno : no.Within K c) : (if p then yes else no).Within K c := by
  split
  · exact hyes
  · exact hno

theorem ofExcept_bind {answer : Except Failure α} {next : α → Script β}
    (rest : ∀ a, answer = .ok a → (next a).Within K c) :
    (Script.ofExcept answer >>= next).Within K c := by
  cases answer with
  | ok a => exact rest a rfl
  | error f => exact fail f c

theorem answer {script : Script α} (h : script.Within K c) (form : α → β) :
    (script >>= fun a => Pure.pure (form a)).Within K c :=
  h.bind fun a d _ => .pure (form a) d

/-- Outside of its footprint, a script leaves everything as it was. -/
theorem frame {script : Script α} (h : script.Within K c) {key : Bytes} (outside : ¬K key) :
    (script.runPlain c).2.get? key = c.get? key := by
  induction h with
  | done | fail => rfl
  | read inside rest ih => exact ih
  | @write key' value next c inside rest ih =>
    have other : key ≠ key' := fun same => outside (same ▸ inside)
    exact ih.trans ((Contents.get?_insert c key' value key).trans (if_neg other))

/-- Contents that agree on the footprint of a script make no difference to it, and agree there
afterwards. -/
theorem congr {script : Script α} (h : script.Within K c) (agree : c.AgreeOn K d) :
    script.Within K d ∧ (script.runPlain d).1 = (script.runPlain c).1 ∧
      (script.runPlain c).2.AgreeOn K (script.runPlain d).2 := by
  induction h generalizing d with
  | done a c => exact ⟨done a d, rfl, agree⟩
  | fail f c => exact ⟨fail f d, rfl, agree⟩
  | read inside rest ih =>
    have seen := agree _ inside
    obtain ⟨within, same, after⟩ := ih agree
    simp only [runPlain]
    rw [seen] at within same after ⊢
    exact ⟨read inside within, same, after⟩
  | write inside rest ih =>
    obtain ⟨within, same, after⟩ := ih (agree.insert _ _)
    exact ⟨write inside within, same, after⟩

end Within

/-! ## Outcomes -/

/-- The answer of a script, and the contents with its updates if they are kept. -/
def outcome (script : Script α) (c : Contents) : Except Failure α × Contents :=
  ((script.runPlain c).1,
    if keepsUpdates (script.runPlain c).1 then (script.runPlain c).2 else c)

theorem Within.outcome_frame {script : Script α} (h : script.Within K c) {key : Bytes}
    (outside : ¬K key) : (script.outcome c).2.get? key = c.get? key := by
  simp only [outcome]
  split
  · exact h.frame outside
  · rfl

theorem Within.outcome_congr {script : Script α} (h : script.Within K c) (agree : c.AgreeOn K d) :
    (script.outcome d).1 = (script.outcome c).1 ∧
      (script.outcome c).2.AgreeOn K (script.outcome d).2 := by
  obtain ⟨-, same, after⟩ := h.congr agree
  refine ⟨same, ?_⟩
  simp only [outcome, same]
  split
  · exact after
  · exact agree

/-- On a reliable store, the outcome of a script is what comes of it through a buffer. -/
theorem commitOn_eq_outcome {b : Backend} (h : b.Reliable) (script : Script α) :
    (script.commitOn b).1 = (script.outcome b.contents).1 ∧
      (script.commitOn b).2.contents = (script.outcome b.contents).2 ∧
      (script.commitOn b).2.Reliable := by
  obtain ⟨answer, faults, contents⟩ := commitOn_eq_runPlain h script
  exact ⟨answer, contents, h.of_faults faults⟩

/-- Scripts that have no key in common can change places: each is answered as if the other were not
there, and the contents are the same in the end. -/
theorem outcome_comm {K L : Bytes → Prop} (apart : ∀ key, K key → ¬L key) {script : Script α}
    {other : Script β} (h : script.Within K c) (h' : other.Within L c) :
    (script.outcome (other.outcome c).2).1 = (script.outcome c).1 ∧
      (other.outcome (script.outcome c).2).1 = (other.outcome c).1 ∧
      (other.outcome (script.outcome c).2).2 = (script.outcome (other.outcome c).2).2 := by
  have kept : c.AgreeOn K (other.outcome c).2 := fun key inside =>
    (h'.outcome_frame (apart key inside)).symm
  have kept' : c.AgreeOn L (script.outcome c).2 := fun key inside =>
    (h.outcome_frame fun inside' => apart key inside' inside).symm
  obtain ⟨answer, after⟩ := h.outcome_congr kept
  obtain ⟨answer', after'⟩ := h'.outcome_congr kept'
  have again : script.Within K (other.outcome c).2 := (h.congr kept).1
  have again' : other.Within L (script.outcome c).2 := (h'.congr kept').1
  refine ⟨answer, answer', Contents.ext_get? fun key => ?_⟩
  by_cases inside : K key
  · rw [again'.outcome_frame (apart key inside), after key inside]
  · rw [again.outcome_frame inside]
    by_cases inside' : L key
    · rw [← after' key inside']
    · rw [again'.outcome_frame inside', h.outcome_frame inside, h'.outcome_frame inside']

end Script

end StakeLedger

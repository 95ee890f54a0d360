import StakeLedger.Proofs.Store.Records
import StakeLedger.Proofs.Store.Torn

/-!
# Stores on which anything can fail

Any access to the backing store may fail while a script is committed, readings included. Still the
store is left in one of three ways: as it was, as the script leaves it where nothing fails, or torn
at a key that the script sets. In the first and the last case the answer is a failure of the store,
or the one that the script ends with anyway.
-/

namespace StakeLedger

namespace Script

variable {α : Type} {mayWrite : Bytes → Prop} {mayFail : Failure → Prop}

/-- A script ends with a failure of the store, or it runs as if no access could fail. -/
theorem runBuffered_disturbed (b : Backend) (script : Script α) (buffer : Contents) :
    (∃ f, (script.runBuffered b buffer).1 = .error (.store f)) ∨
      script.runBuffered b buffer = script.runBuffered b.mended buffer := by
  induction script generalizing buffer with
  | done | fail => exact .inr rfl
  | write key value next ih => exact ih _
  | read key next ih =>
    have seen : getThrough b.mended buffer key = .ok ((buffer.addAll b.contents).get? key) :=
      getThrough_of_reliable b.reliable_mended buffer key
    have either : (∃ f, getThrough b buffer key = .error f) ∨
        getThrough b buffer key = .ok ((buffer.addAll b.contents).get? key) := by
      rw [Contents.get?_addAll, getThrough]
      cases buffer.get? key with
      | some value => exact .inr rfl
      | none =>
        rw [Backend.get]
        cases b.fault? (.get key) with
        | some f => exact .inl ⟨f, rfl⟩
        | none => exact .inr rfl
    rcases either with ⟨f, refused⟩ | found
    · exact .inl ⟨f, by rw [runBuffered, refused]⟩
    · simp only [runBuffered, found, seen]
      exact ih _ _

/-- A script puts nothing into its buffer but at keys that it may set. -/
theorem Obeys.mem_runBuffered {script : Script α} (h : script.Obeys mayWrite mayFail) (b : Backend)
    {buffer : Contents} (before : ∀ key, buffer.get? key ≠ none → mayWrite key) {key : Bytes}
    (found : (script.runBuffered b buffer).2.get? key ≠ none) : mayWrite key := by
  induction h generalizing buffer with
  | done | fail => exact before key found
  | read rest ih =>
    simp only [runBuffered] at found
    split at found
    · exact before key found
    · exact ih _ before found
  | @write k value next allowed rest ih =>
    refine ih (fun other hother => ?_) found
    by_cases same : other = k
    · rw [same]
      exact allowed
    · rw [Contents.get?_insert, if_neg same] at hother
      exact before other hother

/-- What comes of committing a script, beside what would come of it on the mended store. -/
inductive Disturbed (b : Backend) (mayWrite : Bytes → Prop) (mended : Except Failure α × Backend) :
    Except Failure α × Backend → Prop
  | refused (f : StoreFailure) : Disturbed b mayWrite mended (.error (.store f), b)
  | undisturbed {after : Backend} (contents : after.contents = mended.2.contents)
    (log : after.log = mended.2.log) : Disturbed b mayWrite mended (mended.1, after)
  | torn {after : Backend} {key : Bytes} (f : StoreFailure) (allowed : mayWrite key)
    (torn : b.contents.Torn mended.2.contents key after.contents) :
    Disturbed b mayWrite mended (.error (.store f), after)

/-- A script leaves a store on which anything can fail as it was, or as it would have left the
mended store, or torn at a key that it may set. -/
theorem Obeys.commitOn_disturbed {script : Script α} (h : script.Obeys mayWrite mayFail)
    (b : Backend) : Disturbed b mayWrite (script.commitOn b.mended) (script.commitOn b) := by
  rcases runBuffered_disturbed b script .empty with ⟨f, refused⟩ | same
  · have answer : script.commitOn b = (.error (.store f), b) := by
      rw [commitOn]
      generalize script.runBuffered b .empty = run at refused
      obtain ⟨answer, buffer⟩ := run
      cases refused
      rfl
    rw [answer]
    exact .refused f
  · have allowed {key : Bytes} : (script.runBuffered b.mended .empty).2.get? key ≠ none →
        mayWrite key := h.mem_runBuffered b.mended fun _ present => absurd rfl present
    simp only [commitOn, same]
    generalize script.runBuffered b.mended .empty = run at allowed
    obtain ⟨answer, buffer⟩ := run
    dsimp only at allowed ⊢
    split
    · rw [Backend.absorb_of_settable b.reliable_mended.settable, Backend.absorb]
      rcases b.setAll_cases buffer.entries with
        all | ⟨front, key, value, back, f, split, stop, part⟩
      · rw [all]
        exact .undisturbed rfl rfl
      · rw [part]
        have inside : buffer.get? key ≠ none := by
          intro absent
          have ordered := buffer.ordered
          rw [Contents.get?, split, findEntry_append] at absent
          rw [split] at ordered
          rw [findEntry_front ordered, precedes_irrefl] at absent
          simp [findEntry] at absent
        exact .torn f (allowed inside) (Backend.torn_received split)
    · exact .undisturbed rfl rfl

end Script

/-! ## What torn contents hold -/

/-- A record in torn contents is that of one of the contents that they are torn from. -/
theorem Contents.Torn.peek_eq {c whole after : Contents} {key : Bytes}
    (torn : c.Torn whole key after) {ν ρ : Type} (t : Table ν ρ) (name : ν) :
    t.peek after name = t.peek whole name ∨ t.peek after name = t.peek c name := by
  simp only [Table.peek, torn (t.key name)]
  by_cases early : precedes (t.key name) key = true
  · exact .inl (by rw [if_pos early])
  · exact .inr (by rw [if_neg early])

end StakeLedger

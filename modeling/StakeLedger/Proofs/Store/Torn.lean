import Mathlib.Tactic.SplitIfs
import StakeLedger.Proofs.Store.Obeys

/-!
# Updates that the store refuses

A buffer goes to the backing store in the order of its keys. If the store refuses one of the
updates, those in front of it have been made and are not taken back, so the contents are torn at
that key.
-/

namespace StakeLedger

/-! ## Updates in order -/

theorem findEntry_append (key : Bytes) (front back : List (Bytes × Bytes)) :
    findEntry key (front ++ back) = (findEntry key front).or (findEntry key back) := by
  induction front with
  | nil => rfl
  | cons entry rest ih =>
    simp only [List.cons_append, findEntry, ih]
    split <;> rfl

theorem mem_of_findEntry {key value : Bytes} {entries : List (Bytes × Bytes)}
    (h : findEntry key entries = some value) : (key, value) ∈ entries := by
  induction entries with
  | nil => cases h
  | cons entry rest ih =>
    rw [findEntry] at h
    split at h
    · rename_i same
      cases h
      subst same
      exact List.mem_cons_self ..
    · exact List.mem_cons_of_mem _ (ih h)

/-- In ascending order, the entries in front of a key are those that precede it. -/
theorem findEntry_front {front back : List (Bytes × Bytes)} {key value : Bytes}
    (ordered : (front ++ (key, value) :: back).Pairwise fun p q => precedes p.1 q.1 = true)
    (k : Bytes) :
    findEntry k front =
      if precedes k key then findEntry k (front ++ (key, value) :: back) else none := by
  rw [List.pairwise_append, List.pairwise_cons] at ordered
  obtain ⟨-, ⟨after, -⟩, before⟩ := ordered
  split
  · rename_i first
    have absent : findEntry k ((key, value) :: back) = none := by
      refine findEntry_eq_none fun p hp => ?_
      rcases List.mem_cons.1 hp with rfl | hp
      · exact first
      · exact precedes_trans first (after p hp)
    rw [findEntry_append, absent, Option.or_none]
  · rename_i late
    cases found : findEntry k front with
    | none => rfl
    | some v =>
      have := before (k, v) (mem_of_findEntry found) (key, value) (List.mem_cons_self ..)
      exact absurd this late

/-- The contents `after` lie between `c` and `whole`: they are those of `whole` before a key and
those of `c` from there on. -/
def Contents.Torn (c whole : Contents) (key : Bytes) (after : Contents) : Prop :=
  ∀ k, after.get? k = if precedes k key then whole.get? k else c.get? k

/-- Torn contents are the old ones exactly if nothing changes before the key. -/
theorem Contents.Torn.eq_iff {c whole after : Contents} {key : Bytes}
    (torn : c.Torn whole key after) :
    after = c ↔ ∀ k, precedes k key = true → whole.get? k = c.get? k := by
  constructor
  · rintro rfl k before
    rw [torn k, if_pos before]
  · intro same
    apply ext_get?
    intro k
    rw [torn k]
    split
    · rename_i before
      exact same k before
    · rfl

namespace Backend

/-- No reading of the store fails. -/
def Readable (b : Backend) : Prop := ∀ key, b.fault? (.get key) = none

/-- The same store with no access failing. -/
def mended (b : Backend) : Backend := { b with faults := [] }

theorem reliable_mended (b : Backend) : b.mended.Reliable := fun _ => rfl

/-- The store takes all updates, or those in front of the first that it refuses. -/
theorem setAll_cases (b : Backend) (entries : List (Bytes × Bytes)) :
    b.setAll entries = (b.received entries, none) ∨
      ∃ front key value back f, entries = front ++ (key, value) :: back ∧
        b.fault? (.set key) = some f ∧ b.setAll entries = (b.received front, some f) := by
  induction entries generalizing b with
  | nil => exact .inl (by simp [setAll, received])
  | cons entry rest ih =>
    obtain ⟨key, value⟩ := entry
    cases refused : b.fault? (.set key) with
    | some f =>
      refine .inr ⟨[], key, value, rest, f, rfl, refused, ?_⟩
      simp [setAll, set, refused, received]
    | none =>
      have taken : b.setAll ((key, value) :: rest) = (b.received [(key, value)]).setAll rest := by
        rw [setAll, set, refused]
        rfl
      have grow (front : List (Bytes × Bytes)) :
          (b.received [(key, value)]).received front = b.received ((key, value) :: front) := by
        simp [received]
      rcases ih (b.received [(key, value)]) with all | ⟨front, k, v, back, f, rfl, stop, part⟩
      · exact .inl (by rw [taken, all, grow])
      · exact .inr ⟨(key, value) :: front, k, v, back, f, rfl, stop, by rw [taken, part, grow]⟩

/-- A buffer whose update of a key is refused has been written up to that key. -/
theorem torn_received {b : Backend} {buffer : Contents} {front back : List (Bytes × Bytes)}
    {key value : Bytes} (split : buffer.entries = front ++ (key, value) :: back) :
    b.contents.Torn (b.received buffer.entries).contents key (b.received front).contents := by
  have ordered := buffer.ordered
  rw [split] at ordered ⊢
  intro k
  have front_ordered := (List.pairwise_append.1 ordered).1
  rw [received, received, Contents.get?_foldl_insert front_ordered,
    Contents.get?_foldl_insert ordered, findEntry_front ordered]
  split_ifs
  · rfl
  · rfl

end Backend

/-! ## Scripts -/

namespace Script

variable {α : Type}

/-- What a script does on a buffer does not depend on whether the store would take updates. -/
theorem runBuffered_mended {b : Backend} (readable : b.Readable) (script : Script α)
    (buffer : Contents) : script.runBuffered b.mended buffer = script.runBuffered b buffer := by
  induction script generalizing buffer with
  | done | fail => rfl
  | read key next ih =>
    have seen : getThrough b.mended buffer key = getThrough b buffer key := by
      simp only [getThrough, Backend.get, readable key]
      rfl
    simp only [runBuffered, seen, ih]
  | write key value next ih => exact ih _

theorem faults_commitOn (b : Backend) (script : Script α) :
    (script.commitOn b).2.faults = b.faults := by
  simp only [commitOn, Backend.absorb]
  split
  · rcases b.setAll_cases (script.runBuffered b .empty).2.entries with
      all | ⟨_, _, _, _, _, _, _, part⟩
    · rw [all]
      rfl
    · rw [part]
      rfl
  · rfl

/-- A script commits on a store that can be read as it does on the mended store, or an update is
refused and those before it are made. -/
theorem commitOn_readable {b : Backend} (readable : b.Readable) (script : Script α) :
    (script.commitOn b).1 = (script.commitOn b.mended).1 ∧
        (script.commitOn b).2.contents = (script.commitOn b.mended).2.contents ∨
      ∃ key f, b.fault? (.set key) = some f ∧ (script.commitOn b).1 = .error (.store f) ∧
        b.contents.Torn (script.commitOn b.mended).2.contents key
          (script.commitOn b).2.contents := by
  simp only [commitOn, runBuffered_mended readable]
  rcases script.runBuffered b .empty with ⟨answer, buffer⟩
  dsimp only
  split
  · rw [Backend.absorb_of_settable b.reliable_mended.settable, Backend.absorb]
    rcases b.setAll_cases buffer.entries with all | ⟨front, key, value, back, f, split, stop, part⟩
    · rw [all]
      exact .inl ⟨rfl, rfl⟩
    · rw [part]
      exact .inr ⟨key, f, stop, rfl, Backend.torn_received split⟩
  · exact .inl ⟨rfl, rfl⟩

/-- A script that ends with a failure of a store which takes all updates leaves it alone. -/
theorem commitOn_storeFailure {b : Backend} (settable : b.Settable) {script : Script α}
    {f : StoreFailure} (failed : (script.commitOn b).1 = .error (.store f)) :
    (script.commitOn b).2 = b := by
  obtain ⟨buffer, -, after⟩ := commitOn_error settable (Prod.ext failed rfl)
  exact after

/-- A script that ends with a failure of the store, which could be read, leaves it as it was, or as
far as the update that was refused. -/
theorem commitOn_interrupted {b : Backend} (readable : b.Readable) {script : Script α}
    {f : StoreFailure} (failed : (script.commitOn b).1 = .error (.store f)) :
    (script.commitOn b).2.contents = b.contents ∧
        (script.commitOn b.mended).2.contents = b.contents ∨
      ∃ key, b.fault? (.set key) = some f ∧
        b.contents.Torn (script.commitOn b.mended).2.contents key
          (script.commitOn b).2.contents := by
  rcases script.commitOn_readable readable with ⟨answer, contents⟩ | ⟨key, f', stop, answer, torn⟩
  · have alone := commitOn_storeFailure b.reliable_mended.settable (answer.symm.trans failed)
    rw [contents, alone]
    exact .inl ⟨rfl, rfl⟩
  · rw [failed] at answer
    cases answer
    exact .inr ⟨key, stop, torn⟩

end Script

end StakeLedger

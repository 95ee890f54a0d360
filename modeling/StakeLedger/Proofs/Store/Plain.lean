import StakeLedger.Ledger.Delivery

/-!
# Scripts on plain contents

On a store whose accesses never fail a script only depends on the contents. It can then be run on
the contents alone, and both ways of running it on a backing store, straight or through a buffer,
come to the same answer and the same contents.

## Main definitions

* `Backend.Settable`, `Backend.Reliable` — no update, or no access at all, fails.
* `Script.runPlain` — a script on contents alone.

## Main statements

* `Contents.get?_addAll` — what is seen through a buffer that is written over other contents.
* `Backend.absorb_of_settable` — a buffer goes to the backing store whole, key by key.
* `Script.runBuffered_eq_runPlain`, `Script.runOn_eq_runPlain`, `Script.commitOn_eq_runPlain` — a
  script on a reliable store runs as it does on plain contents.
* `Script.bind_runPlain_eq_ok`, `Script.bind_runPlain_eq_error` — how a script that goes on after
  another can succeed or fail.
-/

namespace StakeLedger

/-! ## Contents written over contents -/

namespace Contents

theorem get?_foldl_insert {entries : List (Bytes × Bytes)}
    (ordered : entries.Pairwise fun p q => precedes p.1 q.1 = true) (lower : Contents)
    (key : Bytes) :
    (entries.foldl (fun c entry => c.insert entry.1 entry.2) lower).get? key =
      (findEntry key entries).or (lower.get? key) := by
  induction entries generalizing lower with
  | nil => rfl
  | cons entry rest ih =>
    obtain ⟨k, v⟩ := entry
    rw [List.pairwise_cons] at ordered
    rw [List.foldl_cons, ih ordered.2, get?_insert]
    by_cases same : key = k
    · subst same
      have absent : findEntry key rest = none := findEntry_eq_none fun q hq => ordered.1 q hq
      simp [findEntry, absent]
    · simp [findEntry, same, Ne.symm same]

/-- Written over other contents, a buffer decides the keys that it holds. -/
theorem get?_addAll (upper lower : Contents) (key : Bytes) :
    (upper.addAll lower).get? key = (upper.get? key).or (lower.get? key) :=
  get?_foldl_insert upper.ordered lower key

@[simp] theorem empty_addAll (lower : Contents) : empty.addAll lower = lower := rfl

theorem insert_addAll (upper lower : Contents) (key value : Bytes) :
    (upper.insert key value).addAll lower = (upper.addAll lower).insert key value := by
  apply ext_get?
  intro other
  simp only [get?_addAll, get?_insert]
  split <;> rfl

end Contents

/-! ## Backing stores that do not fail -/

namespace Backend

/-- No update of the store fails. -/
def Settable (b : Backend) : Prop := ∀ key, b.fault? (.set key) = none

/-- No access to the store fails. -/
def Reliable (b : Backend) : Prop := ∀ access, b.fault? access = none

theorem Reliable.settable {b : Backend} (h : b.Reliable) : b.Settable := fun key => h (.set key)

/-- Whether a store is reliable only depends on its faults. -/
theorem Reliable.of_faults {b b' : Backend} (h : b.Reliable) (same : b'.faults = b.faults) :
    b'.Reliable := by
  intro access
  rw [fault?, same]
  exact h access

theorem reliable_empty : empty.Reliable := fun _ => rfl

/-- The store with entries written to it in order. -/
def received (b : Backend) (entries : List (Bytes × Bytes)) : Backend where
  contents := entries.foldl (fun c entry => c.insert entry.1 entry.2) b.contents
  faults := b.faults
  log := b.log ++ entries.map fun entry => .wrote entry.1 entry.2

theorem get_of_reliable {b : Backend} (h : b.Reliable) (key : Bytes) :
    b.get key = .ok (b.contents.get? key) := by
  rw [get, h (.get key)]

theorem set_of_settable {b : Backend} (h : b.Settable) (key value : Bytes) :
    b.set key value = .ok (b.received [(key, value)]) := by
  rw [set, h key]
  rfl

theorem flush_of_reliable {b : Backend} (h : b.Reliable) :
    b.flush = .ok { b with log := b.log ++ [.flushed] } := by
  rw [flush, h .flush]

theorem setAll_of_settable {b : Backend} (h : b.Settable) (entries : List (Bytes × Bytes)) :
    b.setAll entries = (b.received entries, none) := by
  induction entries generalizing b with
  | nil => simp [setAll, received]
  | cons entry rest ih =>
    obtain ⟨key, value⟩ := entry
    have still : (b.received [(key, value)]).Settable := h
    rw [setAll, set_of_settable h]
    change (b.received [(key, value)]).setAll rest = _
    rw [ih still]
    simp [received]

/-- A store that takes every update takes a buffer whole. -/
theorem absorb_of_settable {b : Backend} (h : b.Settable) (buffer : Contents) :
    b.absorb buffer = (.ok (), b.received buffer.entries) := by
  rw [absorb, setAll_of_settable h]

end Backend

namespace Script

variable {α β : Type}

/-! ## Scripts on contents alone -/

/-- The script on plain contents, to which every access succeeds: its answer and the contents
afterwards. -/
def runPlain : Script α → Contents → Except Failure α × Contents
  | done answer, c => (.ok answer, c)
  | fail failure, c => (.error failure, c)
  | read key next, c => (next (c.get? key)).runPlain c
  | write key value next, c => next.runPlain (c.insert key value)

theorem runPlain_bind (script : Script α) (next : α → Script β) (c : Contents) :
    (script >>= next).runPlain c =
      match script.runPlain c with
      | (.ok answer, c) => (next answer).runPlain c
      | (.error failure, c) => (.error failure, c) := by
  induction script generalizing c with
  | done | fail => rfl
  | read key rest ih => exact ih _ _
  | write key value rest ih => exact ih _

/-- A script succeeds after another exactly if both do, one where the other stopped. -/
theorem bind_runPlain_eq_ok {script : Script α} {next : α → Script β} {c c' : Contents}
    {b : β} :
    (script >>= next).runPlain c = (.ok b, c') ↔
      ∃ a d, script.runPlain c = (.ok a, d) ∧ (next a).runPlain d = (.ok b, c') := by
  rw [runPlain_bind]
  constructor
  · intro h
    split at h
    · rename_i a d first
      exact ⟨a, d, first, h⟩
    · cases h
  · rintro ⟨a, d, first, second⟩
    rw [first]
    exact second

/-- Where a script that goes on after another fails, one of them does. -/
theorem bind_runPlain_eq_error {script : Script α} {next : α → Script β} {c c' : Contents}
    {f : Failure} :
    (script >>= next).runPlain c = (.error f, c') ↔
      script.runPlain c = (.error f, c') ∨
        ∃ a d, script.runPlain c = (.ok a, d) ∧ (next a).runPlain d = (.error f, c') := by
  rw [runPlain_bind]
  constructor
  · intro h
    split at h
    · rename_i a d first
      exact .inr ⟨a, d, first, h⟩
    · rename_i cause d first
      cases h
      exact .inl first
  · rintro (first | ⟨a, d, first, second⟩)
    · rw [first]
    · rw [first]
      exact second

@[simp] theorem pure_runPlain (answer : α) (c : Contents) :
    (pure answer : Script α).runPlain c = (.ok answer, c) := rfl

@[simp] theorem ofExcept_runPlain (answer : Except Failure α) (c : Contents) :
    (ofExcept answer).runPlain c = (answer, c) := by
  cases answer <;> rfl

/-- Putting an answer into another form is nothing that can fail. -/
theorem answer_runPlain_eq_error {script : Script α} {form : α → β} {c c' : Contents}
    {f : Failure} :
    (script >>= fun a => pure (form a)).runPlain c = (.error f, c') ↔
      script.runPlain c = (.error f, c') := by
  rw [bind_runPlain_eq_error]
  constructor
  · rintro (failed | ⟨a, d, -, failed⟩)
    · exact failed
    · cases failed
  · exact .inl

/-! ## Scripts on reliable stores -/

/-- Through a buffer, the contents are seen with the buffer written over them. -/
theorem getThrough_of_reliable {b : Backend} (h : b.Reliable) (buffer : Contents) (key : Bytes) :
    getThrough b buffer key = .ok ((buffer.addAll b.contents).get? key) := by
  rw [Contents.get?_addAll, getThrough]
  cases buffer.get? key with
  | none => exact Backend.get_of_reliable h key
  | some value => rfl

/-- Through a buffer, a script answers as it does on the contents with the buffer written over them,
and it keeps the buffer in step with what it would have done to them. -/
theorem runBuffered_eq_runPlain {b : Backend} (h : b.Reliable) (script : Script α)
    (buffer : Contents) :
    (script.runBuffered b buffer).1 = (script.runPlain (buffer.addAll b.contents)).1 ∧
      (script.runBuffered b buffer).2.addAll b.contents =
        (script.runPlain (buffer.addAll b.contents)).2 := by
  induction script generalizing buffer with
  | done | fail => exact ⟨rfl, rfl⟩
  | read key next ih =>
    rw [runBuffered, getThrough_of_reliable h]
    exact ih _ _
  | write key value next ih =>
    rw [runBuffered, runPlain, ← Contents.insert_addAll]
    exact ih _

theorem runOn_eq_runPlain {b : Backend} (h : b.Reliable) (script : Script α) :
    ∃ log, script.runOn b =
      ((script.runPlain b.contents).1, ⟨(script.runPlain b.contents).2, b.faults, log⟩) := by
  induction script generalizing b with
  | done | fail => exact ⟨b.log, rfl⟩
  | read key next ih =>
    rw [runOn, Backend.get_of_reliable h]
    exact ih _ h
  | write key value next ih =>
    rw [runOn, Backend.set_of_settable h.settable]
    exact ih (h.of_faults rfl)

/-- On a reliable store, a script whose updates are kept leaves what it would have left of plain
contents, and any other leaves the contents as they were. -/
theorem commitOn_eq_runPlain {b : Backend} (h : b.Reliable) (script : Script α) :
    (script.commitOn b).1 = (script.runPlain b.contents).1 ∧
      (script.commitOn b).2.faults = b.faults ∧
      (script.commitOn b).2.contents =
        if keepsUpdates (script.runPlain b.contents).1 then (script.runPlain b.contents).2
        else b.contents := by
  obtain ⟨answer, after⟩ := runBuffered_eq_runPlain h script .empty
  rw [Contents.empty_addAll] at answer after
  rw [commitOn, ← answer, ← after]
  by_cases kept : keepsUpdates (script.runBuffered b .empty).1
  · simp [kept, Backend.absorb_of_settable h.settable, Backend.received, Contents.addAll]
  · simp [kept]

end Script

end StakeLedger

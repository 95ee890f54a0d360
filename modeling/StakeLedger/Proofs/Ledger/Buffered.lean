import Mathlib.Data.List.Induction
import StakeLedger.Proofs.Store.Torn

/-!
# Updates through the buffer

Used straight on a store, a script sends it every update that it makes, one by one. Through a buffer
the store gets each key once, in the order of the keys and with the value that was written last. On
a store that does not fail the answer and the contents are the same in both ways. `Script.updates`
are the updates as they are made, and `LastUpdate` is the one that a buffer keeps of those to a key.
-/

namespace StakeLedger

/-! ## Updates one after another -/

/-- The value `value` is the last that the updates give to `key`. -/
def LastUpdate (updates : List (Bytes × Bytes)) (key value : Bytes) : Prop :=
  ∃ before after, updates = before ++ (key, value) :: after ∧ ∀ u ∈ after, u.1 ≠ key

theorem not_lastUpdate_nil (key value : Bytes) : ¬LastUpdate [] key value := by
  rintro ⟨before, after, split, -⟩
  simp at split

/-- A further update is the last to its own key, and the others keep theirs. -/
theorem lastUpdate_append_singleton {updates : List (Bytes × Bytes)} {u : Bytes × Bytes}
    {key value : Bytes} :
    LastUpdate (updates ++ [u]) key value ↔
      if key = u.1 then u.2 = value else LastUpdate updates key value := by
  constructor
  · rintro ⟨before, after, split, later⟩
    rcases List.eq_nil_or_concat after with rfl | ⟨earlier, last, rfl⟩
    · obtain ⟨-, same⟩ := List.append_inj' split rfl
      grind
    · have regrouped : updates ++ [u] = (before ++ (key, value) :: earlier) ++ [last] := by
        simpa using split
      obtain ⟨rfl, same⟩ := List.append_inj' regrouped rfl
      have other : key ≠ u.1 := by grind
      rw [if_neg other]
      exact ⟨before, earlier, rfl, fun w hw => later w (by simp [hw])⟩
  · intro h
    split at h
    · rename_i same
      subst same h
      exact ⟨updates, [], rfl, nofun⟩
    · rename_i other
      obtain ⟨before, after, rfl, later⟩ := h
      exact ⟨before, after ++ [u], by simp, by grind⟩

/-- Every key that is updated has a last update. -/
theorem exists_lastUpdate (updates : List (Bytes × Bytes)) (key : Bytes) :
    (∃ value, LastUpdate updates key value) ↔ key ∈ updates.map Prod.fst := by
  induction updates using List.reverseRecOn with
  | nil => simp [not_lastUpdate_nil]
  | append_singleton updates u ih =>
    simp only [lastUpdate_append_singleton, List.map_append, List.mem_append, List.map_singleton,
      List.mem_singleton]
    by_cases same : key = u.1
    · simp [same]
    · simp [same, ih]

namespace Contents

/-- The contents with updates made to them in order. -/
def insertAll (c : Contents) (updates : List (Bytes × Bytes)) : Contents :=
  updates.foldl (fun c u => c.insert u.1 u.2) c

theorem insertAll_append_singleton (c : Contents) (updates : List (Bytes × Bytes))
    (u : Bytes × Bytes) : c.insertAll (updates ++ [u]) = (c.insertAll updates).insert u.1 u.2 := by
  simp [insertAll]

theorem mem_entries_iff {c : Contents} {key value : Bytes} :
    (key, value) ∈ c.entries ↔ c.get? key = some value := by
  refine ⟨fun h => ?_, mem_of_findEntry⟩
  obtain ⟨front, back, split⟩ := List.append_of_mem h
  have ordered := c.ordered
  rw [split] at ordered
  -- Nothing in front of the key has that key, for the keys ascend.
  rw [get?, split, findEntry_append, findEntry_front ordered, precedes_irrefl]
  simp [findEntry]

theorem get?_insertAll_empty {updates : List (Bytes × Bytes)} {key value : Bytes} :
    (empty.insertAll updates).get? key = some value ↔ LastUpdate updates key value := by
  induction updates using List.reverseRecOn with
  | nil => exact iff_of_false nofun (not_lastUpdate_nil key value)
  | append_singleton updates u ih =>
    rw [insertAll_append_singleton, get?_insert, lastUpdate_append_singleton]
    split
    · exact Option.some_inj
    · exact ih

/-- Once updates have gone into an empty buffer, it holds the last one to each key. -/
theorem mem_insertAll_empty {updates : List (Bytes × Bytes)} {key value : Bytes} :
    (key, value) ∈ (empty.insertAll updates).entries ↔ LastUpdate updates key value :=
  mem_entries_iff.trans get?_insertAll_empty

end Contents

/-! ## Updates of a script -/

namespace Script

variable {α : Type}

/-- The updates that a script makes to contents, in order. -/
def updates : Script α → Contents → List (Bytes × Bytes)
  | done _, _ => []
  | fail _, _ => []
  | read key next, c => (next (c.get? key)).updates c
  | write key value next, c => (key, value) :: next.updates (c.insert key value)

/-- Straight on a reliable store, each update reaches it at once. -/
theorem runOn_eq_updates {b : Backend} (h : b.Reliable) (script : Script α) :
    script.runOn b = ((script.runPlain b.contents).1, b.received (script.updates b.contents)) := by
  induction script generalizing b with
  | done | fail => simp [runOn, runPlain, updates, Backend.received]
  | read key next ih =>
    rw [runOn, Backend.get_of_reliable h]
    exact ih _ h
  | write key value next ih =>
    rw [runOn, Backend.set_of_settable h.settable]
    have rest := ih (b := b.received [(key, value)]) (h.of_faults rfl)
    dsimp only
    rw [rest]
    simp [runPlain, updates, Backend.received]

/-- On a buffer in front of a reliable store, each update goes into the buffer. -/
theorem runBuffered_eq_updates {b : Backend} (h : b.Reliable) (script : Script α)
    (buffer : Contents) :
    (script.runBuffered b buffer).2 =
      buffer.insertAll (script.updates (buffer.addAll b.contents)) := by
  induction script generalizing buffer with
  | done | fail => rfl
  | read key next ih =>
    rw [runBuffered, getThrough_of_reliable h]
    exact ih _ _
  | write key value next ih =>
    rw [runBuffered, ih, Contents.insert_addAll]
    rfl

/-- Through a buffer, a reliable store gets the last update to each key, if the updates are kept. -/
theorem commitOn_eq_updates {b : Backend} (h : b.Reliable) (script : Script α)
    (kept : keepsUpdates (script.runPlain b.contents).1 = true) :
    script.commitOn b = ((script.runPlain b.contents).1,
      b.received (Contents.empty.insertAll (script.updates b.contents)).entries) := by
  obtain ⟨answer, -⟩ := runBuffered_eq_runPlain h script .empty
  have buffer := runBuffered_eq_updates h script .empty
  rw [Contents.empty_addAll] at answer buffer
  simp [commitOn, answer, buffer, kept, Backend.absorb_of_settable h.settable]

/-- A script that goes on after another makes the updates of both, one where the other stopped. -/
theorem updates_bind {β : Type} (script : Script α) (next : α → Script β) (c : Contents) :
    (script >>= next).updates c = script.updates c ++
      match script.runPlain c with
      | (.ok answer, c) => (next answer).updates c
      | (.error _, _) => [] := by
  induction script generalizing c with
  | done | fail => rfl
  | read key rest ih => exact ih _ _
  | write key value rest ih => exact congrArg (List.cons _) (ih _)

theorem updates_of_looks {script : Script α} (h : script.Looks) (c : Contents) :
    script.updates c = [] := by
  induction h with
  | done | fail => rfl
  | read rest ih => exact ih _
  | write allowed rest ih => exact allowed.elim

/-- A script that makes no update leaves a reliable store as it is, log included. -/
theorem runOn_of_looks {b : Backend} (h : b.Reliable) {script : Script α} (looks : script.Looks) :
    script.runOn b = ((script.runPlain b.contents).1, b) := by
  rw [runOn_eq_updates h, updates_of_looks looks]
  simp [Backend.received]

theorem runOn_of_runPlain {b : Backend} (h : b.Reliable) {script : Script α} (looks : script.Looks)
    {answer : Except Failure α} {c : Contents} (run : script.runPlain b.contents = (answer, c)) :
    script.runOn b = (answer, b) := by
  rw [runOn_of_looks h looks, run]

/-- So does a script that happens to make no update, through a buffer. -/
theorem commitOn_of_idle {b : Backend} (h : b.Reliable) {script : Script α} {a : α} {c : Contents}
    (run : script.runPlain b.contents = (.ok a, c)) (idle : script.updates b.contents = []) :
    script.commitOn b = (.ok a, b) := by
  rw [commitOn_eq_updates h _ (by rw [run]; rfl), run, idle]
  simp [Contents.insertAll, Contents.empty, Backend.received]

end Script

/-! ## Messages -/

namespace Ledger

/-- On a reliable store, a message that passes its check is answered as if its script were used
straight on the store. If it is accepted, or refused for want of capacity, it leaves the same
contents too. Then the store gets each key that the script updates once, in ascending order, with
the value that the script writes to it last. -/
theorem deliver_eq_direct (l : Ledger) {b : Backend} (reliable : b.Reliable) {m : Message}
    (check : m.check = .ok ()) (now : Seconds) :
    let delivered := l.deliver b m now
    let direct := (m.script l now).runOn b
    delivered.1 = direct.1 ∧
    ((∃ o, delivered.1 = .ok o) ∨
        (∃ account cost available, delivered.1 = .error (.capacityShort account cost available)) →
      delivered.2.contents = direct.2.contents ∧
      ∃ updates sent : List (Bytes × Bytes),
        direct.2.log = b.log ++ updates.map (fun u => .wrote u.1 u.2) ∧
        delivered.2.log = b.log ++ sent.map (fun u => .wrote u.1 u.2) ∧
        sent.Pairwise (fun u w => precedes u.1 w.1 = true) ∧
        (∀ key, key ∈ sent.map Prod.fst ↔ key ∈ updates.map Prod.fst) ∧
        ∀ key value, (key, value) ∈ sent ↔ LastUpdate updates key value) := by
  intro delivered direct
  have hdelivered : delivered = (m.script l now).commitOn b := by
    simp only [delivered, deliver, check]
  have hdirect : direct = _ := Script.runOn_eq_updates reliable (m.script l now)
  obtain ⟨answer, -, contents⟩ := Script.commitOn_eq_runPlain reliable (m.script l now)
  rw [← hdelivered] at answer contents
  refine ⟨by rw [answer, hdirect], fun accepted => ?_⟩
  have kept : keepsUpdates ((m.script l now).runPlain b.contents).1 = true := by
    rw [← answer]
    rcases accepted with ⟨o, ok⟩ | ⟨account, cost, available, short⟩
    · rw [ok]
      rfl
    · rw [short]
      rfl
  have hsent := Script.commitOn_eq_updates reliable _ kept
  rw [← hdelivered] at hsent
  set updates := (m.script l now).updates b.contents
  refine ⟨?_, updates, (Contents.empty.insertAll updates).entries, ?_, ?_, Contents.ordered _,
    fun key => ?_, fun key value => Contents.mem_insertAll_empty⟩
  · obtain ⟨log, plain⟩ := Script.runOn_eq_runPlain reliable (m.script l now)
    rw [contents, if_pos kept]
    exact (congrArg (fun r => r.2.contents) plain).symm
  · rw [hdirect, Backend.received]
  · rw [hsent, Backend.received]
  · simp [← exists_lastUpdate updates, ← Contents.mem_insertAll_empty]

/-- An account pays 2 to its own address. Its bank and its queue are written twice, but each reaches
the store once. -/
theorem deliver_eq_direct_self :
    let l : Ledger := ⟨.standard, by decide⟩
    let alice : Username := ⟨"alice", by decide⟩
    let x : Address := ⟨"x", by decide⟩
    let registered := Contents.empty.insert (Table.registrations.key alice)
      (Table.registrations.codec.write ⟨alice, .zero, x, ""⟩)
    let b : Backend := ⟨((l.deposit x ⟨5, by decide⟩ .zero).runPlain registered).2, [], []⟩
    let m : Message := .transfer alice ⟨none, some x⟩ ⟨2, by decide⟩ ""
    let delivered := l.deliver b m ⟨10, by decide, by decide⟩
    let direct := (m.script l ⟨10, by decide, by decide⟩).runOn b
    b.Reliable ∧ m.check = .ok () ∧ delivered.1 = .ok .done ∧ delivered.1 = direct.1 ∧
      direct.2.log.length = 4 ∧ delivered.2.log.length = 2 ∧
      delivered.2.contents = direct.2.contents := by
  intro l alice x registered b m delivered direct
  have reliable : b.Reliable := fun _ => rfl
  have check : m.check = .ok () := rfl
  have same := deliver_eq_direct l reliable check ⟨10, by decide, by decide⟩
  have accepted : delivered.1 = .ok .done := by decide +kernel
  have four : direct.2.log.length = 4 := by decide +kernel
  have two : delivered.2.log.length = 2 := by decide +kernel
  extract_lets at same
  clear_value delivered direct -- the message is not to be delivered again
  obtain ⟨answer, accept⟩ := same
  exact ⟨reliable, check, accepted, answer, four, two, (accept (.inl ⟨_, accepted⟩)).1⟩

end Ledger

end StakeLedger

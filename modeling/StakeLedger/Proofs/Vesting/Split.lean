import StakeLedger.Proofs.Vesting.History
import StakeLedger.Proofs.Vesting.Strict

/-!
# Split deposits

Coin that comes in at once can also come in as two deposits, one right after the other. The queue
then has one entry more, and every later withdrawal and every maturity goes through other entries.
None of this can be seen from outside. What counts of the entries is the row of their units, each
with the time at which it came in: the operations act on rows, and all figures of a sound holding
can be read off its balance and its row.

## Main definitions

* `rowOf`, `Holding.row` — the units of lots, and those pending at a holding.
* `Holding.Indistinct` — sound holdings that differ at most in how their row is cut into deposits.
* `Vesting.Reached` — the holdings that uses of a fresh one lead to.
* `Vesting.Probe`, `Vesting.probe`, `Vesting.trace` — what can be tried on a holding, and all that
  is seen of it.

## Main statements

* `Holding.Indistinct.perform`, `Holding.Indistinct.stakeAt_eq` — a use and a question for the stake
  do not tell such holdings apart.
* `Vesting.trace_add_split` — nor does anything tell a deposit from its two parts.
-/

namespace StakeLedger

open Vesting

/-! ## Rows of units -/

/-- The units of lots, oldest first, each as the time at which it came in. -/
def rowOf (lots : List Lot) : List Int := lots.flatMap fun lot => List.replicate lot.coin lot.start

theorem rowOf_append (l m : List Lot) : rowOf (l ++ m) = rowOf l ++ rowOf m :=
  List.flatMap_append

theorem rowOf_cons (lot : Lot) (l : List Lot) :
    rowOf (lot :: l) = List.replicate lot.coin lot.start ++ rowOf l :=
  List.flatMap_cons

theorem rowOf_reverse (l : List Lot) : rowOf l.reverse = (rowOf l).reverse := by
  induction l with
  | nil => rfl
  | cons lot l ih =>
    rw [List.reverse_cons, rowOf_append, ih, rowOf_cons, rowOf_cons, List.reverse_append,
      List.reverse_replicate]
    simp [rowOf]

theorem length_rowOf (l : List Lot) : (rowOf l).length = lotCoin l := by
  simp [rowOf, lotCoin, List.length_flatMap]

/-- To take an amount from lots listed newest first is to drop as many units. -/
theorem rowOf_takeBack (amount : Nat) (l : List Lot) :
    rowOf (takeBack amount l) = (rowOf l).drop amount := by
  fun_induction takeBack amount l with
  | case1 => simp [rowOf]
  | case2 amount lot older covers ih =>
    have first : (List.replicate lot.coin lot.start).drop amount = [] :=
      List.drop_eq_nil_of_le (by simpa using covers)
    rw [ih, rowOf_cons, List.drop_append, first, List.nil_append, List.length_replicate]
  | case3 amount lot older covers =>
    rw [rowOf_cons, rowOf_cons, List.drop_append_of_le_length (by simp; omega), List.drop_replicate]

/-- The units that are pending at a holding. -/
def Holding.row (h : Holding) : List Int := rowOf (h.queue.deposits.map Deposit.lot)

/-- Every unit came in with one of the deposits. -/
theorem exists_of_mem_rowOf {l : List Deposit} {start : Int}
    (h : start ∈ rowOf (l.map Deposit.lot)) : ∃ d ∈ l, d.start.count = start := by
  simp only [rowOf, List.mem_flatMap, List.mem_map, List.mem_replicate] at h
  obtain ⟨lot, ⟨d, hd, rfl⟩, -, rfl⟩ := h
  exact ⟨d, hd, rfl⟩

/-- The coin-seconds of deposits are those of their units. -/
theorem coinSecondsOf_eq_sum (now : Seconds) (l : List Deposit) :
    coinSecondsOf now l =
      ((rowOf (l.map Deposit.lot)).map
        fun start => ((now.count - start).bmod 0x10000000000000000).toNat).sum := by
  induction l with
  | nil => rfl
  | cons d l ih =>
    rw [coinSecondsOf, ih, List.map_cons, rowOf_cons, List.map_append, List.sum_append,
      List.map_replicate, List.sum_replicate_nat]
    rfl

/-! ## What the operations do to rows -/

/-- Whether a unit that came in at `start` has not matured by `now`. -/
def pendingAt (window now : Seconds) (start : Int) : Bool := now.count < start + window.count

namespace Holding

variable {window now : Seconds} {h h' : Holding} {amount : Coin}

theorem Sound.length_row (sound : h.Sound window) : h.row.length = h.queue.total.units := by
  rw [row, length_rowOf, lotCoin_map_lot, sound.total_eq]

/-- The units that have matured leave the row. -/
theorem Advanced.row_eq (sound : h.Sound window) (step : h.Advanced window now h') :
    h'.row = h.row.filter (pendingAt window now) := by
  obtain ⟨ripe, deposits, -, finish⟩ := step.matured
  have gone : (rowOf (ripe.map Deposit.lot)).filter (pendingAt window now) = [] := by
    refine List.filter_eq_nil_iff.2 fun start hstart => ?_
    obtain ⟨d, hd, rfl⟩ := exists_of_mem_rowOf hstart
    have finish := finish d hd
    have finish_eq := (sound.running d (by simp [deposits, hd])).finish_eq
    simp only [pendingAt, decide_eq_true_eq]
    omega
  have stay : h'.row.filter (pendingAt window now) = h'.row := by
    refine List.filter_eq_self.2 fun start hstart => ?_
    obtain ⟨d, hd, rfl⟩ := exists_of_mem_rowOf hstart
    have unripe := (step.sound.running d hd).unripe
    have finish_eq := (step.sound.running d hd).finish_eq
    rw [step.lastUpdate_eq] at unripe
    simp only [pendingAt, decide_eq_true_eq]
    omega
  rw [row] at stay
  rw [row, row, deposits, List.map_append, rowOf_append, List.filter_append, gone, stay,
    List.nil_append]

/-- The units that come in stand at the end of the row. -/
theorem Credited.row_eq (sound : h.Sound window) (step : h.Credited window amount now h') :
    h'.row = h.row.filter (pendingAt window now) ++ List.replicate amount.units now.count := by
  obtain ⟨current, finish, advanced, -, deposits⟩ := step.deposited
  rw [← advanced.row_eq sound, row, deposits, List.map_append, rowOf_append, List.map_singleton,
    rowOf_cons]
  simp [row, rowOf, Deposit.lot]

/-- The units that go out are the last ones of the row. -/
theorem Debited.row_eq (sound : h.Sound window) (step : h.Debited window amount now h') :
    h'.row = ((h.row.filter (pendingAt window now)).reverse.drop amount.units).reverse := by
  obtain ⟨current, t, advanced, rfl, deposits, -⟩ := step.taken
  have running : ∀ d ∈ current.queue.deposits.reverse, d.Running window now := by
    rw [← advanced.lastUpdate_eq]
    exact fun d hd => advanced.sound.running d (List.mem_reverse.1 hd)
  have left := (takeFrom_lots amount current.queue.total current.queue.progress running).1
  rw [← advanced.row_eq sound, row, deposits, List.map_reverse, rowOf_reverse, left, rowOf_takeBack,
    List.map_reverse, rowOf_reverse, row]

end Holding

/-! ## Holdings that cannot be told apart -/

/-- Sound holdings of the same coin that differ at most in how their row is cut into deposits. -/
structure Holding.Indistinct (window : Seconds) (h k : Holding) : Prop where
  left : h.Sound window
  right : k.Sound window
  address_eq : h.bank.address = k.bank.address
  owner_eq : h.bank.owner = k.bank.owner
  balance_eq : h.bank.balance = k.bank.balance
  lastUpdate_eq : h.queue.lastUpdate = k.queue.lastUpdate
  row_eq : h.row = k.row

/-- The numbers of a holding. -/
structure Figures where
  balance : Coin
  stake : Coin
  total : Coin
  progress : Word128
  lastUpdate : Seconds
  deriving DecidableEq

def Holding.figures (h : Holding) : Figures :=
  ⟨h.bank.balance, h.bank.stake, h.queue.total, h.queue.progress, h.queue.lastUpdate⟩

namespace Holding.Indistinct

variable {window now : Seconds} {h h' k k' : Holding} {amount : Coin}

theorem total_eq (i : h.Indistinct window k) : h.queue.total = k.queue.total :=
  Coin.ext (by rw [← i.left.length_row, ← i.right.length_row, i.row_eq])

theorem progress_eq (i : h.Indistinct window k) : h.queue.progress = k.queue.progress := by
  have rows := i.row_eq
  rw [row, row] at rows
  refine Word.ext ?_
  rw [i.left.progress_eq, i.right.progress_eq, coinSecondsOf_eq_sum, coinSecondsOf_eq_sum,
    i.lastUpdate_eq, rows]

theorem stake_eq (i : h.Indistinct window k) : h.bank.stake = k.bank.stake := by
  have left := i.left.balance_eq
  have right := i.right.balance_eq
  rw [i.balance_eq, i.total_eq] at left
  exact Coin.ext (by omega)

theorem figures_eq (i : h.Indistinct window k) : h.figures = k.figures := by
  simp only [figures, i.balance_eq, i.stake_eq, i.total_eq, i.progress_eq, i.lastUpdate_eq]

theorem early?_eq (i : h.Indistinct window k) (now : Seconds) : h.early? now = k.early? now := by
  simp only [early?, i.lastUpdate_eq, i.address_eq]

theorem advanced (i : h.Indistinct window k) (left : h.Advanced window now h')
    (right : k.Advanced window now k') : h'.Indistinct window k' where
  left := left.sound
  right := right.sound
  address_eq := by rw [left.address_eq, right.address_eq, i.address_eq]
  owner_eq := by rw [left.owner_eq, right.owner_eq, i.owner_eq]
  balance_eq := by rw [left.balance_eq, right.balance_eq, i.balance_eq]
  lastUpdate_eq := by rw [left.lastUpdate_eq, right.lastUpdate_eq]
  row_eq := by rw [left.row_eq i.left, right.row_eq i.right, i.row_eq]

theorem credited (i : h.Indistinct window k) (left : h.Credited window amount now h')
    (right : k.Credited window amount now k') : h'.Indistinct window k' where
  left := left.sound
  right := right.sound
  address_eq := by rw [left.address_eq, right.address_eq, i.address_eq]
  owner_eq := by rw [left.owner_eq, right.owner_eq, i.owner_eq]
  balance_eq := Coin.ext (by rw [left.balance_eq, right.balance_eq, i.balance_eq])
  lastUpdate_eq := by rw [left.lastUpdate_eq, right.lastUpdate_eq]
  row_eq := by rw [left.row_eq i.left, right.row_eq i.right, i.row_eq]

theorem debited (i : h.Indistinct window k) (left : h.Debited window amount now h')
    (right : k.Debited window amount now k') : h'.Indistinct window k' where
  left := left.sound
  right := right.sound
  address_eq := by rw [left.address_eq, right.address_eq, i.address_eq]
  owner_eq := by rw [left.owner_eq, right.owner_eq, i.owner_eq]
  balance_eq := by
    have before := left.balance_eq
    have beside := right.balance_eq
    rw [i.balance_eq] at before
    exact Coin.ext (by omega)
  lastUpdate_eq := by rw [left.lastUpdate_eq, right.lastUpdate_eq]
  row_eq := by rw [left.row_eq i.left, right.row_eq i.right, i.row_eq]

/-- A use is refused at both holdings for the same reason or at none, and they still cannot be told
apart. -/
theorem perform {v : Vesting} (i : h.Indistinct v.window k) (pos : 0 < v.window.count) (use : Use) :
    (v.perform h use).after.Indistinct v.window (v.perform k use).after ∧
      (v.perform h use).failure = (v.perform k use).failure := by
  have balance := congrArg Coin.units i.balance_eq
  have last := congrArg Seconds.count i.lastUpdate_eq
  refine ⟨?_, ?_⟩
  · cases use with
    | add amount now =>
      have left := i.left.add_cases pos amount now
      have right := i.right.add_cases pos amount now
      simp only [Vesting.perform]
      generalize v.add h amount now = attempt at left
      generalize v.add k amount now = attempt' at right
      cases left with
      | nothing | early => cases right <;> first | exact i | omega
      | tooLarge some inTime large there =>
        cases right with
        | tooLarge _ _ _ here => exact i.advanced there here
        | nothing | early | credited => omega
      | credited some inTime fits room there =>
        cases right with
        | credited _ _ _ _ here => exact i.credited there here
        | nothing | early | tooLarge => omega
    | withdraw amount now =>
      have left := i.left.withdraw_cases amount now
      have right := i.right.withdraw_cases amount now
      simp only [Vesting.perform]
      generalize withdraw h amount now = attempt at left
      generalize withdraw k amount now = attempt' at right
      cases left with
      | nothing | early => cases right <;> first | exact i | omega
      | short some inTime short there =>
        cases right with
        | short _ _ _ here => exact i.advanced there here
        | nothing | early | debited => omega
      | debited some inTime enough there =>
        cases right with
        | debited _ _ _ here => exact i.debited there here
        | nothing | early | short => omega
    | advance now =>
      simp only [Vesting.perform]
      by_cases early : now.count < h.queue.lastUpdate.count
      · rw [Sound.advance_of_early early, Sound.advance_of_early (by omega)]
        exact i
      · have inTime : h.queue.lastUpdate.count ≤ now.count := by omega
        obtain ⟨h', hleft, there⟩ := i.left.advance_eq_ok inTime
        obtain ⟨k', hright, here⟩ := i.right.advance_eq_ok (last ▸ inTime)
        rw [hleft, hright]
        exact i.advanced there here
  · -- A refusal depends on the address, the balance and the last update alone.
    rw [(i.left.perform_sound pos use).2, (i.right.perform_sound pos use).2]
    cases use <;> simp only [Use.refusal?, i.early?_eq, i.balance_eq, i.address_eq]

theorem stakeAt_eq {v : Vesting} (i : h.Indistinct v.window k) (pos : 0 < v.window.count)
    (now : Seconds) :
    v.stakeAt h.bank h.queue now = v.stakeAt k.bank k.queue now := by
  have last := congrArg Seconds.count i.lastUpdate_eq
  by_cases early : now.count < h.queue.lastUpdate.count
  · rw [Sound.stakeAt_of_early early, Sound.stakeAt_of_early (by omega), i.address_eq,
      i.lastUpdate_eq]
  · have inTime : h.queue.lastUpdate.count ≤ now.count := by omega
    obtain ⟨h', stake, there, hleft, units⟩ := i.left.stakeAt_eq_ok pos inTime
    obtain ⟨k', stake', here, hright, units'⟩ := i.right.stakeAt_eq_ok pos (last ▸ inTime)
    have after := i.advanced there here
    have same : stake = stake' :=
      Coin.ext (by rw [units, units', after.stake_eq, after.progress_eq])
    rw [hleft, hright, same]

end Holding.Indistinct

/-! ## What can be seen of a holding -/

namespace Vesting

/-- The holdings that operations lead to, whether they succeed or not, from ones that nothing has
come in at. Besides, an account can become the owner of a bank. -/
inductive Reached (v : Vesting) : Holding → Prop
  | fresh (address : Address) (opened : Seconds) : Reached v ⟨.empty address, .empty opened⟩
  | used {h : Holding} (reached : Reached v h) (use : Use) : Reached v (v.perform h use).after
  | owned {h : Holding} (reached : Reached v h) (owner : Option Username) :
    Reached v ⟨{ h.bank with owner }, h.queue⟩

theorem Reached.sound {v : Vesting} (pos : 0 < v.window.count) {h : Holding}
    (reached : v.Reached h) : h.Sound v.window := by
  induction reached with
  | fresh address opened => exact Holding.sound_fresh v.window address opened
  | used reached use ih => exact (ih.perform_sound pos use).1
  | owned reached owner ih =>
    exact ⟨ih.ordered, ih.running, ih.total_eq, ih.progress_eq, ih.balance_eq⟩

/-- What can be tried on a holding: a use, or a question for the stake at a time. -/
inductive Probe where
  | use (use : Use)
  | stake (now : Seconds)

/-- What is seen of a probe: the stake that was asked for, or the failure, and then the figures. -/
structure Sight where
  answer : Except Failure (Option Coin)
  figures : Figures

/-- The answer to a probe, and the holding after it. -/
def probe (v : Vesting) (h : Holding) : Probe → Except Failure (Option Coin) × Holding
  | .use use => ((v.perform h use).result.map fun _ => none, (v.perform h use).after)
  | .stake now => ((v.stakeAt h.bank h.queue now).map some, h)

/-- All that is seen of probes one after another. -/
def trace (v : Vesting) (h : Holding) : List Probe → List Sight
  | [] => []
  | probe :: rest =>
    let (answer, after) := v.probe h probe
    ⟨answer, after.figures⟩ :: v.trace after rest

end Vesting

namespace Holding.Indistinct

variable {v : Vesting} {h k : Holding}

theorem probe (i : h.Indistinct v.window k) (pos : 0 < v.window.count) (probe : Probe) :
    (v.probe h probe).1 = (v.probe k probe).1 ∧
      (v.probe h probe).2.Indistinct v.window (v.probe k probe).2 := by
  cases probe with
  | use use =>
    obtain ⟨after, failure⟩ := i.perform pos use
    refine ⟨?_, after⟩
    simp only [Vesting.probe, Attempt.result, failure]
    cases (v.perform k use).failure <;> rfl
  | stake now => exact ⟨congrArg (Except.map some) (i.stakeAt_eq pos now), i⟩

theorem trace_eq (i : h.Indistinct v.window k) (pos : 0 < v.window.count) (probes : List Probe) :
    v.trace h probes = v.trace k probes := by
  induction probes generalizing h k with
  | nil => rfl
  | cons probe rest ih =>
    obtain ⟨answer, after⟩ := i.probe pos probe
    simp only [Vesting.trace, answer, after.figures_eq, ih after]

/-- An amount that came in in two parts, one right after the other, cannot be told from one that
came in at once. -/
theorem of_parts {window now : Seconds} {first second whole : Holding} {a b sum : Coin}
    (pos : 0 < window.count) (sound : h.Sound window) (add : sum.units = a.units + b.units)
    (one : h.Credited window a now first) (two : first.Credited window b now second)
    (both : h.Credited window sum now whole) : second.Indistinct window whole where
  left := two.sound
  right := both.sound
  address_eq := by rw [two.address_eq, one.address_eq, both.address_eq]
  owner_eq := by rw [two.owner_eq, one.owner_eq, both.owner_eq]
  balance_eq := Coin.ext (by rw [two.balance_eq, one.balance_eq, both.balance_eq]; omega)
  lastUpdate_eq := by rw [two.lastUpdate_eq, both.lastUpdate_eq]
  row_eq := by
    -- No time passes between the two parts, so nothing leaves the row there.
    have fresh : pendingAt window now now.count = true := by
      simp only [pendingAt, decide_eq_true_eq]
      omega
    rw [two.row_eq one.sound, one.row_eq sound, both.row_eq sound, add,
      ← List.replicate_append_replicate, List.filter_append, List.filter_filter,
      List.filter_replicate, fresh]
    simp only [Bool.and_self, if_true, List.append_assoc]

end Holding.Indistinct

namespace Holding.Sound

variable {v : Vesting} {h : Holding} {amount : Coin} {now : Seconds} (sound : h.Sound v.window)
include sound

/-- What it takes for a deposit to be accepted. -/
theorem accepted_iff (pos : 0 < v.window.count) :
    (v.add h amount now).failure = none ↔
      0 < amount.units ∧ h.queue.lastUpdate.count ≤ now.count ∧
        h.bank.balance.units + amount.units < 0x10000000000000000 ∧
        now.count + v.window.count < 0x8000000000000000 := by
  have outcome := sound.add_cases pos amount now
  generalize v.add h amount now = attempt at outcome
  cases outcome with
  | nothing zero => simp [zero]
  | early some early => simp only [reduceCtorEq, false_iff]; omega
  | tooLarge some inTime large advanced => simp only [reduceCtorEq, false_iff]; omega
  | credited some inTime fits room credited => exact iff_of_true rfl ⟨some, inTime, fits, room⟩

theorem credited_of_accepted (pos : 0 < v.window.count)
    (accepted : (v.add h amount now).failure = none) :
    h.Credited v.window amount now (v.add h amount now).after := by
  have outcome := sound.add_cases pos amount now
  generalize v.add h amount now = attempt at outcome accepted
  cases outcome with
  | nothing | early | tooLarge => cases accepted
  | credited some inTime fits room credited => exact credited

end Holding.Sound

/-- Splitting a deposit cannot be seen. Where a holding that uses of a fresh one led to accepts an
amount, it accepts the two parts one right after the other as well. Then all its figures are the
same, and so is all that is ever seen of it, whatever is tried and at whatever times. -/
theorem Vesting.trace_add_split (v : Vesting) (pos : 0 < v.window.count) {h : Holding}
    (reached : v.Reached h) {a b sum : Coin} (ha : 0 < a.units) (hb : 0 < b.units)
    (hsum : a.plus? b = some sum) {now : Seconds}
    (accepted : (v.add h sum now).failure = none) :
    let first := v.add h a now
    let second := v.add first.after b now
    let whole := v.add h sum now
    first.failure = none ∧ second.failure = none ∧
      second.after.figures = whole.after.figures ∧
      ∀ probes, v.trace second.after probes = v.trace whole.after probes := by
  intro first second whole
  have sound := reached.sound pos
  have add := Coin.plus?_eq_some_iff.1 hsum
  have both := sound.credited_of_accepted pos accepted
  obtain ⟨-, inTime, fits, room⟩ := (sound.accepted_iff pos).1 accepted
  have hfirst : first.failure = none :=
    (sound.accepted_iff pos).2 ⟨ha, inTime, by omega, room⟩
  have one : h.Credited v.window a now first.after := sound.credited_of_accepted pos hfirst
  have balance := one.balance_eq
  have hsecond : second.failure = none :=
    (one.sound.accepted_iff pos).2 ⟨hb, by rw [one.lastUpdate_eq], by omega, room⟩
  have two : first.after.Credited v.window b now second.after :=
    one.sound.credited_of_accepted pos hsecond
  have same := Holding.Indistinct.of_parts pos sound add one two both
  exact ⟨hfirst, hsecond, same.figures_eq, same.trace_eq pos⟩

/-- Over a window of one week, 5 come in and ten seconds later 3 and 4, or 7 at once. The queues are
of different lengths, and when 5 go out after that, one of them loses an entry and the other does
not. At the end of the window the 5 are stake, and so is one of the 2 that are left of the rest. -/
theorem Vesting.trace_add_split_week :
    let v : Vesting := ⟨⟨604800, by decide, by decide⟩⟩
    let start : Holding := ⟨.empty ⟨"x", by decide⟩, .empty .zero⟩
    let h := (v.perform start (.add ⟨5, by decide⟩ .zero)).after
    let second : Seconds := ⟨10, by decide, by decide⟩
    let parts := v.add (v.add h ⟨3, by decide⟩ second).after ⟨4, by decide⟩ second
    let whole := v.add h ⟨7, by decide⟩ second
    let probes : List Probe := [.use (.withdraw ⟨5, by decide⟩ ⟨20, by decide, by decide⟩),
      .stake ⟨604800, by decide, by decide⟩]
    0 < v.window.count ∧ whole.failure = none ∧ parts.after.queue ≠ whole.after.queue ∧
      parts.after.figures = whole.after.figures ∧
      v.trace parts.after probes = v.trace whole.after probes ∧
      (v.trace whole.after probes).map (·.answer) = [.ok none, .ok (some ⟨6, by decide⟩)] := by
  intro v start h second parts whole probes
  have pos : 0 < v.window.count := by decide
  have accepted : whole.failure = none := by decide
  have reached : v.Reached h := .used (.fresh _ _) _
  obtain ⟨-, -, figures, trace⟩ := Vesting.trace_add_split v pos reached (a := ⟨3, by decide⟩)
    (b := ⟨4, by decide⟩) (by decide) (by decide) (by decide) accepted
  exact ⟨pos, accepted, by decide, figures, trace probes, by decide⟩

end StakeLedger

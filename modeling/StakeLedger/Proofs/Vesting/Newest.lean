import Mathlib.Algebra.Order.BigOperators.Group.List
import StakeLedger.Proofs.Vesting.Advance
import StakeLedger.Proofs.Vesting.Moved

/-!
# Newest first

A withdrawal takes the newest coin, and the stake only if there is no other coin. This is the best
that can be done: in whatever other way the same amount is taken out of the stake and the deposits,
the stake is never higher afterwards, however much time passes.

A unit of coin counts for the seconds that it has been held, up to the window, so the older of two
units never counts for less. In a row of units, oldest first, a withdrawal keeps the first ones, any
other way to take coin keeps some of them, and of all rows of one length the first units count for
most.

## Main definitions

* `Selection` — coin taken out of a holding in some way.
* `Holding.without` — the holding that is left.

## Main statements

* `List.Sublist.sum_le_sum_take` — of a list in falling order the first members add up to the most.
* `History.vested_le_withdrawn`, `History.vested_withdrawn_ge` — what a withdrawal leaves.
* `Holding.Sound.without_sound`, `Holding.Sound.without_row` — what a selection leaves.
* `Vesting.takeFrom_shape` — which deposits stay.
* `Vesting.withdraw_keeps_most` — no other way to take coin leaves more stake.
-/

/-- Of a list in falling order, as many of the first members as any members add up to as much at
least. -/
theorem List.Sublist.sum_le_sum_take {l m : List Nat} (h : m.Sublist l)
    (falling : l.Pairwise (· ≥ ·)) : m.sum ≤ (l.take m.length).sum := by
  induction h with
  | slnil => rfl
  | @cons m l a h ih =>
    rw [pairwise_cons] at falling
    have rest := ih falling.2
    cases m with
    | nil => simp
    | cons b m =>
      -- The first member stands in for the last of those that were counted.
      rw [length_cons, take_add_one, sum_append] at rest
      have last : (l[m.length]?.toList).sum ≤ a := by
        cases found : l[m.length]? with
        | none => simp
        | some c => simpa using falling.1 c (mem_of_getElem? found)
      rw [length_cons, take_succ_cons, sum_cons (a := a)]
      omega
  | cons_cons a h ih =>
    rw [pairwise_cons] at falling
    have rest := ih falling.2
    simp only [length_cons, take_succ_cons, sum_cons]
    omega

namespace StakeLedger

open Vesting

/-! ## Rows and their coin-seconds -/

namespace History

variable {window t : Int} {lots others : List Lot} {amount : Nat}

/-- The coin-seconds of lots are those of their units. -/
theorem vested_eq_sum (window t : Int) (lots : List Lot) :
    vested window t lots =
      ((rowOf lots).map fun start => (min window (t - start)).toNat).sum := by
  induction lots with
  | nil => rfl
  | cons lot lots ih =>
    rw [rowOf_cons, List.map_append, List.sum_append, ← ih, List.map_replicate,
      List.sum_replicate_nat]
    rfl

/-- A withdrawal keeps the first units of a row. -/
theorem rowOf_withdrawn (amount : Nat) (lots : List Lot) :
    rowOf (takeBack amount lots.reverse).reverse = (rowOf lots).take (lotCoin lots - amount) := by
  rw [rowOf_reverse, rowOf_takeBack, rowOf_reverse, List.drop_reverse, List.reverse_reverse,
    length_rowOf]

/-- No other units of the same number count for more than those that a withdrawal keeps. -/
theorem vested_le_withdrawn (ordered : (rowOf lots).Pairwise (· ≤ ·))
    (kept : (rowOf others).Sublist (rowOf lots)) (coin : lotCoin others + amount = lotCoin lots) :
    vested window t others ≤ vested window t (takeBack amount lots.reverse).reverse := by
  have falling : ((rowOf lots).map fun start => (min window (t - start)).toNat).Pairwise
      (· ≥ ·) := by
    refine List.pairwise_map.2 (ordered.imp fun {older newer} h => ?_)
    omega
  have most := (kept.map fun start => (min window (t - start)).toNat).sum_le_sum_take falling
  rw [List.length_map, length_rowOf, ← List.map_take] at most
  rw [vested_eq_sum, vested_eq_sum, rowOf_withdrawn, show lotCoin lots - amount = lotCoin others by
    omega]
  exact most

/-- The units that go out count for a window each at most. -/
theorem vested_withdrawn_ge (enough : amount ≤ lotCoin lots) :
    vested window t lots ≤
      vested window t (takeBack amount lots.reverse).reverse + amount * window.toNat := by
  have gone : (((rowOf lots).drop (lotCoin lots - amount)).map
      fun start => (min window (t - start)).toNat).sum ≤ amount * window.toNat := by
    refine (List.sum_le_card_nsmul _ window.toNat fun n hn => ?_).trans_eq ?_
    · obtain ⟨start, -, rfl⟩ := List.mem_map.1 hn
      omega
    · rw [List.length_map, List.length_drop, length_rowOf, Nat.sub_sub_self enough, nsmul_eq_mul,
        Nat.cast_id]
  have split := congrArg (fun row => (row.map fun start => (min window (t - start)).toNat).sum)
    (List.take_append_drop (lotCoin lots - amount) (rowOf lots))
  simp only [List.map_append, List.sum_append] at split
  rw [vested_eq_sum, vested_eq_sum, rowOf_withdrawn]
  omega

end History

/-! ## Other ways to take coin -/

/-- Coin taken out of a holding: so much of its stake, and so much of each of its deposits, oldest
first. -/
structure Selection where
  fromStake : Coin
  fromDeposits : List Coin

/-- All the coin of a selection. -/
def Selection.amount (s : Selection) : Nat :=
  s.fromStake.units + (s.fromDeposits.map Coin.units).sum

/-- No more is selected than there is. -/
structure Selection.Fits (s : Selection) (h : Holding) : Prop where
  stake : s.fromStake.units ≤ h.bank.stake.units
  deposits : List.Forall₂ (fun (part : Coin) (d : Deposit) => part.units ≤ d.coin.units)
    s.fromDeposits h.queue.deposits

/-- Takes a part out of each deposit. One that is used up is gone. -/
def Vesting.takeParts : List Coin → List Deposit → List Deposit
  | part :: parts, d :: rest =>
    if d.coin.units ≤ part.units then takeParts parts rest
    else { d with coin := d.coin.monus part } :: takeParts parts rest
  | _, rest => rest

/-- The coin-seconds that go with the parts. -/
def Vesting.partSeconds (now : Seconds) : List Coin → List Deposit → Nat
  | part :: parts, d :: rest => coinSeconds part d.start now + partSeconds now parts rest
  | _, _ => 0

/-- What is left of a holding without the coin of a selection, at the time that it is counted to. -/
def Holding.without (h : Holding) (s : Selection) : Holding where
  bank := { h.bank with
    balance := s.fromDeposits.foldl Coin.monus (h.bank.balance.monus s.fromStake)
    stake := h.bank.stake.monus s.fromStake }
  queue := { h.queue with
    total := s.fromDeposits.foldl Coin.monus h.queue.total
    progress := h.queue.progress.less
      (partSeconds h.queue.lastUpdate s.fromDeposits h.queue.deposits)
    deposits := takeParts s.fromDeposits h.queue.deposits }

theorem Coin.units_foldl_monus (parts : List Coin) (c : Coin) :
    (parts.foldl Coin.monus c).units = c.units - (parts.map Coin.units).sum := by
  induction parts generalizing c with
  | nil => rfl
  | cons part parts ih =>
    simp only [List.foldl_cons, ih, Coin.units_monus, List.map_cons, List.sum_cons, Nat.sub_sub]

/-- What comes of taking parts out of running deposits. -/
structure Vesting.PartsTaken (window now : Seconds) (parts : List Coin) (l left : List Deposit) :
    Prop where
  coin_eq : coinOf left + (parts.map Coin.units).sum = coinOf l
  seconds_eq : coinSecondsOf now left + partSeconds now parts l = coinSecondsOf now l
  starts : (left.map (·.start.count)).Sublist (l.map (·.start.count))
  row : (rowOf (left.map Deposit.lot)).Sublist (rowOf (l.map Deposit.lot))
  running : ∀ d ∈ left, d.Running window now

theorem Vesting.takeParts_taken {window now : Seconds} {parts : List Coin} {l : List Deposit}
    (running : ∀ d ∈ l, d.Running window now)
    (fits : List.Forall₂ (fun (part : Coin) (d : Deposit) => part.units ≤ d.coin.units) parts l) :
    PartsTaken window now parts l (takeParts parts l) := by
  induction fits with
  | nil => exact ⟨rfl, rfl, .slnil, .slnil, by simp [takeParts]⟩
  | @cons part d parts rest fit fits ih =>
    rw [List.forall_mem_cons] at running
    have left := ih running.2
    have coin_eq := left.coin_eq
    have seconds_eq := left.seconds_eq
    rw [takeParts]
    split
    · rename_i all
      have same : part.units = d.coin.units := le_antisymm fit all
      constructor
      case coin_eq =>
        simp only [List.map_cons, List.sum_cons, coinOf]
        omega
      case seconds_eq =>
        simp only [partSeconds, coinSecondsOf, coinSeconds, same]
        omega
      case starts => exact left.starts.cons _
      case row =>
        rw [List.map_cons, rowOf_cons]
        exact left.row.trans (List.sublist_append_right _ _)
      case running => exact left.running
    · rename_i some
      have held : (d.coin.units - part.units) * now.since d.start + part.units * now.since d.start =
          d.coin.units * now.since d.start := by
        rw [← Nat.add_mul, Nat.sub_add_cancel fit]
      constructor
      case coin_eq =>
        simp only [List.map_cons, List.sum_cons, coinOf, Coin.units_monus]
        omega
      case seconds_eq =>
        simp only [partSeconds, coinSecondsOf, coinSeconds, Coin.units_monus]
        omega
      case starts => exact left.starts.cons_cons _
      case row =>
        rw [List.map_cons, List.map_cons, rowOf_cons, rowOf_cons]
        exact ((List.replicate_sublist_replicate _).2 (Nat.sub_le _ _)).append left.row
      case running =>
        have first := running.1
        rw [List.forall_mem_cons]
        exact ⟨⟨by rw [Coin.units_monus]; omega, first.finish_eq, first.begun, first.unripe⟩,
          left.running⟩

/-! ## Holdings that are up to date -/

/-- Units of deposits that stand in order stand in order. -/
theorem pairwise_rowOf {l : List Deposit}
    (ordered : (l.map (·.start.count)).Pairwise (· ≤ ·)) :
    (rowOf (l.map Deposit.lot)).Pairwise (· ≤ ·) := by
  induction l with
  | nil => exact .nil
  | cons d l ih =>
    rw [List.map_cons, List.pairwise_cons] at ordered
    rw [List.map_cons, rowOf_cons, List.pairwise_append]
    refine ⟨List.pairwise_replicate.2 (.inr le_rfl), ih ordered.2, fun older ho newer hn => ?_⟩
    obtain ⟨e, he, rfl⟩ := exists_of_mem_rowOf hn
    rw [List.eq_of_mem_replicate ho]
    exact ordered.1 _ (List.mem_map_of_mem he)

namespace Holding

variable {window now : Seconds} {h h' : Holding}

namespace Sound

variable (sound : h.Sound window)
include sound

/-- What is stake came in before all that is pending. -/
theorem ordered_lots : (rowOf (h.lots window)).Pairwise (· ≤ ·) := by
  rw [lots, rowOf_cons, List.pairwise_append]
  refine ⟨List.pairwise_replicate.2 (.inr le_rfl), pairwise_rowOf sound.ordered,
    fun older ho newer hn => ?_⟩
  obtain ⟨d, hd, rfl⟩ := exists_of_mem_rowOf hn
  have finish := (sound.running d hd).finish_eq
  have unripe := (sound.running d hd).unripe
  rw [List.eq_of_mem_replicate ho]
  dsimp only
  omega

variable {s : Selection} (fits : s.Fits h)
include fits

theorem parts_taken : PartsTaken window h.queue.lastUpdate s.fromDeposits h.queue.deposits
    (h.without s).queue.deposits :=
  takeParts_taken sound.running fits.deposits

theorem without_balance : (h.without s).bank.balance.units + s.amount = h.bank.balance.units := by
  have coin_eq := (sound.parts_taken fits).coin_eq
  have stake := fits.stake
  have total_eq := sound.total_eq
  have balance_eq := sound.balance_eq
  simp only [without, Coin.units_foldl_monus, Coin.units_monus, Selection.amount]
  omega

/-- Whatever coin is taken out of a sound holding, it stays sound. -/
theorem without_sound : (h.without s).Sound window := by
  have taken := sound.parts_taken fits
  have coin_eq := taken.coin_eq
  have total_eq := sound.total_eq
  constructor
  case ordered => exact sound.ordered.sublist taken.starts
  case running => exact taken.running
  case total_eq =>
    simp only [without, Coin.units_foldl_monus] at coin_eq ⊢
    omega
  case progress_eq =>
    have seconds_eq := taken.seconds_eq
    have progress_eq := sound.progress_eq
    simp only [without, Word.val_less] at seconds_eq ⊢
    omega
  case balance_eq =>
    have stake := fits.stake
    have balance_eq := sound.balance_eq
    simp only [without, Coin.units_foldl_monus, Coin.units_monus]
    omega

/-- The units that are left are some of those that there were. -/
theorem without_row : (rowOf ((h.without s).lots window)).Sublist (rowOf (h.lots window)) := by
  rw [lots, lots, rowOf_cons, rowOf_cons]
  exact ((List.replicate_sublist_replicate _).2 (Nat.sub_le _ _)).append
    (sound.parts_taken fits).row

end Sound

namespace Advanced

/-- To bring a holding up to the time that it is counted to changes nothing. -/
theorem eq_self (sound : h.Sound window) (step : h.Advanced window h.queue.lastUpdate h') :
    h' = h := by
  obtain ⟨ripe, deposits, -, finish⟩ := step.matured
  have none : ripe = [] := by
    refine List.eq_nil_iff_forall_not_mem.2 fun d hd => ?_
    have unripe := (sound.running d (by simp [deposits, hd])).unripe
    have finish := finish d hd
    omega
  refine step.sound.eq_of_deposits sound step.address_eq step.owner_eq step.balance_eq
    step.lastUpdate_eq ?_
  rw [deposits, none, List.nil_append]

/-- The stake at a later time does not depend on whether a holding has been brought up to date. -/
theorem stakeAt_eq {v : Vesting} (step : h.Advanced v.window now h') (sound : h.Sound v.window)
    (pos : 0 < v.window.count) (inTime : h.queue.lastUpdate.count ≤ now.count) {later : Seconds}
    (ordered : now.count ≤ later.count) :
    v.stakeAt h.bank h.queue later = v.stakeAt h'.bank h'.queue later := by
  have r := sound.represents
  have inTime' : h'.queue.lastUpdate.count ≤ later.count := by rwa [step.lastUpdate_eq]
  obtain ⟨stake, hstake, units⟩ := r.exists_stake pos (inTime.trans ordered)
  obtain ⟨stake', hstake', units'⟩ := (r.advanced inTime step).exists_stake pos inTime'
  rw [hstake, hstake', Coin.ext (units.trans units'.symm)]

end Advanced

end Holding

/-! ## What a withdrawal leaves -/

/-- Either no deposit stays, or the older ones stay as they are. The newest of those may have lost
some of its coin, and then nothing is left to be taken. -/
theorem Vesting.takeFrom_shape (now : Seconds) (amount total : Coin) (progress : Word128)
    {l : List Deposit} (some : ∀ d ∈ l, 0 < d.coin.units) :
    (takeFrom now amount total progress l).newestFirst = [] ∨
      ∃ gone newest older coin, l = gone ++ newest :: older ∧
        (takeFrom now amount total progress l).newestFirst = { newest with coin } :: older ∧
        0 < coin.units ∧ coin.units ≤ newest.coin.units ∧
        (takeFrom now amount total progress l).uncovered.units = 0 := by
  fun_induction takeFrom now amount total progress l with
  | case1 => exact .inl rfl
  | case2 amount total progress d older zero =>
    exact .inr ⟨[], d, older, d.coin, rfl, rfl, some d (by simp), le_rfl, rfl⟩
  | case3 amount total progress d older nonzero covers ih =>
    rcases ih fun e he => some e (by simp [he]) with none | ⟨gone, newest, rest, coin, split, shape⟩
    · exact .inl none
    · exact .inr ⟨d :: gone, newest, rest, coin, by rw [split, List.cons_append], shape⟩
  | case4 amount total progress d older nonzero covers =>
    exact .inr ⟨[], d, older, d.coin.monus amount, rfl, rfl, by rw [Coin.units_monus]; omega,
      Nat.sub_le _ _, rfl⟩

namespace Holding

variable {window : Seconds} {h h' : Holding} {amount : Coin}

/-- The deposits that a withdrawal leaves are the oldest ones. The last of them may have lost some
of its coin, and as long as there is one the stake has lost none. -/
theorem Debited.shape (step : h.Debited window amount h.queue.lastUpdate h')
    (sound : h.Sound window) :
    h'.queue.deposits = [] ∨
      ∃ older newest gone coin, h.queue.deposits = older ++ newest :: gone ∧
        h'.queue.deposits = older ++ [{ newest with coin }] ∧
        0 < coin.units ∧ coin.units ≤ newest.coin.units ∧ h'.bank.stake = h.bank.stake := by
  obtain ⟨current, t, advanced, rfl, deposits, stake⟩ := step.taken
  rw [advanced.eq_self sound] at deposits stake
  have some : ∀ d ∈ h.queue.deposits.reverse, 0 < d.coin.units := fun d hd =>
    (sound.running d (List.mem_reverse.1 hd)).coin_pos
  rcases takeFrom_shape h.queue.lastUpdate amount h.queue.total h.queue.progress some with
    none | ⟨gone, newest, older, coin, split, left, pos, le, covered⟩
  · exact .inl (by rw [deposits, none, List.reverse_nil])
  · refine .inr ⟨older.reverse, newest, gone.reverse, coin, ?_, ?_, pos, le, Coin.ext ?_⟩
    · rw [← List.reverse_reverse h.queue.deposits, split]
      simp
    · rw [deposits, left, List.reverse_cons]
    · omega

/-- A withdrawal takes no more stake, at any later time, than it takes coin. -/
theorem Debited.stakeAt_le {v : Vesting} (step : h.Debited v.window amount h.queue.lastUpdate h')
    (sound : h.Sound v.window) (pos : 0 < v.window.count) {t : Seconds}
    (inTime : h.queue.lastUpdate.count ≤ t.count) :
    ∃ before left, v.stakeAt h.bank h.queue t = .ok before ∧
      v.stakeAt h'.bank h'.queue t = .ok left ∧
      left.units ≤ before.units ∧ before.units ≤ left.units + amount.units := by
  have r := sound.represents
  have coin : lotCoin (h.lots v.window) = h.bank.balance.units := r.sum_eq
  have enough : amount.units ≤ lotCoin (h.lots v.window) := by
    have balance_eq := step.balance_eq
    omega
  obtain ⟨before, hbefore, units⟩ := r.exists_stake pos inTime
  have inTime' : h'.queue.lastUpdate.count ≤ t.count := by rwa [step.lastUpdate_eq]
  obtain ⟨left, hleft, units'⟩ := (r.debited le_rfl step).exists_stake pos inTime'
  have divisor : 0 < v.window.count.toNat := by omega
  refine ⟨before, left, hbefore, hleft, ?_, ?_⟩
  · rw [units, units']
    exact Nat.div_le_div_right
      (Nat.le_of_add_right_le (History.vested_withdrawn enough (sound.begun pos)))
  · rw [units, units', ← Nat.add_mul_div_right _ _ divisor]
    exact Nat.div_le_div_right (History.vested_withdrawn_ge enough)

/-- However else as much coin is taken out, there is never more stake left. -/
theorem Debited.stakeAt_without_le {v : Vesting}
    (step : h.Debited v.window amount h.queue.lastUpdate h') (sound : h.Sound v.window)
    (pos : 0 < v.window.count) {s : Selection} (fits : s.Fits h) (same : s.amount = amount.units)
    {t : Seconds} (inTime : h.queue.lastUpdate.count ≤ t.count) :
    ∃ other left, v.stakeAt (h.without s).bank (h.without s).queue t = .ok other ∧
      v.stakeAt h'.bank h'.queue t = .ok left ∧ other.units ≤ left.units := by
  have r := sound.represents
  have r' := (sound.without_sound fits).represents
  have coin : lotCoin (h.lots v.window) = h.bank.balance.units := r.sum_eq
  have coin' : lotCoin ((h.without s).lots v.window) = (h.without s).bank.balance.units := r'.sum_eq
  have coin_eq :
      lotCoin ((h.without s).lots v.window) + amount.units = lotCoin (h.lots v.window) := by
    have balance := sound.without_balance fits
    omega
  have inTime' : h'.queue.lastUpdate.count ≤ t.count := by rwa [step.lastUpdate_eq]
  obtain ⟨left, hleft, units⟩ := (r.debited le_rfl step).exists_stake pos inTime'
  obtain ⟨other, hother, units'⟩ := r'.exists_stake pos inTime
  refine ⟨other, left, hother, hleft, ?_⟩
  rw [units, units']
  exact Nat.div_le_div_right (History.vested_le_withdrawn sound.ordered_lots
    (sound.without_row fits) coin_eq)

end Holding

/-- A withdrawal keeps the most stake. Take a holding that uses of a fresh one led to, a time that
does not run back, and an amount that the balance covers. The withdrawal is accepted. It brings the
holding up to date and takes the amount out of that. At every later time, the stake is less than
without the withdrawal by the amount at most, and in whatever other way the amount is taken out of
the stake and the deposits, there is no more stake left.

The deposits that stay are the oldest ones, as they were, but for the last of them, which may have
less coin. Only if no deposit stays is the stake touched. -/
theorem Vesting.withdraw_keeps_most (v : Vesting) (pos : 0 < v.window.count) {h : Holding}
    (reached : v.Reached h) {amount : Coin} {now : Seconds}
    (inTime : h.queue.lastUpdate.count ≤ now.count) (some : 0 < amount.units)
    (enough : amount.units ≤ h.bank.balance.units) :
    ∃ current after, advance h now = .ok current ∧ withdraw h amount now = ⟨after, none⟩ ∧
      (∀ t : Seconds, now.count ≤ t.count →
        ∃ before left, v.stakeAt h.bank h.queue t = .ok before ∧
          v.stakeAt after.bank after.queue t = .ok left ∧
          left.units ≤ before.units ∧ before.units ≤ left.units + amount.units ∧
          ∀ s : Selection, s.Fits current → s.amount = amount.units →
            ∃ other, v.stakeAt (current.without s).bank (current.without s).queue t = .ok other ∧
              other.units ≤ left.units) ∧
      (after.queue.deposits = [] ∨
        ∃ older newest gone coin, current.queue.deposits = older ++ newest :: gone ∧
          after.queue.deposits = older ++ [{ newest with coin }] ∧
          0 < coin.units ∧ coin.units ≤ newest.coin.units ∧
          after.bank.stake = current.bank.stake) := by
  have sound := reached.sound pos
  obtain ⟨current, run, advanced⟩ := sound.advance_eq_ok inTime
  have last := advanced.lastUpdate_eq
  subst last
  obtain ⟨after, hafter, debited⟩ : ∃ after,
      withdraw current amount current.queue.lastUpdate = ⟨after, none⟩ ∧
        current.Debited v.window amount current.queue.lastUpdate after := by
    have outcome := advanced.sound.withdraw_cases amount current.queue.lastUpdate
    have balance_eq := congrArg Coin.units advanced.balance_eq
    generalize withdraw current amount current.queue.lastUpdate = attempt at outcome
    cases outcome with
    | debited _ _ _ debited => exact ⟨_, rfl, debited⟩
    | nothing | early | short => omega
  refine ⟨current, after, run, (withdraw_of_advance some run).symm.trans hafter,
    fun t ordered => ?_, debited.shape advanced.sound⟩
  obtain ⟨before, left, hbefore, hleft, le, ge⟩ := debited.stakeAt_le advanced.sound pos ordered
  refine ⟨before, left, (advanced.stakeAt_eq sound pos inTime ordered).trans hbefore, hleft, le, ge,
    fun s fits same => ?_⟩
  obtain ⟨other, left', hother, hleft', less⟩ :=
    debited.stakeAt_without_le advanced.sound pos fits same ordered
  cases hleft.symm.trans hleft'
  exact ⟨other, hother, less⟩

/-- Over a window of one week, 6, 5 and 3 come in half a week apart. At the end of the first week
the 6 are stake, and a minute later 4 are withdrawn: all of the 3 and one of the 5. A quarter of a
week later the stake is 9, where it would have been 10. Had the 4 been taken out of the stake it
would be 6. -/
theorem Vesting.withdraw_keeps_most_week :
    let v : Vesting := ⟨⟨604800, by decide, by decide⟩⟩
    let half : Seconds := ⟨302400, by decide, by decide⟩
    let full : Seconds := ⟨604800, by decide, by decide⟩
    let now : Seconds := ⟨604860, by decide, by decide⟩
    let later : Seconds := ⟨756060, by decide, by decide⟩
    let four : Coin := ⟨4, by decide⟩
    let h := v.performAll ⟨.empty ⟨"x", by decide⟩, .empty .zero⟩
      [.add ⟨6, by decide⟩ .zero, .add ⟨5, by decide⟩ half, .add ⟨3, by decide⟩ full]
    let s : Selection := ⟨four, [.zero, .zero]⟩
    let current := (v.perform h (.advance now)).after
    let after := (withdraw h four now).after
    0 < v.window.count ∧ v.Reached h ∧ h.queue.lastUpdate.count ≤ now.count ∧ 0 < four.units ∧
      four.units ≤ h.bank.balance.units ∧ now.count ≤ later.count ∧
      advance h now = .ok current ∧ withdraw h four now = ⟨after, none⟩ ∧
      s.Fits current ∧ s.amount = four.units ∧
      v.stakeAt h.bank h.queue later = .ok ⟨10, by decide⟩ ∧
      v.stakeAt after.bank after.queue later = .ok ⟨9, by decide⟩ ∧
      (∃ other, v.stakeAt (current.without s).bank (current.without s).queue later = .ok other ∧
        other.units ≤ 9 ∧ other.units = 6) ∧
      after.queue.deposits = [⟨half, ⟨907200, by decide, by decide⟩, four⟩] := by
  intro v half full now later four h s current after
  have pos : 0 < v.window.count := by decide
  have reached : v.Reached h := .used (.used (.used (.fresh _ _) _) _) _
  have inTime : h.queue.lastUpdate.count ≤ now.count := by decide
  have some : 0 < four.units := by decide
  have enough : four.units ≤ h.bank.balance.units := by decide
  have ordered : now.count ≤ later.count := by decide
  have run : advance h now = .ok current := by decide
  have fits : s.Fits current := by
    have deposits : current.queue.deposits = [
      ⟨half, ⟨907200, by decide, by decide⟩, ⟨5, by decide⟩⟩,
      ⟨full, ⟨1209600, by decide, by decide⟩, ⟨3, by decide⟩⟩] := by decide
    refine ⟨by decide, ?_⟩
    rw [deposits]
    exact .cons (by decide) (.cons (by decide) .nil)
  have ten : v.stakeAt h.bank h.queue later = .ok ⟨10, by decide⟩ := by decide
  have nine : v.stakeAt after.bank after.queue later = .ok ⟨9, by decide⟩ := by decide
  have six : v.stakeAt (current.without s).bank (current.without s).queue later =
    .ok ⟨6, by decide⟩ := by decide
  have left : after.queue.deposits = [⟨half, ⟨907200, by decide, by decide⟩, four⟩] := by decide
  obtain ⟨current', after', run', taken, stakes, -⟩ :=
    withdraw_keeps_most v pos reached inTime some enough
  have same : after = after' := congrArg Attempt.after taken
  clear_value h current after -- the uses are not to be carried out again
  cases run.symm.trans run'
  cases same
  obtain ⟨before, rest, -, hrest, -, -, most⟩ := stakes later ordered
  obtain ⟨other, hother, less⟩ := most s fits (by decide)
  cases nine.symm.trans hrest
  cases six.symm.trans hother
  exact ⟨pos, reached, inTime, some, enough, ordered, run, taken, fits, by decide, ten, nine,
    ⟨_, six, less, rfl⟩, left⟩

end StakeLedger

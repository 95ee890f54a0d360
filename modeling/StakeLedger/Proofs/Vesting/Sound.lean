import Mathlib.Data.List.TakeWhile
import Mathlib.Tactic.Linarith
import Mathlib.Tactic.Ring
import Mathlib.Tactic.SplitIfs
import StakeLedger.Vesting

/-!
# Sound holdings

The queue of a holding keeps a total and a running sum of coin-seconds beside its deposits. In a
sound holding both are exact, the deposits stand in the order in which they came in, and the balance
is what has matured together with what is pending. Every operation keeps holdings sound, so none of
the differences that stop at zero ever does stop there, and no sum leaves its range.

## Main definitions

* `Deposit.Running`, `Holding.Sound` — a deposit on its way, and a holding whose parts agree.
* `Holding.Advanced`, `Holding.Credited`, `Holding.Debited` — what the three operations change.

## Main statements

* `Holding.Sound.advance_eq_ok`, `Holding.Sound.add_cases`, `Holding.Sound.withdraw_cases` — all
  that an operation on a sound holding can do.
* `Holding.Sound.stakeAt_eq_ok` — the stake of a sound holding.
-/

namespace StakeLedger

open Vesting

/-- The seconds that deposits have spent in the queue up to `now`, for each unit of their coin. -/
def coinSecondsOf (now : Seconds) : List Deposit → Nat
  | [] => 0
  | d :: rest => coinSeconds d.coin d.start now + coinSecondsOf now rest

/-- A deposit of some coin that has been made by `now` and has not matured yet. -/
structure Deposit.Running (window now : Seconds) (d : Deposit) : Prop where
  coin_pos : 0 < d.coin.units
  finish_eq : d.finish.count = d.start.count + window.count
  begun : d.start.count ≤ now.count
  unripe : now.count < d.finish.count

/-- A holding whose parts agree with each other. -/
structure Holding.Sound (window : Seconds) (h : Holding) : Prop where
  ordered : (h.queue.deposits.map (·.start.count)).Pairwise (· ≤ ·)
  running : ∀ d ∈ h.queue.deposits, d.Running window h.queue.lastUpdate
  total_eq : h.queue.total.units = coinOf h.queue.deposits
  progress_eq : h.queue.progress.val = coinSecondsOf h.queue.lastUpdate h.queue.deposits
  balance_eq : h.bank.balance.units = h.bank.stake.units + h.queue.total.units

/-! ## Sums over deposits -/

theorem coinOf_append (l m : List Deposit) : coinOf (l ++ m) = coinOf l + coinOf m := by
  induction l with
  | nil => simp [coinOf]
  | cons d l ih => simp only [List.cons_append, coinOf, ih]; omega

theorem coinSecondsOf_append (now : Seconds) (l m : List Deposit) :
    coinSecondsOf now (l ++ m) = coinSecondsOf now l + coinSecondsOf now m := by
  induction l with
  | nil => simp [coinSecondsOf]
  | cons d l ih => simp only [List.cons_append, coinSecondsOf, ih]; omega

theorem coinOf_reverse (l : List Deposit) : coinOf l.reverse = coinOf l := by
  induction l with
  | nil => rfl
  | cons d l ih => simp only [List.reverse_cons, coinOf_append, coinOf, ih]; omega

theorem coinSecondsOf_reverse (now : Seconds) (l : List Deposit) :
    coinSecondsOf now l.reverse = coinSecondsOf now l := by
  induction l with
  | nil => rfl
  | cons d l ih => simp only [List.reverse_cons, coinSecondsOf_append, coinSecondsOf, ih]; omega

theorem length_le_coinOf {l : List Deposit} (h : ∀ d ∈ l, 0 < d.coin.units) :
    l.length ≤ coinOf l := by
  induction l with
  | nil => simp
  | cons d l ih =>
    have first := h d (by simp)
    have rest := ih fun e he => h e (by simp [he])
    simp only [List.length_cons, coinOf]
    omega

/-- A deposit that has not matured was made less than the window ago, which is within reach. -/
theorem Deposit.Running.inReach {window now : Seconds} {d : Deposit} (h : d.Running window now) :
    now.InReach d.start := by
  have finish := h.finish_eq
  have begun := h.begun
  have unripe := h.unripe
  have upper := window.upper
  exact ⟨by omega, by omega⟩

/-- As time goes on, every unit of coin gains a second for each second. -/
theorem coinSecondsOf_later {window now later : Seconds} (hle : now.count ≤ later.count)
    {l : List Deposit} (before : ∀ d ∈ l, d.Running window now)
    (still : ∀ d ∈ l, d.Running window later) :
    coinSecondsOf later l = coinSecondsOf now l + coinOf l * later.since now := by
  induction l with
  | nil => simp [coinSecondsOf, coinOf]
  | cons d l ih =>
    rw [List.forall_mem_cons] at before still
    have rest := ih before.2 still.2
    have span : later.since d.start = now.since d.start + later.since now := by
      have begun := before.1.begun
      have most := still.1.inReach.2
      rw [Seconds.since_eq still.1.inReach, Seconds.since_eq before.1.inReach,
        Seconds.since_eq ⟨by omega, by omega⟩]
      omega
    simp only [coinSecondsOf, coinOf, coinSeconds, rest, span]
    ring

/-- Each unit of coin has spent less than the window in the queue. -/
theorem coinSecondsOf_le {window now : Seconds} {l : List Deposit}
    (h : ∀ d ∈ l, d.Running window now) :
    coinSecondsOf now l ≤ coinOf l * window.count.toNat := by
  induction l with
  | nil => simp [coinSecondsOf]
  | cons d l ih =>
    have first := h d (by simp)
    have rest := ih fun e he => h e (by simp [he])
    have span : now.since d.start ≤ window.count.toNat := by
      have finish := first.finish_eq
      have unripe := first.unripe
      rw [Seconds.since_eq first.inReach]
      omega
    have held := Nat.mul_le_mul_left d.coin.units span
    simp only [coinSecondsOf, coinOf, coinSeconds, Nat.add_mul]
    omega

/-- Coin-seconds of running deposits fit in 128 bits. -/
theorem coinSecondsOf_lt {window now : Seconds} {l : List Deposit}
    (h : ∀ d ∈ l, d.Running window now) (coins : coinOf l < 0x10000000000000000) :
    coinSecondsOf now l < 0x100000000000000000000000000000000 := by
  have upper := window.upper
  refine Nat.lt_of_le_of_lt (coinSecondsOf_le h) ?_
  exact Nat.mul_lt_mul'' coins (show window.count.toNat < 0x10000000000000000 by omega)

theorem val_foldl_less (now : Seconds) (l : List Deposit) (p : Word128) :
    (l.foldl (fun left d => left.less (coinSeconds d.coin d.start now)) p).val =
      p.val - coinSecondsOf now l := by
  induction l generalizing p with
  | nil => rfl
  | cons d l ih => simp only [List.foldl_cons, ih, Word.val_less, coinSecondsOf]; omega

/-! ## What has matured -/

/-- Of deposits in order, all that stand behind one that has not matured have not matured. -/
theorem unripe_of_mem_dropWhile {window last now : Seconds} {l : List Deposit}
    (ordered : (l.map (·.start.count)).Pairwise (· ≤ ·))
    (running : ∀ d ∈ l, d.Running window last) :
    ∀ d ∈ l.dropWhile (isMature now), now.count < d.finish.count := by
  induction l with
  | nil => simp
  | cons d l ih =>
    rw [List.map_cons, List.pairwise_cons] at ordered
    by_cases ripe : isMature now d
    · rw [List.dropWhile_cons_of_pos ripe]
      exact ih ordered.2 fun e he => running e (by simp [he])
    · rw [List.dropWhile_cons_of_neg ripe]
      have first : now.count < d.finish.count := by simpa [isMature] using ripe
      intro e he
      rcases List.mem_cons.1 he with rfl | he
      · exact first
      · have later := ordered.1 e.start.count (List.mem_map_of_mem he)
        have hd := (running d (by simp)).finish_eq
        have he := (running e (by simp [he])).finish_eq
        omega

/-- A settlement of deposits that is exact: what has matured, oldest first, and what has not. -/
structure Settlement.Exact (s : Settlement) (deposits : List Deposit) (now : Seconds) : Prop where
  split : deposits = s.matured ++ s.pending
  ripe : ∀ d ∈ s.matured, d.finish.count ≤ now.count
  unripe : ∀ d ∈ s.pending, now.count < d.finish.count
  coin_eq : s.coin.units = coinOf s.matured
  progress_eq : s.progress.val = coinSecondsOf now s.pending

theorem Deposit.Running.later {window now later : Seconds} {d : Deposit}
    (h : d.Running window now) (hle : now.count ≤ later.count)
    (unripe : later.count < d.finish.count) : d.Running window later :=
  ⟨h.coin_pos, h.finish_eq, h.begun.trans hle, unripe⟩

namespace Holding.Sound

variable {window : Seconds} {h : Holding}

theorem settled_of_early {now : Seconds} (early : now.count < h.queue.lastUpdate.count) :
    settled h.bank h.queue now =
      .error (.timeRunsBack "settle stake" h.bank.address h.queue.lastUpdate now) :=
  if_pos early

variable (sound : h.Sound window)
include sound

/-- A sound holding can be settled at any time that does not run back. -/
theorem settled_eq_ok {now : Seconds} (inTime : h.queue.lastUpdate.count ≤ now.count) :
    ∃ s, settled h.bank h.queue now = .ok s ∧ s.Exact h.queue.deposits now := by
  have split := (List.takeWhile_append_dropWhile (p := isMature now) (l := h.queue.deposits)).symm
  have ripe : ∀ d ∈ h.queue.deposits.takeWhile (isMature now), d.finish.count ≤ now.count :=
    fun d hd => by simpa [isMature] using List.mem_takeWhile_imp hd
  have unripe : ∀ d ∈ h.queue.deposits.dropWhile (isMature now), now.count < d.finish.count :=
    unripe_of_mem_dropWhile sound.ordered sound.running
  have coins := sound.total_eq
  have seconds := sound.progress_eq
  have running := sound.running
  have totalLt := h.queue.total.units_lt
  simp only [settled, if_neg (show ¬ now.count < h.queue.lastUpdate.count by omega)]
  generalize h.queue.deposits.takeWhile (isMature now) = matured at *
  generalize h.queue.deposits.dropWhile (isMature now) = pending at *
  rw [split] at coins seconds running
  rw [coinOf_append] at coins
  rw [coinSecondsOf_append] at seconds
  have older : ∀ d ∈ pending, d.Running window h.queue.lastUpdate := fun d hd =>
    running d (List.mem_append_right _ hd)
  have later : ∀ d ∈ pending, d.Running window now := fun d hd =>
    (older d hd).later inTime (unripe d hd)
  have coin : Coin.ofNat? (coinOf matured) = some ⟨coinOf matured, by omega⟩ :=
    Coin.ofNat?_eq_some_iff.2 rfl
  rw [coin]
  by_cases none : pending = []
  · subst none
    exact ⟨_, rfl, split, ripe, unripe, rfl, rfl⟩
  · have grown := coinSecondsOf_later inTime older later
    -- No subtraction is cut off at zero and no sum is too large: the coin-seconds that stay are
    -- less than the coin of the queue times the window.
    have bound := coinSecondsOf_lt later (show coinOf pending < 0x10000000000000000 by omega)
    have rest : h.queue.total.units - coinOf matured = coinOf pending := by omega
    have credit : h.queue.progress.val - coinSecondsOf h.queue.lastUpdate matured =
        coinSecondsOf h.queue.lastUpdate pending := by omega
    have progress : (Word.ofNat? (coinSecondsOf now pending) : Option Word128) =
        some ⟨coinSecondsOf now pending, bound⟩ := Word.ofNat?_eq_some_iff.2 rfl
    simp only [List.isEmpty_iff, none, if_false, val_foldl_less]
    rw [credit, coinSeconds, Coin.units_monus, rest, ← grown, progress]
    exact ⟨_, rfl, split, ripe, unripe, rfl, rfl⟩

end Holding.Sound

/-! ## Bringing a holding up to date -/

/-- A holding that has been brought up to `now`: what had matured by then was moved to the stake. -/
structure Holding.Advanced (window : Seconds) (h : Holding) (now : Seconds) (h' : Holding) :
    Prop where
  sound : h'.Sound window
  lastUpdate_eq : h'.queue.lastUpdate = now
  address_eq : h'.bank.address = h.bank.address
  owner_eq : h'.bank.owner = h.bank.owner
  balance_eq : h'.bank.balance = h.bank.balance
  matured : ∃ ripe, h.queue.deposits = ripe ++ h'.queue.deposits ∧
    h'.bank.stake.units = h.bank.stake.units + coinOf ripe ∧
    (∀ d ∈ ripe, d.finish.count ≤ now.count)

namespace Holding.Sound

variable {window : Seconds} {h : Holding}

theorem advance_of_early {now : Seconds} (early : now.count < h.queue.lastUpdate.count) :
    advance h now =
      .error (.timeRunsBack "settle stake" h.bank.address h.queue.lastUpdate now) := by
  rw [advance, settled_of_early early]
  rfl

variable (sound : h.Sound window)
include sound

/-- A sound holding can be brought up to any time that does not run back. -/
theorem advance_eq_ok {now : Seconds} (inTime : h.queue.lastUpdate.count ≤ now.count) :
    ∃ h', advance h now = .ok h' ∧ h.Advanced window now h' := by
  obtain ⟨s, settle, exact⟩ := sound.settled_eq_ok inTime
  have coins := sound.total_eq
  rw [exact.split, coinOf_append, ← exact.coin_eq] at coins
  have balance := sound.balance_eq
  have balanceLt := h.bank.balance.units_lt
  have stake : h.bank.stake.plus? s.coin = some ⟨h.bank.stake.units + s.coin.units, by omega⟩ :=
    Coin.plus?_eq_some_iff.2 rfl
  have running : ∀ d ∈ s.pending, d.Running window now := fun d hd =>
    (sound.running d (exact.split ▸ List.mem_append_right _ hd)).later inTime (exact.unripe d hd)
  have ordered := sound.ordered
  rw [exact.split, List.map_append, List.pairwise_append] at ordered
  have total : (if s.pending.isEmpty then Coin.zero else h.queue.total.monus s.coin).units =
      coinOf s.pending := by
    split_ifs with none
    · rw [List.isEmpty_iff.1 none]
      rfl
    · rw [Coin.units_monus]
      omega
  refine ⟨_, by simp only [advance, settle, bind, Except.bind, stake]; rfl, ?_⟩
  constructor
  case sound => exact ⟨ordered.2.1, running, total, exact.progress_eq, by dsimp only; omega⟩
  case matured => exact ⟨s.matured, exact.split, congrArg _ exact.coin_eq, exact.ripe⟩
  all_goals rfl

end Holding.Sound

/-! ## The stake -/

/-- A positive window divides as it stands. -/
theorem Vesting.divisor_eq {v : Vesting} (pos : 0 < v.window.count) :
    v.divisor = v.window.count.toNat := by
  have upper := v.window.upper
  unfold divisor
  rw [Int.emod_eq_of_lt (by omega) (by omega)]

/-- Bringing a holding up to date moves what settling finds. -/
theorem Vesting.advance_eq_of_settled {h h' : Holding} {now : Seconds} {s : Settlement}
    (settle : settled h.bank h.queue now = .ok s) (hadvance : advance h now = .ok h') :
    h'.bank.stake.units = h.bank.stake.units + s.coin.units ∧ h'.queue.progress = s.progress := by
  simp only [advance, settle, bind, Except.bind] at hadvance
  split at hadvance
  · cases hadvance
  · rename_i stake hstake
    cases hadvance
    exact ⟨Coin.plus?_eq_some_iff.1 hstake, rfl⟩

namespace Holding.Sound

variable {v : Vesting} {h : Holding}

theorem stakeAt_of_early {now : Seconds} (early : now.count < h.queue.lastUpdate.count) :
    v.stakeAt h.bank h.queue now =
      .error (.timeRunsBack "settle stake" h.bank.address h.queue.lastUpdate now) := by
  rw [stakeAt, settled_of_early early]
  rfl

/-- The stake of a sound holding at a time that does not run back: what is stake once the holding
has been brought up to date, and the vested share of what is still pending then. -/
theorem stakeAt_eq_ok (sound : h.Sound v.window) (pos : 0 < v.window.count) {now : Seconds}
    (inTime : h.queue.lastUpdate.count ≤ now.count) :
    ∃ h' stake, h.Advanced v.window now h' ∧ v.stakeAt h.bank h.queue now = .ok stake ∧
      stake.units = h'.bank.stake.units + h'.queue.progress.val / v.window.count.toNat := by
  obtain ⟨s, settle, -⟩ := sound.settled_eq_ok inTime
  obtain ⟨h', hadvance, advanced⟩ := sound.advance_eq_ok inTime
  obtain ⟨stake_eq, progress_eq⟩ := advance_eq_of_settled settle hadvance
  have share : h'.queue.progress.val / v.window.count.toNat ≤ h'.queue.total.units := by
    rw [advanced.sound.progress_eq, advanced.sound.total_eq]
    refine Nat.div_le_of_le_mul ?_
    rw [Nat.mul_comm]
    exact coinSecondsOf_le advanced.sound.running
  have balance_eq := advanced.sound.balance_eq
  have balanceLt := h'.bank.balance.units_lt
  obtain ⟨stake, hstake⟩ : ∃ c : Coin, c.units =
      h'.bank.stake.units + h'.queue.progress.val / v.window.count.toNat := ⟨⟨_, by omega⟩, rfl⟩
  have fits : Coin.ofNat? (h.bank.stake.units + s.coin.units + s.progress.val / v.divisor) =
      some stake := by
    rw [Coin.ofNat?_eq_some_iff, hstake, divisor_eq pos, stake_eq, progress_eq]
  have divides : v.divisor ≠ 0 := by
    rw [divisor_eq pos]
    omega
  refine ⟨h', stake, advanced, ?_, hstake⟩
  simp only [stakeAt, settle, bind, Except.bind, if_neg divides, fits]

end Holding.Sound

/-! ## Receiving coin -/

/-- A holding that nothing has come in at is sound. -/
theorem Holding.sound_fresh (window : Seconds) (address : Address) (now : Seconds) :
    Holding.Sound window ⟨.empty address, .empty now⟩ :=
  ⟨List.Pairwise.nil, by simp [PendingQueue.empty], rfl, rfl, rfl⟩

/-- A holding that has received `amount` at `now`: after it was brought up to date, a deposit of the
amount joined the pending ones. -/
structure Holding.Credited (window : Seconds) (h : Holding) (amount : Coin) (now : Seconds)
    (h' : Holding) : Prop where
  sound : h'.Sound window
  lastUpdate_eq : h'.queue.lastUpdate = now
  address_eq : h'.bank.address = h.bank.address
  owner_eq : h'.bank.owner = h.bank.owner
  balance_eq : h'.bank.balance.units = h.bank.balance.units + amount.units
  deposited : ∃ current finish, h.Advanced window now current ∧
    h'.bank.stake = current.bank.stake ∧
    h'.queue.deposits = current.queue.deposits ++ [⟨now, finish, amount⟩]

/-- All that can come of receiving coin. -/
inductive Vesting.AddOutcome (v : Vesting) (h : Holding) (amount : Coin) (now : Seconds) :
    Attempt → Prop
  | nothing (zero : amount.units = 0) :
    AddOutcome v h amount now ⟨h, some (.invalidAmount "add coin" amount)⟩
  | early (pos : 0 < amount.units) (early : now.count < h.queue.lastUpdate.count) :
    AddOutcome v h amount now
      ⟨h, some (.timeRunsBack "settle stake" h.bank.address h.queue.lastUpdate now)⟩
  | tooLarge (pos : 0 < amount.units) (inTime : h.queue.lastUpdate.count ≤ now.count)
    (large : 0x10000000000000000 ≤ h.bank.balance.units + amount.units ∨
      0x8000000000000000 ≤ now.count + v.window.count)
    {current : Holding} (advanced : h.Advanced v.window now current) :
    AddOutcome v h amount now ⟨current, some (.overflow "add coin")⟩
  | credited (pos : 0 < amount.units) (inTime : h.queue.lastUpdate.count ≤ now.count)
    (fits : h.bank.balance.units + amount.units < 0x10000000000000000)
    (room : now.count + v.window.count < 0x8000000000000000)
    {h' : Holding} (credited : h.Credited v.window amount now h') :
    AddOutcome v h amount now ⟨h', none⟩

/-- A new deposit keeps a holding sound. -/
theorem Holding.Sound.append {window : Seconds} {h : Holding} (sound : h.Sound window)
    (pos : 0 < window.count) {amount : Coin} (some : 0 < amount.units) {balance total : Coin}
    {finish : Seconds} (hbalance : balance.units = h.bank.balance.units + amount.units)
    (htotal : total.units = h.queue.total.units + amount.units)
    (hfinish : finish.count = h.queue.lastUpdate.count + window.count) :
    Holding.Sound window
      ⟨{ h.bank with balance },
        { h.queue with
          total, deposits := h.queue.deposits ++ [⟨h.queue.lastUpdate, finish, amount⟩] }⟩ := by
  constructor
  case ordered =>
    rw [List.map_append, List.pairwise_append]
    refine ⟨sound.ordered, List.pairwise_singleton _ _, fun s hs e he => ?_⟩
    obtain ⟨d, hd, rfl⟩ := List.mem_map.1 hs
    simp only [List.map_cons, List.map_nil, List.mem_singleton] at he
    rw [he]
    exact (sound.running d hd).begun
  case running =>
    intro d hd
    rcases List.mem_append.1 hd with old | new
    · exact sound.running d old
    · rw [List.mem_singleton.1 new]
      exact ⟨some, hfinish, le_rfl, by dsimp only; omega⟩
  case total_eq =>
    simp only [coinOf_append, coinOf, htotal, sound.total_eq]
    omega
  case progress_eq =>
    simp [coinSecondsOf_append, coinSecondsOf, coinSeconds, sound.progress_eq]
  case balance_eq =>
    have balance_eq := sound.balance_eq
    dsimp only
    omega

namespace Holding.Sound

variable {v : Vesting} {h : Holding} (sound : h.Sound v.window)
include sound

theorem add_cases (pos : 0 < v.window.count) (amount : Coin) (now : Seconds) :
    AddOutcome v h amount now (v.add h amount now) := by
  rw [add]
  by_cases zero : amount.units = 0
  · rw [if_pos (Coin.isZero_iff.2 zero)]
    exact .nothing zero
  rw [if_neg (Coin.isZero_iff.not.2 zero)]
  by_cases early : now.count < h.queue.lastUpdate.count
  · rw [advance_of_early early]
    exact .early (by omega) early
  have inTime : h.queue.lastUpdate.count ≤ now.count := by omega
  obtain ⟨current, hcurrent, advanced⟩ := sound.advance_eq_ok inTime
  have balance_eq := congrArg Coin.units advanced.balance_eq
  have covered := advanced.sound.balance_eq
  rw [hcurrent]
  dsimp only
  split
  · rename_i balance total finish hbalance htotal hfinish
    rw [Coin.plus?_eq_some_iff] at hbalance htotal
    have hfinish := Seconds.ofInt?_eq_some_iff.1 hfinish
    have fits := balance.units_lt
    have room := finish.upper
    refine .credited (by omega) inTime (by omega) (by omega) ?_
    have last := advanced.lastUpdate_eq
    subst last
    constructor
    case sound => exact advanced.sound.append pos (by omega) hbalance htotal hfinish
    case balance_eq => exact hbalance.trans (by rw [balance_eq])
    case deposited => exact ⟨current, finish, advanced, rfl, rfl⟩
    case lastUpdate_eq => rfl
    case address_eq => exact advanced.address_eq
    case owner_eq => exact advanced.owner_eq
  · rename_i refused
    refine .tooLarge (by omega) inTime ?_ advanced
    by_contra fine
    rw [not_or] at fine
    have lower := now.lower
    exact refused ⟨current.bank.balance.units + amount.units, by omega⟩
      ⟨current.queue.total.units + amount.units, by omega⟩
      ⟨now.count + v.window.count, by omega, by omega⟩ (Coin.plus?_eq_some_iff.2 rfl)
      (Coin.plus?_eq_some_iff.2 rfl) (Seconds.ofInt?_eq_some_iff.2 rfl)

end Holding.Sound

/-! ## Paying coin out -/

/-- What comes of taking an amount out of running deposits listed newest first. -/
structure Vesting.Taken.Exact (window now : Seconds) (amount : Coin) (l : List Deposit)
    (t : Taken) : Prop where
  total_eq : t.total.units = coinOf t.newestFirst
  progress_eq : t.progress.val = coinSecondsOf now t.newestFirst
  coin_eq : coinOf t.newestFirst + amount.units = coinOf l + t.uncovered.units
  empty : 0 < t.uncovered.units → t.newestFirst = []
  starts : t.newestFirst.map (·.start.count) <:+ l.map (·.start.count)
  running : ∀ d ∈ t.newestFirst, d.Running window now

theorem Vesting.takeFrom_exact {window now : Seconds} (amount : Coin) {total : Coin}
    {progress : Word128} {l : List Deposit} (running : ∀ d ∈ l, d.Running window now)
    (htotal : total.units = coinOf l) (hprogress : progress.val = coinSecondsOf now l) :
    (takeFrom now amount total progress l).Exact window now amount l := by
  fun_induction takeFrom now amount total progress l with
  | case1 amount total progress =>
    exact ⟨htotal, hprogress, by simp [coinOf], fun _ => rfl, List.suffix_refl _, by simp⟩
  | case2 amount total progress d older zero =>
    have none := Coin.isZero_iff.1 zero
    exact ⟨htotal, hprogress, by simp [none], fun h => absurd h (lt_irrefl _), List.suffix_refl _,
      running⟩
  | case3 amount total progress d older some covers ih =>
    simp only [coinOf] at htotal
    simp only [coinSecondsOf] at hprogress
    have rest := ih (fun e he => running e (by simp [he])) (by rw [Coin.units_monus]; omega)
      (by rw [Word.val_less]; omega)
    have coin_eq := rest.coin_eq
    rw [Coin.units_monus] at coin_eq
    refine ⟨rest.total_eq, rest.progress_eq, by simp only [coinOf]; omega, rest.empty, ?_,
      rest.running⟩
    exact rest.starts.trans (List.suffix_cons _ _)
  | case4 amount total progress d older some covers =>
    have first := running d (by simp)
    simp only [coinOf] at htotal
    simp only [coinSecondsOf, coinSeconds] at hprogress
    have parts :
        (d.coin.units - amount.units) * now.since d.start + amount.units * now.since d.start
        = d.coin.units * now.since d.start := by
      rw [← Nat.add_mul, Nat.sub_add_cancel (by omega)]
    constructor
    case total_eq => simp only [Coin.units_monus, coinOf]; omega
    case progress_eq =>
      simp only [Word.val_less, coinSecondsOf, coinSeconds, Coin.units_monus]
      omega
    case coin_eq => simp only [coinOf, Coin.units_monus, Coin.units_zero]; omega
    case empty => exact fun h => absurd h (lt_irrefl _)
    case starts => exact List.suffix_refl _
    case running =>
      intro e he
      rcases List.mem_cons.1 he with rfl | he
      · exact ⟨by rw [Coin.units_monus]; omega, first.finish_eq, first.begun, first.unripe⟩
      · exact running e (by simp [he])

/-- A holding that has paid out `amount` at `now`: after it was brought up to date, the amount was
taken from its deposits, and what they did not cover from its stake. -/
structure Holding.Debited (window : Seconds) (h : Holding) (amount : Coin) (now : Seconds)
    (h' : Holding) : Prop where
  sound : h'.Sound window
  lastUpdate_eq : h'.queue.lastUpdate = now
  address_eq : h'.bank.address = h.bank.address
  owner_eq : h'.bank.owner = h.bank.owner
  balance_eq : h'.bank.balance.units + amount.units = h.bank.balance.units
  taken : ∃ current t, h.Advanced window now current ∧
    t = takeFrom now amount current.queue.total current.queue.progress
      current.queue.deposits.reverse ∧
    h'.queue.deposits = t.newestFirst.reverse ∧
    h'.bank.stake.units + t.uncovered.units = current.bank.stake.units

/-- All that can come of paying coin out. -/
inductive Vesting.WithdrawOutcome (window : Seconds) (h : Holding) (amount : Coin) (now : Seconds) :
    Attempt → Prop
  | nothing (zero : amount.units = 0) :
    WithdrawOutcome window h amount now ⟨h, some (.invalidAmount "minus coin" amount)⟩
  | early (pos : 0 < amount.units) (early : now.count < h.queue.lastUpdate.count) :
    WithdrawOutcome window h amount now
      ⟨h, some (.timeRunsBack "settle stake" h.bank.address h.queue.lastUpdate now)⟩
  | short (pos : 0 < amount.units) (inTime : h.queue.lastUpdate.count ≤ now.count)
    (short : h.bank.balance.units < amount.units)
    {current : Holding} (advanced : h.Advanced window now current) :
    WithdrawOutcome window h amount now
      ⟨current, some (.insufficientBalance "minus coin" h.bank.address amount h.bank.balance)⟩
  | debited (pos : 0 < amount.units) (inTime : h.queue.lastUpdate.count ≤ now.count)
    (enough : amount.units ≤ h.bank.balance.units)
    {h' : Holding} (debited : h.Debited window amount now h') :
    WithdrawOutcome window h amount now ⟨h', none⟩

namespace Vesting.Taken.Exact

variable {window now : Seconds} {amount : Coin} {l : List Deposit} {t : Taken}

/-- The queue that stays is exact as well; one without deposits is empty. -/
theorem queue_eq (exact : t.Exact window now amount l) :
    (t.queue now).lastUpdate = now ∧ (t.queue now).deposits = t.newestFirst.reverse ∧
      (t.queue now).total.units = coinOf t.newestFirst ∧
      (t.queue now).progress.val = coinSecondsOf now t.newestFirst := by
  unfold Taken.queue
  split_ifs with none
  · rw [List.isEmpty_iff.1 none]
    exact ⟨rfl, rfl, rfl, rfl⟩
  · exact ⟨rfl, rfl, exact.total_eq, exact.progress_eq⟩

end Vesting.Taken.Exact

namespace Holding.Sound

variable {window : Seconds} {h : Holding} (sound : h.Sound window)
include sound

theorem takeFrom_exact (amount : Coin) :
    (takeFrom h.queue.lastUpdate amount h.queue.total h.queue.progress
      h.queue.deposits.reverse).Exact window h.queue.lastUpdate amount h.queue.deposits.reverse :=
  Vesting.takeFrom_exact amount (fun d hd => sound.running d (List.mem_reverse.1 hd))
    (by rw [coinOf_reverse, sound.total_eq]) (by rw [coinSecondsOf_reverse, sound.progress_eq])

/-- What the deposits do not cover, the stake does. -/
theorem uncovered_le {amount : Coin} {t : Taken} (enough : amount.units ≤ h.bank.balance.units)
    (exact : t.Exact window h.queue.lastUpdate amount h.queue.deposits.reverse) :
    t.uncovered.units ≤ h.bank.stake.units := by
  have coin_eq := exact.coin_eq
  have balance_eq := sound.balance_eq
  rw [sound.total_eq] at balance_eq
  rw [coinOf_reverse] at coin_eq
  rcases Nat.eq_zero_or_pos t.uncovered.units with none | some
  · omega
  · rw [exact.empty some, coinOf] at coin_eq
    omega

/-- Paying out what was taken from the deposits, and the rest from the stake, keeps a holding
sound. -/
theorem pay {amount balance : Coin} {t : Taken}
    (left : balance.units + amount.units = h.bank.balance.units)
    (exact : t.Exact window h.queue.lastUpdate amount h.queue.deposits.reverse) :
    Holding.Sound window
      ⟨{ h.bank with balance, stake := h.bank.stake.monus t.uncovered },
        t.queue h.queue.lastUpdate⟩ := by
  obtain ⟨last, deposits, total, progress⟩ := exact.queue_eq
  constructor
  case ordered =>
    have front := List.reverse_prefix.2 exact.starts
    rw [List.map_reverse, List.reverse_reverse, ← List.map_reverse] at front
    rw [deposits]
    exact sound.ordered.sublist front.sublist
  case running =>
    intro d hd
    rw [deposits, List.mem_reverse] at hd
    rw [last]
    exact exact.running d hd
  case total_eq => rw [deposits, coinOf_reverse, total]
  case progress_eq => rw [deposits, last, coinSecondsOf_reverse, progress]
  case balance_eq =>
    have covered := sound.uncovered_le (by omega) exact
    have coin_eq := exact.coin_eq
    have balance_eq := sound.balance_eq
    rw [sound.total_eq] at balance_eq
    rw [coinOf_reverse] at coin_eq
    dsimp only
    rw [total, Coin.units_monus]
    omega

theorem withdraw_cases (amount : Coin) (now : Seconds) :
    WithdrawOutcome window h amount now (withdraw h amount now) := by
  rw [withdraw]
  by_cases zero : amount.units = 0
  · rw [if_pos (Coin.isZero_iff.2 zero)]
    exact .nothing zero
  rw [if_neg (Coin.isZero_iff.not.2 zero)]
  by_cases early : now.count < h.queue.lastUpdate.count
  · rw [advance_of_early early]
    exact .early (by omega) early
  have inTime : h.queue.lastUpdate.count ≤ now.count := by omega
  obtain ⟨current, hcurrent, advanced⟩ := sound.advance_eq_ok inTime
  rw [hcurrent]
  dsimp only
  split
  · rename_i refused
    rw [advanced.balance_eq, Coin.minus?] at refused
    split_ifs at refused with enough
    rw [advanced.address_eq, advanced.balance_eq]
    exact .short (by omega) inTime (by omega) advanced
  · rename_i balance left
    rw [Coin.minus?_eq_some_iff] at left
    have last := advanced.lastUpdate_eq
    subst last
    have exact := advanced.sound.takeFrom_exact amount
    have covered := advanced.sound.uncovered_le (by omega) exact
    obtain ⟨last, deposits, -, -⟩ := exact.queue_eq
    have before := congrArg Coin.units advanced.balance_eq
    refine .debited (by omega) inTime (by omega) ?_
    constructor
    case sound => exact advanced.sound.pay left exact
    case balance_eq => exact left.trans before
    case taken => exact ⟨current, _, advanced, rfl, deposits, Nat.sub_add_cancel covered⟩
    case lastUpdate_eq => exact last
    case address_eq => exact advanced.address_eq
    case owner_eq => exact advanced.owner_eq

end Holding.Sound

end StakeLedger

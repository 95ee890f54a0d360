import StakeLedger.Proofs.Vesting.Sound

/-!
# Full histories

The plain way to keep stake is to forget nothing: every deposit stays on a list for good, and the
stake at a time is worked out from the whole list. A sound holding stands for such a history. Its
queue keeps the deposits that have not matured, its stake stands for all others, and it answers
every question as the history does. The relation is `Holding.Represents`.
-/

namespace StakeLedger

/-! ## The plain way -/

/-- A deposit and what is left of it. -/
structure Lot where
  start : Int
  /-- The coin that has not been withdrawn. -/
  coin : Nat

/-- All deposits of an address. -/
structure History where
  lots : List Lot
  /-- When the history was last changed. -/
  last : Int

def lotCoin (lots : List Lot) : Nat := (lots.map Lot.coin).sum

/-- Takes an amount out of lots listed newest first. A lot is used up before an older one is
touched. -/
def takeBack (amount : Nat) : List Lot → List Lot
  | [] => []
  | lot :: older =>
    if lot.coin ≤ amount then takeBack (amount - lot.coin) older
    else { lot with coin := lot.coin - amount } :: older

namespace History

def sum (h : History) : Nat := lotCoin h.lots

/-- A deposit joins the history. -/
def deposit (window : Int) (h : History) (amount : Nat) (now : Int) : Option History :=
  if amount = 0 ∨ now < h.last ∨ 2 ^ 64 - 1 < h.sum + amount ∨ 2 ^ 63 - 1 < now + window then none
  else some ⟨h.lots ++ [⟨now, amount⟩], now⟩

/-- An amount is taken from the newest lots. -/
def withdraw (h : History) (amount : Nat) (now : Int) : Option History :=
  if amount = 0 ∨ now < h.last ∨ h.sum < amount then none
  else some ⟨(takeBack amount h.lots.reverse).reverse, now⟩

/-- Time goes on. -/
def advance (h : History) (now : Int) : Option History :=
  if now < h.last then none else some { h with last := now }

/-- The coin-seconds of lots, each counted up to the window. -/
def vested (window now : Int) (lots : List Lot) : Nat :=
  (lots.map fun lot => lot.coin * (min window (now - lot.start)).toNat).sum

/-- The stake: the share of its window that each lot has been held for, with one rounding. -/
def stake (window : Int) (h : History) (now : Int) : Option Nat :=
  if now < h.last then none else some (vested window now h.lots / window.toNat)

end History

/-! ## Taking from lots -/

theorem lotCoin_append (l m : List Lot) : lotCoin (l ++ m) = lotCoin l + lotCoin m := by
  simp [lotCoin]

theorem lotCoin_reverse (l : List Lot) : lotCoin l.reverse = lotCoin l := by
  simp [lotCoin]

/-- What the newer lots do not cover is taken from the older ones. -/
theorem takeBack_append (amount : Nat) (l m : List Lot) :
    takeBack amount (l ++ m) =
      if lotCoin l ≤ amount then takeBack (amount - lotCoin l) m else takeBack amount l ++ m := by
  induction l generalizing amount with
  | nil => simp [lotCoin]
  | cons lot older ih =>
    simp only [List.cons_append, takeBack, lotCoin, List.map_cons, List.sum_cons]
    by_cases covers : lot.coin ≤ amount
    · rw [if_pos covers, if_pos covers, ih, ← lotCoin]
      by_cases all : lotCoin older ≤ amount - lot.coin
      · rw [if_pos all, if_pos (by omega), Nat.sub_sub]
      · rw [if_neg all, if_neg (by omega)]
    · rw [if_neg covers, if_neg covers, if_neg (by omega)]
      rfl

/-- Nothing is left of lots that the amount uses up. -/
theorem takeBack_eq_nil {amount : Nat} {l : List Lot} (all : lotCoin l ≤ amount) :
    takeBack amount l = [] := by
  have whole := takeBack_append amount l []
  rw [List.append_nil, if_pos all] at whole
  exact whole

theorem lotCoin_takeBack (amount : Nat) (l : List Lot) :
    lotCoin (takeBack amount l) = lotCoin l - amount := by
  induction l generalizing amount with
  | nil => simp [takeBack, lotCoin]
  | cons lot older ih =>
    simp only [takeBack]
    split
    · rename_i covers
      rw [ih]
      simp only [lotCoin, List.map_cons, List.sum_cons]
      omega
    · simp only [lotCoin, List.map_cons, List.sum_cons]
      omega

/-- What is left of a lot came in with it. -/
theorem mem_takeBack {amount : Nat} {l : List Lot} {lot : Lot} (h : lot ∈ takeBack amount l) :
    ∃ whole ∈ l, lot.start = whole.start := by
  fun_induction takeBack amount l with
  | case1 => cases h
  | case2 amount first older covers ih =>
    obtain ⟨whole, hwhole, same⟩ := ih h
    exact ⟨whole, by simp [hwhole], same⟩
  | case3 amount first older covers =>
    rcases List.mem_cons.1 h with rfl | old
    · exact ⟨first, by simp, rfl⟩
    · exact ⟨lot, by simp [old], rfl⟩

/-- What is taken from a list of lots is taken from its newest ones, and only the rest from the lots
before them. -/
theorem takeBack_reverse (amount : Nat) (old new : List Lot) :
    ∃ kept, (takeBack amount (old ++ new).reverse).reverse =
        kept ++ (takeBack amount new.reverse).reverse ∧
      lotCoin kept = lotCoin old - (amount - lotCoin new) ∧
      ∀ lot ∈ kept, ∃ whole ∈ old, lot.start = whole.start := by
  rw [List.reverse_append, takeBack_append, lotCoin_reverse]
  by_cases all : lotCoin new ≤ amount
  · have none : takeBack amount new.reverse = [] := takeBack_eq_nil (by rwa [lotCoin_reverse])
    rw [if_pos all, none]
    refine ⟨(takeBack (amount - lotCoin new) old.reverse).reverse, by simp, ?_, fun lot hlot => ?_⟩
    · rw [lotCoin_reverse, lotCoin_takeBack, lotCoin_reverse]
    · obtain ⟨whole, hwhole, same⟩ := mem_takeBack (List.mem_reverse.1 hlot)
      exact ⟨whole, List.mem_reverse.1 hwhole, same⟩
  · rw [if_neg all]
    exact ⟨old, by simp, by omega, fun lot hlot => ⟨lot, hlot, rfl⟩⟩

/-! ## What a holding stands for -/

def Deposit.lot (d : Deposit) : Lot := ⟨d.start.count, d.coin.units⟩

/-- A sound holding stands for a history whose last lots are its deposits. Its stake stands for the
lots before them, all of which have matured. -/
structure Holding.Represents (window : Seconds) (h : Holding) (history : History) : Prop where
  sound : h.Sound window
  last_eq : history.last = h.queue.lastUpdate.count
  lots : ∃ old, history.lots = old ++ h.queue.deposits.map Deposit.lot ∧
    lotCoin old = h.bank.stake.units ∧
    ∀ lot ∈ old, lot.start + window.count ≤ h.queue.lastUpdate.count

/-- An answer of a holding beside that of the history: both refuse, or both succeed with results
that belong together. -/
inductive Alike {α β : Type} (R : α → β → Prop) : Except Failure α → Option β → Prop
  | both {a : α} {b : β} (h : R a b) : Alike R (.ok a) (some b)
  | neither (f : Failure) : Alike R (.error f) none

theorem lotCoin_map_lot (l : List Deposit) : lotCoin (l.map Deposit.lot) = coinOf l := by
  induction l with
  | nil => rfl
  | cons d l ih =>
    simp only [lotCoin, List.map_cons, List.sum_cons, coinOf] at ih ⊢
    rw [ih, Deposit.lot]

namespace History

theorem vested_append (window now : Int) (l m : List Lot) :
    vested window now (l ++ m) = vested window now l + vested window now m := by
  simp [vested]

/-- A lot that has matured counts for the whole window. -/
theorem vested_of_mature {window now : Int} {l : List Lot}
    (mature : ∀ lot ∈ l, lot.start + window ≤ now) :
    vested window now l = lotCoin l * window.toNat := by
  induction l with
  | nil => simp [vested, lotCoin]
  | cons lot l ih =>
    have first := mature lot (by simp)
    have rest := ih fun other h => mature other (by simp [h])
    have span : min window (now - lot.start) = window := by omega
    simp only [vested, lotCoin, List.map_cons, List.sum_cons, span] at rest ⊢
    rw [rest, Nat.add_mul]

/-- A deposit that is on its way counts for the time that it has been held. -/
theorem vested_of_running {window now : Seconds} {l : List Deposit}
    (running : ∀ d ∈ l, d.Running window now) :
    vested window.count now.count (l.map Deposit.lot) = coinSecondsOf now l := by
  induction l with
  | nil => rfl
  | cons d l ih =>
    have first := running d (by simp)
    have rest := ih fun e he => running e (by simp [he])
    have finish := first.finish_eq
    have unripe := first.unripe
    have span : min window.count (now.count - d.start.count) = now.count - d.start.count := by omega
    simp only [vested, List.map_cons, List.sum_cons, Deposit.lot, span] at rest ⊢
    rw [rest, ← Seconds.since_eq first.inReach]
    rfl

end History

/-- Taking from deposits is taking from lots. -/
theorem Vesting.takeFrom_lots {window now : Seconds} (amount total : Coin) (progress : Word128)
    {l : List Deposit} (running : ∀ d ∈ l, d.Running window now) :
    (takeFrom now amount total progress l).newestFirst.map Deposit.lot =
        takeBack amount.units (l.map Deposit.lot) ∧
      (takeFrom now amount total progress l).uncovered.units = amount.units - coinOf l := by
  fun_induction takeFrom now amount total progress l with
  | case1 amount => simp [takeBack, coinOf]
  | case2 amount total progress d older zero =>
    have none := Coin.isZero_iff.1 zero
    have some := (running d (by simp)).coin_pos
    have more : ¬d.coin.units ≤ 0 := by omega
    simp [takeBack, none, Deposit.lot, more]
  | case3 amount total progress d older some covers ih =>
    obtain ⟨lots, uncovered⟩ := ih fun e he => running e (by simp [he])
    rw [Coin.units_monus] at lots uncovered
    refine ⟨?_, by simp only [coinOf]; omega⟩
    rw [lots, List.map_cons, takeBack, if_pos (by exact covers)]
    rfl
  | case4 amount total progress d older some covers =>
    refine ⟨?_, by simp only [coinOf, Coin.units_zero]; omega⟩
    rw [List.map_cons, List.map_cons, takeBack, if_neg (by exact covers)]
    rfl

namespace Holding

variable {window : Seconds} {h h' : Holding} {history : History} {now : Seconds} {amount : Coin}

theorem represents_fresh (window : Seconds) (address : Address) (now : Seconds) :
    Represents window ⟨.empty address, .empty now⟩ ⟨[], now.count⟩ :=
  ⟨sound_fresh window address now, rfl, [], rfl, rfl, by simp⟩

namespace Represents

/-- The balance is the coin of all lots. -/
theorem sum_eq (r : h.Represents window history) : history.sum = h.bank.balance.units := by
  obtain ⟨old, lots, coin, -⟩ := r.lots
  rw [History.sum, lots, lotCoin_append, lotCoin_map_lot, coin, r.sound.balance_eq,
    r.sound.total_eq]

theorem advanced (r : h.Represents window history)
    (inTime : h.queue.lastUpdate.count ≤ now.count) (step : h.Advanced window now h') :
    h'.Represents window { history with last := now.count } := by
  obtain ⟨old, lots, coin, mature⟩ := r.lots
  obtain ⟨ripe, deposits, stake, finish⟩ := step.matured
  have last := step.lastUpdate_eq
  refine ⟨step.sound, by rw [last], old ++ ripe.map Deposit.lot, ?_, ?_, ?_⟩
  · simp [lots, deposits]
  · rw [lotCoin_append, lotCoin_map_lot, coin, stake]
  · intro lot hlot
    rw [last]
    rcases List.mem_append.1 hlot with old | new
    · exact Int.le_trans (mature lot old) inTime
    · obtain ⟨d, hd, rfl⟩ := List.mem_map.1 new
      have finish := finish d hd
      have finish_eq := (r.sound.running d (by simp [deposits, hd])).finish_eq
      simp only [Deposit.lot]
      omega

theorem credited (r : h.Represents window history)
    (inTime : h.queue.lastUpdate.count ≤ now.count) (step : h.Credited window amount now h') :
    h'.Represents window ⟨history.lots ++ [⟨now.count, amount.units⟩], now.count⟩ := by
  obtain ⟨current, finish, advanced, stake, deposits⟩ := step.deposited
  obtain ⟨old, lots, coin, mature⟩ := (r.advanced inTime advanced).lots
  have last := step.lastUpdate_eq
  refine ⟨step.sound, by rw [last], old, ?_, by rw [coin, stake], ?_⟩
  · dsimp only at lots ⊢
    rw [lots, deposits, List.map_append, List.append_assoc]
    rfl
  · rw [last, ← advanced.lastUpdate_eq]
    exact mature

theorem debited (r : h.Represents window history)
    (inTime : h.queue.lastUpdate.count ≤ now.count) (step : h.Debited window amount now h') :
    h'.Represents window ⟨(takeBack amount.units history.lots.reverse).reverse, now.count⟩ := by
  obtain ⟨current, t, advanced, rfl, deposits, stake⟩ := step.taken
  obtain ⟨old, lots, coin, mature⟩ := (r.advanced inTime advanced).lots
  have last := step.lastUpdate_eq
  rw [advanced.lastUpdate_eq] at mature
  have running : ∀ d ∈ current.queue.deposits.reverse, d.Running window now := by
    rw [← advanced.lastUpdate_eq]
    exact fun d hd => advanced.sound.running d (List.mem_reverse.1 hd)
  obtain ⟨left, uncovered⟩ := Vesting.takeFrom_lots amount current.queue.total
    current.queue.progress running
  obtain ⟨kept, split, kept_coin, whole⟩ := takeBack_reverse amount.units old
    (current.queue.deposits.map Deposit.lot)
  rw [lotCoin_map_lot] at kept_coin
  rw [coinOf_reverse] at uncovered
  -- What the deposits do not cover comes off the lots before them, as it comes off the stake.
  refine ⟨step.sound, by rw [last], kept, ?_, by omega, fun lot hlot => ?_⟩
  · dsimp only at lots ⊢
    rw [lots, split, deposits, List.map_reverse, left, List.map_reverse]
  · obtain ⟨lot', hlot', same⟩ := whole lot hlot
    rw [last, same]
    exact mature lot' hlot'

/-- A holding can be brought up to a time exactly if the history can. -/
theorem advance (r : h.Represents window history) (now : Seconds) :
    Alike (fun h' history' => h'.Represents window history' ∧ h'.bank.address = h.bank.address)
      (Vesting.advance h now) (history.advance now.count) := by
  unfold History.advance
  rw [r.last_eq]
  by_cases early : now.count < h.queue.lastUpdate.count
  · rw [if_pos early, Sound.advance_of_early early]
    exact .neither _
  · have inTime : h.queue.lastUpdate.count ≤ now.count := by omega
    obtain ⟨h', hadvance, advanced⟩ := r.sound.advance_eq_ok inTime
    rw [if_neg early, hadvance]
    exact .both ⟨r.advanced inTime advanced, advanced.address_eq⟩

/-- Coin can come in at a holding exactly if it can at the history. -/
theorem add {v : Vesting} (r : h.Represents v.window history) (pos : 0 < v.window.count)
    (amount : Coin) (now : Seconds) :
    Alike (fun h' history' => h'.Represents v.window history' ∧ h'.bank.address = h.bank.address)
      (v.add h amount now).result
      (history.deposit v.window.count amount.units now.count) := by
  unfold History.deposit
  rw [r.last_eq, r.sum_eq]
  have outcome := r.sound.add_cases pos amount now
  generalize v.add h amount now = attempt at outcome
  cases outcome with
  | nothing zero =>
    rw [if_pos (.inl zero)]
    exact .neither _
  | early some early =>
    rw [if_pos (.inr (.inl early))]
    exact .neither _
  | tooLarge some inTime large advanced =>
    rw [if_pos (by omega)]
    exact .neither _
  | credited some inTime fits room credited =>
    rw [if_neg (by omega)]
    exact .both ⟨r.credited inTime credited, credited.address_eq⟩

/-- Coin can go out at a holding exactly if it can at the history. -/
theorem withdraw (r : h.Represents window history) (amount : Coin) (now : Seconds) :
    Alike (fun h' history' => h'.Represents window history' ∧ h'.bank.address = h.bank.address)
      (Vesting.withdraw h amount now).result (history.withdraw amount.units now.count) := by
  unfold History.withdraw
  rw [r.last_eq, r.sum_eq]
  have outcome := r.sound.withdraw_cases amount now
  generalize Vesting.withdraw h amount now = attempt at outcome
  cases outcome with
  | nothing zero =>
    rw [if_pos (.inl zero)]
    exact .neither _
  | early some early =>
    rw [if_pos (.inr (.inl early))]
    exact .neither _
  | short some inTime short advanced =>
    rw [if_pos (.inr (.inr short))]
    exact .neither _
  | debited some inTime enough debited =>
    rw [if_neg (by omega)]
    exact .both ⟨r.debited inTime debited, debited.address_eq⟩

/-- The stake of a holding is that of the history: lots that have matured count in full, and the
coin-seconds of the others are what the queue has kept up. -/
theorem stakeAt {v : Vesting} (r : h.Represents v.window history) (pos : 0 < v.window.count)
    (now : Seconds) :
    Alike (fun (stake : Coin) share => stake.units = share) (v.stakeAt h.bank h.queue now)
      (history.stake v.window.count now.count) := by
  unfold History.stake
  rw [r.last_eq]
  by_cases early : now.count < h.queue.lastUpdate.count
  · rw [if_pos early, Sound.stakeAt_of_early early]
    exact .neither _
  · have inTime : h.queue.lastUpdate.count ≤ now.count := by omega
    obtain ⟨h', stake, advanced, hstake, units⟩ := r.sound.stakeAt_eq_ok pos inTime
    obtain ⟨old, lots, coin, mature⟩ := (r.advanced inTime advanced).lots
    have last := advanced.lastUpdate_eq
    subst last
    rw [if_neg early, hstake]
    refine .both ?_
    have window : 0 < v.window.count.toNat := by omega
    dsimp only at lots
    rw [units, lots, History.vested_append, History.vested_of_mature mature,
      History.vested_of_running advanced.sound.running, coin, advanced.sound.progress_eq,
      Nat.mul_comm, Nat.mul_add_div window]

end Represents

end Holding

end StakeLedger

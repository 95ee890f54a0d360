import StakeLedger.Proofs.Vesting.Sound

/-!
# Strict arithmetic

The numbers of a holding are bounded, and some of its differences stop at zero where they would be
negative. Here the operations are carried out once more, number by number, and strictly: a number
outside its range is no result, and neither is a difference below zero. A holding that came about by
operations on a fresh one never meets such a number, whatever is asked of it next and at whatever
time. So there the strict operations always have a result, and it is that of the operations.

## Main definitions

* `Vesting.Strict.advance`, `Vesting.Strict.stakeAt`, `Vesting.Strict.add`,
  `Vesting.Strict.withdraw` — the operations in strict arithmetic.
* `Vesting.Use`, `Vesting.perform`, `Vesting.performAll` — what is asked of a holding, once or again
  and again.
* `Vesting.Use.refusal?` — why a holding refuses what it is asked.

## Main statements

* `Vesting.Strict.advance_eq`, `Vesting.Strict.stakeAt_eq`, `Vesting.Strict.add_eq`,
  `Vesting.Strict.withdraw_eq` — on a sound holding strict arithmetic has the usual result.
* `Holding.Sound.perform_sound` — a use keeps a holding sound, and is refused for its reasons alone.
* `Vesting.performAll_strict` — all this holds after any uses of a fresh holding.
-/

namespace StakeLedger

/-! ## Strict differences and sums -/

/-- The difference of two times, unless it is out of range. -/
def Seconds.minus? (a b : Seconds) : Option Seconds := ofInt? (a.count - b.count)

/-- The difference of two words, unless the second is the larger. -/
def Word.minus? {limit : Nat} (a b : Word limit) : Option (Word limit) :=
  if b.val ≤ a.val then some (a.less b.val) else none

theorem Word.minus?_of_le {limit : Nat} {a b : Word limit} (h : b.val ≤ a.val) :
    a.minus? b = some (a.less b.val) := if_pos h

theorem Coin.minus?_of_le {a b : Coin} (h : b.units ≤ a.units) : a.minus? b = some (a.monus b) :=
  if_pos h

theorem Coin.exists_plus? {a b : Coin} (h : a.units + b.units < 0x10000000000000000) :
    ∃ c, a.plus? b = some c ∧ c.units = a.units + b.units :=
  ⟨⟨_, h⟩, Coin.plus?_eq_some_iff.2 rfl, rfl⟩

/-! ## The operations -/

namespace Vesting.Strict

/-- The seconds from `start` to `now` for each unit of `coin`. The time between fits in 64 bits and
is not negative, and the product fits in 128 bits. -/
def coinSeconds (coin : Coin) (start now : Seconds) : Option Word128 := do
  let span ← now.minus? start
  if span.count < 0 then none else Word.ofNat? (coin.units * span.count.toNat)

/-- Takes the deposits that have matured from the old end of a queue, adds up their coin and takes
their coin-seconds off `credit`. -/
def retire (last now : Seconds) (coin : Coin) (credit : Word128) : List Deposit → Option Settlement
  | [] => some ⟨[], coin, [], credit⟩
  | d :: rest =>
    if isMature now d then do
      let credit ← credit.minus? (← coinSeconds d.coin d.start last)
      let coin ← coin.plus? d.coin
      let s ← retire last now coin credit rest
      return { s with matured := d :: s.matured }
    else some ⟨[], coin, d :: rest, credit⟩

/-- What has matured by `now`, and the progress of the rest. -/
def settled (queue : PendingQueue) (now : Seconds) : Option Settlement := do
  let s ← retire queue.lastUpdate now .zero queue.progress queue.deposits
  if s.pending.isEmpty then return { s with progress := .zero128 }
  else
    let gained ← coinSeconds (← queue.total.minus? s.coin) queue.lastUpdate now
    let progress ← Word.ofNat? (s.progress.val + gained.val)
    return { s with progress }

end Vesting.Strict

/-- The refusal of a time before the last update. -/
def Holding.early? (h : Holding) (now : Seconds) : Option Failure :=
  if now.count < h.queue.lastUpdate.count then
    some (.timeRunsBack "settle stake" h.bank.address h.queue.lastUpdate now)
  else none

namespace Vesting.Strict

/-- The stake at `now`. -/
def stakeAt (v : Vesting) (h : Holding) (now : Seconds) : Option (Except Failure Coin) :=
  match h.early? now with
  | some f => some (.error f)
  | none => do
    let s ← settled h.queue now
    let share ← Coin.ofNat? (s.progress.val / v.window.count.toNat)
    let stake ← (← h.bank.stake.plus? s.coin).plus? share
    return .ok stake

/-- The holding brought up to `now`. -/
def advance (h : Holding) (now : Seconds) : Option (Except Failure Holding) :=
  match h.early? now with
  | some f => some (.error f)
  | none => do
    let s ← settled h.queue now
    let stake ← h.bank.stake.plus? s.coin
    let left ← h.queue.total.minus? s.coin
    let total := if s.pending.isEmpty then .zero else left
    return .ok ⟨{ h.bank with stake }, ⟨now, total, s.progress, s.pending⟩⟩

/-- Receives `amount` at `now`. Only the balance and the time by which the amount matures may turn
out too large. -/
def add (v : Vesting) (h : Holding) (amount : Coin) (now : Seconds) : Option Attempt :=
  if amount.isZero then some ⟨h, some (.invalidAmount "add coin" amount)⟩
  else do
    match ← advance h now with
    | .error f => return ⟨h, some f⟩
    | .ok current =>
      match current.bank.balance.plus? amount with
      | none => return ⟨current, some (.overflow "add coin")⟩
      | some balance =>
        let total ← current.queue.total.plus? amount
        match now.plus? v.window with
        | none => return ⟨current, some (.overflow "add coin")⟩
        | some finish =>
          let deposits := current.queue.deposits ++ [⟨now, finish, amount⟩]
          return ⟨⟨{ current.bank with balance }, { current.queue with total, deposits }⟩, none⟩

/-- Takes `amount` out of deposits listed newest first. -/
def takeFrom (now : Seconds) (amount total : Coin) (progress : Word128) :
    List Deposit → Option Taken
  | [] => some ⟨[], total, progress, amount⟩
  | d :: older =>
    if amount.isZero then some ⟨d :: older, total, progress, .zero⟩
    else if d.coin.units ≤ amount.units then do
      let progress ← progress.minus? (← coinSeconds d.coin d.start now)
      let total ← total.minus? d.coin
      let amount ← amount.minus? d.coin
      takeFrom now amount total progress older
    else do
      let progress ← progress.minus? (← coinSeconds amount d.start now)
      let total ← total.minus? amount
      let coin ← d.coin.minus? amount
      return ⟨{ d with coin } :: older, total, progress, .zero⟩

/-- Pays out `amount` at `now`. What the deposits do not cover the stake has to cover. -/
def withdraw (h : Holding) (amount : Coin) (now : Seconds) : Option Attempt :=
  if amount.isZero then some ⟨h, some (.invalidAmount "minus coin" amount)⟩
  else do
    match ← advance h now with
    | .error f => return ⟨h, some f⟩
    | .ok current =>
      match current.bank.balance.minus? amount with
      | none =>
        return ⟨current, some (.insufficientBalance "minus coin" current.bank.address amount
          current.bank.balance)⟩
      | some balance =>
        let taken ← takeFrom now amount current.queue.total current.queue.progress
          current.queue.deposits.reverse
        let stake ← current.bank.stake.minus? taken.uncovered
        return ⟨⟨{ current.bank with balance, stake }, taken.queue current.queue.lastUpdate⟩, none⟩

end Vesting.Strict

/-! ## Deposits that have matured -/

open Vesting

/-- The coin-seconds of a time that passed are exact. -/
theorem Vesting.Strict.exists_coinSeconds (coin : Coin) {start now : Seconds}
    (begun : start.count ≤ now.count) (near : now.InReach start) :
    ∃ w, Strict.coinSeconds coin start now = some w ∧
      w.val = StakeLedger.coinSeconds coin start now := by
  have span : now.minus? start = some ⟨now.count - start.count, near.1, near.2⟩ :=
    Seconds.ofInt?_eq_some_iff.2 rfl
  have upper := near.2
  have product : coin.units * (now.count - start.count).toNat <
      0x100000000000000000000000000000000 :=
    Nat.lt_of_lt_of_le (Nat.mul_lt_mul'' coin.units_lt
      (show (now.count - start.count).toNat < 0x8000000000000000 by omega)) (by decide)
  refine ⟨⟨_, product⟩, ?_, by rw [StakeLedger.coinSeconds, Seconds.since_eq near]⟩
  simp only [Strict.coinSeconds, span, Option.bind_eq_bind, Option.bind_some,
    if_neg (show ¬now.count - start.count < 0 by omega)]
  exact Word.ofNat?_eq_some_iff.2 rfl

/-- Running deposits can be retired, which takes their own coin-seconds off the credit. -/
theorem Vesting.Strict.exists_retire {window last : Seconds} (now : Seconds) {l : List Deposit}
    (running : ∀ d ∈ l, d.Running window last) (coin : Coin) (credit : Word128)
    (fits : coin.units + coinOf l < 0x10000000000000000)
    (covered : coinSecondsOf last l ≤ credit.val) :
    ∃ s, retire last now coin credit l = some s ∧ s.matured = l.takeWhile (isMature now) ∧
      s.pending = l.dropWhile (isMature now) ∧ s.coin.units = coin.units + coinOf s.matured ∧
      s.progress.val + coinSecondsOf last s.matured = credit.val := by
  induction l generalizing coin credit with
  | nil => exact ⟨_, rfl, rfl, rfl, rfl, rfl⟩
  | cons d rest ih =>
    by_cases ripe : isMature now d
    · simp only [coinOf] at fits
      simp only [coinSecondsOf] at covered
      have first := running d (by simp)
      obtain ⟨seconds, hseconds, seconds_eq⟩ :=
        exists_coinSeconds d.coin first.begun first.inReach
      obtain ⟨sum, hsum, sum_eq⟩ := Coin.exists_plus? (a := coin) (b := d.coin) (by omega)
      obtain ⟨s, hs, matured, pending, coin_eq, progress_eq⟩ :=
        ih (fun e he => running e (by simp [he])) sum (credit.less seconds.val)
          (by omega) (by rw [Word.val_less]; omega)
      rw [Word.val_less] at progress_eq
      refine ⟨{ s with matured := d :: s.matured }, ?_, ?_, ?_, ?_, ?_⟩
      · simp [retire, ripe, hseconds, Word.minus?_of_le (a := credit) (b := seconds) (by omega),
          hsum, hs]
      · simp [ripe, matured]
      · simp [ripe, pending]
      · simp only [coinOf]
        omega
      · simp only [coinSecondsOf]
        omega
    · exact ⟨⟨[], coin, d :: rest, credit⟩, by simp [retire, ripe], by simp [ripe],
        by simp [ripe], rfl, rfl⟩

/-- There is only one exact settlement. -/
theorem Settlement.Exact.unique {s t : Settlement} {l : List Deposit} {now : Seconds}
    (hs : s.Exact l now) (ht : t.Exact l now) : s = t := by
  have front {s : Settlement} (h : s.Exact l now) : s.matured = l.takeWhile (isMature now) := by
    have ripe : ∀ d ∈ s.matured, isMature now d = true := fun d hd => by
      simpa [isMature] using h.ripe d hd
    have unripe : s.pending.takeWhile (isMature now) = [] := by
      rcases hp : s.pending with _ | ⟨d, rest⟩
      · rfl
      · have later := h.unripe d (by simp [hp])
        exact List.takeWhile_cons_of_neg (by simpa [isMature] using later)
    rw [h.split, List.takeWhile_append_of_pos ripe, unripe, List.append_nil]
  have matured : s.matured = t.matured := (front hs).trans (front ht).symm
  have pending : s.pending = t.pending := by
    have both := hs.split.symm.trans ht.split
    rwa [matured, List.append_cancel_left_eq] at both
  have coin : s.coin = t.coin := Coin.ext (by rw [hs.coin_eq, ht.coin_eq, matured])
  have progress : s.progress = t.progress :=
    Word.ext (by rw [hs.progress_eq, ht.progress_eq, pending])
  cases s
  cases t
  simp_all

namespace Holding.Sound

variable {window : Seconds} {h : Holding} (sound : h.Sound window)
include sound

/-- A sound holding can be settled strictly. -/
theorem strict_settled_exact {now : Seconds} (inTime : h.queue.lastUpdate.count ≤ now.count) :
    ∃ s, Strict.settled h.queue now = some s ∧ s.Exact h.queue.deposits now := by
  have coins := sound.total_eq
  have seconds := sound.progress_eq
  have totalLt := h.queue.total.units_lt
  obtain ⟨s, hs, matured, pending, coin_eq, progress_eq⟩ :=
    Strict.exists_retire now sound.running .zero h.queue.progress
      (by rw [Coin.units_zero]; omega) (by omega)
  rw [Coin.units_zero, Nat.zero_add] at coin_eq
  have split : h.queue.deposits = s.matured ++ s.pending := by
    rw [matured, pending, List.takeWhile_append_dropWhile]
  have ripe : ∀ d ∈ s.matured, d.finish.count ≤ now.count := fun d hd => by
    rw [matured] at hd
    simpa [isMature] using List.mem_takeWhile_imp hd
  have unripe : ∀ d ∈ s.pending, now.count < d.finish.count := fun d hd => by
    rw [pending] at hd
    exact unripe_of_mem_dropWhile sound.ordered sound.running d hd
  rw [split, coinOf_append] at coins
  rw [split, coinSecondsOf_append] at seconds
  have older : ∀ d ∈ s.pending, d.Running window h.queue.lastUpdate := fun d hd =>
    sound.running d (split ▸ List.mem_append_right _ hd)
  have later : ∀ d ∈ s.pending, d.Running window now := fun d hd =>
    (older d hd).later inTime (unripe d hd)
  rcases hp : s.pending with _ | ⟨d, rest⟩
  · refine ⟨{ s with progress := .zero128 }, ?_, split, ripe, unripe, coin_eq, ?_⟩
    · simp [Strict.settled, hs, hp]
    · rw [hp]
      rfl
  · -- Some deposit is still pending, so less than a window has passed since the last update.
    have begun := (older d (by simp [hp])).begun
    have reach := (later d (by simp [hp])).inReach.2
    have left : h.queue.total.minus? s.coin = some (h.queue.total.monus s.coin) :=
      Coin.minus?_of_le (by omega)
    obtain ⟨gained, hgained, gained_eq⟩ := Strict.exists_coinSeconds
      (h.queue.total.monus s.coin) inTime ⟨by omega, by omega⟩
    have grown := coinSecondsOf_later inTime older later
    have bound := coinSecondsOf_lt later
      (show coinOf s.pending < 0x10000000000000000 by omega)
    have exact : s.progress.val + gained.val = coinSecondsOf now s.pending := by
      rw [gained_eq, coinSeconds, Coin.units_monus, grown]
      rw [show h.queue.total.units - s.coin.units = coinOf s.pending by omega]
      omega
    have progress : (Word.ofNat? (s.progress.val + gained.val) : Option Word128) =
        some ⟨coinSecondsOf now s.pending, bound⟩ := by
      rw [exact]
      exact Word.ofNat?_eq_some_iff.2 rfl
    refine ⟨{ s with progress := ⟨_, bound⟩ }, ?_, split, ripe, unripe, coin_eq, rfl⟩
    simp [Strict.settled, hs, hp, left, hgained, progress]

/-- Strictly or not, a sound holding is settled in the same way. -/
theorem settled_eq_strict {now : Seconds} (inTime : h.queue.lastUpdate.count ≤ now.count) :
    ∃ s, settled h.bank h.queue now = .ok s ∧ Strict.settled h.queue now = some s ∧
      s.Exact h.queue.deposits now := by
  obtain ⟨s, hs, exact⟩ := sound.settled_eq_ok inTime
  obtain ⟨t, ht, exact'⟩ := sound.strict_settled_exact inTime
  cases exact.unique exact'
  exact ⟨s, hs, ht, exact⟩

/-- What matures comes out of the coin of the queue, and what is left there covers the vested share
of the rest. -/
theorem coin_add_share_le {now : Seconds} (inTime : h.queue.lastUpdate.count ≤ now.count)
    {s : Settlement} (exact : s.Exact h.queue.deposits now) :
    s.coin.units + s.progress.val / window.count.toNat ≤ h.queue.total.units := by
  have running : ∀ d ∈ s.pending, d.Running window now := fun d hd =>
    (sound.running d (exact.split ▸ List.mem_append_right _ hd)).later inTime (exact.unripe d hd)
  have share : s.progress.val / window.count.toNat ≤ coinOf s.pending := by
    rw [exact.progress_eq]
    refine Nat.div_le_of_le_mul ?_
    rw [Nat.mul_comm]
    exact coinSecondsOf_le running
  have coins := sound.total_eq
  rw [exact.split, coinOf_append, ← exact.coin_eq] at coins
  omega

end Holding.Sound

/-! ## Strict operations -/

theorem Holding.early?_of_early {h : Holding} {now : Seconds}
    (early : now.count < h.queue.lastUpdate.count) :
    h.early? now = some (.timeRunsBack "settle stake" h.bank.address h.queue.lastUpdate now) :=
  if_pos early

theorem Holding.early?_of_inTime {h : Holding} {now : Seconds}
    (inTime : h.queue.lastUpdate.count ≤ now.count) : h.early? now = none :=
  if_neg (by omega)

namespace Vesting.Strict

variable {v : Vesting} {window : Seconds} {h : Holding}

theorem advance_eq (sound : h.Sound window) (now : Seconds) :
    Strict.advance h now = some (Vesting.advance h now) := by
  rw [Strict.advance]
  by_cases early : now.count < h.queue.lastUpdate.count
  · rw [Holding.early?_of_early early, Holding.Sound.advance_of_early early]
  have inTime : h.queue.lastUpdate.count ≤ now.count := by omega
  obtain ⟨s, plain, strict, exact⟩ := sound.settled_eq_strict inTime
  have room := Nat.le_of_add_right_le (sound.coin_add_share_le inTime exact)
  have balance := sound.balance_eq
  have balanceLt := h.bank.balance.units_lt
  obtain ⟨stake, hstake, -⟩ := Coin.exists_plus? (a := h.bank.stake) (b := s.coin) (by omega)
  have left := Coin.minus?_of_le (a := h.queue.total) (b := s.coin) (by omega)
  simp [Holding.early?_of_inTime inTime, Vesting.advance, plain, strict, hstake, left, bind,
    Except.bind, pure, Except.pure]

theorem stakeAt_eq (sound : h.Sound v.window) (pos : 0 < v.window.count) (now : Seconds) :
    Strict.stakeAt v h now = some (v.stakeAt h.bank h.queue now) := by
  rw [Strict.stakeAt]
  by_cases early : now.count < h.queue.lastUpdate.count
  · rw [Holding.early?_of_early early, Holding.Sound.stakeAt_of_early early]
  have inTime : h.queue.lastUpdate.count ≤ now.count := by omega
  obtain ⟨s, plain, strict, exact⟩ := sound.settled_eq_strict inTime
  have room := sound.coin_add_share_le inTime exact
  have matured := Nat.le_of_add_right_le room
  have balance := sound.balance_eq
  have balanceLt := h.bank.balance.units_lt
  have share : Coin.ofNat? (s.progress.val / v.window.count.toNat) =
      some ⟨s.progress.val / v.window.count.toNat, by omega⟩ := Coin.ofNat?_eq_some_iff.2 rfl
  obtain ⟨sum, hsum, sum_eq⟩ := Coin.exists_plus? (a := h.bank.stake) (b := s.coin) (by omega)
  have divides : v.divisor ≠ 0 := by
    rw [divisor_eq pos]
    omega
  have fits : Coin.ofNat? (h.bank.stake.units + s.coin.units + s.progress.val / v.divisor) =
      sum.plus? ⟨s.progress.val / v.window.count.toNat, by omega⟩ := by
    rw [Coin.plus?, sum_eq, divisor_eq pos]
  obtain ⟨stake, hstake, -⟩ := Coin.exists_plus? (a := sum)
    (b := ⟨s.progress.val / v.window.count.toNat, by omega⟩) (by dsimp only; omega)
  simp [Holding.early?_of_inTime inTime, Vesting.stakeAt, plain, strict, share, hsum, divides, fits,
    hstake, bind, Except.bind]

/-- Running deposits that hold the total and the progress cover all that is taken from them. -/
theorem takeFrom_eq {now : Seconds} (amount : Coin) {total : Coin} {progress : Word128}
    {l : List Deposit} (running : ∀ d ∈ l, d.Running window now)
    (htotal : total.units = coinOf l) (hprogress : progress.val = coinSecondsOf now l) :
    Strict.takeFrom now amount total progress l =
      some (Vesting.takeFrom now amount total progress l) := by
  have upper := window.upper
  fun_induction Vesting.takeFrom now amount total progress l with
  | case1 amount total progress => rfl
  | case2 amount total progress d older zero => simp [Strict.takeFrom, zero]
  | case3 amount total progress d older some covers ih =>
    simp only [coinOf] at htotal
    simp only [coinSecondsOf] at hprogress
    have first := running d (by simp)
    obtain ⟨seconds, hseconds, seconds_eq⟩ :=
      exists_coinSeconds d.coin first.begun first.inReach
    have rest := ih (fun e he => running e (by simp [he])) (by rw [Coin.units_monus]; omega)
      (by rw [Word.val_less]; omega)
    rw [Strict.takeFrom, if_neg some, if_pos covers, hseconds, ← rest, ← seconds_eq]
    simp [Word.minus?_of_le (a := progress) (b := seconds) (by omega),
      Coin.minus?_of_le (a := total) (b := d.coin) (by omega), Coin.minus?_of_le covers]
  | case4 amount total progress d older some covers =>
    simp only [coinOf] at htotal
    simp only [coinSecondsOf] at hprogress
    have first := running d (by simp)
    obtain ⟨seconds, hseconds, seconds_eq⟩ :=
      exists_coinSeconds amount first.begun first.inReach
    have part : amount.units * now.since d.start ≤ d.coin.units * now.since d.start :=
      Nat.mul_le_mul_right _ (by omega)
    rw [StakeLedger.coinSeconds] at hprogress seconds_eq
    rw [Strict.takeFrom, if_neg some, if_neg covers, hseconds, StakeLedger.coinSeconds,
      ← seconds_eq]
    simp [Word.minus?_of_le (a := progress) (b := seconds) (by omega),
      Coin.minus?_of_le (a := total) (b := amount) (by omega),
      Coin.minus?_of_le (a := d.coin) (b := amount) (by omega)]

theorem add_eq (sound : h.Sound v.window) (amount : Coin) (now : Seconds) :
    Strict.add v h amount now = some (v.add h amount now) := by
  rw [Strict.add, Vesting.add]
  by_cases zero : amount.isZero
  · rw [if_pos zero, if_pos zero]
  rw [if_neg zero, if_neg zero, advance_eq sound]
  by_cases early : now.count < h.queue.lastUpdate.count
  · rw [Holding.Sound.advance_of_early early]
    rfl
  have inTime : h.queue.lastUpdate.count ≤ now.count := by omega
  obtain ⟨current, hcurrent, advanced⟩ := sound.advance_eq_ok inTime
  rw [hcurrent]
  cases hbalance : current.bank.balance.plus? amount with
  | none => simp [hbalance]
  | some balance =>
    -- The total is part of the balance, so it has room for what the balance has room for.
    have units := Coin.plus?_eq_some_iff.1 hbalance
    have part := advanced.sound.balance_eq
    have balanceLt := balance.units_lt
    obtain ⟨total, htotal, -⟩ :=
      Coin.exists_plus? (a := current.queue.total) (b := amount) (by omega)
    cases now.plus? v.window <;> simp [hbalance, htotal]

theorem withdraw_eq (sound : h.Sound window) (amount : Coin) (now : Seconds) :
    Strict.withdraw h amount now = some (Vesting.withdraw h amount now) := by
  rw [Strict.withdraw, Vesting.withdraw]
  by_cases zero : amount.isZero
  · rw [if_pos zero, if_pos zero]
  rw [if_neg zero, if_neg zero, advance_eq sound]
  by_cases early : now.count < h.queue.lastUpdate.count
  · rw [Holding.Sound.advance_of_early early]
    rfl
  have inTime : h.queue.lastUpdate.count ≤ now.count := by omega
  obtain ⟨current, hcurrent, advanced⟩ := sound.advance_eq_ok inTime
  rw [hcurrent]
  cases hbalance : current.bank.balance.minus? amount with
  | none => simp [hbalance]
  | some balance =>
    have last := advanced.lastUpdate_eq
    subst last
    have units := Coin.minus?_eq_some_iff.1 hbalance
    have taken := takeFrom_eq amount
      (fun d hd => advanced.sound.running d (List.mem_reverse.1 hd))
      (advanced.sound.total_eq.trans (coinOf_reverse _).symm)
      (advanced.sound.progress_eq.trans (coinSecondsOf_reverse _ _).symm)
    have covered := advanced.sound.uncovered_le (by omega) (advanced.sound.takeFrom_exact amount)
    simp [hbalance, taken, Coin.minus?_of_le covered]

end Vesting.Strict

/-! ## Uses of a holding -/

namespace Vesting

/-- What can be asked of a holding. -/
inductive Use where
  | add (amount : Coin) (now : Seconds)
  | withdraw (amount : Coin) (now : Seconds)
  | advance (now : Seconds)

/-- A holding brought up to date, or left as it was. -/
def Attempt.ofExcept (h : Holding) : Except Failure Holding → Attempt
  | .ok h' => ⟨h', none⟩
  | .error f => ⟨h, some f⟩

def perform (v : Vesting) (h : Holding) : Use → Attempt
  | .add amount now => v.add h amount now
  | .withdraw amount now => withdraw h amount now
  | .advance now => .ofExcept h (advance h now)

def Strict.perform (v : Vesting) (h : Holding) : Use → Option Attempt
  | .add amount now => Strict.add v h amount now
  | .withdraw amount now => Strict.withdraw h amount now
  | .advance now => (Strict.advance h now).map (.ofExcept h)

/-- The holding after uses one after another. One that is refused may have brought it up to date. -/
def performAll (v : Vesting) (h : Holding) : List Use → Holding
  | [] => h
  | use :: rest => v.performAll (v.perform h use).after rest

/-- Why a holding refuses a use, if it does: no coin moves, time runs back, the holding would have
too much coin or has too little, or the time by which the coin is to mature is out of range. -/
def Use.refusal? (v : Vesting) (h : Holding) : Use → Option Failure
  | .add amount now =>
    if amount.units = 0 then some (.invalidAmount "add coin" amount)
    else (h.early? now).or <|
      if 2 ^ 64 - 1 < h.bank.balance.units + amount.units ∨
          2 ^ 63 - 1 < now.count + v.window.count then
        some (.overflow "add coin")
      else none
  | .withdraw amount now =>
    if amount.units = 0 then some (.invalidAmount "minus coin" amount)
    else (h.early? now).or <|
      if h.bank.balance.units < amount.units then
        some (.insufficientBalance "minus coin" h.bank.address amount h.bank.balance)
      else none
  | .advance now => h.early? now

end Vesting

/-- The holding with everything paid out at `now`. -/
def Holding.emptied (h : Holding) (now : Seconds) : Holding :=
  ⟨{ h.bank with balance := .zero, stake := .zero }, .empty now⟩

namespace Holding.Sound

variable {v : Vesting} {h : Holding}

/-- A use keeps a holding sound, and it is refused for its reasons alone. -/
theorem perform_sound (sound : h.Sound v.window) (pos : 0 < v.window.count) (use : Use) :
    (v.perform h use).after.Sound v.window ∧ (v.perform h use).failure = use.refusal? v h := by
  cases use with
  | add amount now =>
    have outcome := sound.add_cases pos amount now
    rw [perform, Use.refusal?]
    generalize v.add h amount now = attempt at outcome
    cases outcome with
    | nothing zero => exact ⟨sound, by rw [if_pos zero]⟩
    | early pos early =>
      exact ⟨sound, by rw [if_neg (by omega), early?_of_early early, Option.some_or]⟩
    | tooLarge pos inTime large advanced =>
      refine ⟨advanced.sound, ?_⟩
      rw [if_neg (by omega), early?_of_inTime inTime, Option.none_or, if_pos (by omega)]
    | credited pos inTime fits room credited =>
      refine ⟨credited.sound, ?_⟩
      rw [if_neg (by omega), early?_of_inTime inTime, Option.none_or, if_neg (by omega)]
  | withdraw amount now =>
    have outcome := sound.withdraw_cases amount now
    rw [perform, Use.refusal?]
    generalize withdraw h amount now = attempt at outcome
    cases outcome with
    | nothing zero => exact ⟨sound, by rw [if_pos zero]⟩
    | early pos early =>
      exact ⟨sound, by rw [if_neg (by omega), early?_of_early early, Option.some_or]⟩
    | short pos inTime short advanced =>
      refine ⟨advanced.sound, ?_⟩
      rw [if_neg (by omega), early?_of_inTime inTime, Option.none_or, if_pos short]
    | debited pos inTime enough debited =>
      refine ⟨debited.sound, ?_⟩
      rw [if_neg (by omega), early?_of_inTime inTime, Option.none_or, if_neg (by omega)]
  | advance now =>
    rw [perform, Use.refusal?]
    by_cases early : now.count < h.queue.lastUpdate.count
    · rw [advance_of_early early, early?_of_early early]
      exact ⟨sound, rfl⟩
    · have inTime : h.queue.lastUpdate.count ≤ now.count := by omega
      obtain ⟨h', hadvance, advanced⟩ := sound.advance_eq_ok inTime
      rw [hadvance, early?_of_inTime inTime]
      exact ⟨advanced.sound, rfl⟩

theorem performAll (sound : h.Sound v.window) (pos : 0 < v.window.count) (uses : List Use) :
    (v.performAll h uses).Sound v.window := by
  induction uses generalizing h with
  | nil => exact sound
  | cons use rest ih => exact ih (sound.perform_sound pos use).1

theorem strict_perform (sound : h.Sound v.window) (use : Use) :
    Strict.perform v h use = some (v.perform h use) := by
  cases use with
  | add amount now => exact Strict.add_eq sound amount now
  | withdraw amount now => exact Strict.withdraw_eq sound amount now
  | advance now => rw [Strict.perform, Strict.advance_eq sound, Option.map_some, perform]

/-- The stake can be told at any time that does not run back. -/
theorem stakeAt_error_iff (sound : h.Sound v.window) (pos : 0 < v.window.count) (now : Seconds)
    (f : Failure) : v.stakeAt h.bank h.queue now = .error f ↔ h.early? now = some f := by
  by_cases early : now.count < h.queue.lastUpdate.count
  · rw [stakeAt_of_early early, early?_of_early early]
    simp
  · have inTime : h.queue.lastUpdate.count ≤ now.count := by omega
    obtain ⟨-, stake, -, hstake, -⟩ := sound.stakeAt_eq_ok pos inTime
    rw [hstake, early?_of_inTime inTime]
    simp

/-- A sound holding without coin is empty. -/
theorem eq_emptied {window : Seconds} (sound : h.Sound window) (none : h.bank.balance.units = 0) :
    h = h.emptied h.queue.lastUpdate := by
  have balance_eq := sound.balance_eq
  have coins := sound.total_eq
  have deposits : h.queue.deposits = [] := by
    have few := length_le_coinOf fun d hd => (sound.running d hd).coin_pos
    exact List.length_eq_zero_iff.1 (by omega)
  have seconds := sound.progress_eq
  rw [deposits, coinSecondsOf] at seconds
  obtain ⟨⟨address, balance, stake, owner⟩, ⟨last, total, progress, list⟩⟩ := h
  simp only [emptied, PendingQueue.empty, Holding.mk.injEq, Bank.mk.injEq, PendingQueue.mk.injEq,
    true_and, and_true]
  dsimp only at none balance_eq deposits seconds
  exact ⟨⟨Coin.ext none, Coin.ext (by rw [Coin.units_zero]; omega)⟩,
    Coin.ext (by rw [Coin.units_zero]; omega), Word.ext seconds, deposits⟩

/-- All that a holding has can be paid out, and nothing stays. -/
theorem withdraw_all {window : Seconds} (sound : h.Sound window) {now : Seconds}
    (inTime : h.queue.lastUpdate.count ≤ now.count) (some : 0 < h.bank.balance.units) :
    withdraw h h.bank.balance now = ⟨h.emptied now, none⟩ := by
  have outcome := sound.withdraw_cases h.bank.balance now
  generalize withdraw h h.bank.balance now = attempt at outcome
  cases outcome with
  | nothing | early | short => omega
  | @debited _ _ _ h' debited =>
    have left := debited.balance_eq
    have empty := debited.sound.eq_emptied (by omega)
    rw [empty, debited.lastUpdate_eq]
    simp only [emptied, debited.address_eq, debited.owner_eq]

end Holding.Sound

/-- Strict arithmetic is all that a holding needs. However a fresh holding has been used, at
whatever times and with whatever amounts, the next use and the next question for the stake have a
strict result, which is the usual one. A use is refused exactly for its reasons, and a question
exactly for a time that runs back. All that the holding has can be paid out at once, and a holding
without coin is empty. -/
theorem Vesting.performAll_strict (v : Vesting) (pos : 0 < v.window.count) (address : Address)
    (opened : Seconds) (uses : List Use) :
    let h := v.performAll ⟨.empty address, .empty opened⟩ uses
    (∀ use, Strict.perform v h use = some (v.perform h use) ∧
      (v.perform h use).failure = use.refusal? v h) ∧
    (∀ now, Strict.stakeAt v h now = some (v.stakeAt h.bank h.queue now) ∧
      ∀ f, v.stakeAt h.bank h.queue now = .error f ↔ h.early? now = some f) ∧
    (∀ now, h.queue.lastUpdate.count ≤ now.count → 0 < h.bank.balance.units →
      v.perform h (.withdraw h.bank.balance now) = ⟨h.emptied now, none⟩) ∧
    (h.bank.balance.units = 0 → h = h.emptied h.queue.lastUpdate) := by
  intro h
  have sound : h.Sound v.window :=
    (Holding.sound_fresh v.window address opened).performAll pos uses
  refine ⟨fun use => ⟨sound.strict_perform use, (sound.perform_sound pos use).2⟩, fun now => ?_,
    fun now inTime some => sound.withdraw_all inTime some, sound.eq_emptied⟩
  exact ⟨Strict.stakeAt_eq sound pos now, sound.stakeAt_error_iff pos now⟩

/-- Over a window of one week, 5 and 3 come in ten seconds apart. Ten seconds later the 8 can be
paid out at once, but a 9 cannot, and the stake before the second deposit is no longer told. -/
theorem Vesting.performAll_strict_week :
    let v : Vesting := ⟨⟨604800, by decide, by decide⟩⟩
    let x : Address := ⟨"x", by decide⟩
    let second : Seconds := ⟨10, by decide, by decide⟩
    let before : Seconds := ⟨9, by decide, by decide⟩
    let later : Seconds := ⟨20, by decide, by decide⟩
    let h := v.performAll ⟨.empty x, .empty .zero⟩
      [.add ⟨5, by decide⟩ .zero, .add ⟨3, by decide⟩ second]
    0 < v.window.count ∧ h.bank.balance.units = 8 ∧ h.queue.progress.val = 50 ∧
      v.perform h (.withdraw h.bank.balance later) = ⟨h.emptied later, none⟩ ∧
      (v.perform h (.withdraw ⟨9, by decide⟩ later)).failure =
        some (.insufficientBalance "minus coin" x ⟨9, by decide⟩ ⟨8, by decide⟩) ∧
      v.stakeAt h.bank h.queue before = .error (.timeRunsBack "settle stake" x second before) := by
  intro v x second before later h
  have pos : 0 < v.window.count := by decide
  have strict := performAll_strict v pos x .zero
    [.add ⟨5, by decide⟩ .zero, .add ⟨3, by decide⟩ second]
  have balance : h.bank.balance.units = 8 := by decide
  have late : h.queue.lastUpdate.count ≤ later.count := by decide
  have refused : Use.refusal? v h (.withdraw ⟨9, by decide⟩ later) =
      some (.insufficientBalance "minus coin" x ⟨9, by decide⟩ ⟨8, by decide⟩) := by decide
  have early : h.early? before = some (.timeRunsBack "settle stake" x second before) := by decide
  have progress : h.queue.progress.val = 50 := by decide
  extract_lets at strict
  clear_value h -- the uses are not to be carried out again
  obtain ⟨uses, stakes, all, -⟩ := strict
  exact ⟨pos, balance, progress, all later late (by omega), (uses _).2.trans refused,
    ((stakes before).2 _).2 early⟩

end StakeLedger

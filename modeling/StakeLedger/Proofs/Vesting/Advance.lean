import StakeLedger.Proofs.Vesting.Split

/-!
# Holdings brought up to date

A holding can be brought up to date whenever somebody looks at it, and whether that was done does
not show. To do it twice at one time is to do it once, and the stake at that time is the same before
and after. This needs no sound holding: what has matured leaves the front of the queue, so nothing
at the front has matured any more, and no time has passed for the rest.

A sound holding can moreover be brought up to date at any times in between. What is left of the
queue depends on the last time alone, and the queue and the balance determine all the rest.
-/

namespace StakeLedger

namespace Vesting

variable {h h' : Holding} {now : Seconds}

/-! ## Holdings of any kind -/

/-- When a queue of any kind can be settled, and what comes of it. -/
theorem settled_eq_ok_iff {bank : Bank} {queue : PendingQueue} {s : Settlement} :
    settled bank queue now = .ok s ↔
      queue.lastUpdate.count ≤ now.count ∧
      s.matured = queue.deposits.takeWhile (isMature now) ∧
      s.pending = queue.deposits.dropWhile (isMature now) ∧
      s.coin.units = coinOf s.matured ∧
      s.progress.val =
        if s.pending.isEmpty then 0
        else queue.progress.val - coinSecondsOf queue.lastUpdate s.matured +
          (queue.total.units - s.coin.units) * now.since queue.lastUpdate := by
  obtain ⟨matured, coin, pending, progress⟩ := s
  unfold settled
  by_cases early : now.count < queue.lastUpdate.count
  · rw [if_pos early]
    exact iff_of_false nofun fun h => by omega
  rw [if_neg early]
  dsimp only
  constructor
  · intro settle
    split at settle
    · cases settle
    · rename_i sum hsum
      have hsum := Coin.ofNat?_eq_some_iff.1 hsum
      split at settle
      · rename_i none
        cases settle
        exact ⟨by omega, rfl, (List.isEmpty_iff.1 none).symm, hsum, rfl⟩
      · rename_i rest
        split at settle
        · cases settle
        · rename_i reached hreached
          have hreached := Word.ofNat?_eq_some_iff.1 hreached
          cases settle
          rw [val_foldl_less] at hreached
          exact ⟨by omega, rfl, rfl, hsum, by rw [if_neg rest]; exact hreached⟩
  · rintro ⟨-, rfl, rfl, hcoin, hprogress⟩
    rw [Coin.ofNat?_eq_some_iff.2 hcoin]
    dsimp only
    split
    · rename_i none
      rw [if_pos none] at hprogress
      rw [List.isEmpty_iff.1 none, show progress = .zero128 from Word.ext hprogress]
    · rename_i rest
      rw [if_neg rest] at hprogress
      rw [val_foldl_less, coinSeconds, Coin.units_monus, ← hprogress, Word.ofNat?_val]

/-- What bringing a holding of any kind up to date comes to, where that succeeds. -/
theorem advance_eq_ok_iff :
    advance h now = .ok h' ↔
      ∃ s stake, settled h.bank h.queue now = .ok s ∧ h.bank.stake.plus? s.coin = some stake ∧
        h' = ⟨{ h.bank with stake },
          ⟨now, if s.pending.isEmpty then .zero else h.queue.total.monus s.coin, s.progress,
            s.pending⟩⟩ := by
  constructor
  · intro run
    unfold advance at run
    cases settle : settled h.bank h.queue now with
    | error f =>
      rw [settle] at run
      cases run
    | ok s =>
      simp only [settle, bind, Except.bind] at run
      split at run
      · cases run
      · rename_i stake sum
        cases run
        exact ⟨s, stake, rfl, sum, rfl⟩
  · rintro ⟨s, stake, settle, sum, rfl⟩
    simp only [advance, settle, bind, Except.bind, sum]
    rfl

/-- Bringing any holding up to date leaves the coin, and whose it is. -/
theorem advance_keeps (h : Holding) (run : advance h now = .ok h') :
    h'.bank.address = h.bank.address ∧ h'.bank.owner = h.bank.owner ∧
      h'.bank.balance = h.bank.balance ∧
      h'.queue.deposits = h.queue.deposits.dropWhile (isMature now) := by
  obtain ⟨s, stake, settle, -, rfl⟩ := advance_eq_ok_iff.1 run
  exact ⟨rfl, rfl, rfl, (settled_eq_ok_iff.1 settle).2.2.1⟩

end Vesting

open Vesting

/-- A holding with nothing to settle at `now`: it is counted to that time, its oldest deposit has
not matured, and a queue without deposits is empty. -/
structure Holding.UpToDate (h : Holding) (now : Seconds) : Prop where
  lastUpdate_eq : h.queue.lastUpdate = now
  unripe : ∀ d ∈ h.queue.deposits.head?, now.count < d.finish.count
  bare : h.queue.deposits = [] → h.queue = .empty now

namespace Holding.UpToDate

variable {h h' : Holding} {now : Seconds}

/-- Whatever holding is brought up to date, it is up to date then. -/
theorem of_advance (run : advance h now = .ok h') : h'.UpToDate now := by
  obtain ⟨s, stake, settle, -, rfl⟩ := advance_eq_ok_iff.1 run
  obtain ⟨-, -, pending, -, progress⟩ := settled_eq_ok_iff.1 settle
  refine ⟨rfl, fun d hd => ?_, fun none => ?_⟩
  · have first := List.head?_dropWhile_not (isMature now) h.queue.deposits
    dsimp only at hd
    rw [← pending, Option.mem_def.1 hd] at first
    simpa [isMature] using first
  · dsimp only at none
    have nothing : s.progress = .zero128 := Word.ext (progress.trans (by rw [none]; rfl))
    simp [PendingQueue.empty, none, nothing]

/-- Nothing has matured, and no time has passed. -/
theorem settled_eq (current : h.UpToDate now) :
    settled h.bank h.queue now = .ok ⟨[], .zero, h.queue.deposits, h.queue.progress⟩ := by
  obtain ⟨last, unripe, bare⟩ := current
  have front : h.queue.deposits.takeWhile (isMature now) = [] ∧
      h.queue.deposits.dropWhile (isMature now) = h.queue.deposits := by
    cases hd : h.queue.deposits with
    | nil => exact ⟨rfl, rfl⟩
    | cons d rest =>
      have pending : ¬isMature now d := by simpa [isMature] using unripe d (by simp [hd])
      exact ⟨List.takeWhile_cons_of_neg pending, List.dropWhile_cons_of_neg pending⟩
  refine settled_eq_ok_iff.2 ⟨last ▸ le_rfl, front.1.symm, front.2.symm, rfl, ?_⟩
  dsimp only
  split_ifs with none
  · rw [bare (List.isEmpty_iff.1 none)]
    rfl
  · simp [coinSecondsOf, last]

/-- To bring a holding up to date that is so already changes nothing. -/
theorem advance_eq (current : h.UpToDate now) : advance h now = .ok h := by
  refine advance_eq_ok_iff.2 ⟨_, h.bank.stake, current.settled_eq, Coin.plus?_eq_some_iff.2 rfl, ?_⟩
  obtain ⟨bank, queue⟩ := h
  obtain ⟨last, -, bare⟩ := current
  dsimp only at last bare ⊢
  split_ifs with none
  · rw [bare (List.isEmpty_iff.1 none)]
    rfl
  · rw [← last]
    rfl

end Holding.UpToDate

namespace Vesting

variable {v : Vesting} {h h' : Holding} {now later : Seconds}

/-- To bring a holding up to date twice at one time is to do it once. -/
theorem advance_of_advance (run : advance h now = .ok h') : advance h' now = .ok h' :=
  (Holding.UpToDate.of_advance run).advance_eq

/-- A withdrawal from a holding that is not up to date is one from the holding brought up to date.
-/
theorem withdraw_of_advance {amount : Coin} (some : 0 < amount.units)
    (run : advance h now = .ok h') : withdraw h' amount now = withdraw h amount now := by
  have nonzero : ¬amount.isZero := by
    rw [Coin.isZero_iff]
    omega
  rw [withdraw, withdraw, if_neg nonzero, if_neg nonzero, run, advance_of_advance run]

/-- The stake at a time is the same before and after a holding is brought up to that time. -/
theorem stakeAt_of_advance (run : advance h now = .ok h') :
    v.stakeAt h'.bank h'.queue now = v.stakeAt h.bank h.queue now := by
  obtain ⟨s, stake, settle, sum, same⟩ := advance_eq_ok_iff.1 run
  simp only [stakeAt, settle, (Holding.UpToDate.of_advance run).settled_eq, bind, Except.bind]
  subst same
  simp only [Coin.plus?_eq_some_iff.1 sum, Coin.units_zero, Nat.add_zero]

/-- What has not matured by some time has not matured before. -/
theorem dropWhile_isMature (l : List Deposit) (inTime : now.count ≤ later.count) :
    (l.dropWhile (isMature now)).dropWhile (isMature later) = l.dropWhile (isMature later) := by
  induction l with
  | nil => rfl
  | cons d l ih =>
    by_cases ripe : isMature now d
    · have riper : isMature later d := by
        simp only [isMature, decide_eq_true_eq] at ripe ⊢
        omega
      rw [List.dropWhile_cons_of_pos ripe, List.dropWhile_cons_of_pos riper, ih]
    · rw [List.dropWhile_cons_of_neg ripe]

end Vesting

/-! ## Sound holdings -/

/-- A sound holding is determined by its balance, its deposits, and whose it is. -/
theorem Holding.Sound.eq_of_deposits {window : Seconds} {h k : Holding} (left : h.Sound window)
    (right : k.Sound window) (address : h.bank.address = k.bank.address)
    (owner : h.bank.owner = k.bank.owner) (balance : h.bank.balance = k.bank.balance)
    (last : h.queue.lastUpdate = k.queue.lastUpdate)
    (deposits : h.queue.deposits = k.queue.deposits) : h = k := by
  have total : h.queue.total = k.queue.total :=
    Coin.ext (by rw [left.total_eq, right.total_eq, deposits])
  have progress : h.queue.progress = k.queue.progress :=
    Word.ext (by rw [left.progress_eq, right.progress_eq, deposits, last])
  have stake : h.bank.stake = k.bank.stake := by
    have there := left.balance_eq
    rw [balance, total, right.balance_eq] at there
    exact Coin.ext (by omega)
  obtain ⟨⟨_, _, _, _⟩, ⟨_, _, _, _⟩⟩ := h
  obtain ⟨⟨_, _, _, _⟩, ⟨_, _, _, _⟩⟩ := k
  simp_all

/-- A sound holding can be brought up to date by way of any time in between. -/
theorem Holding.Sound.advance_trans {window : Seconds} {h : Holding} (sound : h.Sound window)
    {between later : Seconds} (inTime : h.queue.lastUpdate.count ≤ between.count)
    (ordered : between.count ≤ later.count) :
    ∃ first last, advance h between = .ok first ∧ advance first later = .ok last ∧
      advance h later = .ok last := by
  obtain ⟨first, hfirst, there⟩ := sound.advance_eq_ok inTime
  obtain ⟨last, hlast, onward⟩ :=
    there.sound.advance_eq_ok (there.lastUpdate_eq ▸ ordered)
  obtain ⟨direct, hdirect, whole⟩ := sound.advance_eq_ok (inTime.trans ordered)
  have deposits : direct.queue.deposits = last.queue.deposits := by
    rw [(advance_keeps _ hdirect).2.2.2, (advance_keeps _ hlast).2.2.2,
      (advance_keeps _ hfirst).2.2.2, dropWhile_isMature _ ordered]
  have same : direct = last := by
    refine whole.sound.eq_of_deposits onward.sound ?_ ?_ ?_ ?_ deposits
    · rw [whole.address_eq, onward.address_eq, there.address_eq]
    · rw [whole.owner_eq, onward.owner_eq, there.owner_eq]
    · rw [whole.balance_eq, onward.balance_eq, there.balance_eq]
    · rw [whole.lastUpdate_eq, onward.lastUpdate_eq]
  exact ⟨first, last, hfirst, hlast, same ▸ hdirect⟩

/-- Bringing a holding up to date does not show. A holding that uses of a fresh one led to can be
brought up to any time that does not run back, and from there to a later one: this leaves every part
of it as it is when brought up to the later time at once, and the stake at the later time is told
as before. A holding of any kind that has been brought up to date stays as it is when that is done
once more, and the stake at that time is told, or refused, as before. -/
theorem Vesting.advance_unobservable (v : Vesting) (pos : 0 < v.window.count) (h : Holding) :
    (v.Reached h → ∀ between later : Seconds, h.queue.lastUpdate.count ≤ between.count →
      between.count ≤ later.count →
      ∃ first last stake, advance h between = .ok first ∧ advance first later = .ok last ∧
        advance h later = .ok last ∧ v.stakeAt h.bank h.queue later = .ok stake ∧
        v.stakeAt first.bank first.queue later = .ok stake) ∧
    ∀ now h', advance h now = .ok h' →
      advance h' now = .ok h' ∧ v.stakeAt h'.bank h'.queue now = v.stakeAt h.bank h.queue now := by
  refine ⟨fun reached between later inTime ordered => ?_, fun now h' run =>
    ⟨advance_of_advance run, stakeAt_of_advance run⟩⟩
  have sound := reached.sound pos
  obtain ⟨first, last, hfirst, hlast, hdirect⟩ := sound.advance_trans inTime ordered
  obtain ⟨-, stake, -, hstake, -⟩ := sound.stakeAt_eq_ok pos (inTime.trans ordered)
  refine ⟨first, last, stake, hfirst, hlast, hdirect, hstake, ?_⟩
  rw [← stakeAt_of_advance hlast, stakeAt_of_advance hdirect, hstake]

/-- Over a window of one week, 5 and 3 come in ten seconds apart. At the end of the first week the 5
mature, and five seconds later the stake is 7, with a stop there or without. A queue whose deposits
stand in no order and whose figures are wrong is brought up to date once, and a second time it stays
as it is. -/
theorem Vesting.advance_unobservable_week :
    let v : Vesting := ⟨⟨604800, by decide, by decide⟩⟩
    let x : Address := ⟨"x", by decide⟩
    let second : Seconds := ⟨10, by decide, by decide⟩
    let between : Seconds := ⟨604800, by decide, by decide⟩
    let later : Seconds := ⟨604805, by decide, by decide⟩
    let h := v.performAll ⟨.empty x, .empty .zero⟩
      [.add ⟨5, by decide⟩ .zero, .add ⟨3, by decide⟩ second]
    let odd : Holding := ⟨.empty x, ⟨.zero, ⟨2, by decide⟩, ⟨7, by decide⟩,
      [⟨second, .zero, ⟨4, by decide⟩⟩, ⟨.zero, second, ⟨1, by decide⟩⟩,
        ⟨between, .zero, ⟨1, by decide⟩⟩]⟩⟩
    0 < v.window.count ∧ v.Reached h ∧
      (∃ first last, advance h between = .ok first ∧ advance first later = .ok last ∧
        advance h later = .ok last ∧
        v.stakeAt first.bank first.queue later = .ok ⟨7, by decide⟩) ∧
      ∃ after, advance odd .zero = .ok after ∧ advance after .zero = .ok after ∧
        after.bank.stake.units = 4 ∧ after.queue.deposits.length = 2 := by
  intro v x second between later h odd
  have pos : 0 < v.window.count := by decide
  have reached : v.Reached h := .used (.used (.fresh _ _) _) _
  have inTime : h.queue.lastUpdate.count ≤ between.count := by decide
  have stake : v.stakeAt h.bank h.queue later = .ok ⟨7, by decide⟩ := by decide
  obtain ⟨first, last, stake', there, onward, direct, before, after⟩ :=
    (advance_unobservable v pos h).1 reached between later inTime (by decide)
  cases stake.symm.trans before
  refine ⟨pos, reached, ⟨first, last, there, onward, direct, after⟩, ?_⟩
  obtain ⟨left, run, four, two⟩ : ∃ left, advance odd .zero = .ok left ∧
      left.bank.stake.units = 4 ∧ left.queue.deposits.length = 2 := ⟨_, rfl, by decide, by decide⟩
  exact ⟨left, run, ((advance_unobservable v pos odd).2 .zero left run).1, four, two⟩

end StakeLedger

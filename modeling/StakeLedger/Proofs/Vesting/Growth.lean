import Mathlib.Algebra.Order.BigOperators.Group.List
import StakeLedger.Proofs.Vesting.Advance
import StakeLedger.Proofs.Vesting.Moved

/-!
# Stake that grows

Where nothing is paid out, stake only grows. A history that is told the stake at two times finds
each lot held for longer at the later one, and lots that came in between only add to it. The one
rounding stands at the end, so it keeps the order, and no deposit that matures on the way can
disturb it: to the history it is a lot like any other. In the end, when the newest deposit has
matured, all the coin is stake, and before that it never is.
-/

namespace StakeLedger

open Vesting

/-! ## Coin-seconds as time goes on -/

namespace History

variable {window now later : Int}

theorem vested_mono (ordered : now ≤ later) (lots : List Lot) :
    vested window now lots ≤ vested window later lots := by
  refine List.sum_le_sum fun lot _ => Nat.mul_le_mul_left lot.coin ?_
  omega

/-- No coin counts for more than the window. -/
theorem vested_le (window now : Int) (lots : List Lot) :
    vested window now lots ≤ lotCoin lots * window.toNat := by
  induction lots with
  | nil => simp [vested, lotCoin]
  | cons lot lots ih =>
    have first : lot.coin * (min window (now - lot.start)).toNat ≤ lot.coin * window.toNat :=
      Nat.mul_le_mul_left lot.coin (by omega)
    simp only [vested, lotCoin, List.map_cons, List.sum_cons, Nat.add_mul] at ih ⊢
    omega

/-- While some coin has not been held for the whole window, the coin counts for less than that. -/
theorem vested_lt {lots : List Lot} {lot : Lot} (hlot : lot ∈ lots) (some : 0 < lot.coin)
    (pos : 0 < window) (unripe : now < lot.start + window) :
    vested window now lots < lotCoin lots * window.toNat := by
  obtain ⟨before, after, rfl⟩ := List.append_of_mem hlot
  have old := vested_le window now before
  have new := vested_le window now after
  have this : lot.coin * (min window (now - lot.start)).toNat < lot.coin * window.toNat :=
    Nat.mul_lt_mul_of_pos_left (by omega) some
  simp only [vested, lotCoin, List.map_append, List.sum_append, List.map_cons, List.sum_cons,
    Nat.add_mul] at old new ⊢
  omega

end History

/-! ## When all the coin is stake -/

namespace Holding.Sound

variable {window : Seconds} {h : Holding} (sound : h.Sound window)
include sound

/-- The newest deposit is the last one to mature. -/
theorem finish_le_iff_newest (now : Seconds) :
    (∀ d ∈ h.queue.deposits, d.finish.count ≤ now.count) ↔
      ∀ newest ∈ h.queue.deposits.getLast?, newest.finish.count ≤ now.count := by
  constructor
  · exact fun all newest hnewest => all newest (List.mem_of_getLast? hnewest)
  · intro ripe d hd
    rcases List.eq_nil_or_concat' h.queue.deposits with none | ⟨older, newest, split⟩
    · rw [none] at hd
      cases hd
    have last := ripe newest (by simp [split])
    have ordered := sound.ordered
    rw [split, List.map_append, List.pairwise_append] at ordered
    rw [split] at hd
    rcases List.mem_append.1 hd with old | new
    · have before := ordered.2.2 _ (List.mem_map_of_mem old) newest.start.count (by simp)
      have finish := (sound.running d (by simp [split, old])).finish_eq
      have finish' := (sound.running newest (by simp [split])).finish_eq
      omega
    · rwa [List.mem_singleton.1 new]

/-- All the coin is stake as soon as all deposits have matured, and not before. -/
theorem vested_lots_eq_iff (pos : 0 < window.count) {now : Seconds}
    (inTime : h.queue.lastUpdate.count ≤ now.count) :
    History.vested window.count now.count (h.lots window) / window.count.toNat =
        h.bank.balance.units ↔
      ∀ d ∈ h.queue.deposits, d.finish.count ≤ now.count := by
  have coin : lotCoin (h.lots window) = h.bank.balance.units := sound.represents.sum_eq
  have divisor : 0 < window.count.toNat := by omega
  constructor
  · intro all d hd
    by_contra unripe
    have running := sound.running d hd
    have finish := running.finish_eq
    have hlot : d.lot ∈ h.lots window := List.mem_cons_of_mem _ (List.mem_map_of_mem hd)
    have less := History.vested_lt hlot running.coin_pos pos
      (show now.count < d.start.count + window.count by omega)
    have share := Nat.div_lt_of_lt_mul (Nat.mul_comm _ _ ▸ less)
    omega
  · intro ripe
    rw [History.vested_of_mature, coin, Nat.mul_div_cancel _ divisor]
    intro lot hlot
    rcases List.mem_cons.1 hlot with rfl | pending
    · dsimp only
      omega
    · obtain ⟨d, hd, rfl⟩ := List.mem_map.1 pending
      have finish := (sound.running d hd).finish_eq
      have ripe := ripe d hd
      simp only [Deposit.lot]
      omega

end Holding.Sound

/-! ## Holdings that pay nothing out -/

/-- Whether coin is asked for. -/
def Vesting.Use.paysOut : Use → Bool
  | .withdraw .. => true
  | .add .. | .advance _ => false

/-- What becomes of a holding that pays nothing out: whatever history it stood for goes on with more
lots, and what was stake stays stake. -/
structure Holding.Grown (window : Seconds) (h h' : Holding) : Prop where
  sound : h'.Sound window
  stake_le : h.bank.stake.units ≤ h'.bank.stake.units
  lots : ∀ lots last, h.Represents window ⟨lots, last⟩ →
    ∃ more last', h'.Represents window ⟨lots ++ more, last'⟩

namespace Holding.Grown

variable {window now : Seconds} {h h' h'' : Holding} {amount : Coin}

theorem refl (sound : h.Sound window) : h.Grown window h :=
  ⟨sound, le_rfl, fun lots last r => ⟨[], last, by rwa [List.append_nil]⟩⟩

theorem trans (first : h.Grown window h') (second : h'.Grown window h'') :
    h.Grown window h'' := by
  refine ⟨second.sound, first.stake_le.trans second.stake_le, fun lots last r => ?_⟩
  obtain ⟨more, mid, r'⟩ := first.lots lots last r
  obtain ⟨rest, last', r''⟩ := second.lots _ mid r'
  exact ⟨more ++ rest, last', by rwa [← List.append_assoc]⟩

theorem of_advanced (inTime : h.queue.lastUpdate.count ≤ now.count)
    (step : h.Advanced window now h') : h.Grown window h' := by
  obtain ⟨ripe, -, stake, -⟩ := step.matured
  refine ⟨step.sound, by omega, fun lots last r => ⟨[], now.count, ?_⟩⟩
  rw [List.append_nil]
  exact r.advanced inTime step

theorem of_credited (inTime : h.queue.lastUpdate.count ≤ now.count)
    (step : h.Credited window amount now h') : h.Grown window h' := by
  obtain ⟨current, -, advanced, stake, -⟩ := step.deposited
  refine ⟨step.sound, ?_, fun lots last r => ⟨_, _, r.credited inTime step⟩⟩
  rw [stake]
  exact (of_advanced inTime advanced).stake_le

/-- A use that pays nothing out, accepted or not, makes a holding grow. -/
theorem perform {v : Vesting} (sound : h.Sound v.window) (pos : 0 < v.window.count) {use : Use}
    (keeps : use.paysOut = false) : h.Grown v.window (v.perform h use).after := by
  cases use with
  | withdraw amount now => cases keeps
  | add amount now =>
    have outcome := sound.add_cases pos amount now
    simp only [Vesting.perform]
    generalize v.add h amount now = attempt at outcome
    cases outcome with
    | nothing | early => exact refl sound
    | tooLarge some inTime large advanced => exact of_advanced inTime advanced
    | credited some inTime fits room credited => exact of_credited inTime credited
  | advance now =>
    simp only [Vesting.perform]
    by_cases early : now.count < h.queue.lastUpdate.count
    · rw [Sound.advance_of_early early]
      exact refl sound
    · have inTime : h.queue.lastUpdate.count ≤ now.count := by omega
      obtain ⟨h', hadvance, advanced⟩ := sound.advance_eq_ok inTime
      rw [hadvance]
      exact of_advanced inTime advanced

theorem performAll {v : Vesting} (sound : h.Sound v.window) (pos : 0 < v.window.count)
    {uses : List Use} (keep : ∀ use ∈ uses, use.paysOut = false) :
    h.Grown v.window (v.performAll h uses) := by
  induction uses generalizing h with
  | nil => exact refl sound
  | cons use rest ih =>
    rw [List.forall_mem_cons] at keep
    have first := perform sound pos keep.1
    exact first.trans (ih first.sound keep.2)

/-- The stake has not become less by a later time. -/
theorem stakeAt_le {v : Vesting} (grown : h.Grown v.window h') (sound : h.Sound v.window)
    (pos : 0 < v.window.count) {now later : Seconds}
    (inTime : h.queue.lastUpdate.count ≤ now.count) (ordered : now.count ≤ later.count)
    (inTime' : h'.queue.lastUpdate.count ≤ later.count) :
    ∃ first last, v.stakeAt h.bank h.queue now = .ok first ∧
      v.stakeAt h'.bank h'.queue later = .ok last ∧ first.units ≤ last.units := by
  have r := sound.represents
  obtain ⟨more, last', r'⟩ := grown.lots _ _ r
  obtain ⟨first, hfirst, units⟩ := r.exists_stake pos inTime
  obtain ⟨last, hlast, units'⟩ := r'.exists_stake pos inTime'
  refine ⟨first, last, hfirst, hlast, ?_⟩
  rw [units, units', History.vested_append]
  exact Nat.div_le_div_right (Nat.le_add_right_of_le (History.vested_mono ordered _))

end Holding.Grown

/-- Coin that comes in has no stake at that moment. -/
theorem Holding.Credited.stakeAt_eq {v : Vesting} {h h' : Holding} {amount : Coin} {now : Seconds}
    (step : h.Credited v.window amount now h') (sound : h.Sound v.window)
    (pos : 0 < v.window.count) (inTime : h.queue.lastUpdate.count ≤ now.count) :
    ∃ stake, v.stakeAt h.bank h.queue now = .ok stake ∧
      v.stakeAt h'.bank h'.queue now = .ok stake := by
  have r := sound.represents
  have inTime' : h'.queue.lastUpdate.count ≤ now.count := by rw [step.lastUpdate_eq]
  obtain ⟨stake, hstake, units⟩ := r.exists_stake pos inTime
  obtain ⟨stake', hstake', units'⟩ := (r.credited inTime step).exists_stake pos inTime'
  have nothing : min v.window.count (now.count - now.count) = 0 := by omega
  rw [History.vested_append, History.vested_singleton, nothing, Int.toNat_zero, Nat.mul_zero,
    Nat.add_zero] at units'
  have same : stake' = stake := Coin.ext (units'.trans units.symm)
  exact ⟨stake, hstake, same ▸ hstake'⟩

/-- Stake grows. Take a holding that uses of a fresh one led to, and times that do not run back. Its
stake at a later time is at least that at an earlier one and never exceeds the balance, and it is
the whole balance exactly once the newest deposit has matured. To bring the holding up to date, or
to receive coin, leaves the stake at that moment as it is, and after receiving coin the stake at
every later time is at least what it would have been.

So whatever uses follow, accepted or not, as long as they ask for no coin: what has matured never
becomes less, and neither does the stake between any moment before them and any moment after. -/
theorem Vesting.stake_grows (v : Vesting) (pos : 0 < v.window.count) {h : Holding}
    (reached : v.Reached h) :
    (∀ now later : Seconds, h.queue.lastUpdate.count ≤ now.count → now.count ≤ later.count →
      ∃ first last, v.stakeAt h.bank h.queue now = .ok first ∧
        v.stakeAt h.bank h.queue later = .ok last ∧
        first.units ≤ last.units ∧ last.units ≤ h.bank.balance.units ∧
        (last = h.bank.balance ↔
          ∀ newest ∈ h.queue.deposits.getLast?, newest.finish.count ≤ later.count)) ∧
    (∀ now h', advance h now = .ok h' → ∃ stake, v.stakeAt h.bank h.queue now = .ok stake ∧
      v.stakeAt h'.bank h'.queue now = .ok stake) ∧
    (∀ amount now, (v.add h amount now).failure = none →
      let h' := (v.add h amount now).after
      (∃ stake, v.stakeAt h.bank h.queue now = .ok stake ∧
        v.stakeAt h'.bank h'.queue now = .ok stake) ∧
      ∀ later : Seconds, now.count ≤ later.count →
        ∃ without received, v.stakeAt h.bank h.queue later = .ok without ∧
          v.stakeAt h'.bank h'.queue later = .ok received ∧ without.units ≤ received.units) ∧
    ∀ uses : List Use, (∀ use ∈ uses, use.paysOut = false) →
      let h' := v.performAll h uses
      h.bank.stake.units ≤ h'.bank.stake.units ∧
      ∀ now later : Seconds, h.queue.lastUpdate.count ≤ now.count → now.count ≤ later.count →
        h'.queue.lastUpdate.count ≤ later.count →
        ∃ first last, v.stakeAt h.bank h.queue now = .ok first ∧
          v.stakeAt h'.bank h'.queue later = .ok last ∧ first.units ≤ last.units := by
  have sound := reached.sound pos
  refine ⟨fun now later inTime ordered => ?_, fun now h' run => ?_, fun amount now accepted => ?_,
    fun uses keep => ?_⟩
  · obtain ⟨first, last, hfirst, hlast, grows⟩ :=
      (Holding.Grown.refl sound).stakeAt_le sound pos inTime ordered (inTime.trans ordered)
    obtain ⟨last', hlast', units⟩ := sound.represents.exists_stake pos (inTime.trans ordered)
    cases hlast.symm.trans hlast'
    have coin : lotCoin (h.lots v.window) = h.bank.balance.units := sound.represents.sum_eq
    refine ⟨first, last, hfirst, hlast, grows, ?_, ?_⟩
    · rw [units, ← coin]
      exact Nat.div_le_of_le_mul (Nat.mul_comm _ _ ▸ History.vested_le _ _ _)
    · rw [← sound.finish_le_iff_newest, ← sound.vested_lots_eq_iff pos (inTime.trans ordered),
        ← units, Coin.ext_iff]
  · obtain ⟨s, matured, settle, -⟩ := advance_eq_ok_iff.1 run
    have inTime := (settled_eq_ok_iff.1 settle).1
    obtain ⟨stake, hstake, -⟩ := sound.represents.exists_stake pos inTime
    exact ⟨stake, hstake, (stakeAt_of_advance run).trans hstake⟩
  · intro h'
    obtain ⟨-, inTime, -⟩ := (sound.accepted_iff pos).1 accepted
    have credited := sound.credited_of_accepted pos accepted
    refine ⟨credited.stakeAt_eq sound pos inTime, fun later ordered => ?_⟩
    exact (Holding.Grown.of_credited inTime credited).stakeAt_le sound pos (inTime.trans ordered)
      le_rfl (by rw [credited.lastUpdate_eq]; exact ordered)
  · have grown := Holding.Grown.performAll sound pos keep
    exact ⟨grown.stake_le, fun now later inTime ordered inTime' =>
      grown.stakeAt_le sound pos inTime ordered inTime'⟩

/-- Over a window of one week, 5 and 3 come in ten seconds apart. Half a week later the stake is 3,
whether the holding is brought up to date then or receives 4 more. When the 3 have matured all of
the 8 are stake, and with the 4 it is 10 by then. -/
theorem Vesting.stake_grows_week :
    let v : Vesting := ⟨⟨604800, by decide, by decide⟩⟩
    let second : Seconds := ⟨10, by decide, by decide⟩
    let half : Seconds := ⟨302400, by decide, by decide⟩
    let full : Seconds := ⟨604810, by decide, by decide⟩
    let h := v.performAll ⟨.empty ⟨"x", by decide⟩, .empty .zero⟩
      [.add ⟨5, by decide⟩ .zero, .add ⟨3, by decide⟩ second]
    let four : Coin := ⟨4, by decide⟩
    let uses : List Use := [.add four half, .advance full]
    0 < v.window.count ∧ v.Reached h ∧ v.stakeAt h.bank h.queue full = .ok h.bank.balance ∧
      (∃ current, advance h half = .ok current ∧
        v.stakeAt current.bank current.queue half = .ok ⟨3, by decide⟩) ∧
      ((v.add h four half).failure = none ∧
        v.stakeAt (v.add h four half).after.bank (v.add h four half).after.queue half =
          .ok ⟨3, by decide⟩) ∧
      ∃ last, v.stakeAt (v.performAll h uses).bank (v.performAll h uses).queue full = .ok last ∧
        3 ≤ last.units ∧ last.units = 10 := by
  intro v second half full h four uses
  have pos : 0 < v.window.count := by decide
  have reached : v.Reached h := .used (.used (.fresh _ _) _) _
  have three : v.stakeAt h.bank h.queue half = .ok ⟨3, by decide⟩ := by decide
  have ten : v.stakeAt (v.performAll h uses).bank (v.performAll h uses).queue full =
    .ok ⟨10, by decide⟩ := by decide
  have accepted : (v.add h four half).failure = none := by decide
  have keep : ∀ use ∈ uses, use.paysOut = false := by decide
  have newest : ∀ d ∈ h.queue.deposits.getLast?, d.finish.count ≤ full.count := by decide
  have inTime : h.queue.lastUpdate.count ≤ half.count := by decide
  have inTime' : (v.performAll h uses).queue.lastUpdate.count ≤ full.count := by decide
  have ordered : half.count ≤ full.count := by decide
  obtain ⟨current, run, -⟩ := (reached.sound pos).advance_eq_ok inTime
  have grows := stake_grows v pos reached
  have more := (grows.2.2.2 uses keep).2 half full inTime ordered inTime'
  have received := (grows.2.2.1 four half accepted).1
  clear_value h uses -- the uses are not to be carried out again
  obtain ⟨-, last, -, hlast, -, -, whole⟩ := grows.1 half full inTime ordered
  obtain ⟨stake, hstake, same⟩ := grows.2.1 half current run
  obtain ⟨stake', hstake', same'⟩ := received
  obtain ⟨before, after, hbefore, hafter, more⟩ := more
  rw [three] at hstake hstake' hbefore
  cases hstake
  cases hstake'
  cases hbefore
  cases ten.symm.trans hafter
  rw [whole.2 newest] at hlast
  exact ⟨pos, reached, hlast, ⟨current, run, same⟩, ⟨accepted, same'⟩, _, ten, more, rfl⟩

end StakeLedger

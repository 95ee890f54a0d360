import Mathlib.Data.Nat.ModEq
import StakeLedger.Proofs.Vesting.History

/-!
# Stake of coin that moves

Coin that is withdrawn loses the time that it has been held for, and where it is deposited it starts
anew. So coin that moves never gains stake, but for what two roundings can make of it.
-/

namespace StakeLedger

namespace History

variable {window now t : Int} {lots : List Lot} {amount : Nat}

/-- The coin-seconds that a lot has by `t` if it came in at `now`. -/
theorem vested_singleton (window t now : Int) (amount : Nat) :
    vested window t [⟨now, amount⟩] = amount * (min window (t - now)).toNat := by
  simp [vested]

/-- An amount that is taken from lots takes with it at least the coin-seconds that it would gain
from now on. -/
theorem vested_takeBack (enough : amount ≤ lotCoin lots)
    (begun : ∀ lot ∈ lots, lot.start ≤ now) :
    vested window t (takeBack amount lots) + amount * (min window (t - now)).toNat ≤
      vested window t lots := by
  fun_induction takeBack amount lots with
  | case1 amount =>
    have none : amount = 0 := by simpa [lotCoin] using enough
    simp [none, vested]
  | case2 amount lot older covers ih =>
    have first := begun lot (by simp)
    simp only [lotCoin, List.map_cons, List.sum_cons] at enough ih
    have rest := ih (by omega) fun other h => begun other (by simp [h])
    have longer : (min window (t - now)).toNat ≤ (min window (t - lot.start)).toNat := by omega
    have split : amount * (min window (t - now)).toNat =
        (amount - lot.coin) * (min window (t - now)).toNat +
          lot.coin * (min window (t - now)).toNat := by
      rw [← Nat.add_mul, Nat.sub_add_cancel covers]
    have gone := Nat.mul_le_mul_left lot.coin longer
    simp only [vested, List.map_cons, List.sum_cons] at rest ⊢
    omega
  | case3 amount lot older covers =>
    have first := begun lot (by simp)
    have longer : (min window (t - now)).toNat ≤ (min window (t - lot.start)).toNat := by omega
    have split : lot.coin * (min window (t - lot.start)).toNat =
        (lot.coin - amount) * (min window (t - lot.start)).toNat +
          amount * (min window (t - lot.start)).toNat := by
      rw [← Nat.add_mul, Nat.sub_add_cancel (by omega)]
    have gone := Nat.mul_le_mul_left amount longer
    simp only [vested, List.map_cons, List.sum_cons]
    omega

theorem vested_reverse (window t : Int) (lots : List Lot) :
    vested window t lots.reverse = vested window t lots := by
  simp [vested]

/-- Newest lots first or last, the coin-seconds that go with an amount are the same. -/
theorem vested_withdrawn (enough : amount ≤ lotCoin lots)
    (begun : ∀ lot ∈ lots, lot.start ≤ now) :
    vested window t (takeBack amount lots.reverse).reverse +
      vested window t [⟨now, amount⟩] ≤ vested window t lots := by
  rw [vested_singleton, vested_reverse, ← vested_reverse window t lots]
  apply vested_takeBack
  · rwa [lotCoin_reverse]
  · exact fun lot h => begun lot (List.mem_reverse.1 h)

/-- Coin that is taken from a history and comes back to it at the same time has gained no stake. -/
theorem stake_moved_within (enough : amount ≤ lotCoin lots)
    (begun : ∀ lot ∈ lots, lot.start ≤ now) :
    vested window t ((takeBack amount lots.reverse).reverse ++ [⟨now, amount⟩]) / window.toNat ≤
      vested window t lots / window.toNat := by
  rw [vested_append]
  exact Nat.div_le_div_right (vested_withdrawn enough begun)

/-- Coin that goes from one history to another gains at most what two roundings make of it. -/
theorem stake_moved_between (pos : 0 < window) (enough : amount ≤ lotCoin lots)
    (begun : ∀ lot ∈ lots, lot.start ≤ now) (others : List Lot) :
    vested window t (takeBack amount lots.reverse).reverse / window.toNat +
        vested window t (others ++ [⟨now, amount⟩]) / window.toNat ≤
      vested window t lots / window.toNat + vested window t others / window.toNat + 1 := by
  have moved : _ ≤ vested window t lots := vested_withdrawn enough begun
  rw [vested_append]
  generalize vested window t (takeBack amount lots.reverse).reverse = left at moved ⊢
  generalize vested window t [⟨now, amount⟩] = taken at moved ⊢
  generalize vested window t others = there
  have divisor : 0 < window.toNat := by omega
  calc left / window.toNat + (there + taken) / window.toNat
      ≤ (left + (there + taken)) / window.toNat := Nat.div_add_div_le_add_div
    _ ≤ (vested window t lots + there) / window.toNat := Nat.div_le_div_right (by omega)
    _ ≤ vested window t lots / window.toNat + there / window.toNat + 1 := by
      rw [Nat.add_div divisor]
      split <;> omega

end History

namespace Holding

variable {window : Seconds} {h : Holding}

/-- Lots that a sound holding stands for: its stake as one lot that has just matured, and its
pending deposits. -/
def lots (window : Seconds) (h : Holding) : List Lot :=
  ⟨h.queue.lastUpdate.count - window.count, h.bank.stake.units⟩ ::
    h.queue.deposits.map Deposit.lot

/-- Every sound holding stands for a history. -/
theorem Sound.represents (sound : h.Sound window) :
    h.Represents window ⟨h.lots window, h.queue.lastUpdate.count⟩ := by
  refine ⟨sound, rfl, [⟨h.queue.lastUpdate.count - window.count, h.bank.stake.units⟩], rfl, ?_, ?_⟩
  · simp [lotCoin]
  · simp

/-- No lot of a sound holding came in later than its queue is counted to. -/
theorem Sound.begun (sound : h.Sound window) (pos : 0 < window.count) :
    ∀ lot ∈ h.lots window, lot.start ≤ h.queue.lastUpdate.count := by
  intro lot hlot
  rcases List.mem_cons.1 hlot with rfl | pending
  · dsimp only
    omega
  · obtain ⟨d, hd, rfl⟩ := List.mem_map.1 pending
    exact (sound.running d hd).begun

/-- The stake of a holding at a time that does not run back is that of the history. -/
theorem Represents.exists_stake {v : Vesting} {history : History}
    (r : h.Represents v.window history) (pos : 0 < v.window.count) {t : Seconds}
    (inTime : h.queue.lastUpdate.count ≤ t.count) :
    ∃ stake, v.stakeAt h.bank h.queue t = .ok stake ∧
      stake.units =
        History.vested v.window.count t.count history.lots / v.window.count.toNat := by
  have alike := r.stakeAt pos t
  rw [History.stake, if_neg (by rw [r.last_eq]; omega)] at alike
  generalize v.stakeAt h.bank h.queue t = answer at alike
  cases alike with
  | both same => exact ⟨_, rfl, same⟩

end Holding

end StakeLedger

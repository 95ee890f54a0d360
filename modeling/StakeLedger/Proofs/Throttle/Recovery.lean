import StakeLedger.Proofs.Throttle.Budget

/-!
# What recovers, and when it is told

The capacity at a time never exceeds both the recorded capacity and the ceiling, so it can always be
told. It is not always told, though: the sum of the recorded capacity and of what recovered is taken
before it is cut at the ceiling, and for the largest ceilings that sum leaves the range. Then the
question fails, at the very moment at which everything has recovered. `Throttle.recovered_iff` says
when, for any time within reach of the clock.
-/

namespace StakeLedger.Throttle

variable {t : Throttle}

/-- Recorded capacity at or above the ceiling is kept; below it, what recovers is added and the sum
stops at the ceiling. -/
theorem restored_eq (usage : Usage) (ceiling : Coin) (elapsed : Nat) :
    t.restored usage ceiling elapsed =
      if ceiling.units ≤ usage.capacity.units then usage.capacity.units
      else min ceiling.units (usage.capacity.units + t.growth ceiling.units elapsed) := by
  unfold restored
  split_ifs <;> omega

theorem restored_le (usage : Usage) (ceiling : Coin) (elapsed : Nat) :
    t.restored usage ceiling elapsed ≤ max usage.capacity.units ceiling.units := by
  unfold restored
  omega

/-- A sum that leaves the range has passed the ceiling. -/
theorem restored_of_large {usage : Usage} {ceiling : Coin} {elapsed : Nat}
    (below : usage.capacity.units < ceiling.units)
    (large : 2 ^ 64 ≤ usage.capacity.units + t.growth ceiling.units elapsed) :
    t.restored usage ceiling elapsed = ceiling.units := by
  have ceilingLt := ceiling.units_lt
  unfold restored
  omega

/-- When the capacity at a time within reach is told. It is bounded by the recorded capacity and the
ceiling, but for a ceiling above the recorded capacity it is told only if a whole period has passed,
or if the sum of the recorded capacity and of what recovered stays in range. Else the question fails
with an overflow, though everything up to the ceiling has recovered. -/
theorem recovered_iff (t : Throttle) (pos : 0 < t.period.count) (usage : Usage) (ceiling : Coin)
    {now : Seconds} (near : now.InReach usage.lastActive) :
    let elapsed := (now.count - usage.lastActive.count).toNat
    let grown := usage.capacity.units + ceiling.units * elapsed / t.period.count.toNat
    let due := if ceiling.units ≤ usage.capacity.units then usage.capacity.units
      else min ceiling.units grown
    due ≤ max usage.capacity.units ceiling.units ∧
      ((∃ available, t.recovered usage ceiling now = .ok available ∧ available.units = due) ↔
        ceiling.units ≤ usage.capacity.units ∨ t.period.count ≤ elapsed ∨ grown < 2 ^ 64) ∧
      ((∀ available, t.recovered usage ceiling now ≠ .ok available) →
        t.recovered usage ceiling now = .error (.overflow "recover capacity") ∧
          due = ceiling.units) := by
  intro elapsed grown due
  have hdue : due = t.restored usage ceiling elapsed := (restored_eq usage ceiling elapsed).symm
  have hgrown : grown = usage.capacity.units + t.growth ceiling.units elapsed := rfl
  have cases := recovered_cases pos usage ceiling now
  rw [show now.since usage.lastActive = elapsed from Seconds.since_eq near] at cases
  refine ⟨hdue ▸ restored_le usage ceiling elapsed, ?_, ?_⟩
  all_goals
    rcases cases with ⟨available, recovers, units, told⟩ | ⟨fails, below, part, large⟩
  · exact iff_of_true ⟨available, recovers, units.trans hdue.symm⟩ told
  · rw [fails]
    exact iff_of_false (by rintro ⟨_, ⟨⟩, -⟩) (by omega)
  · exact fun untold => absurd recovers (untold available)
  · exact fun _ => ⟨fails, hdue.trans (restored_of_large below large)⟩

/-- With a ceiling of one coin and a quarter of it left, half of it recovers in half a period. -/
theorem recovered_iff_half :
    let t : Throttle := ⟨⟨1000, by decide, by decide⟩, ⟨100000, by decide⟩⟩
    let usage : Usage := ⟨.zero64, .zero, ⟨25000, by decide⟩⟩
    let now : Seconds := ⟨500, by decide, by decide⟩
    0 < t.period.count ∧ now.InReach usage.lastActive ∧ ∃ available,
      t.recovered usage ⟨100000, by decide⟩ now = .ok available ∧ available.units = 75000 := by
  intro t usage now
  have pos : 0 < t.period.count := by decide
  have near : now.InReach usage.lastActive := by decide
  obtain ⟨available, told, units⟩ :=
    (recovered_iff t pos usage ⟨100000, by decide⟩ near).2.1.2 (.inr (.inr (by decide)))
  exact ⟨pos, near, available, told, units.trans (by decide)⟩

/-- With the largest ceiling and all but one unit of it left, the capacity after half a period is
not told, though it is the ceiling. -/
theorem recovered_overflows :
    let t : Throttle := ⟨⟨2, by decide, by decide⟩, ⟨1, by decide⟩⟩
    let usage : Usage := ⟨.zero64, .zero, ⟨2 ^ 64 - 2, by decide⟩⟩
    let ceiling : Coin := ⟨2 ^ 64 - 1, by decide⟩
    let now : Seconds := ⟨1, by decide, by decide⟩
    0 < t.period.count ∧ now.InReach usage.lastActive ∧ usage.capacity.units < ceiling.units ∧
      min ceiling.units
        (usage.capacity.units +
          ceiling.units * (now.count - usage.lastActive.count).toNat / t.period.count.toNat) =
        ceiling.units ∧
      t.recovered usage ceiling now = .error (.overflow "recover capacity") := by
  decide

end StakeLedger.Throttle

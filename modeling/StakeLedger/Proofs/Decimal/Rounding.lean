import Mathlib.Algebra.Order.Field.Rat
import Mathlib.Data.Nat.Cast.Field
import Mathlib.Tactic.FieldSimp
import Mathlib.Tactic.Linarith
import Mathlib.Tactic.NormNum
import Mathlib.Tactic.Positivity
import Mathlib.Tactic.Ring
import Mathlib.Tactic.SplitIfs
import StakeLedger.Decimal.Basic

/-!
# Rounding of decimal numbers

A product of a decimal number keeps all its places while the mantissa has room. If not, it gives up
places and is rounded. That does little harm to a product that ends up as a whole number of 64
binary digits: such a number leaves room for nine places and more.
-/

namespace StakeLedger

theorem tenTo_pos (n : Nat) : 0 < tenTo n := Nat.pow_pos (by decide)

@[simp] theorem cast_tenTo (n : Nat) : ((tenTo n : Nat) : ℚ) = 10 ^ n := Nat.cast_pow 10 n

/-- A rounded quotient is off by a half at most. As products, these are bounds on whole numbers. -/
theorem roundQuotient_bounds (num : Nat) {den : Nat} (pos : 0 < den) :
    2 * (roundQuotient num den * den) ≤ 2 * num + den ∧
      2 * num ≤ 2 * (roundQuotient num den * den) + den := by
  have parts := Nat.div_add_mod' num den
  have rest := Nat.mod_lt num pos
  unfold roundQuotient
  dsimp only
  split_ifs with less half
  · omega
  · rcases Nat.mod_two_eq_zero_or_one (num / den) with even | odd
    · rw [even, Nat.add_zero]
      omega
    · rw [odd, Nat.add_mul]
      omega
  · rw [Nat.add_mul]
    omega

theorem roundQuotient_le {num den k : Nat} (pos : 0 < den) (h : num ≤ k * den) :
    roundQuotient num den ≤ k := by
  obtain ⟨above, -⟩ := roundQuotient_bounds num pos
  by_contra more
  have product : (k + 1) * den ≤ roundQuotient num den * den :=
    Nat.mul_le_mul_right den (Nat.lt_of_not_le more)
  rw [Nat.add_mul] at product
  omega

/-- A whole number is off by a half at most if that many wholes are. -/
theorem near_of_bounds {r num den : Nat} (pos : 0 < den) (above : 2 * (r * den) ≤ 2 * num + den)
    (below : 2 * num ≤ 2 * (r * den) + den) : |(r : ℚ) - num / den| ≤ 1 / 2 := by
  have above : 2 * ((r : ℚ) * den) ≤ 2 * num + den := by exact_mod_cast above
  have below : 2 * (num : ℚ) ≤ 2 * (r * den) + den := by exact_mod_cast below
  have hden : (0 : ℚ) < den := Nat.cast_pos.2 pos
  have back : (num : ℚ) / den * den = num := div_mul_cancel₀ _ hden.ne'
  rw [abs_le]
  constructor <;> nlinarith

theorem roundQuotient_near (num : Nat) {den : Nat} (pos : 0 < den) :
    |(roundQuotient num den : ℚ) - num / den| ≤ 1 / 2 :=
  near_of_bounds pos (roundQuotient_bounds num pos).1 (roundQuotient_bounds num pos).2

/-- A quotient that is rounded half upwards is off by a half at most as well. -/
theorem half_up_near (num : Nat) {half : Nat} (pos : 0 < half) :
    |(((num + half) / (2 * half) : Nat) : ℚ) - num / (2 * half : Nat)| ≤ 1 / 2 := by
  have parts := Nat.div_add_mod' (num + half) (2 * half)
  have rest := Nat.mod_lt (num + half) (Nat.mul_pos two_pos pos)
  refine near_of_bounds (Nat.mul_pos two_pos pos) ?_ ?_ <;> omega

namespace Decimal

/-- The number that is meant. -/
def value (d : Decimal) : ℚ := d.mantissa / 10 ^ d.places

theorem value_eq_mul {d : Decimal} : d.value * 10 ^ d.places = d.mantissa :=
  div_mul_cancel₀ _ (by positivity)

/-- A whole decimal number is its whole part. -/
theorem value_eq_wholePart {d : Decimal} (whole : d.isWhole = true) : d.value = d.wholePart := by
  have divides : tenTo d.places ∣ d.mantissa := Nat.dvd_of_mod_eq_zero (beq_iff_eq.1 whole)
  rw [value, wholePart, Nat.cast_div divides (by simp), cast_tenTo]

/-- What a decimal number nearest to a quotient with up to `most` places is: the quotient rounded at
its places, and with one place more the mantissa would be too long. -/
structure Nearest (num den most : Nat) (d : Decimal) : Prop where
  places_le : d.places ≤ most
  mantissa_eq : d.mantissa = roundQuotient (num * tenTo d.places) den
  full : d.places < most →
    0x1000000000000000000000000 ≤ roundQuotient (num * tenTo (d.places + 1)) den

theorem nearest?_nearest {num den most : Nat} {d : Decimal} (h : nearest? num den most = some d)
    (most_le : most ≤ 28) : Nearest num den most d := by
  induction most with
  | zero =>
    obtain ⟨mantissa, places⟩ := of?_eq_some_iff.1 h
    exact ⟨places.le, by rw [mantissa, places, show tenTo 0 = 1 from rfl, Nat.mul_one],
      fun fewer => absurd fewer (Nat.not_lt_zero _)⟩
  | succ fewer ih =>
    rw [nearest?] at h
    split at h
    · rename_i fits
      cases h
      obtain ⟨mantissa, places⟩ := of?_eq_some_iff.1 fits
      exact ⟨places.le, by rw [mantissa, places],
        fun less => absurd less (places ▸ Nat.lt_irrefl _)⟩
    · rename_i tooLong
      have less := ih h (Nat.le_of_succ_le most_le)
      refine ⟨Nat.le_succ_of_le less.places_le, less.mantissa_eq, fun _ => ?_⟩
      rcases Nat.lt_or_eq_of_le less.places_le with more | same
      · exact less.full more
      · rw [of?, dite_eq_right_iff] at tooLong
        rw [same]
        exact Nat.le_of_not_lt fun room => nomatch tooLong ⟨room, most_le⟩

section

variable {num den most : Nat} {d : Decimal}

/-- The quotient that is rounded at some places. -/
theorem cast_mul_tenTo_div (num den q : Nat) :
    ((num * tenTo q : Nat) : ℚ) / den = num / den * 10 ^ q := by
  rw [Nat.cast_mul, cast_tenTo]
  ring

theorem Nearest.near (h : Nearest num den most d) (pos : 0 < den) :
    |(d.mantissa : ℚ) - num / den * 10 ^ d.places| ≤ 1 / 2 := by
  rw [← cast_mul_tenTo_div, h.mantissa_eq]
  exact roundQuotient_near _ pos

/-- A whole number of at most 64 binary digits leaves room for nine places. -/
theorem Nearest.nine_le (h : Nearest num den most d) (pos : 0 < den) (fewer : d.places < most)
    {c : Nat} (whole : d.value = c) (short : c < 0x10000000000000000) : 9 ≤ d.places := by
  by_contra fewerThanNine
  have near := h.near pos
  have next := roundQuotient_near (num * tenTo (d.places + 1)) pos
  have long : (0x1000000000000000000000000 : ℚ) ≤
      roundQuotient (num * tenTo (d.places + 1)) den := by
    exact_mod_cast h.full fewer
  have digits : (c : ℚ) * 10 ^ d.places ≤ 0x10000000000000000 * 10 ^ 8 := by
    have short : (c : ℚ) ≤ 0x10000000000000000 := by exact_mod_cast short.le
    have power : (10 : ℚ) ^ d.places ≤ 10 ^ 8 := pow_le_pow_right₀ (by norm_num) (by omega)
    gcongr
  rw [← value_eq_mul, whole] at near
  rw [cast_mul_tenTo_div, pow_succ, ← mul_assoc] at next
  linarith [(abs_le.1 near).1, (abs_le.1 next).2]

end

section

variable {d e : Decimal} {n : Nat}

/-- Nothing is rounded of a product if the mantissa has room for it, or the number no places. -/
theorem timesWhole?_exact (h : d.timesWhole? n = some e)
    (room : d.mantissa * n < 0x1000000000000000000000000 ∨ d.places = 0) :
    e.value = d.value * n := by
  unfold timesWhole? at h
  split at h
  · rename_i nothing
    cases h
    rcases nothing with nothing | nothing <;> simp [value, zero, nothing]
  · obtain ⟨places_le, mantissa_eq, full⟩ := nearest?_nearest h d.places_le
    have same : e.places = d.places := by
      rcases Nat.lt_or_eq_of_le places_le with fewer | same
      · have power : tenTo (e.places + 1) ≤ tenTo d.places := Nat.pow_le_pow_right (by decide) fewer
        have short := (full fewer).trans
          (roundQuotient_le (tenTo_pos _) (Nat.mul_le_mul_left (d.mantissa * n) power))
        omega
      · exact same
    rw [same, roundQuotient_mul (tenTo_pos _)] at mantissa_eq
    rw [value, value, mantissa_eq, same, Nat.cast_mul]
    ring

/-- A product that is whole and has at most 64 binary digits is off by at most a half of the ninth
place. -/
theorem timesWhole?_near (h : d.timesWhole? n = some e) {c : Nat} (whole : e.value = c)
    (short : c < 0x10000000000000000) : |(c : ℚ) - d.value * n| ≤ 1 / 2 / 10 ^ 9 := by
  by_cases room : d.mantissa * n < 0x1000000000000000000000000
  · rw [← whole, timesWhole?_exact h (.inl room), sub_self, abs_zero]
    positivity
  have some : ¬(d.mantissa = 0 ∨ n = 0) := by
    rintro (nothing | nothing) <;> simp [nothing] at room
  rw [timesWhole?, if_neg some] at h
  have nearest := nearest?_nearest h d.places_le
  have fewer : e.places < d.places := by
    refine Nat.lt_of_le_of_ne nearest.places_le fun same => room ?_
    have mantissa_eq := nearest.mantissa_eq
    rw [same, roundQuotient_mul (tenTo_pos _)] at mantissa_eq
    exact mantissa_eq ▸ e.mantissa_lt
  have product : d.value * n = ((d.mantissa * n : Nat) : ℚ) / (tenTo d.places : Nat) := by
    rw [value, cast_tenTo, Nat.cast_mul]
    ring
  have nine := nearest.nine_le (tenTo_pos _) fewer whole short
  have power : (10 : ℚ) ^ 9 ≤ 10 ^ e.places := pow_le_pow_right₀ (by norm_num) nine
  have near := nearest.near (tenTo_pos _)
  rw [← product, ← value_eq_mul, whole] at near
  rw [le_div_iff₀ (by positivity)]
  calc
    _ ≤ |(c : ℚ) - d.value * n| * 10 ^ e.places := by gcongr
    _ = |c * 10 ^ e.places - d.value * n * 10 ^ e.places| := by
      rw [← sub_mul, abs_mul, abs_of_pos (a := (10 : ℚ) ^ e.places) (by positivity)]
    _ ≤ 1 / 2 := near

end

end Decimal

end StakeLedger

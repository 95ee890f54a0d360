import StakeLedger.Decimal.Amount
import StakeLedger.Proofs.Decimal.Numeral

/-!
# Amounts as they are written

An amount that is accepted has no more units than a word can count. What was rounded on the way is
far below one unit then, with one exception: a power of ten can move digits that were dropped behind
the 28th place to where they count. So the units are what the text writes if that is a whole number
of units. If it is not, the amount can be accepted all the same, and is rounded.
`Coin.ofDecimalText_exact_iff` says when.
-/

namespace StakeLedger

open Numeral

/-- What an accepted amount went through. -/
theorem Coin.ofDecimalText_eq_ok {text : String} {scale : Word64} {coin : Coin}
    (accepted : ofDecimalText text scale = .ok coin) :
    ∃ n units, ofChars? (Text.trimBlank text.toList) = some n ∧ n.isNegative = false ∧
      n.size.timesWhole? scale.val = some units ∧ units.value = coin.units := by
  unfold ofDecimalText at accepted
  split at accepted
  · cases accepted
  rename_i n hn
  split at accepted
  · cases accepted
  rename_i positive
  split at accepted
  · cases accepted
  rename_i units hunits
  split at accepted
  · cases accepted
  rename_i whole
  split at accepted
  · cases accepted
  rename_i coin' hcoin
  cases accepted
  refine ⟨n, units, hn, by simpa using positive, hunits, ?_⟩
  rw [Decimal.value_eq_wholePart (by simpa using whole), ofNat?_eq_some_iff.1 hcoin]

/-- What a number of units is off by if the number that was read is off. -/
theorem Near.units {drop read x scale : ℚ} (h : Near drop read x) (drop_nonneg : 0 ≤ drop)
    (scale_nonneg : 0 ≤ scale) (short : read * scale ≤ 0x10000000000000000) :
    |read * scale - x * scale| ≤ drop * scale + 3 / 10 ^ 9 := by
  rw [← sub_mul, abs_mul, abs_of_nonneg scale_nonneg]
  cases h with
  | exact same =>
    rw [same, sub_self, abs_zero, zero_mul]
    positivity
  | short off =>
    have := mul_le_mul_of_nonneg_right off.le scale_nonneg
    linarith
  | @full unit off filled =>
    have error := mul_le_mul_of_nonneg_right off.le scale_nonneg
    have filled := mul_le_mul_of_nonneg_right filled scale_nonneg
    have drop := mul_nonneg drop_nonneg scale_nonneg
    linarith

namespace Coin

section

variable {n : Numeral} {w : Written} {units : Decimal} {scale : Word64} {coin : Coin}

/-- An accepted amount is close to what is written, its sign included: a sign that is lost belongs
to next to nothing. -/
theorem units_near (matched : n.Matches w) (positive : n.isNegative = false)
    (hunits : n.size.timesWhole? scale.val = some units) (whole : units.value = coin.units) :
    |(coin.units : ℚ) - w.value * scale.val| < w.dropped * scale.val + 1 / 10 ^ 8 := by
  have product := Decimal.timesWhole?_near hunits whole coin.units_lt
  have coin_le : (coin.units : ℚ) + 1 ≤ 0x10000000000000000 := by exact_mod_cast coin.units_lt
  have scale_le : (scale.val : ℚ) ≤ 0x10000000000000000 := by exact_mod_cast scale.val_lt.le
  have scale_nonneg : (0 : ℚ) ≤ scale.val := Nat.cast_nonneg _
  have drop_nonneg : 0 ≤ w.dropped + 1 / 10 ^ 28 :=
    add_nonneg w.dropped_nonneg (by positivity)
  have read := matched.near.units drop_nonneg scale_nonneg
    (by linarith [(abs_le.1 product).1])
  have error : |(coin.units : ℚ) - w.value * scale.val| ≤
      |coin.units - n.size.value * scale.val| +
        |n.size.value * scale.val - w.size * scale.val| := by
    unfold Written.value
    split_ifs with negative
    · rw [matched.unsigned positive negative, zero_mul, sub_zero, zero_sub, abs_neg, neg_mul,
        sub_neg_eq_add]
      exact abs_add_le _ _
    · exact abs_sub_le _ _ _
  linarith

/-- Two whole numbers less than one apart are the same. -/
theorem eq_of_near {a b : Nat} (near : |(a : ℚ) - b| < 1) : a = b := by
  have near : |(a : ℤ) - b| < 1 := by exact_mod_cast near
  rw [Int.abs_lt_one_iff] at near
  omega

/-- What fits is neither rounded nor does it lose its sign. -/
theorem units_exact (matched : n.Matches w) (positive : n.isNegative = false)
    (hunits : n.size.timesWhole? scale.val = some units) (whole : units.value = coin.units)
    (short : w.digits * max 1 scale.val < 0x1000000000000000000000000) (few : w.places ≤ 28)
    (within : w.places - w.power ≤ 28) :
    0 ≤ w.value ∧ w.value * scale.val = coin.units := by
  have digits_lt := Nat.lt_of_le_of_lt
    (Nat.le_mul_of_pos_right w.digits (Nat.le_max_left 1 scale.val)) short
  obtain ⟨size_eq, kept⟩ := matched.fits digits_lt few within
  have room := Nat.lt_of_le_of_lt
    (Nat.mul_le_mul_left w.digits (Nat.le_max_right 1 scale.val)) short
  have product := Decimal.timesWhole?_exact hunits
    (kept.imp_left fun mantissa_eq => by rwa [mantissa_eq])
  rw [← whole, product, size_eq]
  unfold Written.value
  split_ifs with negative
  · rw [← size_eq, matched.unsigned positive negative, neg_zero]
    exact ⟨le_rfl, rfl⟩
  · exact ⟨w.size_nonneg, rfl⟩

end

/-- The units of an accepted amount are what its text writes, to less than 10⁻⁸ units and what was
dropped behind the 28th place. So they are exactly that just if a whole number of units is written,
unless more than a half of a unit was dropped, which takes the ninth power of ten or more. A text is
exact in any case if its digits stay within 28 places, the power applied, and if there is room for
them in 96 binary digits, multiplied with the scale. -/
theorem ofDecimalText_exact_iff {text : String} {scale : Word64} {coin : Coin}
    (accepted : ofDecimalText text scale = .ok coin) :
    let chars := Text.trimBlank text.toList
    let w := Written.ofChars chars
    IsNumeral chars ∧
      |(coin.units : ℚ) - w.value * scale.val| < w.dropped * scale.val + 1 / 10 ^ 8 ∧
      (w.dropped * scale.val ≤ 1 / 2 →
        (0 ≤ w.value ∧ w.value * scale.val = coin.units ↔
          0 ≤ w.value ∧ ∃ k : Nat, w.value * scale.val = k)) ∧
      (w.digits * max 1 scale.val < 0x1000000000000000000000000 → w.places ≤ 28 →
        w.places - w.power ≤ 28 → 0 ≤ w.value ∧ w.value * scale.val = coin.units) := by
  intro chars w
  obtain ⟨n, units, hn, positive, hunits, whole⟩ := ofDecimalText_eq_ok accepted
  obtain ⟨numeral, matched⟩ := ofChars?_matches hn
  have near := units_near matched positive hunits whole
  refine ⟨numeral, near, fun little => ⟨fun exact => ⟨exact.1, _, exact.2⟩, ?_⟩,
    units_exact matched positive hunits whole⟩
  rintro ⟨nonneg, k, hk⟩
  change |(coin.units : ℚ) - w.value * scale.val| < _ at near
  rw [hk] at near
  have same : coin.units = k := eq_of_near (near.trans_le (by linarith))
  exact ⟨nonneg, by rw [hk, same]⟩

/-- Twelve and a half tenths are written with blanks, an underscore and a power. -/
theorem ofDecimalText_exact_iff_tenths :
    let text := " 1_2.50e-1 "
    let scale : Word64 := ⟨100000, by decide⟩
    let coin : Coin := ⟨125000, by decide⟩
    let w := Written.ofChars (Text.trimBlank text.toList)
    ofDecimalText text scale = .ok coin ∧
      w.digits * max 1 scale.val < 0x1000000000000000000000000 ∧ w.places ≤ 28 ∧
      w.places - w.power ≤ 28 ∧ 0 ≤ w.value ∧ w.value * scale.val = coin.units := by
  intro text scale coin w
  have accepted : ofDecimalText text scale = .ok coin := by decide +kernel
  have short : w.digits * max 1 scale.val < 0x1000000000000000000000000 := by decide +kernel
  have few : w.places ≤ 28 := by decide +kernel
  have within : w.places - w.power ≤ 28 := by decide +kernel
  obtain ⟨-, -, -, fits⟩ := ofDecimalText_exact_iff accepted
  exact ⟨accepted, short, few, within, fits short few within⟩

/-- One coin and far less than a unit of it are accepted as one coin. -/
theorem ofDecimalText_rounds :
    let text := "1.00000000000000000000000000001"
    let scale : Word64 := ⟨100000, by decide⟩
    let coin : Coin := ⟨100000, by decide⟩
    let w := Written.ofChars (Text.trimBlank text.toList)
    ofDecimalText text scale = .ok coin ∧ 0 ≤ w.value ∧ w.value * scale.val ≠ coin.units := by
  decide +kernel

/-- Four tenths of a coin are dropped behind the 28th place. -/
example : ofDecimalText "0.00000000000000000000000000014e28" ⟨100000, by decide⟩ =
    .ok ⟨100000, by decide⟩ := by
  decide +kernel

end Coin

end StakeLedger

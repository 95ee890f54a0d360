import Mathlib.Algebra.Order.Floor.Semifield
import Mathlib.Data.Rat.Floor
import StakeLedger.Throttle

/-!
# What a ratio is worth

One and the same number can be written as a ratio in many ways, and a ratio in lowest terms is one
of them. The share that a ratio takes of an amount depends on that number alone: it is the exact
product with the amount, rounded down, or an overflow where this leaves the range. So it makes no
difference to what is charged whether a ratio is in lowest terms.
-/

namespace StakeLedger

/-- The product of two words of 64 bits fits in 128 bits. -/
theorem Word.exists_product (a b : Word64) :
    ∃ product : Word128, ofNat? (a.val * b.val) = some product ∧ product.val = a.val * b.val :=
  ⟨⟨_, Nat.mul_lt_mul'' a.val_lt b.val_lt⟩, ofNat?_eq_some_iff.2 rfl, rfl⟩

namespace Ratio

/-! ## Worth -/

/-- The number that a ratio stands for, if it has a value. -/
def worth (r : Ratio) : ℚ := r.num.val / r.den.val

/-- Two ratios of one worth, both of which have a value. -/
structure Alike (r s : Ratio) : Prop where
  left_valued : r.den.val ≠ 0
  right_valued : s.den.val ≠ 0
  worth_eq : r.worth = s.worth

variable {r s : Ratio}

/-- Ratios of one worth are told by their products crosswise. -/
theorem alike_iff : r.Alike s ↔
    r.den.val ≠ 0 ∧ s.den.val ≠ 0 ∧ r.num.val * s.den.val = s.num.val * r.den.val := by
  have crosswise (left : r.den.val ≠ 0) (right : s.den.val ≠ 0) :
      r.worth = s.worth ↔ r.num.val * s.den.val = s.num.val * r.den.val := by
    rw [worth, worth, div_eq_div_iff (Nat.cast_ne_zero.2 left) (Nat.cast_ne_zero.2 right)]
    exact_mod_cast Iff.rfl
  constructor
  · rintro ⟨left, right, same⟩
    exact ⟨left, right, (crosswise left right).1 same⟩
  · rintro ⟨left, right, same⟩
    exact ⟨left, right, (crosswise left right).2 same⟩

/-- A common divisor can be taken out of a ratio. -/
theorem Alike.of_mul {g : Nat} (valued : s.den.val ≠ 0) (hnum : r.num.val * g = s.num.val)
    (hden : r.den.val * g = s.den.val) : r.Alike s := by
  have nonzero : r.den.val * g ≠ 0 := hden ▸ valued
  refine alike_iff.2 ⟨Nat.ne_zero_of_mul_ne_zero_left nonzero, valued, ?_⟩
  rw [← hnum, ← hden, Nat.mul_assoc, Nat.mul_comm g]

/-- A ratio that has a value can be brought to lowest terms. Its worth stays. -/
theorem exists_reduced (num : Word64) {den : Word64} (valued : den.val ≠ 0) :
    ∃ r, reduced num den = .ok r ∧ r.num.val.Coprime r.den.val ∧ r.Alike ⟨num, den⟩ := by
  have pos : 0 < num.val.gcd den.val := Nat.gcd_pos_of_pos_right _ (Nat.pos_of_ne_zero valued)
  obtain ⟨r, hr, hnum, hden⟩ : ∃ r, reduced num den = .ok r ∧
      r.num.val = num.val / num.val.gcd den.val ∧ r.den.val = den.val / num.val.gcd den.val :=
    ⟨_, if_neg valued, rfl, rfl⟩
  refine ⟨r, hr, ?_, .of_mul (g := num.val.gcd den.val) valued ?_ ?_⟩
  · rw [hnum, hden]
    exact Nat.coprime_div_gcd_div_gcd pos
  · rw [hnum]
    exact Nat.div_mul_cancel (Nat.gcd_dvd_left _ _)
  · rw [hden]
    exact Nat.div_mul_cancel (Nat.gcd_dvd_right _ _)

/-! ## Shares -/

/-- What the answer is to be when a share of `amount` is asked for at a worth: their exact product,
rounded down, or an overflow if that leaves the range. -/
inductive IsShare (worth : ℚ) (amount : Word64) : Except Failure Coin → Prop
  | share {c : Coin} (units : c.units = ⌊worth * amount.val⌋₊) : IsShare worth amount (.ok c)
  | overflow (large : 2 ^ 64 ≤ ⌊worth * amount.val⌋₊) :
    IsShare worth amount (.error (.overflow "ratio"))

/-- There is one right answer. -/
theorem IsShare.unique {worth : ℚ} {amount : Word64} {a b : Except Failure Coin}
    (ha : IsShare worth amount a) (hb : IsShare worth amount b) : a = b := by
  cases ha with
  | @share c units =>
    cases hb with
    | share units' => exact congrArg Except.ok (Coin.ext (units.trans units'.symm))
    | overflow large => exact absurd c.units_lt (by omega)
  | overflow large =>
    cases hb with
    | @share c units => exact absurd c.units_lt (by omega)
    | overflow => rfl

/-- A division of whole numbers rounds the exact product down. -/
theorem floor_worth_mul (r : Ratio) (amount : Word64) :
    ⌊r.worth * amount.val⌋₊ = amount.val * r.num.val / r.den.val := by
  calc ⌊r.worth * amount.val⌋₊
    _ = ⌊((amount.val * r.num.val : Nat) : ℚ) / r.den.val⌋₊ := by
      rw [worth, div_mul_eq_mul_div, mul_comm, Nat.cast_mul]
    _ = amount.val * r.num.val / r.den.val := Nat.floor_div_eq_div _ _

/-- A ratio that has a value takes the share that is due. -/
theorem isShare_shareOf (valued : r.den.val ≠ 0) (amount : Word64) :
    IsShare r.worth amount (r.shareOf amount) := by
  rw [shareOf, if_neg valued]
  split
  · rename_i large
    exact .overflow (floor_worth_mul r amount ▸ Coin.ofNat?_eq_none_iff.1 large)
  · rename_i fits
    exact .share ((Coin.ofNat?_eq_some_iff.1 fits).trans (floor_worth_mul r amount).symm)

/-- The share of `amount`, with the product taken in 128 bits. A product that does not fit there is
no result. -/
def strictShareOf (r : Ratio) (amount : Word64) : Option (Except Failure Coin) :=
  if r.den.val = 0 then some (.error (.invalidAmount "ratio" (.ofWord r.num)))
  else do
    let product : Word128 ← Word.ofNat? (amount.val * r.num.val)
    return match Coin.ofNat? (product.val / r.den.val) with
      | none => .error (.overflow "ratio")
      | some share => .ok share

/-- The product always fits. -/
theorem strictShareOf_eq (r : Ratio) (amount : Word64) :
    r.strictShareOf amount = some (r.shareOf amount) := by
  obtain ⟨product, fits, val⟩ := Word.exists_product amount r.num
  unfold strictShareOf shareOf
  split
  · rfl
  · rw [fits, ← val]
    rfl

/-! ## Ratios of one worth -/

namespace Alike

theorem shareOf_eq (h : r.Alike s) (amount : Word64) : r.shareOf amount = s.shareOf amount := by
  have left := isShare_shareOf h.left_valued amount
  have right := isShare_shareOf h.right_valued amount
  rw [h.worth_eq] at left
  exact left.unique right

/-- A message costs the same at ratios of one worth. -/
theorem cost_eq (h : r.Alike s) (t : Throttle) : t.cost r = t.cost s := h.shareOf_eq t.scale

/-- A charge looks at its ratio only for what the message costs. -/
theorem charge_eq (h : r.Alike s) (t : Throttle) (account : Username) (usage : Usage)
    (ceiling : Coin) (now : Seconds) :
    t.charge account usage ceiling r now = t.charge account usage ceiling s now := by
  rw [Throttle.charge, Throttle.charge, h.cost_eq]

end Alike

end Ratio

end StakeLedger

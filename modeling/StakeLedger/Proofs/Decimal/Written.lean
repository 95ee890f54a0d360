import Mathlib.Algebra.Order.Field.Rat
import Mathlib.Tactic.Positivity
import Mathlib.Tactic.Ring
import StakeLedger.Decimal.Numeral

/-!
# Written numbers

What a numeral writes does not depend on what can be stored. Its digits make one whole number, some
of them stand behind the point, and a power of ten may move that point. `IsNumeral` says what a
numeral looks like, and `Written.value` which number it writes.
-/

namespace StakeLedger

/-- A number as a numeral writes it. -/
structure Written where
  isNegative : Bool
  /-- All digits in front of the power, read as one whole number. -/
  digits : Nat
  /-- How many of these digits stand behind the point. -/
  places : Nat
  /-- The power of ten. -/
  power : Int

namespace Written

/-- The number without its sign. -/
def size (w : Written) : ℚ := w.digits * 10 ^ (w.power - w.places)

theorem size_nonneg (w : Written) : 0 ≤ w.size :=
  mul_nonneg (Nat.cast_nonneg _) (zpow_nonneg (by norm_num) _)

def value (w : Written) : ℚ := if w.isNegative then -w.size else w.size

/-- The digits of a text, read as one whole number. -/
def digitsOf (text : List Char) : Nat := Nat.ofDigitChars 10 (text.filter Char.isDigit) 0

/-- How many digits of a text stand behind its point. -/
def placesOf (text : List Char) : Nat := (text.dropWhile (· != '.')).countP Char.isDigit

/-- The letter in front of a power of ten. -/
def isMark (c : Char) : Bool := c = 'e' || c = 'E'

/-- The power of ten behind a mark. -/
def powerOf : List Char → Int
  | [] => 0
  | _ :: '-' :: digits => -digitsOf digits
  | _ :: digits => digitsOf digits

/-- What a text writes. -/
def ofChars (text : List Char) : Written :=
  let base := text.takeWhile (!isMark ·)
  { isNegative := text.head? = some '-'
    digits := digitsOf base
    places := placesOf base
    power := powerOf (text.dropWhile (!isMark ·)) }

end Written

/-- Digits in groups, with at most one point among them. -/
def IsPlain (body : List Char) : Prop :=
  body.count '.' ≤ 1 ∧
    ∃ d rest, body.filter (· != '.') = d :: rest ∧ d.isDigit ∧ rest.all Numeral.isGroupChar

theorem IsPlain.ne_nil {body : List Char} (h : IsPlain body) : body ≠ [] := by
  rintro rfl
  obtain ⟨-, d, rest, nothing, -⟩ := h
  cases nothing

/-- A sign, digits with a point among them, and a power of ten with a sign of its own. Only the
digits have to be there. -/
inductive IsNumeral : List Char → Prop
  | plain {sign body : List Char} (signed : sign ∈ [[], ['+'], ['-']]) (plain : IsPlain body) :
    IsNumeral (sign ++ body)
  | scientific {sign body direction digits : List Char} {mark : Char}
    (signed : sign ∈ [[], ['+'], ['-']]) (plain : IsPlain body) (marked : Written.isMark mark)
    (directed : direction ∈ [[], ['+'], ['-'], ['-', '+']]) (nonempty : digits ≠ [])
    (whole : digits.all Char.isDigit) :
    IsNumeral (sign ++ body ++ mark :: (direction ++ digits))

namespace Written

section

variable {text sign : List Char} {c : Char}

theorem ne_of_isDigit {d : Char} (h : c.isDigit = true) (other : d.isDigit = false) : c ≠ d := by
  rintro rfl
  cases h.symm.trans other

/-- Signs are neither digits nor points. -/
theorem digitsOf_sign (signed : sign ∈ [[], ['+'], ['-']]) :
    digitsOf (sign ++ text) = digitsOf text := by
  simp only [List.mem_cons, List.not_mem_nil, or_false] at signed
  rcases signed with rfl | rfl | rfl <;> rfl

theorem placesOf_sign (signed : sign ∈ [[], ['+'], ['-']]) :
    placesOf (sign ++ text) = placesOf text := by
  simp only [List.mem_cons, List.not_mem_nil, or_false] at signed
  rcases signed with rfl | rfl | rfl <;> rfl

theorem ofChars_eq {body : List Char} (signed : sign ∈ [[], ['+'], ['-']])
    (base : text.takeWhile (!isMark ·) = sign ++ body) :
    ofChars text = ⟨text.head? = some '-', digitsOf body, placesOf body,
      powerOf (text.dropWhile (!isMark ·))⟩ := by
  rw [ofChars, base, digitsOf_sign signed, placesOf_sign signed]

/-- As many digits as there are make a number below that power of ten. -/
theorem ofDigitChars_lt (text : List Char) :
    Nat.ofDigitChars 10 (text.filter Char.isDigit) 0 < 10 ^ text.countP Char.isDigit := by
  induction text with
  | nil => decide
  | cons c rest ih =>
    by_cases digit : c.isDigit
    · have bounds : 48 ≤ c.toNat ∧ c.toNat ≤ 57 := Char.isDigit_iff_toNat.1 digit
      rw [List.filter_cons_of_pos digit, Nat.ofDigitChars_cons,
        Nat.ofDigitChars_eq_ofDigitChars_zero, ← List.countP_eq_length_filter,
        List.countP_cons_of_pos digit, Nat.pow_succ]
      change _ * (10 * 0 + (c.toNat - 48)) + _ < _
      calc
        _ < 10 ^ rest.countP Char.isDigit * 9 + 10 ^ rest.countP Char.isDigit :=
          Nat.add_lt_add_of_le_of_lt (Nat.mul_le_mul_left _ (by omega)) ih
        _ = _ := (Nat.mul_succ _ 9).symm
    · rwa [List.filter_cons_of_neg digit, List.countP_cons_of_neg digit]

/-- Digits that follow make no number smaller. -/
theorem le_ofDigitChars (digits : List Char) (start : Nat) :
    start ≤ Nat.ofDigitChars 10 digits start := by
  rw [Nat.ofDigitChars_eq_ofDigitChars_zero]
  exact Nat.le_add_right_of_le (Nat.le_mul_of_pos_left _ (Nat.pow_pos (by decide)))

end

end Written

end StakeLedger

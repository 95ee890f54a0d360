/-!
# Decimal numbers

A decimal number is a whole mantissa with a decimal point moved to the left. The mantissa has at
most 96 binary digits and the point moves by at most 28 places, so a result that needs more is
rounded: it keeps as many places as fit, and a half goes to the even neighbour.

## Main definitions

* `Decimal` — a number `mantissa / 10 ^ places`.
* `roundQuotient` — a quotient rounded to the nearest whole number.
* `Decimal.nearest?` — the closest decimal number to a quotient, with as many places as fit.
* `Decimal.timesWhole?`, `Decimal.ofQuotient?` — product with and quotient of whole numbers.
-/

namespace StakeLedger

def tenTo (n : Nat) : Nat := Nat.pow 10 n

/-- The non-negative number `mantissa / 10 ^ places`. -/
structure Decimal where
  /-- All digits of the number, read as one whole number. -/
  mantissa : Nat
  /-- How many of the digits stand behind the point. -/
  places : Nat
  mantissa_lt : mantissa < 0x1000000000000000000000000
  places_le : places ≤ 28
  deriving DecidableEq

/-- The whole number nearest to `num / den`; a half goes to the even neighbour. -/
def roundQuotient (num den : Nat) : Nat :=
  let below := num / den
  let rest := num % den
  if 2 * rest < den then below
  else if 2 * rest = den then below + below % 2
  else below + 1

namespace Decimal

/-- The number with the given digits, if it is within the limits. -/
def of? (mantissa places : Nat) : Option Decimal :=
  if h : mantissa < 0x1000000000000000000000000 ∧ places ≤ 28 then
    some ⟨mantissa, places, h.1, h.2⟩
  else none

def zero : Decimal := ⟨0, 0, by decide, by decide⟩

/-- The decimal number nearest to `num / den` with the most places, up to `places`, at which the
mantissa fits; none if the whole part alone is too long. -/
def nearest? (num den : Nat) : (places : Nat) → Option Decimal
  | 0 => of? (roundQuotient num den) 0
  | fewer + 1 =>
    match of? (roundQuotient (num * tenTo (fewer + 1)) den) (fewer + 1) with
    | some d => some d
    | none => nearest? num den fewer

/-- The product with a whole number, at the places of the first factor where they fit. -/
def timesWhole? (d : Decimal) (n : Nat) : Option Decimal :=
  if d.mantissa = 0 ∨ n = 0 then some zero
  else nearest? (d.mantissa * n) (tenTo d.places) d.places

/-- The quotient of two whole numbers, to 28 places where they fit. -/
def ofQuotient? (num den : Nat) : Option Decimal := nearest? num den 28

def wholePart (d : Decimal) : Nat := d.mantissa / tenTo d.places

def isWhole (d : Decimal) : Bool := d.mantissa % tenTo d.places == 0

theorem of?_eq_some_iff {m p : Nat} {d : Decimal} :
    of? m p = some d ↔ d.mantissa = m ∧ d.places = p := by
  unfold of?
  constructor
  · intro h
    split at h
    · cases h
      exact ⟨rfl, rfl⟩
    · cases h
  · rintro ⟨rfl, rfl⟩
    rw [dif_pos ⟨d.mantissa_lt, d.places_le⟩]

theorem roundQuotient_mul {n den : Nat} (pos : 0 < den) : roundQuotient (n * den) den = n := by
  simp [roundQuotient, Nat.mul_div_cancel n pos, Nat.mul_mod_left, pos]

end Decimal

end StakeLedger

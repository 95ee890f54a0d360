import StakeLedger.Decimal.Basic
/-!
# Decimal text

A decimal number is printed with at least one digit in front of the point. Zeros at the end of the
fraction are dropped, and with them a point that nothing follows.
-/

namespace StakeLedger.Decimal

/-- The mantissa and the places left when zeros at the end of the fraction are dropped. -/
def dropZeros (mantissa : Nat) : (places : Nat) → Nat × Nat
  | 0 => (mantissa, 0)
  | places + 1 =>
    if mantissa % 10 = 0 then dropZeros (mantissa / 10) places else (mantissa, places + 1)

theorem dropZeros_le (mantissa places : Nat) :
    (dropZeros mantissa places).1 ≤ mantissa ∧ (dropZeros mantissa places).2 ≤ places := by
  induction places generalizing mantissa with
  | zero => exact ⟨Nat.le_refl _, Nat.le_refl _⟩
  | succ places ih =>
    unfold dropZeros
    split
    · have := ih (mantissa / 10)
      omega
    · exact ⟨Nat.le_refl _, Nat.le_refl _⟩

def trimmed (d : Decimal) : Decimal :=
  let left := dropZeros d.mantissa d.places
  have bounds := dropZeros_le d.mantissa d.places
  ⟨left.1, left.2, Nat.lt_of_le_of_lt bounds.1 d.mantissa_lt,
    Nat.le_trans bounds.2 d.places_le⟩

/-- The digits of a number below ten to the power `width`, filled up with zeros in front. -/
def paddedDigits (width n : Nat) : List Char :=
  let digits := Nat.toDigits 10 n
  List.replicate (width - digits.length) '0' ++ digits

def text (d : Decimal) : String :=
  let whole := Nat.toDigits 10 (d.mantissa / tenTo d.places)
  if d.places = 0 then String.ofList whole
  else String.ofList (whole ++ '.' :: paddedDigits d.places (d.mantissa % tenTo d.places))

end StakeLedger.Decimal

import StakeLedger.Number.Bytes
/-!
# Compressed points of the curve Edwards25519

A point of the curve `-x² + y² = 1 + d x² y²` over the integers modulo `2 ^ 255 - 19` is written as
the 255 bits of its `y`, least significant byte first, and one bit for the sign of `x`. The `y` need
not be reduced, and the sign bit is free even where `x` is zero. Such bytes name a point exactly if
`(y² - 1) / (d y² + 1)` is a square.
-/

namespace StakeLedger.Edwards25519

def modulus : Nat := Nat.pow 2 255 - 19

/-- The coefficient `d` of the curve, `-121665 / 121666`. -/
def coefficient : Nat :=
  37095705934669439343138083508754565189542113879843219016388785533085940283555

/-- The power `base ^ exponent` modulo `m`, by repeated squaring. -/
def powerMod (m base exponent : Nat) : Nat :=
  if exponent = 0 then 1 % m
  else
    let half := powerMod m (base * base % m) (exponent / 2)
    if exponent % 2 = 1 then base * half % m else half
termination_by exponent
decreasing_by omega

/-- Whether a number is a square modulo the modulus, zero included, by Euler's criterion. -/
def isSquare (n : Nat) : Bool :=
  powerMod modulus (n % modulus) ((modulus - 1) / 2) ≤ 1

/-- Whether the bytes name a point: the quotient of two numbers is a square exactly if their product
is. -/
def namesPoint (bytes : Bytes) : Bool :=
  let y := ofLittleEndian bytes % Nat.pow 2 255 % modulus
  let numerator := y * y + (modulus - 1)
  let denominator := coefficient * (y * y) + 1
  isSquare (numerator * denominator)

end StakeLedger.Edwards25519

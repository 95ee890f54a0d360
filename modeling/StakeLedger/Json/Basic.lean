/-!
# JSON values

A value keeps what its text says: the order and repetition of keys, and numbers as written. A text
may name by escapes half of a character pair without the other half; it is then no sequence of
characters, which only matters to those who use it.
-/

namespace StakeLedger

/-- A number as written: a sign, a whole part, and what follows it. -/
structure Json.Number where
  minus : Bool
  whole : Nat
  /-- The point with its digits and the exponent, as far as they are there. -/
  tail : List Char
  deriving DecidableEq

inductive Json where
  | null
  | bool (b : Bool)
  | number (n : Json.Number)
  /-- A text; `none` if it names half of a character pair. -/
  | text (s : Option String)
  | array (items : List Json)
  | object (members : List (Option String × Json))

namespace Json

/-- The number zero with nothing behind it, or any other natural number. -/
def ofNat (n : Nat) : Json := number ⟨false, n, []⟩

def ofInt (n : Int) : Json := number ⟨n < 0, n.natAbs, []⟩

def ofString (s : String) : Json := text (some s)

/-- The natural number that is written without sign, fraction and exponent. -/
def natural? : Json → Option Nat
  | number ⟨false, whole, []⟩ => some whole
  | _ => none

/-- The whole number that is written without fraction and exponent. Minus zero is none. -/
def integer? : Json → Option Int
  | number ⟨false, whole, []⟩ => some whole
  | number ⟨true, whole, []⟩ => if whole = 0 then none else some (-whole)
  | _ => none

def text? : Json → Option String
  | text s => s
  | _ => none

end Json

end StakeLedger

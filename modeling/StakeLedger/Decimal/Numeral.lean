import StakeLedger.Decimal.Basic
/-!
# Numerals

People write amounts as numerals: an optional sign, digits, an optional point with more digits, and
perhaps a power of ten behind the letter `e`. Underscores may group the digits after the first one.

A numeral with more fractional digits than a decimal number can hold is rounded by its first digit
that does not fit; only digits and underscores may follow that digit.
-/

namespace StakeLedger

/-- A number with a sign. -/
structure Numeral where
  /-- Whether the number lies below zero. A power of ten may leave nothing of it but the sign. -/
  isNegative : Bool
  /-- The number without its sign. -/
  size : Decimal
  deriving DecidableEq

namespace Numeral

def digit? (c : Char) : Option Nat :=
  if c.isDigit then some (c.toNat - 48) else none

/-- The characters that may follow the digit by which a number is rounded. -/
def isGroupChar (c : Char) : Bool := c.isDigit || c == '_'

/-- The number of `mantissa` and `places` when the digit `d` no longer fits behind it, and `rest`
follows. -/
def roundedBy (mantissa places d : Nat) (rest : List Char) : Option Decimal :=
  if !rest.all isGroupChar then none
  else if d < 5 then Decimal.of? mantissa places
  else if mantissa + 1 < 0x1000000000000000000000000 then Decimal.of? (mantissa + 1) places
  else if places = 0 then none
  else Decimal.of? ((mantissa + 5) / 10) (places - 1)

/-- The bound below which a mantissa is short. Behind the last place of a short mantissa an
underscore ends the digits that count; behind a long one it is passed over. -/
def shortBound : Nat := 18446744073709549060

/-- The number that the characters end. So far the digits of `mantissa` were read; `places?` counts
those behind the point once there was one, and `started` tells whether there were any digits. -/
def digitsFrom (mantissa : Nat) (places? : Option Nat) (started : Bool) :
    List Char → Option Decimal
  | [] => if started then Decimal.of? mantissa (places?.getD 0) else none
  | c :: rest =>
    match digit? c with
    | some d =>
      if places? = some 28 || 0x1000000000000000000000000 ≤ 10 * mantissa + d then
        places?.bind fun places => roundedBy mantissa places d rest
      else digitsFrom (10 * mantissa + d) (places?.map (· + 1)) true rest
    | none =>
      if c = '.' && places?.isNone then digitsFrom mantissa (some 0) started rest
      else if c = '_' && started then
        if places? = some 28 && mantissa < shortBound then roundedBy mantissa 28 0 rest
        else digitsFrom mantissa places? started rest
      else none

/-- The number of a text of digits with an optional sign and point. -/
def plain? : List Char → Option Numeral
  | '-' :: rest => (digitsFrom 0 none false rest).map fun size => ⟨size.mantissa != 0, size⟩
  | '+' :: rest => (digitsFrom 0 none false rest).map (⟨false, ·⟩)
  | text => (digitsFrom 0 none false text).map (⟨false, ·⟩)

/-- The whole number of at most 32 binary digits that a text writes in digits. -/
def power? (text : List Char) : Option Nat :=
  let digits := match text with
    | '+' :: rest => rest
    | _ => text
  if digits.isEmpty then none
  else
    match digits.mapM digit? with
    | none => none
    | some values =>
      let n := values.foldl (fun n d => 10 * n + d) 0
      if n < 0x100000000 then some n else none

/-- The number with its point moved `n` places to the left. Digits that then lie behind the last
place are rounded away, a half upwards. -/
def lowered? (d : Decimal) (n : Nat) : Option Decimal :=
  if 28 < n then none
  else
    match d.places + n - 28 with
    | 0 => Decimal.of? d.mantissa (d.places + n)
    | excess + 1 =>
      Decimal.of? ((d.mantissa + 5 * tenTo excess) / tenTo (excess + 1)) 28

/-- The number with its point moved `n` places to the right. -/
def raised? (d : Decimal) (n : Nat) : Option Decimal :=
  if n ≤ d.places then Decimal.of? d.mantissa (d.places - n)
  else if 28 < n then none
  else Decimal.of? (d.mantissa * tenTo (n - d.places)) 0

/-- The number of a text that ends in a power of ten. -/
def scientific? (text : List Char) : Option Numeral :=
  let isMark (c : Char) : Bool := c = 'e' || c = 'E'
  match text.dropWhile (!isMark ·) with
  | [] => none
  | _ :: power => do
    let base ← plain? (text.takeWhile (!isMark ·))
    match power with
    | '-' :: digits =>
      let n ← power? digits
      let size ← lowered? base.size n
      return ⟨base.isNegative, size⟩
    | _ =>
      let n ← power? power
      let size ← raised? base.size n
      return ⟨base.isNegative, size⟩

def ofChars? (text : List Char) : Option Numeral :=
  match plain? text with
  | some n => some n
  | none => scientific? text

end Numeral

end StakeLedger

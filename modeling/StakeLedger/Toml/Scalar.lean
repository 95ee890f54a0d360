import StakeLedger.Text.Hex
import StakeLedger.Toml.Scope
/-!
# TOML scalars

Values without quotes and brackets: truth values, whole numbers in four bases, numbers with a
fraction, dates and times.
-/

namespace StakeLedger.Toml

/-- Whether the characters behind a digit are digits, some of them behind one underscore each. -/
def isGroupedRest (isDigit : Char → Bool) : List Char → Bool
  | [] => true
  | '_' :: c :: rest => isDigit c && isGroupedRest isDigit rest
  | c :: rest => isDigit c && isGroupedRest isDigit rest

/-- Whether the characters are digits with underscores between them. -/
def isGrouped (isDigit : Char → Bool) : List Char → Bool
  | [] => false
  | c :: rest => isDigit c && isGroupedRest isDigit rest

/-- The value of digits to a base; underscores are passed over. -/
def groupedValue (base : Nat) (digits : List Char) : Nat :=
  digits.foldl (fun n c => if c = '_' then n else base * n + (Text.hexValue? c.toNat).getD 0) 0

/-- Whether the characters are digits to a base with underscores between them. -/
def isNumeral (base : Nat) (chars : List Char) : Bool :=
  isGrouped (fun c => match Text.hexValue? c.toNat with
    | some d => d < base
    | none => false) chars

/-- Whether the characters are a decimal numeral with no zero in front. -/
def isWholeNumeral (chars : List Char) : Bool :=
  isNumeral 10 chars && (chars.head? != some '0' || chars.length == 1)

/-- The characters behind a sign, and whether the sign is a minus. -/
def splitSign : List Char → Bool × List Char
  | '-' :: rest => (true, rest)
  | '+' :: rest => (false, rest)
  | chars => (false, chars)

/-- A whole number within 128 binary digits. -/
def inRange? (n : Int) : Option Int :=
  if -0x80000000000000000000000000000000 ≤ n ∧ n < 0x100000000000000000000000000000000 then some n
  else none

/-- The numeral to a base behind a mark such as `0x`. -/
def based? (base : Nat) (digits : List Char) : Option Int :=
  if isNumeral base digits then inRange? (groupedValue base digits) else none

/-- A whole number; those to other bases than ten have no sign. -/
def integer? (chars : List Char) : Option Int :=
  match chars with
  | '0' :: 'x' :: digits => based? 16 digits
  | '0' :: 'o' :: digits => based? 8 digits
  | '0' :: 'b' :: digits => based? 2 digits
  | _ =>
    let (minus, digits) := splitSign chars
    if isWholeNumeral digits then
      let n : Int := groupedValue 10 digits
      inRange? (if minus then -n else n)
    else none

/-- Whether `mantissa * 10 ^ exponent` rounds to a number of double precision. -/
def isFinite (mantissa : Nat) (exponent : Int) : Bool :=
  let size : Int := (Nat.toDigits 10 mantissa).length + exponent
  if mantissa = 0 || size < 300 then true
  else if 320 < size then false
  else
    let limit := Nat.pow 2 1024 - Nat.pow 2 970
    if 0 ≤ exponent then mantissa * Nat.pow 10 exponent.toNat < limit
    else mantissa < limit * Nat.pow 10 (-exponent).toNat

/-- The exponent that characters write, zero if there are none. -/
def exponent? : List Char → Option Int
  | [] => some 0
  | mark :: rest =>
    let (minus, digits) := splitSign rest
    if (mark == 'e' || mark == 'E') && isNumeral 10 digits then
      let n : Int := groupedValue 10 digits
      some (if minus then -n else n)
    else none

/-- Whether the characters are a number with a fraction or an exponent, neither too large. -/
def isFloat (chars : List Char) : Bool :=
  let body := (splitSign chars).2
  let inWhole (c : Char) : Bool := c.isDigit || c == '_'
  let whole := body.takeWhile inWhole
  let rest := body.dropWhile inWhole
  if body = ['i', 'n', 'f'] || body = ['n', 'a', 'n'] then true
  else if !isWholeNumeral whole then false
  else
    match rest with
    | '.' :: more =>
      let fraction := more.takeWhile inWhole
      isNumeral 10 fraction &&
        match exponent? (more.dropWhile inWhole) with
        | some e =>
          isFinite (groupedValue 10 (whole ++ fraction)) (e - (fraction.filter Char.isDigit).length)
        | none => false
    | [] => false
    | _ =>
      match exponent? rest with
      | some e => isFinite (groupedValue 10 whole) e
      | none => false

def twoDigits? : List Char → Option (Nat × List Char)
  | a :: b :: rest =>
    if a.isDigit && b.isDigit then some (10 * (a.toNat - 48) + (b.toNat - 48), rest) else none
  | _ => none

def daysOf (year month : Nat) : Nat :=
  if month = 2 then
    if year % 4 = 0 && (year % 100 != 0 || year % 400 = 0) then 29 else 28
  else if month = 4 || month = 6 || month = 9 || month = 11 then 30
  else 31

/-- What follows a date. -/
def afterDate? (chars : List Char) : Option (List Char) := do
  let (century, rest) ← twoDigits? chars
  let (year, rest) ← twoDigits? rest
  let '-' :: rest := rest | none
  let (month, rest) ← twoDigits? rest
  let '-' :: rest := rest | none
  let (day, rest) ← twoDigits? rest
  if 1 ≤ month && month ≤ 12 && 1 ≤ day && day ≤ daysOf (100 * century + year) month then some rest
  else none

/-- What follows a fraction of a second, which needs a digit behind its point. -/
def afterFraction? : List Char → Option (List Char)
  | '.' :: rest =>
    if (rest.head?.map Char.isDigit).getD false then some (rest.dropWhile Char.isDigit) else none
  | rest => some rest

/-- What follows a time of day; its seconds may be left out. -/
def afterTime? (chars : List Char) : Option (List Char) := do
  let (hour, rest) ← twoDigits? chars
  let ':' :: rest := rest | none
  let (minute, rest) ← twoDigits? rest
  if 23 < hour || 59 < minute then none
  else
    match rest with
    | ':' :: rest =>
      let (second, rest) ← twoDigits? rest
      if 60 < second then none else afterFraction? rest
    | _ => some rest

/-- Whether the characters are a distance from universal time, or nothing. -/
def isOffset : List Char → Bool
  | [] => true
  | ['Z'] | ['z'] => true
  | sign :: rest =>
    (sign == '+' || sign == '-') &&
      match twoDigits? rest with
      | some (hour, ':' :: rest) =>
        match twoDigits? rest with
        | some (minute, []) => hour ≤ 23 && minute ≤ 59
        | _ => false
      | _ => false

/-- Whether the characters are a date, a time, or both. -/
def isDateTime (chars : List Char) : Bool :=
  match afterDate? chars with
  | some [] => true
  | some (mark :: time) =>
    (mark == 'T' || mark == 't' || mark == ' ') &&
      match afterTime? time with
      | some offset => isOffset offset
      | none => false
  | none => afterTime? chars == some []

/-- The value of an unquoted text. -/
def scalar? (chars : List Char) : Option Value :=
  match integer? chars with
  | some n => some (.integer n)
  | none =>
    if chars = ['t', 'r', 'u', 'e'] || chars = ['f', 'a', 'l', 's', 'e'] || isFloat chars ||
        isDateTime chars then some .other
    else none

/-- The characters of scalars. -/
def isScalarChar (c : Char) : Bool :=
  c.isAlphanum || c == '_' || c == '+' || c == '-' || c == '.' || c == ':'

/-- The characters of the scalar at the front, and what follows. A blank may stand between a date
and a digit of its time. -/
def splitScalar (chars : List Char) : List Char × List Char :=
  let front := chars.takeWhile isScalarChar
  match chars.dropWhile isScalarChar with
  | ' ' :: c :: rest =>
    if afterDate? front == some [] && c.isDigit then
      (front ++ ' ' :: (c :: rest).takeWhile isScalarChar, (c :: rest).dropWhile isScalarChar)
    else (front, ' ' :: c :: rest)
  | rest => (front, rest)

end StakeLedger.Toml

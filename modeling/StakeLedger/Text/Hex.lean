import StakeLedger.Text.Quoted
import StakeLedger.Text.Utf8
/-!
# Hexadecimal text

Bytes are shown as two lower-case digits each. On reading both cases are taken, an odd number of
digits is refused first, and then the first character that is no digit.
-/

namespace StakeLedger.Text

/-- Why a text is no hexadecimal form of bytes. -/
inductive HexDefect where
  /-- There is a digit too many or too few. -/
  | oddLength
  /-- The byte `byte` at `position` is no digit. -/
  | strayByte (byte : UInt8) (position : Nat)
  deriving DecidableEq

/-- The defect in words; a stray byte is shown as the character of that number. -/
def HexDefect.message : HexDefect → String
  | .oddLength => "Odd number of digits"
  | .strayByte byte position =>
    "Invalid character " ++ quotedOne (Char.ofNat byte.toNat) ++ s!" at position {position}"

/-- The digit for a number below sixteen. -/
def hexDigit (n : Nat) : Char := Char.ofNat (if n < 10 then 48 + n else 87 + n)

def hexPair (b : UInt8) : List Char := [hexDigit (b.toNat / 16), hexDigit (b.toNat % 16)]

def hex (bytes : Bytes) : String := String.ofList (bytes.flatMap hexPair)

theorem utf8ByteSize_ofList_le (cs : List Char) :
    (String.ofList cs).utf8ByteSize ≤ 4 * cs.length := by
  induction cs with
  | nil => simp
  | cons c cs ih =>
    have size := c.utf8Size_le_four
    have split : String.ofList (c :: cs) = String.ofList [c] ++ String.ofList cs := by
      rw [← String.ofList_append, List.singleton_append]
    rw [split, String.utf8ByteSize_append, List.length_cons]
    simp
    omega

theorem length_flatMap_hexPair (bytes : Bytes) :
    (bytes.flatMap hexPair).length = 2 * bytes.length := by
  induction bytes with
  | nil => rfl
  | cons b rest ih =>
    simp [hexPair, ih]
    omega

theorem utf8ByteSize_hex_le (bytes : Bytes) : (hex bytes).utf8ByteSize ≤ 8 * bytes.length := by
  have size := utf8ByteSize_ofList_le (bytes.flatMap hexPair)
  rw [length_flatMap_hexPair] at size
  unfold hex
  omega

/-- The value of the digit with the character number `n`. -/
def hexValue? (n : Nat) : Option Nat :=
  if 48 ≤ n && n ≤ 57 then some (n - 48)
  else if 97 ≤ n && n ≤ 102 then some (n - 87)
  else if 65 ≤ n && n ≤ 70 then some (n - 55)
  else none

/-- The value of the digit at `position`. -/
def hexValueAt (position : Nat) (b : UInt8) : Except HexDefect Nat :=
  match hexValue? b.toNat with
  | some n => .ok n
  | none => .error (.strayByte b position)

/-- The bytes of the digits from `position` on, two at a time. -/
def hexPairs (position : Nat) : Bytes → Except HexDefect Bytes
  | high :: low :: rest => do
    let h ← hexValueAt position high
    let l ← hexValueAt (position + 1) low
    let more ← hexPairs (position + 2) rest
    return UInt8.ofNat (16 * h + l) :: more
  | _ => .ok []

/-- The bytes that a text of hexadecimal digits stands for. -/
def ofHex (digits : Bytes) : Except HexDefect Bytes :=
  if digits.length % 2 = 1 then .error .oddLength else hexPairs 0 digits

end StakeLedger.Text

import StakeLedger.Curve.Edwards25519
import StakeLedger.Digest.Sha256
import StakeLedger.Text.Blank
import StakeLedger.Text.Hex
/-!
# Public keys and addresses

A public key is a compressed point of the curve Edwards25519. Coin is held at addresses; the address
of a key is the start of the key's digest.
-/

namespace StakeLedger

/-- A place where coin is held. Any text is an address whose length can be written with 64 binary
digits; the addresses of keys are hexadecimal. -/
structure Address where
  text : String
  short : text.utf8ByteSize < 0x10000000000000000
  deriving DecidableEq

namespace Address

/-- The address of a text, unless the text is too long. -/
def ofText? (text : String) : Option Address :=
  if h : text.utf8ByteSize < 0x10000000000000000 then some ⟨text, h⟩ else none

@[ext] theorem ext {a b : Address} (h : a.text = b.text) : a = b := by
  cases a; cases b; cases h; rfl

@[simp] theorem ofText?_text (a : Address) : ofText? a.text = some a := dif_pos a.short

end Address

/-- 32 bytes that name a point of the curve. -/
structure PublicKey where
  bytes : Bytes
  length_eq : bytes.length = 32
  onCurve : Edwards25519.namesPoint bytes = true
  deriving DecidableEq

/-- Why a text is no public key. -/
inductive KeyDefect where
  | notHex (defect : Text.HexDefect)
  | wrongLength
  | offCurve
  deriving DecidableEq

def KeyDefect.message : KeyDefect → String
  | .notHex defect => defect.message
  | .wrongLength => "expected 32 bytes"
  | .offCurve => "signature error: Cannot decompress Edwards point"

namespace PublicKey

def ofBytes (bytes : Bytes) : Except KeyDefect PublicKey :=
  if size : bytes.length = 32 then
    if point : Edwards25519.namesPoint bytes = true then .ok ⟨bytes, size, point⟩
    else .error .offCurve
  else .error .wrongLength

/-- The key of a hexadecimal text; blanks around the digits are passed over. -/
def ofHex (text : String) : Except KeyDefect PublicKey :=
  let digits := Text.utf8 (String.ofList (Text.trimBlank text.toList))
  match Text.ofHex digits with
  | .error defect => .error (.notHex defect)
  | .ok bytes => ofBytes bytes

def toHex (key : PublicKey) : String := Text.hex key.bytes

/-- The address of a key: the first twenty bytes of its digest, in hexadecimal digits. -/
def address (key : PublicKey) : Address where
  text := Text.hex ((Sha256.digest key.bytes).take 20)
  short := by
    have long := Text.utf8ByteSize_hex_le ((Sha256.digest key.bytes).take 20)
    have few := List.length_take_le 20 (Sha256.digest key.bytes)
    omega

end PublicKey

end StakeLedger

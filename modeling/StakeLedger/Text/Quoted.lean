import StakeLedger.Text.Hidden
/-!
# Quoted text

In messages a text stands between double quotes and a single character between single ones. The
quote and the backslash are escaped, common controls have a letter, and characters without a shape
of their own are shown by their number.
-/

namespace StakeLedger.Text

/-- A character as it is written between two quotes of the given kind. -/
def quotedChar (quote c : Char) : List Char :=
  if c = '\x00' then ['\\', '0']
  else if c = '\t' then ['\\', 't']
  else if c = '\n' then ['\\', 'n']
  else if c = '\r' then ['\\', 'r']
  else if c = '\\' || c = quote then ['\\', c]
  else if isHidden c then ['\\', 'u', '\x7b'] ++ Nat.toDigits 16 c.toNat ++ ['\x7d']
  else [c]

/-- A text between double quotes. -/
def quoted (s : String) : String :=
  String.ofList ('"' :: (s.toList.flatMap (quotedChar '"') ++ ['"']))

/-- A character between single quotes. -/
def quotedOne (c : Char) : String :=
  String.ofList ('\x27' :: (quotedChar '\x27' c ++ ['\x27']))

end StakeLedger.Text

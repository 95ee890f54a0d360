import StakeLedger.Json.Basic
import StakeLedger.Text.Hex
/-!
# JSON text

Values are written without any blanks, or one item to a line, indented by two blanks for each level.
-/

namespace StakeLedger.Json

/-- A character as it is written inside a quoted text. -/
def escapedChar (c : Char) : List Char :=
  if c = '"' then ['\\', '"']
  else if c = '\\' then ['\\', '\\']
  else if c = '\x08' then ['\\', 'b']
  else if c = '\x0c' then ['\\', 'f']
  else if c = '\n' then ['\\', 'n']
  else if c = '\r' then ['\\', 'r']
  else if c = '\t' then ['\\', 't']
  else if c.toNat < 32 then
    ['\\', 'u', '0', '0', Text.hexDigit (c.toNat / 16), Text.hexDigit (c.toNat % 16)]
  else [c]

/-- A text between quotes. One that names half of a character pair is shown as such a half. -/
def quotedText : Option String → List Char
  | some s => '"' :: (s.toList.flatMap escapedChar ++ ['"'])
  | none => ['"', '\\', 'u', 'd', '8', '0', '0', '"']

def Number.chars (n : Number) : List Char :=
  (if n.minus then ['-'] else []) ++ Nat.toDigits 10 n.whole ++ n.tail

def wordOf (b : Bool) : List Char :=
  if b then ['t', 'r', 'u', 'e'] else ['f', 'a', 'l', 's', 'e']

mutual

/-- A value without blanks. -/
def compactChars : Json → List Char
  | null => ['n', 'u', 'l', 'l']
  | bool b => wordOf b
  | number n => n.chars
  | text s => quotedText s
  | array [] => ['[', ']']
  | array (v :: items) => '[' :: (compactChars v ++ compactItems items)
  | object [] => ['\x7b', '\x7d']
  | object ((key, v) :: members) =>
    '\x7b' :: (quotedText key ++ ':' :: (compactChars v ++ compactMembers members))

/-- The further items of an array, and its end. -/
def compactItems : List Json → List Char
  | [] => [']']
  | v :: items => ',' :: (compactChars v ++ compactItems items)

/-- The further members of an object, and its end. -/
def compactMembers : List (Option String × Json) → List Char
  | [] => ['\x7d']
  | (key, v) :: members =>
    ',' :: (quotedText key ++ ':' :: (compactChars v ++ compactMembers members))

end

def newLine (level : Nat) : List Char := '\n' :: List.replicate (2 * level) ' '

mutual

/-- A value over several lines, at a level of nesting. -/
def prettyChars (level : Nat) : Json → List Char
  | null => ['n', 'u', 'l', 'l']
  | bool b => wordOf b
  | number n => n.chars
  | text s => quotedText s
  | array [] => ['[', ']']
  | array (v :: items) =>
    '[' :: (newLine (level + 1) ++ (prettyChars (level + 1) v ++ prettyItems level items))
  | object [] => ['\x7b', '\x7d']
  | object ((key, v) :: members) =>
    '\x7b' :: (newLine (level + 1) ++ (quotedText key ++ ':' :: ' ' ::
      (prettyChars (level + 1) v ++ prettyMembers level members)))

def prettyItems (level : Nat) : List Json → List Char
  | [] => newLine level ++ [']']
  | v :: items =>
    ',' :: (newLine (level + 1) ++ (prettyChars (level + 1) v ++ prettyItems level items))

def prettyMembers (level : Nat) : List (Option String × Json) → List Char
  | [] => newLine level ++ ['\x7d']
  | (key, v) :: members =>
    ',' :: (newLine (level + 1) ++ (quotedText key ++ ':' :: ' ' ::
      (prettyChars (level + 1) v ++ prettyMembers level members)))

end

def compact (v : Json) : String := String.ofList (compactChars v)

def pretty (v : Json) : String := String.ofList (prettyChars 0 v)

end StakeLedger.Json

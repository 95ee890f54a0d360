import StakeLedger.Json.Basic
import StakeLedger.Text.Hex
/-!
# JSON tokens

The characters of a JSON text form tokens: marks, words, numbers and quoted texts, with blanks
between them. They are found by an automaton that reads one character after another.
-/

namespace StakeLedger.Json

inductive Token where
  | openArray
  | closeArray
  | openObject
  | closeObject
  | comma
  | colon
  | null
  | bool (b : Bool)
  | number (n : Number)
  /-- A quoted text; `none` if it names half of a character pair. -/
  | text (s : Option String)
  deriving DecidableEq

def digitsValue (digits : List Char) : Nat :=
  digits.foldl (fun n c => 10 * n + (c.toNat - 48)) 0

/-- Whether the characters are an exponent, or nothing. -/
def isExponent : List Char → Bool
  | [] => true
  | mark :: rest =>
    (mark == 'e' || mark == 'E') &&
      let digits := match rest with
        | '+' :: digits => digits
        | '-' :: digits => digits
        | _ => rest
      !digits.isEmpty && digits.all Char.isDigit

/-- Whether the characters can follow the whole part of a number. -/
def isTail : List Char → Bool
  | '.' :: rest =>
    !(rest.takeWhile Char.isDigit).isEmpty && isExponent (rest.dropWhile Char.isDigit)
  | rest => isExponent rest

/-- The number that the characters after its sign write. The whole part has no zero in front. -/
def Number.unsigned? (minus : Bool) (chars : List Char) : Option Number :=
  let whole := chars.takeWhile Char.isDigit
  let tail := chars.dropWhile Char.isDigit
  if whole.isEmpty || (whole.head? == some '0' && whole.length != 1) || !isTail tail then none
  else some ⟨minus, digitsValue whole, tail⟩

def Number.ofChars? : List Char → Option Number
  | '-' :: rest => unsigned? true rest
  | chars => unsigned? false chars

def wordOfChars? (chars : List Char) : Option Token :=
  if chars = ['n', 'u', 'l', 'l'] then some .null
  else if chars = ['t', 'r', 'u', 'e'] then some (.bool true)
  else if chars = ['f', 'a', 'l', 's', 'e'] then some (.bool false)
  else none

/-- A part of a quoted text: a character, or a 16-bit unit given by its number. -/
inductive Piece where
  | char (c : Char)
  | unit (n : Nat)
  deriving DecidableEq

/-- Whether a unit is the first half of a character pair. -/
def isHighHalf (n : Nat) : Bool := 0xD800 ≤ n && n ≤ 0xDBFF

/-- Whether a unit is the second half of a character pair. -/
def isLowHalf (n : Nat) : Bool := 0xDC00 ≤ n && n ≤ 0xDFFF

/-- The characters of the pieces of a text, unless half of a pair stands alone. -/
def assemble : List Piece → Option (List Char)
  | [] => some []
  | .char c :: rest => (assemble rest).map (c :: ·)
  | .unit high :: .unit low :: rest =>
    if isHighHalf high then
      if isLowHalf low then
        (assemble rest).map
          (Char.ofNat (0x10000 + (high - 0xD800) * 0x400 + (low - 0xDC00)) :: ·)
      else none
    else if isLowHalf high then none
    else (assemble (.unit low :: rest)).map (Char.ofNat high :: ·)
  | .unit n :: rest =>
    if isHighHalf n || isLowHalf n then none
    else (assemble rest).map (Char.ofNat n :: ·)

/-- The character that a letter after a backslash stands for. -/
def escapeOf? (c : Char) : Option Char :=
  if c = '"' || c = '\\' || c = '/' then some c
  else if c = 'b' then some '\x08'
  else if c = 'f' then some '\x0c'
  else if c = 'n' then some '\n'
  else if c = 'r' then some '\r'
  else if c = 't' then some '\t'
  else none

/-- What the automaton is in the middle of. What it has gathered is kept newest first. -/
inductive Mode where
  | between
  | word (chars : List Char)
  | number (chars : List Char)
  | text (pieces : List Piece)
  | escape (pieces : List Piece)
  /-- So many more hexadecimal digits of a unit are to come. -/
  | unit (pieces : List Piece) (missing value : Nat)
  deriving DecidableEq

/-- The automaton: what it is in the middle of, and the tokens it has found, newest first. -/
structure Lexer where
  /-- What it is in the middle of. -/
  mode : Mode
  found : List Token
  deriving DecidableEq

def isNumberChar (c : Char) : Bool :=
  c.isDigit || c == '-' || c == '+' || c == '.' || c == 'e' || c == 'E'

/-- A character where a token may start. -/
def Lexer.start (found : List Token) (c : Char) : Option Lexer :=
  if c = ' ' || c = '\n' || c = '\t' || c = '\r' then some ⟨.between, found⟩
  else if c = '[' then some ⟨.between, .openArray :: found⟩
  else if c = ']' then some ⟨.between, .closeArray :: found⟩
  else if c = '\x7b' then some ⟨.between, .openObject :: found⟩
  else if c = '\x7d' then some ⟨.between, .closeObject :: found⟩
  else if c = ',' then some ⟨.between, .comma :: found⟩
  else if c = ':' then some ⟨.between, .colon :: found⟩
  else if c = '"' then some ⟨.text [], found⟩
  else if c.isDigit || c = '-' then some ⟨.number [c], found⟩
  else if c.isLower then some ⟨.word [c], found⟩
  else none

/-- The tokens once the word or number that was being read has ended. -/
def Lexer.ended (l : Lexer) : Option (List Token) :=
  match l.mode with
  | .between => some l.found
  | .word chars => (wordOfChars? chars.reverse).map (· :: l.found)
  | .number chars => (Number.ofChars? chars.reverse).map (.number · :: l.found)
  | .text _ | .escape _ | .unit .. => none

/-- The automaton after one more character. -/
def Lexer.step (l : Lexer) (c : Char) : Option Lexer :=
  match l.mode with
  | .between => start l.found c
  | .word chars =>
    if c.isLower then some { l with mode := .word (c :: chars) }
    else l.ended.bind (start · c)
  | .number chars =>
    if isNumberChar c then some { l with mode := .number (c :: chars) }
    else l.ended.bind (start · c)
  | .text pieces =>
    if c = '"' then
      some ⟨.between, .text ((assemble pieces.reverse).map String.ofList) :: l.found⟩
    else if c = '\\' then some { l with mode := .escape pieces }
    else if c.toNat < 32 then none
    else some { l with mode := .text (.char c :: pieces) }
  | .escape pieces =>
    if c = 'u' then some { l with mode := .unit pieces 4 0 }
    else (escapeOf? c).map fun e => { l with mode := .text (.char e :: pieces) }
  | .unit pieces missing value =>
    match Text.hexValue? c.toNat with
    | none => none
    | some d =>
      if missing = 1 then some { l with mode := .text (.unit (16 * value + d) :: pieces) }
      else some { l with mode := .unit pieces (missing - 1) (16 * value + d) }

def Token.ofChars? (chars : List Char) : Option (List Token) := do
  let l ← chars.foldlM Lexer.step ⟨.between, []⟩
  return (← l.ended).reverse

end StakeLedger.Json

import StakeLedger.Text.Hex
/-!
# TOML texts

Texts stand between quotes. Between double quotes a backslash starts an escape, between single ones
it does not; three quotes in place of one allow for more than one line.
-/

namespace StakeLedger.Toml

/-- Controls, which may not stand in texts and comments. A tab is none. -/
def isControl (c : Char) : Bool := (c.toNat < 32 && c != '\t') || c.toNat == 127

/-- The character that a letter after a backslash stands for. -/
def escapeOf? (c : Char) : Option Char :=
  if c = '"' || c = '\\' then some c
  else if c = 'b' then some '\x08'
  else if c = 't' then some '\t'
  else if c = 'n' then some '\n'
  else if c = 'f' then some '\x0c'
  else if c = 'r' then some '\r'
  else if c = 'e' then some '\x1b'
  else none

/-- How many hexadecimal digits follow a letter after a backslash. -/
def digitsAfter? (c : Char) : Option Nat :=
  if c = 'x' then some 2
  else if c = 'u' then some 4
  else if c = 'U' then some 8
  else none

/-- Whether the reader of a text is in the middle of an escape. -/
inductive Escape where
  | outside
  | backslash
  /-- So many more digits are to come. -/
  | digits (missing value : Nat)
  deriving DecidableEq

/-- What one more character of an escape leads to: the escape goes on, or it is a character. -/
def Escape.step (e : Escape) (c : Char) : Option (Escape × Option Char) :=
  match e with
  | outside => none
  | backslash =>
    match escapeOf? c with
    | some d => some (outside, some d)
    | none => (digitsAfter? c).map fun n => (digits n 0, none)
  | digits missing value =>
    match Text.hexValue? c.toNat with
    | none => none
    | some d =>
      let value := 16 * value + d
      if missing != 1 then some (digits (missing - 1) value, none)
      else if value.isValidChar then some (outside, some (Char.ofNat value))
      else none

/-- The text up to the closing double quote, and what follows. `found` is the text so far, newest
character first. -/
def basicText (found : List Char) (e : Escape) : List Char → Option (List Char × List Char)
  | [] => none
  | c :: rest =>
    if e = .outside then
      if c = '"' then some (found.reverse, rest)
      else if c = '\\' then basicText found .backslash rest
      else if isControl c then none
      else basicText (c :: found) .outside rest
    else
      match e.step c with
      | none => none
      | some (e, none) => basicText found e rest
      | some (e, some d) => basicText (d :: found) e rest

/-- The text up to the closing single quote, and what follows. -/
def literalText (found : List Char) : List Char → Option (List Char × List Char)
  | [] => none
  | c :: rest =>
    if c = '\x27' then some (found.reverse, rest)
    else if isControl c then none
    else literalText (c :: found) rest

/-- Where the reader of a text of several lines is. -/
inductive Place where
  /-- In the text, behind so many quotes. -/
  | text (quotes : Nat)
  | escape (e : Escape)
  /-- Behind a backslash and a blank: only blanks may follow up to the end of the line. -/
  | lineEnd
  /-- Behind a backslash at the end of a line: blanks and further line ends are passed over. -/
  | lineStart
  deriving DecidableEq

def isLineBlank (c : Char) : Bool := c == ' ' || c == '\t'

/-- Where an ordinary character of a text of several lines leads. -/
def Place.ordinary (quote c : Char) : Option Place :=
  if c = '\\' && quote = '"' then some (.escape .backslash)
  else if isControl c && c != '\n' then none
  else some (.text 0)

/-- What follows a text of several lines. Three quotes close it; up to two more may stand before
them as part of the text. -/
def afterLines? (quote : Char) (p : Place) : List Char → Option (List Char)
  | [] => if p = .text 3 || p = .text 4 then some [] else none
  | c :: rest =>
    match p with
    | .text quotes =>
      if c = quote then
        if quotes = 4 then some rest else afterLines? quote (.text (quotes + 1)) rest
      else if 3 ≤ quotes then some (c :: rest)
      else
        match Place.ordinary quote c with
        | none => none
        | some p => afterLines? quote p rest
    | .escape e =>
      if e = .backslash && c = '\n' then afterLines? quote .lineStart rest
      else if e = .backslash && isLineBlank c then afterLines? quote .lineEnd rest
      else
        match e.step c with
        | none => none
        | some (.outside, _) => afterLines? quote (.text 0) rest
        | some (e, _) => afterLines? quote (.escape e) rest
    | .lineEnd =>
      if isLineBlank c then afterLines? quote .lineEnd rest
      else if c = '\n' then afterLines? quote .lineStart rest
      else none
    | .lineStart =>
      if isLineBlank c || c = '\n' then afterLines? quote .lineStart rest
      else if c = quote then afterLines? quote (.text 1) rest
      else
        match Place.ordinary quote c with
        | none => none
        | some p => afterLines? quote p rest

end StakeLedger.Toml

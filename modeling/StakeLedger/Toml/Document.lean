import StakeLedger.Toml.Quoted
import StakeLedger.Toml.Scalar
/-!
# TOML documents

A document is a sequence of lines with a key and its value, and of headers that open the table that
the following keys belong to.
-/

namespace StakeLedger.Toml

def skipBlanks (chars : List Char) : List Char := chars.dropWhile isLineBlank

/-- The rest behind blanks, line ends and comments. -/
def skipLines (inComment : Bool) : List Char → Option (List Char)
  | [] => some []
  | c :: rest =>
    if inComment then
      if c = '\n' then skipLines false rest
      else if isControl c then none
      else skipLines true rest
    else if isLineBlank c || c = '\n' then skipLines false rest
    else if c = '#' then skipLines true rest
    else some (c :: rest)

/-- The rest behind the end of a line, before which a comment may stand. -/
def afterLine (inComment : Bool) : List Char → Option (List Char)
  | [] => some []
  | c :: rest =>
    if c = '\n' then some rest
    else if inComment then if isControl c then none else afterLine true rest
    else if isLineBlank c then afterLine false rest
    else if c = '#' then afterLine true rest
    else none

/-- How many keys dots may join, and how deep arrays and tables in braces may be nested. -/
def depthLimit : Nat := 80

def isBareChar (c : Char) : Bool := c.isAlphanum || c == '_' || c == '-'

/-- A key, and what follows it. -/
def key? : List Char → Option (String × List Char)
  | '"' :: rest => (basicText [] .outside rest).map fun (name, rest) => (String.ofList name, rest)
  | '\x27' :: rest => (literalText [] rest).map fun (name, rest) => (String.ofList name, rest)
  | chars =>
    let name := chars.takeWhile isBareChar
    if name.isEmpty then none else some (String.ofList name, chars.dropWhile isBareChar)

/-- At most so many keys joined by dots, and what follows them. -/
def keys? : (limit : Nat) → List Char → Option (List String × List Char)
  | 0, _ => none
  | limit + 1, chars => do
    let (name, rest) ← key? (skipBlanks chars)
    match skipBlanks rest with
    | '.' :: rest =>
      let (names, rest) ← keys? limit rest
      return (name :: names, rest)
    | rest => return ([name], rest)

mutual

/-- A value, and what follows it. Arrays and tables may be nested to the given depth, and the bound
is at least the number of characters. -/
def value? (depth : Nat) : (bound : Nat) → List Char → Option (Value × List Char)
  | 0, _ => none
  | bound + 1, chars =>
    match chars with
    | '"' :: '"' :: '"' :: rest => (afterLines? '"' (.text 0) rest).map (.other, ·)
    | '"' :: rest => (basicText [] .outside rest).map fun (_, rest) => (.other, rest)
    | '\x27' :: '\x27' :: '\x27' :: rest => (afterLines? '\x27' (.text 0) rest).map (.other, ·)
    | '\x27' :: rest => (literalText [] rest).map fun (_, rest) => (.other, rest)
    | '[' :: rest =>
      if depth = 0 then none else (afterItems? (depth - 1) bound rest).map (.other, ·)
    | '\x7b' :: rest =>
      if depth = 0 then none
      else (afterMembers? (depth - 1) .empty bound rest).map (.other, ·)
    | _ =>
      let (front, rest) := splitScalar chars
      (scalar? front).map (·, rest)

/-- What follows an array, from one of its items or its end on. -/
def afterItems? (depth : Nat) : (bound : Nat) → List Char → Option (List Char)
  | 0, _ => none
  | bound + 1, chars => do
    match ← skipLines false chars with
    | ']' :: rest => return rest
    | chars =>
      let (_, rest) ← value? depth bound chars
      match ← skipLines false rest with
      | ',' :: rest => afterItems? depth bound rest
      | ']' :: rest => return rest
      | _ => none

/-- What follows a table in braces, from one of its keys or its end on. -/
def afterMembers? (depth : Nat) (defined : Scope) :
    (bound : Nat) → List Char → Option (List Char)
  | 0, _ => none
  | bound + 1, chars => do
    match ← skipLines false chars with
    | '\x7d' :: rest => return rest
    | chars =>
      let (names, rest) ← keys? depthLimit chars
      match ← skipLines false rest with
      | '=' :: rest =>
        let (v, rest) ← value? depth bound (← skipLines false rest)
        let defined ← defined.define? [] names v
        match ← skipLines false rest with
        | ',' :: rest => afterMembers? depth defined bound rest
        | '\x7d' :: rest => return rest
        | _ => none
      | _ => none

end

/-- A line of a document that is not empty. -/
inductive Statement where
  | pair (keys : List String) (v : Value)
  | table (keys : List String)
  | item (keys : List String)
  deriving DecidableEq

/-- A statement up to the end of its line, and the lines that follow. -/
def statement? (chars : List Char) : Option (Statement × List Char) := do
  match chars with
  | '[' :: '[' :: rest =>
    match ← keys? depthLimit rest with
    | (names, ']' :: ']' :: rest) => return (.item names, ← afterLine false rest)
    | _ => none
  | '[' :: rest =>
    match ← keys? depthLimit rest with
    | (names, ']' :: rest) => return (.table names, ← afterLine false rest)
    | _ => none
  | _ =>
    match ← keys? depthLimit chars with
    | (names, '=' :: rest) =>
      let (v, rest) ← value? depthLimit (rest.length + 1) (skipBlanks rest)
      return (.pair names v, ← afterLine false rest)
    | _ => none

/-- The statements of a document. The bound is at least the number of its characters. -/
def statements? : (bound : Nat) → List Char → Option (List Statement)
  | 0, _ => none
  | bound + 1, chars => do
    match ← skipLines false chars with
    | [] => return []
    | chars =>
      let (s, rest) ← statement? chars
      let more ← statements? bound rest
      return s :: more

/-- The text with a single character at the end of each line. -/
def unixLines : List Char → List Char
  | '\r' :: '\n' :: rest => '\n' :: unixLines rest
  | c :: rest => c :: unixLines rest
  | [] => []

namespace Scope

/-- The scope and the open table after a statement. -/
def after? : Scope × Path → Statement → Option (Scope × Path)
  | (s, p), .pair keys v => (s.define? p keys v).map (·, p)
  | (s, _), .table keys => s.openTable? keys
  | (s, _), .item keys => s.openItem? keys

/-- What a document defines. A byte order mark in front is passed over. -/
def ofText? (text : String) : Option Scope := do
  let chars := unixLines <| match text.toList with
    | '\ufeff' :: rest => rest
    | chars => chars
  let statements ← statements? (chars.length + 1) chars
  let (s, _) ← statements.foldlM after? (empty, [])
  return s

end Scope

end StakeLedger.Toml

/-!
# TOML definitions

The statements of a TOML document define values and tables under dotted paths. A path is defined at
most once, a value cannot be extended, and a table can be reopened only if it came about as part of
a longer path.
-/

namespace StakeLedger.Toml

/-- A value. Values other than whole numbers are only checked, not kept. -/
inductive Value where
  | integer (n : Int)
  | other
  deriving DecidableEq

/-- A step into a document. -/
inductive Segment where
  | key (name : String)
  | item (index : Nat)
  deriving DecidableEq

/-- A place in a document, innermost step first. -/
abbrev Path := List Segment

/-- What stands at a place. -/
inductive Kind where
  | value (v : Value)
  /-- A table. `implied` tells that only a longer path has named it, `dotted` that this path was the
  key of a value. -/
  | table (implied dotted : Bool)
  | tables (count : Nat)
  deriving DecidableEq

/-- What has been defined, last definition first. -/
structure Scope where
  entries : List (Path × Kind)
  deriving DecidableEq

namespace Scope

def empty : Scope := ⟨[([], .table false false)]⟩

def kind? (s : Scope) (p : Path) : Option Kind := s.entries.lookup p

def put (s : Scope) (p : Path) (k : Kind) : Scope := ⟨(p, k) :: s.entries⟩

/-- The table reached from `p` along the keys; tables that are missing on the way are implied. Keys
of values must not enter a table that a header has opened. -/
def enter? (s : Scope) (dotted : Bool) (p : Path) : List String → Option (Scope × Path)
  | [] => some (s, p)
  | name :: rest =>
    let next := .key name :: p
    match s.kind? next with
    | none => (s.put next (.table true dotted)).enter? dotted next rest
    | some (.table implied _) =>
      if dotted && !implied then none else s.enter? dotted next rest
    | some (.tables count) => s.enter? dotted (.item (count - 1) :: next) rest
    | some (.value _) => none

/-- A value under a dotted key of the table at `p`. -/
def define? (s : Scope) (p : Path) (keys : List String) (v : Value) : Option Scope := do
  let name ← keys.getLast?
  let (s, parent) ← s.enter? true p keys.dropLast
  let dotted := keys.length != 1
  match s.kind? parent with
  | some (.table _ isDotted) =>
    if isDotted != dotted || (s.kind? (.key name :: parent)).isSome then none
    else some (s.put (.key name :: parent) (.value v))
  | _ => none

/-- The table under a dotted key, opened by its header. -/
def openTable? (s : Scope) (keys : List String) : Option (Scope × Path) := do
  let name ← keys.getLast?
  let (s, parent) ← s.enter? false [] keys.dropLast
  let p := .key name :: parent
  match s.kind? p with
  | none | some (.table true false) => some (s.put p (.table false false), p)
  | _ => none

/-- One more table of the list under a dotted key, opened by its header. -/
def openItem? (s : Scope) (keys : List String) : Option (Scope × Path) := do
  let name ← keys.getLast?
  let (s, parent) ← s.enter? false [] keys.dropLast
  let p := .key name :: parent
  let count ← match s.kind? p with
    | none => some 0
    | some (.tables count) => some count
    | _ => none
  let item := .item count :: p
  some ((s.put p (.tables (count + 1))).put item (.table false false), item)

/-- The value under a key of the outermost table, if something is defined there. -/
def top? (s : Scope) (name : String) : Option Kind := s.kind? [.key name]

end Scope

end StakeLedger.Toml

import StakeLedger.Failure
import StakeLedger.Json.Basic
/-!
# Fields of records

A record is written as an object with a member for each field, in any order, or as an array of the
fields in their own order. Members that are no field of the record are passed over, whatever they
hold; a field that is there twice is refused.
-/

namespace StakeLedger.Json

/-- The members of an object whose keys are all texts. -/
def textKeys? (members : List (Option String × Json)) : Option (List (String × Json)) :=
  members.mapM fun (key, v) => key.map (·, v)

/-- The value of a field among members; a field must not be there twice. -/
def field? (members : List (String × Json)) (name : String) : Option (Option Json) :=
  match members.filter (·.1 == name) with
  | [] => some none
  | [(_, v)] => some (some v)
  | _ => none

/-- The values that a record gives for the named fields, `none` for a field that is not there. -/
def fields? (names : List String) : Json → Option (List (Option Json))
  | object members => do
    let members ← textKeys? members
    names.mapM (field? members)
  | array items =>
    if items.length ≤ names.length then
      some (items.map some ++ List.replicate (names.length - items.length) none)
    else none
  | _ => none

/-- The value of a field that has to be there. -/
def required {α : Type} (read : Json → Option α) (field : Option Json) : Option α :=
  field.bind read

/-- The value of a field, or a value for when it is not there. -/
def optional {α : Type} (absent : α) (read : Json → Option α) : Option Json → Option α
  | none => some absent
  | some v => read v

/-- A value that may be null. -/
def nullable {α : Type} (read : Json → Option α) : Json → Option (Option α)
  | null => some none
  | v => (read v).map some

def items? {α : Type} (read : Json → Option α) : Json → Option (List α)
  | array items => items.mapM read
  | _ => none

def word? (v : Json) : Option Word64 := v.natural?.bind Word.ofNat?

def coin? (v : Json) : Option Coin := v.natural?.bind Coin.ofNat?

def seconds? (v : Json) : Option Seconds := v.integer?.bind Seconds.ofInt?

def address? (v : Json) : Option Address := v.text?.bind Address.ofText?

def username? (v : Json) : Option Username := do
  match Username.ofText (← v.text?) with
  | .ok name => some name
  | .error _ => none

/-- A record, written as an object. -/
def record (members : List (String × Json)) : Json :=
  object (members.map fun (key, v) => (some key, v))

def ofCoin (c : Coin) : Json := ofNat c.units

def ofSeconds (s : Seconds) : Json := ofInt s.count

def ofAddress (a : Address) : Json := ofString a.text

def ofUsername (u : Username) : Json := ofString u.text

/-- A value, or null where there is none. -/
def ofOption {α : Type} (write : α → Json) : Option α → Json
  | none => null
  | some a => write a

end StakeLedger.Json

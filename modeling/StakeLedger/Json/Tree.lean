import StakeLedger.Json.Token
/-!
# JSON values from tokens

Values may be nested to any depth, so the containers that are still open are kept on a stack of
their own while the tokens are read one after another.
-/

namespace StakeLedger.Json

/-- A container that is not closed yet, with what it holds so far, newest first. -/
inductive Frame where
  | array (items : List Json)
  /-- An object in which the value of `key` is being read. -/
  | object (members : List (Option String × Json)) (key : Option String)

/-- What may come next. -/
inductive Builder where
  | value (stack : List Frame)
  /-- The first item of an array, or its end. -/
  | firstItem (stack : List Frame)
  /-- The first key of an object, or its end. -/
  | firstKey (stack : List Frame)
  | nextKey (stack : List Frame) (members : List (Option String × Json))
  | colon (stack : List Frame) (members : List (Option String × Json)) (key : Option String)
  | afterItem (stack : List Frame) (items : List Json)
  | afterMember (stack : List Frame) (members : List (Option String × Json))
  | complete (result : Json)

namespace Builder

/-- A complete value takes its place in the innermost open container. -/
def place (v : Json) : List Frame → Builder
  | [] => .complete v
  | .array items :: stack => .afterItem stack (v :: items)
  | .object members key :: stack => .afterMember stack ((key, v) :: members)

def begin (stack : List Frame) : Token → Option Builder
  | .openArray => some (.firstItem stack)
  | .openObject => some (.firstKey stack)
  | .null => some (place .null stack)
  | .bool b => some (place (.bool b) stack)
  | .number n => some (place (.number n) stack)
  | .text s => some (place (.text s) stack)
  | .closeArray | .closeObject | .comma | .colon => none

def step : Builder → Token → Option Builder
  | .value stack, t => begin stack t
  | .firstItem stack, .closeArray => some (place (.array []) stack)
  | .firstItem stack, t => begin (.array [] :: stack) t
  | .firstKey stack, .closeObject => some (place (.object []) stack)
  | .firstKey stack, .text key => some (.colon stack [] key)
  | .nextKey stack members, .text key => some (.colon stack members key)
  | .colon stack members key, .colon => some (.value (.object members key :: stack))
  | .afterItem stack items, .comma => some (.value (.array items :: stack))
  | .afterItem stack items, .closeArray => some (place (.array items.reverse) stack)
  | .afterMember stack members, .comma => some (.nextKey stack members)
  | .afterMember stack members, .closeObject => some (place (.object members.reverse) stack)
  | _, _ => none

end Builder

/-- The value that the tokens write, with nothing left over. -/
def ofTokens? (tokens : List Token) : Option Json :=
  match tokens.foldlM Builder.step (.value []) with
  | some (.complete v) => some v
  | _ => none

def ofText? (text : String) : Option Json := (Token.ofChars? text.toList).bind ofTokens?

end StakeLedger.Json

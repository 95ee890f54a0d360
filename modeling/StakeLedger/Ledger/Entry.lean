import StakeLedger.Ledger.Table
/-!
# Stored entries

An entry of the store tells by its key which table it belongs to, and its bytes can be shown as a
record of that table.
-/

namespace StakeLedger

/-- What a value in the store stands for. -/
inductive Entry where
  | bank (record : Bank)
  | queue (record : PendingQueue)
  | usage (record : Usage)
  | earnings (record : Earnings)
  | registration (record : Registration)
  | roster (record : Roster)
  | raw (bytes : Bytes)
  deriving DecidableEq

namespace Entry

/-- The record of a table, if the key belongs to the table and the value can be read. -/
def inTable? {ν ρ : Type} (t : Table ν ρ) (wrap : ρ → Entry) (key value : Bytes) : Option Entry :=
  if (Text.utf8 t.label).isPrefixOf key then
    match t.codec.decode value with
    | .ok record => some (wrap record)
    | .error _ => none
  else none

def ofBytes (key value : Bytes) : Entry :=
  ((inTable? Table.banks bank key value).or <|
    (inTable? Table.queues queue key value).or <|
    (inTable? Table.usages usage key value).or <|
    (inTable? Table.earnings earnings key value).or <|
    (inTable? Table.registrations registration key value).or <|
    (inTable? Table.followers roster key value).or <|
    inTable? Table.following roster key value).getD (raw value)

end Entry

end StakeLedger

import StakeLedger.Json.Fields
import StakeLedger.Json.Text
import StakeLedger.Json.Tree
import StakeLedger.Ledger.FileEntry
import StakeLedger.Ledger.Genesis
/-!
# Genesis as text

A genesis is kept in a file as a JSON record.
-/

namespace StakeLedger

open Json

def FirstAccount.toJson (a : FirstAccount) : Json :=
  record [("username", ofUsername a.username), ("public_key", ofString a.publicKey),
    ("coin", ofString a.coin)]

def FirstAccount.ofJson? (v : Json) : Option FirstAccount := do
  match ← v.fields? ["username", "public_key", "coin"] with
  | [username, publicKey, coin] =>
    return ⟨← required username? username, ← required text? publicKey, ← required text? coin⟩
  | _ => none

namespace Genesis

def toJson (g : Genesis) : Json :=
  record [("genesis_time", ofSeconds g.time),
    ("accounts", array (g.accounts.map FirstAccount.toJson))]

/-- The genesis that a record describes; without accounts there are none. -/
def ofJson? (v : Json) : Option Genesis := do
  match ← v.fields? ["genesis_time", "accounts"] with
  | [time, accounts] =>
    return ⟨← required seconds? time, ← optional [] (items? FirstAccount.ofJson?) accounts⟩
  | _ => none

/-- A genesis as text, one item to a line. -/
def toText (g : Genesis) : String := g.toJson.pretty

def ofText (text : String) : Except Failure Genesis :=
  match (Json.ofText? text).bind ofJson? with
  | some g => .ok g
  | none => .error (.config .unreadable)

def load (e : FileEntry) : Except Failure Genesis :=
  match e.text? with
  | some content => ofText content
  | none => .error (.config .unreadable)

end Genesis

end StakeLedger

import StakeLedger.Codec.Record
import StakeLedger.Store.Script
/-!
# Tables

Each kind of record has a table in the store. A table's label stands in front of the names of its
records and makes the keys of different tables different.
-/

namespace StakeLedger

/-- A kind of record in the store. -/
structure Table (ν ρ : Type) where
  /-- What every key of the table starts with. -/
  label : String
  /-- What a record of the table is called in messages. -/
  noun : String
  nameText : ν → String
  codec : Codec ρ

namespace Table

variable {ν ρ : Type}

def keyText (t : Table ν ρ) (name : ν) : String := t.label ++ t.nameText name

def key (t : Table ν ρ) (name : ν) : Bytes := Text.utf8 (t.keyText name)

/-- The record that bytes found under a key stand for. -/
def parse (codec : Codec ρ) (keyText : String) (bytes : Bytes) : Except Failure ρ :=
  match codec.decode bytes with
  | .ok record => .ok record
  | .error defect => .error (.store (.corrupt keyText defect))

/-- The record of a name, if there is one. -/
def load (t : Table ν ρ) (name : ν) : Script (Option ρ) :=
  .read (t.key name) fun
    | none => .done none
    | some bytes => .ofExcept ((parse t.codec (t.keyText name) bytes).map some)

/-- The record of a name; it is a failure if there is none. -/
def require (t : Table ν ρ) (during : Activity) (name : ν) : Script ρ := do
  match ← t.load name with
  | some record => return record
  | none => .fail (.recordNotFound during t.noun (t.nameText name))

def save (t : Table ν ρ) (name : ν) (record : ρ) : Script Unit :=
  .write (t.key name) (t.codec.write record) (.done ())

def banks : Table Address Bank := ⟨"bank/", "bank", Address.text, Codec.bank .stored⟩

def queues : Table Address PendingQueue :=
  ⟨"pending_stake/", "pending stake queue", Address.text, Codec.queue .stored⟩

def usages : Table Username Usage := ⟨"meta/", "meta", Username.text, Codec.usage⟩

def earnings : Table Username Earnings := ⟨"reward/", "reward", Username.text, Codec.earnings⟩

def registrations : Table Username Registration :=
  ⟨"info/", "info", Username.text, Codec.registration .stored⟩

/-- Who follows an account. -/
def followers : Table Username Roster :=
  ⟨"follower/", "follower", Username.text, Codec.roster .stored⟩

/-- Whom an account follows. -/
def following : Table Username Roster :=
  ⟨"following/", "following", Username.text, Codec.roster .stored⟩

/-- The roster of an account; nobody is on it where there is no record. -/
def loadRoster (t : Table Username Roster) (name : Username) : Script Roster := do
  return (← t.load name).getD .empty

/-- The bank of an address, saved under the address that it carries. -/
def saveBank (bank : Bank) : Script Unit := banks.save bank.address bank

def saveRegistration (r : Registration) : Script Unit := registrations.save r.username r

/-- The address that an account is registered to. -/
def addressOf (during : Activity) (account : Username) : Script Address := do
  return (← registrations.require during account).address

end Table

end StakeLedger

import StakeLedger.Identity.PublicKey
import StakeLedger.Identity.Username
import StakeLedger.Number.Coin
import StakeLedger.Number.Seconds
import StakeLedger.Text.Quoted
/-!
# Failures

Everything that can go wrong in the ledger, told apart by cause. The wording stands in one place,
`Failure.message`. Two questions decide what happens to the writes of a failed message: whether the
store itself failed, and whether the failure is one that still records something.
-/

namespace StakeLedger

/-- The activity during which something went wrong, as named in messages. -/
abbrev Activity := String

/-- A username that breaks a rule, and the rule. -/
structure BadUsername where
  /-- The text that is no username. -/
  text : String
  flaw : UsernameFlaw
  deriving DecidableEq

def BadUsername.message (bad : BadUsername) : String :=
  "invalid username " ++ Text.quoted bad.text ++ ": " ++ bad.flaw.message

/-- Why bytes are no stored record. -/
inductive ReadDefect where
  | numberCut
  | textCut
  /-- An optional part is marked neither absent nor present. -/
  | badTag (tag : UInt8)
  | notText (defect : Text.Utf8Defect)
  | notUsername (bad : BadUsername)
  deriving DecidableEq

def ReadDefect.message : ReadDefect → String
  | .numberCut => "io error: unexpected end of file"
  | .textCut => "io error: "
  | .badTag tag => s!"tag for enum is not valid, found {tag.toNat}"
  | .notText defect => "string is not valid utf8: " ++ defect.message
  | .notUsername bad => bad.message

/-- Why the store could not do what it was asked to. -/
inductive StoreFailure where
  /-- The backing store refused, for a reason of its own. -/
  | backend (reason : String)
  | corrupt (key : String) (defect : ReadDefect)
  deriving DecidableEq

def StoreFailure.message : StoreFailure → String
  | .backend reason => "backend error: " ++ reason
  | .corrupt key defect => "corrupt record at " ++ key ++ ": " ++ defect.message

/-- The parameters that have to be positive. -/
inductive Setting where
  | vestingWindow
  | recoverPeriod
  | decimalScale
  deriving DecidableEq

def Setting.name : Setting → String
  | .vestingWindow => "vesting_window_secs"
  | .recoverPeriod => "capacity_recover_period_secs"
  | .decimalScale => "decimal_scale"

/-- Why parameters or a genesis cannot be used. -/
inductive ConfigDefect where
  /-- The parameter has to be positive. -/
  | notPositive (setting : Setting)
  /-- The text is not of the expected form, or there is none. -/
  | unreadable
  deriving DecidableEq

def ConfigDefect.message : ConfigDefect → String
  | .notPositive setting => setting.name ++ " must be positive"
  | .unreadable => "unreadable"

/-- Why the ledger refused. -/
inductive Failure where
  | invalidAmount (during : Activity) (amount : Coin)
  | insufficientBalance (during : Activity) (address : Address) (requested available : Coin)
  | accountExists (account : Username)
  | bankRegistered (address : Address) (owner : Username)
  | bankNotFound (address : Address)
  | insufficientFee (address : Address) (required available : Coin)
  | capacityShort (account : Username) (cost available : Coin)
  | recordNotFound (during : Activity) (record key : String)
  | store (cause : StoreFailure)
  | badUsername (bad : BadUsername)
  | timeRunsBack (during : Activity) (address : Address) (last now : Seconds)
  | overflow (during : Activity)
  | config (defect : ConfigDefect)
  | badPublicKey (defect : KeyDefect)
  | unknownReceiver (sender : Username) (receiver : String)
  /-- Vesting was asked for a share of a window without length. -/
  | emptyWindow
  /-- A roster has no room for another name. -/
  | rosterFull
  deriving DecidableEq

namespace Failure

def message : Failure → String
  | .invalidAmount during amount => s!"{during}: invalid coin amount {amount.units}"
  | .insufficientBalance during address requested available =>
    s!"{during}: insufficient balance at {address.text}: " ++
      s!"requested {requested.units}, available {available.units}"
  | .accountExists account => s!"account {account.text} already exists"
  | .bankRegistered address owner =>
    s!"bank {address.text} already registered to {owner.text}"
  | .bankNotFound address => "account bank " ++ address.text ++ " doesn't exist"
  | .insufficientFee address required available =>
    s!"register fee insufficient at {address.text}: " ++
      s!"required {required.units}, available {available.units}"
  | .capacityShort account cost available =>
    s!"account {account.text} transaction capacity not enough: " ++
      s!"cost {cost.units}, available {available.units}"
  | .recordNotFound during record key => s!"{during}: {record} record not found for {key}"
  | .store cause => "store failure: " ++ cause.message
  | .badUsername bad => bad.message
  | .timeRunsBack during address last now =>
    s!"{during}: block time {now.count} precedes last update {last.count} for {address.text}"
  | .overflow during => s!"{during}: fixed-point overflow"
  | .config defect => "invalid config: " ++ defect.message
  | .badPublicKey defect => "invalid public key: " ++ defect.message
  | .unknownReceiver sender receiver =>
    s!"transfer from {sender.text}: unknown receiver " ++ Text.quoted receiver ++
      " and no fallback address"
  | .emptyWindow => "attempt to divide by zero"
  | .rosterFull => "capacity overflow"

/-- Whether the failure ends the block: only failures of the store do. -/
def endsBlock : Failure → Bool
  | .store _ => true
  | _ => false

/-- Whether what was written before the failure stays. A charge refused for want of capacity still
records the capacity that was recovered. -/
def keepsUpdates : Failure → Bool
  | .capacityShort .. => true
  | _ => false

/-- The failure says what is wrong with the numbers and texts that it is about. The others are about
the store, something that is missing there, or want of capacity. -/
def Plain : Failure → Prop
  | .store _ | .recordNotFound .. | .bankNotFound _ | .capacityShort .. => False
  | _ => True

theorem Plain.keepsUpdates {f : Failure} (h : f.Plain) : f.keepsUpdates = false := by
  cases f <;> first | rfl | exact h.elim

end Failure

end StakeLedger

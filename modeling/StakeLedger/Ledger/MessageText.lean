import StakeLedger.Json.Fields
import StakeLedger.Json.Text
import StakeLedger.Json.Tree
import StakeLedger.Ledger.Message
/-!
# Messages as text

A message is written as an object with one member. Its key names the kind of message and its value
is a record of what the message says.
-/

namespace StakeLedger

open Json

def Receiver.toJson (r : Receiver) : Json :=
  record [("username", ofOption ofUsername r.account), ("address", ofOption ofAddress r.address)]

/-- The receiver that a record describes; both parts may be absent or null. -/
def Receiver.ofJson? (v : Json) : Option Receiver := do
  match ← v.fields? ["username", "address"] with
  | [account, address] =>
    return ⟨← optional none (nullable username?) account,
      ← optional none (nullable address?) address⟩
  | _ => none

def Ratio.toJson (r : Ratio) : Json :=
  record [("num", Json.ofNat r.num.val), ("den", Json.ofNat r.den.val)]

/-- The ratio that a record describes, as it is written there. -/
def Ratio.ofJson? (v : Json) : Option Ratio := do
  match ← v.fields? ["num", "den"] with
  | [num, den] => return ⟨← required word? num, ← required word? den⟩
  | _ => none

namespace Message

def kind : Message → String
  | deposit .. => "Deposit"
  | depositToAccount .. => "DepositToAccount"
  | withdraw .. => "Withdraw"
  | transfer .. => "Transfer"
  | follow .. => "Follow"
  | unfollow .. => "Unfollow"
  | checkCapacity .. => "CheckCapacity"
  | accrueReward .. => "AccrueReward"
  | accrueFrictionIncome .. => "AccrueFrictionIncome"
  | claimReward .. => "ClaimReward"
  | createAccount .. => "CreateAccount"
  | increaseSequence .. => "IncreaseSequence"

/-- What the message says, field by field. -/
def body : Message → List (String × Json)
  | deposit address amount => [("address", ofAddress address), ("amount", ofCoin amount)]
  | depositToAccount username amount | withdraw username amount
  | accrueFrictionIncome username amount =>
    [("username", ofUsername username), ("amount", ofCoin amount)]
  | transfer sender receiver amount memo =>
    [("sender", ofUsername sender), ("receiver", receiver.toJson), ("amount", ofCoin amount),
      ("memo", ofString memo)]
  | follow follower followee | unfollow follower followee =>
    [("follower", ofUsername follower), ("followee", ofUsername followee)]
  | checkCapacity username ratio =>
    [("username", ofUsername username), ("ratio", ratio.toJson)]
  | accrueReward username income reward =>
    [("username", ofUsername username), ("income", ofCoin income), ("reward", ofCoin reward)]
  | claimReward username | increaseSequence username => [("username", ofUsername username)]
  | createAccount username publicKey =>
    [("username", ofUsername username), ("public_key", ofString publicKey)]

def toJson (m : Message) : Json := record [(m.kind, record m.body)]

def aboutAccount? (make : Username → Message) (v : Json) : Option Message := do
  match ← v.fields? ["username"] with
  | [username] => return make (← required username? username)
  | _ => none

def aboutAmount? (make : Username → Coin → Message) (v : Json) : Option Message := do
  match ← v.fields? ["username", "amount"] with
  | [username, amount] => return make (← required username? username) (← required coin? amount)
  | _ => none

def aboutFollowing? (make : Username → Username → Message) (v : Json) : Option Message := do
  match ← v.fields? ["follower", "followee"] with
  | [follower, followee] =>
    return make (← required username? follower) (← required username? followee)
  | _ => none

/-- The message of a kind that a record describes. -/
def ofBody? (kind : String) (v : Json) : Option Message :=
  match kind with
  | "Deposit" => do
    match ← v.fields? ["address", "amount"] with
    | [address, amount] => return deposit (← required address? address) (← required coin? amount)
    | _ => none
  | "DepositToAccount" => aboutAmount? depositToAccount v
  | "Withdraw" => aboutAmount? withdraw v
  | "Transfer" => do
    match ← v.fields? ["sender", "receiver", "amount", "memo"] with
    | [sender, receiver, amount, memo] =>
      return transfer (← required username? sender) (← required Receiver.ofJson? receiver)
        (← required coin? amount) (← optional "" text? memo)
    | _ => none
  | "Follow" => aboutFollowing? follow v
  | "Unfollow" => aboutFollowing? unfollow v
  | "CheckCapacity" => do
    match ← v.fields? ["username", "ratio"] with
    | [username, ratio] =>
      return checkCapacity (← required username? username) (← required Ratio.ofJson? ratio)
    | _ => none
  | "AccrueReward" => do
    match ← v.fields? ["username", "income", "reward"] with
    | [username, income, reward] =>
      return accrueReward (← required username? username) (← required coin? income)
        (← required coin? reward)
    | _ => none
  | "AccrueFrictionIncome" => aboutAmount? accrueFrictionIncome v
  | "ClaimReward" => aboutAccount? claimReward v
  | "CreateAccount" => do
    match ← v.fields? ["username", "public_key"] with
    | [username, publicKey] =>
      return createAccount (← required username? username) (← required text? publicKey)
    | _ => none
  | "IncreaseSequence" => aboutAccount? increaseSequence v
  | _ => none

def ofJson? : Json → Option Message
  | object [(some kind, body)] => ofBody? kind body
  | _ => none

/-- The message that a value inside a larger document describes. There the record of what the
message says has to be an object. -/
def ofEmbedded? : Json → Option Message
  | object [(some kind, object members)] => ofBody? kind (object members)
  | _ => none

def toText (m : Message) : String := m.toJson.compact

def ofText? (text : String) : Option Message := (Json.ofText? text).bind ofJson?

end Message

end StakeLedger

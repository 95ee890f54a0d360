import StakeLedger.Ledger.Account
/-!
# Messages

A message asks the ledger for one change. Some messages can be refused without looking at the store.
-/

namespace StakeLedger

/-- A change that the ledger can be asked for. -/
inductive Message where
  | deposit (address : Address) (amount : Coin)
  | depositToAccount (username : Username) (amount : Coin)
  | withdraw (username : Username) (amount : Coin)
  | transfer (sender : Username) (receiver : Receiver) (amount : Coin) (memo : String)
  | follow (follower followee : Username)
  | unfollow (follower followee : Username)
  | checkCapacity (username : Username) (ratio : Ratio)
  | accrueReward (username : Username) (income reward : Coin)
  | accrueFrictionIncome (username : Username) (amount : Coin)
  | claimReward (username : Username)
  | createAccount (username : Username) (publicKey : String)
  | increaseSequence (username : Username)
  deriving DecidableEq

/-- What a message answers when it is accepted. -/
inductive Outcome where
  | done
  | capacityRemaining (capacity : Coin)
  | claimed (amount : Coin)
  | accountCreated (address : Address)
  | sequence (number : Word64)
  deriving DecidableEq

/-- The key of a hexadecimal text. -/
def PublicKey.require (text : String) : Except Failure PublicKey :=
  match PublicKey.ofHex text with
  | .ok key => .ok key
  | .error defect => .error (.badPublicKey defect)

namespace Message

def name : Message → String
  | deposit .. => "deposit"
  | depositToAccount .. => "deposit_to_account"
  | withdraw .. => "withdraw"
  | transfer .. => "transfer"
  | follow .. => "follow"
  | unfollow .. => "unfollow"
  | checkCapacity .. => "check_capacity"
  | accrueReward .. => "accrue_reward"
  | accrueFrictionIncome .. => "accrue_friction_income"
  | claimReward .. => "claim_reward"
  | createAccount .. => "create_account"
  | increaseSequence .. => "increase_sequence"

/-- The refusals that need no store: coin has to move, a transfer needs a receiver, a ratio a value,
and an account a key. -/
def check (m : Message) : Except Failure Unit :=
  match m with
  | deposit _ amount | depositToAccount _ amount | withdraw _ amount =>
    if amount.isZero then .error (.invalidAmount m.name amount) else .ok ()
  | transfer sender receiver amount _ =>
    if amount.isZero then .error (.invalidAmount m.name amount)
    else if receiver.isNobody then .error (.unknownReceiver sender "")
    else .ok ()
  | checkCapacity _ ratio =>
    if ratio.den.val = 0 then .error (.invalidAmount m.name (.ofWord ratio.num)) else .ok ()
  | createAccount _ text => (PublicKey.require text).map fun _ => ()
  | follow .. | unfollow .. | accrueReward .. | accrueFrictionIncome .. | claimReward _
  | increaseSequence _ => .ok ()

/-- What a message does to a store when it reaches the ledger `l` at `now`. -/
def script (l : Ledger) (now : Seconds) : Message → Script Outcome
  | deposit address amount => do
    l.deposit address amount now
    return .done
  | depositToAccount username amount => do
    l.depositTo username amount now
    return .done
  | withdraw username amount => do
    Ledger.withdraw username amount now
    return .done
  | transfer sender receiver amount _ => do
    l.transfer sender receiver amount now
    return .done
  | follow follower followee => do
    Ledger.follow follower followee
    return .done
  | unfollow follower followee => do
    Ledger.unfollow follower followee
    return .done
  | checkCapacity username ratio => do
    return .capacityRemaining (← l.charge username ratio now)
  | accrueReward username income reward => do
    Ledger.accrue username income reward
    return .done
  | accrueFrictionIncome username amount => do
    Ledger.accrueFriction username amount
    return .done
  | claimReward username => do
    return .claimed (← l.claim username now)
  | createAccount username text => do
    let key ← .ofExcept (PublicKey.require text)
    return .accountCreated (← l.register username key now)
  | increaseSequence username => do
    return .sequence (← Ledger.nextSequence username)

end Message

end StakeLedger

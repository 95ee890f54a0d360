import StakeLedger.Ledger.Movement
import StakeLedger.Record.Earnings
/-!
# Accounts

An account is opened at the address of its key, numbers its messages and pays for them out of its
capacity, earns income and claims it, and follows other accounts.

## Main definitions

* `Ledger.register` — opens an account.
* `Ledger.charge`, `Ledger.nextSequence` — a message is paid for or numbered.
* `Ledger.accrue`, `Ledger.accrueFriction`, `Ledger.claim` — income comes in and is claimed.
* `Ledger.follow`, `Ledger.unfollow` — the rosters of two accounts.
* `Ledger.snapshot` — all records of an account.
-/

namespace StakeLedger.Ledger

open Table

def isRegistered (account : Username) : Script Bool := do
  return (← registrations.load account).isSome

/-- Opens an account for a key whose address holds at least the fee, and gives that address. The fee
is not taken. -/
def register (l : Ledger) (account : Username) (key : PublicKey) (now : Seconds) :
    Script Address := do
  if ← isRegistered account then .fail (.accountExists account)
  else
    match ← banks.load key.address with
    | none => .fail (.bankNotFound key.address)
    | some bank =>
      match bank.owner with
      | some owner => .fail (.bankRegistered key.address owner)
      | none =>
        if bank.balance.units < l.parameters.registerFee.units then
          .fail (.insufficientFee key.address l.parameters.registerFee bank.balance)
        else
          saveBank { bank with owner := some account }
          saveRegistration ⟨account, now, key.address, key.toHex⟩
          usages.save account (.fresh now)
          Table.earnings.save account .empty
          return key.address

/-- A message of the given ratio is paid for out of the account's capacity, whose ceiling is the
stake. What had recovered is recorded even if it was not enough. -/
def charge (l : Ledger) (account : Username) (ratio : Ratio) (now : Seconds) : Script Coin := do
  let usage ← usages.require "check capacity" account
  let ceiling ← l.stakeOf account now
  let (usage, answer) := l.throttle.charge account usage ceiling ratio now
  usages.save account usage
  .ofExcept answer

/-- The next message of an account is numbered. -/
def nextSequence (account : Username) : Script Word64 := do
  let usage ← usages.require "increase sequence" account
  match Word.ofNat? (usage.sequence.val + 1) with
  | none => .fail (.overflow "increase sequence")
  | some sequence =>
    usages.save account { usage with sequence }
    return sequence

/-- Income comes in, and with it a reward that can be claimed. -/
def accrue (account : Username) (income reward : Coin) : Script Unit := do
  let e ← Table.earnings.require "accrue reward" account
  Table.earnings.save account (← .ofExcept (e.accrue income reward))

/-- Income from friction comes in. -/
def accrueFriction (account : Username) (amount : Coin) : Script Unit := do
  let e ← Table.earnings.require "accrue friction income" account
  Table.earnings.save account (← .ofExcept (e.accrueFriction amount))

/-- All that can be claimed is deposited at the address of the account. -/
def claim (l : Ledger) (account : Username) (now : Seconds) : Script Coin := do
  let e ← Table.earnings.require "claim reward" account
  let address ← addressOf "claim reward" account
  if e.unclaimed.isZero then return e.unclaimed
  else
    l.deposit address e.unclaimed now
    Table.earnings.save account e.claimed
    return e.unclaimed

/-- One account starts to follow another. A roster that already says so is not set again. -/
def follow (follower followee : Username) : Script Unit := do
  let _ ← registrations.require "follow" follower
  let _ ← registrations.require "follow" followee
  let theirs ← followers.loadRoster followee
  let own ← following.loadRoster follower
  let theirs' ← .ofExcept (theirs.join follower)
  let own' ← .ofExcept (own.join followee)
  if !theirs.has follower then followers.save followee theirs'
  if !own.has followee then following.save follower own'

/-- One account stops following another. A roster that already says so is not set again. -/
def unfollow (follower followee : Username) : Script Unit := do
  let _ ← registrations.require "unfollow" follower
  let _ ← registrations.require "unfollow" followee
  let theirs ← followers.loadRoster followee
  let own ← following.loadRoster follower
  if theirs.has follower then followers.save followee (theirs.leave follower)
  if own.has followee then following.save follower (own.leave followee)

def bankAt (address : Address) : Script Bank := banks.require "get bank" address

def queueAt (address : Address) : Script PendingQueue :=
  queues.require "get pending stake queue" address

def usageOf (account : Username) : Script Usage := usages.require "get meta" account

def earningsOf (account : Username) : Script Earnings :=
  Table.earnings.require "get reward" account

def registrationOf (account : Username) : Script Registration :=
  registrations.require "get info" account

def snapshot (account : Username) : Script Snapshot := do
  let registration ← registrationOf account
  let bank ← bankAt registration.address
  let queue ← queueAt registration.address
  let usage ← usageOf account
  let earnings ← earningsOf account
  return ⟨registration, bank, queue, usage, earnings⟩

/-- The digest of the canonical form of all records of an account. -/
def digest (account : Username) : Script String := do
  return (Codec.snapshot .canonical).fingerprint (← snapshot account)

end StakeLedger.Ledger

import StakeLedger.Ledger.Basic
import StakeLedger.Ledger.Table
/-!
# Movement of coin

Coin comes in as deposits, goes out as withdrawals, and moves from one address to another as a
withdrawal followed by a deposit.
-/

namespace StakeLedger

/-- Who receives a transfer: an account, an address, or an account with an address to use if there
is no such account. -/
structure Receiver where
  account : Option Username
  address : Option Address
  deriving DecidableEq

def Receiver.isNobody (r : Receiver) : Bool := r.account.isNone && r.address.isNone

namespace Ledger

open Table

/-- Sets the records of a holding; its queue is kept under `address`. -/
def saveHolding (address : Address) (holding : Holding) : Script Unit := do
  saveBank holding.bank
  queues.save address holding.queue

/-- The holding of an address that has received coin before. -/
def requireHolding (during : Activity) (address : Address) : Script Holding := do
  let bank ← banks.require during address
  let queue ← queues.require during address
  return ⟨bank, queue⟩

/-- Coin comes in at an address, which need not have received any before. -/
def deposit (l : Ledger) (address : Address) (amount : Coin) (now : Seconds) : Script Unit := do
  let bank := (← banks.load address).getD (.empty address)
  let queue := (← queues.load address).getD (.empty now)
  saveHolding address (← .ofExcept (l.vesting.add ⟨bank, queue⟩ amount now).result)

def depositTo (l : Ledger) (account : Username) (amount : Coin) (now : Seconds) : Script Unit := do
  l.deposit (← addressOf "deposit to account" account) amount now

def withdrawFrom (address : Address) (amount : Coin) (now : Seconds) : Script Unit := do
  let holding ← requireHolding "withdraw" address
  saveHolding address (← .ofExcept (Vesting.withdraw holding amount now).result)

def withdraw (account : Username) (amount : Coin) (now : Seconds) : Script Unit := do
  withdrawFrom (← addressOf "withdraw" account) amount now

/-- Where coin for a receiver goes. -/
def resolve (sender : Username) (receiver : Receiver) : Script Address := do
  let registered ← match receiver.account with
    | some account => registrations.load account
    | none => pure none
  match registered with
  | some r => return r.address
  | none =>
    match receiver.address with
    | some address => return address
    | none =>
      .fail (.unknownReceiver sender ((receiver.account.map Username.text).getD ""))

/-- Coin moves from an account to a receiver. -/
def transfer (l : Ledger) (sender : Username) (receiver : Receiver) (amount : Coin)
    (now : Seconds) : Script Unit := do
  let source ← addressOf "transfer" sender
  let target ← resolve sender receiver
  withdrawFrom source amount now
  l.deposit target amount now

/-- What has matured at an address is counted as stake. -/
def advance (address : Address) (now : Seconds) : Script Unit := do
  let holding ← requireHolding "advance stake" address
  saveHolding address (← .ofExcept (Vesting.advance holding now))

/-- The stake of an address; one that never received coin has none. -/
def stakeAt (l : Ledger) (address : Address) (now : Seconds) : Script Coin := do
  match ← banks.load address with
  | none => return .zero
  | some bank =>
    match ← queues.load address with
    | none => return bank.stake
    | some queue => .ofExcept (l.vesting.stakeAt bank queue now)

def stakeOf (l : Ledger) (account : Username) (now : Seconds) : Script Coin := do
  l.stakeAt (← addressOf "get stake" account) now

end Ledger

end StakeLedger

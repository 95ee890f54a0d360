import StakeLedger.Identity.PublicKey
import StakeLedger.Identity.Username
import StakeLedger.Number.Coin
import StakeLedger.Number.Seconds
/-!
# Records

What the ledger keeps for an address (its bank and its pending deposits) and for a registered
account (registration, usage, earnings and who follows whom).
-/

namespace StakeLedger

/-- The coin held at an address. -/
structure Bank where
  address : Address
  balance : Coin
  /-- The part of the balance that has matured into stake. -/
  stake : Coin
  owner : Option Username
  deriving DecidableEq

/-- The bank of an address that has received nothing yet. -/
def Bank.empty (address : Address) : Bank := ⟨address, .zero, .zero, none⟩

/-- Coin on its way to become stake. -/
structure Deposit where
  start : Seconds
  finish : Seconds
  coin : Coin
  deriving DecidableEq

/-- The deposits of an address that have not matured yet. -/
structure PendingQueue where
  /-- The time up to which progress is counted. -/
  lastUpdate : Seconds
  total : Coin
  /-- The seconds that each unit of coin has spent in the queue, added up over all units. -/
  progress : Word128
  deposits : List Deposit
  deriving DecidableEq

/-- The queue of an address that has received nothing before `now`. -/
def PendingQueue.empty (now : Seconds) : PendingQueue := ⟨now, .zero, .zero128, []⟩

/-- What an account has done, and how much more it may do. -/
structure Usage where
  /-- How many messages the account has numbered. -/
  sequence : Word64
  /-- When capacity was last charged. -/
  lastActive : Seconds
  /-- The capacity left at that time. -/
  capacity : Coin
  deriving DecidableEq

/-- The usage of an account opened at `now`. -/
def Usage.fresh (now : Seconds) : Usage := ⟨.zero64, now, .zero⟩

/-- The income of an account over its whole life, and what of it waits to be claimed. -/
structure Earnings where
  total : Coin
  direct : Coin
  friction : Coin
  unclaimed : Coin
  deriving DecidableEq

def Earnings.empty : Earnings := ⟨.zero, .zero, .zero, .zero⟩

/-- The link from a username to the address that it registered. -/
structure Registration where
  username : Username
  createdAt : Seconds
  address : Address
  /-- The key that it registered with, in hexadecimal digits. -/
  publicKey : String
  deriving DecidableEq

/-- All records of one account at one time. -/
structure Snapshot where
  registration : Registration
  bank : Bank
  queue : PendingQueue
  usage : Usage
  earnings : Earnings
  deriving DecidableEq

end StakeLedger

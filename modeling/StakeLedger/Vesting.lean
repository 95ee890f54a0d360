import StakeLedger.Failure
import StakeLedger.Record.Basic
/-!
# Vesting

Coin that comes in is spendable at once but becomes stake over a window of time, in proportion to
the time it has been held. The queue keeps one running sum of coin-seconds instead of a history: the
part vested of all pending deposits is that sum divided by the window.

## Main definitions

* `Holding` — a bank and the pending deposits at its address.
* `Vesting` — the length of the window.
* `Vesting.settled` — what has matured by a time, and the progress of the rest.
* `Vesting.stakeAt` — the stake at a time.
* `Vesting.advance`, `Vesting.add`, `Vesting.withdraw` — what changes a holding.
* `Attempt` — a holding after an operation, with what went wrong.
-/

namespace StakeLedger

/-- The bank of an address and the deposits pending there. -/
structure Holding where
  bank : Bank
  queue : PendingQueue
  deriving DecidableEq

/-- The rule by which deposits become stake. -/
structure Vesting where
  window : Seconds
  deriving DecidableEq

/-- What changes when a queue is brought up to a later time. -/
structure Settlement where
  /-- The deposits that have matured, oldest first. -/
  matured : List Deposit
  coin : Coin
  pending : List Deposit
  /-- The progress of the pending deposits at the later time. -/
  progress : Word128
  deriving DecidableEq

/-- The seconds from `start` to `now` for each unit of `coin`. -/
def coinSeconds (coin : Coin) (start now : Seconds) : Nat := coin.units * now.since start

/-- The coin of all deposits together, as an unbounded number. -/
def coinOf : List Deposit → Nat
  | [] => 0
  | d :: rest => d.coin.units + coinOf rest

namespace Vesting

/-- Whether a deposit has matured by `now`. -/
def isMature (now : Seconds) (d : Deposit) : Bool := d.finish.count ≤ now.count

/-- What has matured by `now`, and the progress of the rest. Only deposits at the old end of the
queue are considered, up to the first that is still pending. -/
def settled (bank : Bank) (queue : PendingQueue) (now : Seconds) : Except Failure Settlement :=
  if now.count < queue.lastUpdate.count then
    .error (.timeRunsBack "settle stake" bank.address queue.lastUpdate now)
  else
    let matured := queue.deposits.takeWhile (isMature now)
    let pending := queue.deposits.dropWhile (isMature now)
    let credit := matured.foldl
      (fun left d => left.less (coinSeconds d.coin d.start queue.lastUpdate)) queue.progress
    match Coin.ofNat? (coinOf matured) with
    | none => .error (.overflow "settle stake")
    | some coin =>
      if pending.isEmpty then .ok ⟨matured, coin, [], .zero128⟩
      else
        let gained := coinSeconds (queue.total.monus coin) queue.lastUpdate now
        match Word.ofNat? (credit.val + gained) with
        | none => .error (.overflow "settle stake")
        | some progress => .ok ⟨matured, coin, pending, progress⟩

/-- The window as a divisor; a negative window counts modulo two to the power of 128. -/
def divisor (v : Vesting) : Nat := (v.window.count % 0x100000000000000000000000000000000).toNat

/-- The stake at `now`: what has matured and the vested share of what is pending. -/
def stakeAt (v : Vesting) (bank : Bank) (queue : PendingQueue) (now : Seconds) :
    Except Failure Coin := do
  let s ← settled bank queue now
  if v.divisor = 0 then .error .emptyWindow
  else
    match Coin.ofNat? (bank.stake.units + s.coin.units + s.progress.val / v.divisor) with
    | none => .error (.overflow "get stake")
    | some stake => .ok stake

/-- The holding brought up to `now`: what has matured is moved from the queue to the stake. -/
def advance (holding : Holding) (now : Seconds) : Except Failure Holding := do
  let s ← settled holding.bank holding.queue now
  match holding.bank.stake.plus? s.coin with
  | none => .error (.overflow "advance stake")
  | some stake =>
    let total := if s.pending.isEmpty then .zero else holding.queue.total.monus s.coin
    return ⟨{ holding.bank with stake }, ⟨now, total, s.progress, s.pending⟩⟩

/-- What is left when an amount is taken out of pending deposits. -/
structure Taken where
  /-- The deposits that stay, newest first. -/
  newestFirst : List Deposit
  total : Coin
  progress : Word128
  /-- The part of the amount that no deposit covered. -/
  uncovered : Coin
  deriving DecidableEq

/-- Takes `amount` out of deposits listed newest first. A deposit is used up before an older one is
touched. -/
def takeFrom (now : Seconds) (amount total : Coin) (progress : Word128) : List Deposit → Taken
  | [] => ⟨[], total, progress, amount⟩
  | d :: older =>
    if amount.isZero then ⟨d :: older, total, progress, .zero⟩
    else if d.coin.units ≤ amount.units then
      takeFrom now (amount.monus d.coin) (total.monus d.coin)
        (progress.less (coinSeconds d.coin d.start now)) older
    else
      ⟨{ d with coin := d.coin.monus amount } :: older, total.monus amount,
        progress.less (coinSeconds amount d.start now), .zero⟩

/-- The queue that stays; one without deposits holds no coin and has made no progress. -/
def Taken.queue (t : Taken) (lastUpdate : Seconds) : PendingQueue :=
  if t.newestFirst.isEmpty then .empty lastUpdate
  else ⟨lastUpdate, t.total, t.progress, t.newestFirst.reverse⟩

/-- A holding as an operation left it, and what went wrong, if anything did. An operation that
fails after the holding was brought up to date leaves it up to date. -/
structure Attempt where
  after : Holding
  failure : Option Failure
  deriving DecidableEq

/-- The holding afterwards, if nothing went wrong. -/
def Attempt.result (a : Attempt) : Except Failure Holding :=
  match a.failure with
  | none => .ok a.after
  | some f => .error f

/-- Receives `amount` at `now`: it can be spent at once and starts to mature. -/
def add (v : Vesting) (holding : Holding) (amount : Coin) (now : Seconds) : Attempt :=
  if amount.isZero then ⟨holding, some (.invalidAmount "add coin" amount)⟩
  else
    match advance holding now with
    | .error f => ⟨holding, some f⟩
    | .ok current =>
      match current.bank.balance.plus? amount, current.queue.total.plus? amount,
          now.plus? v.window with
      | some balance, some total, some finish =>
        let deposits := current.queue.deposits ++ [⟨now, finish, amount⟩]
        ⟨⟨{ current.bank with balance }, { current.queue with total, deposits }⟩, none⟩
      | _, _, _ => ⟨current, some (.overflow "add coin")⟩

/-- Pays out `amount` at `now`: from the newest pending deposits first, and from the stake only when
none is left. -/
def withdraw (holding : Holding) (amount : Coin) (now : Seconds) : Attempt :=
  if amount.isZero then ⟨holding, some (.invalidAmount "minus coin" amount)⟩
  else
    match advance holding now with
    | .error f => ⟨holding, some f⟩
    | .ok current =>
      match current.bank.balance.minus? amount with
      | none =>
        ⟨current, some (.insufficientBalance "minus coin" current.bank.address amount
          current.bank.balance)⟩
      | some balance =>
        let taken := takeFrom now amount current.queue.total current.queue.progress
          current.queue.deposits.reverse
        ⟨⟨{ current.bank with balance, stake := current.bank.stake.monus taken.uncovered },
          taken.queue current.queue.lastUpdate⟩, none⟩

end Vesting

end StakeLedger

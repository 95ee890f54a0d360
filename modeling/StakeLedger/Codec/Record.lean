import StakeLedger.Codec.Basic
import StakeLedger.Digest.Sha256
import StakeLedger.Record.Basic
import StakeLedger.Record.Roster
/-!
# Records as bytes

Each record is written field by field. The same codecs serve both layouts.
-/

namespace StakeLedger.Codec

def word64 : Codec Word64 := number 8

def word128 : Codec Word128 := number 16

/-- Whole numbers with a sign, in two's complement. -/
def seconds : Codec Seconds :=
  word64.through Seconds.toWord Seconds.ofWord

def coin : Codec Coin := word64.through Coin.toWord Coin.ofWord

def address (layout : Layout) : Codec Address :=
  (text layout).refine Address.text fun s =>
    match Address.ofText? s with
    | some a => .ok a
    | none => .error .textCut

/-- Usernames; a text that is none is refused as soon as it is read. -/
def username (layout : Layout) : Codec Username :=
  (text layout).refine Username.text fun s =>
    match Username.ofText s with
    | .ok name => .ok name
    | .error flaw => .error (.notUsername ⟨s, flaw⟩)

def bank (layout : Layout) : Codec Bank :=
  ((address layout).pair (coin.pair (coin.pair (option (username layout))))).through
    (fun b => (b.address, b.balance, b.stake, b.owner))
    (fun (address, balance, stake, owner) => ⟨address, balance, stake, owner⟩)

def deposit : Codec Deposit :=
  (seconds.pair (seconds.pair coin)).through
    (fun d => (d.start, d.finish, d.coin))
    (fun (start, finish, coin) => ⟨start, finish, coin⟩)

def queue (layout : Layout) : Codec PendingQueue :=
  (seconds.pair (coin.pair (word128.pair (list layout deposit)))).through
    (fun q => (q.lastUpdate, q.total, q.progress, q.deposits))
    (fun (lastUpdate, total, progress, deposits) => ⟨lastUpdate, total, progress, deposits⟩)

def usage : Codec Usage :=
  (word64.pair (seconds.pair coin)).through
    (fun u => (u.sequence, u.lastActive, u.capacity))
    (fun (sequence, lastActive, capacity) => ⟨sequence, lastActive, capacity⟩)

def earnings : Codec Earnings :=
  (coin.pair (coin.pair (coin.pair coin))).through
    (fun e => (e.total, e.direct, e.friction, e.unclaimed))
    (fun (total, direct, friction, unclaimed) => ⟨total, direct, friction, unclaimed⟩)

def registration (layout : Layout) : Codec Registration :=
  ((username layout).pair (seconds.pair ((address layout).pair (text layout)))).through
    (fun r => (r.username, r.createdAt, r.address, r.publicKey))
    (fun (username, createdAt, address, publicKey) => ⟨username, createdAt, address, publicKey⟩)

def snapshot (layout : Layout) : Codec Snapshot :=
  ((registration layout).pair
    ((bank layout).pair ((queue layout).pair (usage.pair earnings)))).through
    (fun s => (s.registration, s.bank, s.queue, s.usage, s.earnings))
    (fun (registration, bank, queue, usage, earnings) =>
      ⟨registration, bank, queue, usage, earnings⟩)

def roster (layout : Layout) : Codec Roster :=
  (list layout (username layout)).refine Roster.names fun names =>
    match Roster.ofNames? names with
    | some r => .ok r
    | none => .error .numberCut

/-- The digest of the bytes of a value, in hexadecimal digits. -/
def fingerprint {α : Type} (codec : Codec α) (a : α) : String :=
  Text.hex (Sha256.digest (codec.write a))

end StakeLedger.Codec

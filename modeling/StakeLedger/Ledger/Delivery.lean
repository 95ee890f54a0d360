import StakeLedger.Ledger.Genesis
/-!
# Delivery

A message runs on a buffer. If it is accepted, or refused in a way that still records something, the
buffer is written to the backing store key by key; otherwise it is dropped.
-/

namespace StakeLedger

/-- A buffer written to the backing store in the order of its keys. -/
def Backend.absorb (b : Backend) (buffer : Contents) : Except Failure Unit × Backend :=
  match b.setAll buffer.entries with
  | (b, none) => (.ok (), b)
  | (b, some f) => (.error (.store f), b)

/-- Whether the updates behind an answer go to the backing store. -/
def keepsUpdates {α : Type} : Except Failure α → Bool
  | .ok _ => true
  | .error f => f.keepsUpdates

/-- A script on a buffer in front of the backing store, whose updates are then written or dropped. A
failure to write them takes the place of the answer. -/
def Script.commitOn {α : Type} (script : Script α) (b : Backend) : Except Failure α × Backend :=
  let (answer, buffer) := script.runBuffered b .empty
  if keepsUpdates answer then
    match b.absorb buffer with
    | (.ok (), b) => (answer, b)
    | (.error f, b) => (.error f, b)
  else (answer, b)

namespace Ledger

/-- One message at a time. A message that fails its check never reaches the store. -/
def deliver (l : Ledger) (b : Backend) (m : Message) (now : Seconds) :
    Except Failure Outcome × Backend :=
  match m.check with
  | .error f => (.error f, b)
  | .ok () => (m.script l now).commitOn b

/-- What was written so far is made to last. -/
def commit (b : Backend) : Except Failure Unit × Backend :=
  match b.flush with
  | .ok b => (.ok (), b)
  | .error f => (.error (.store f), b)

/-- The accounts of a genesis are opened, written and made to last. -/
def start (l : Ledger) (b : Backend) (g : Genesis) : Except Failure Unit × Backend :=
  match (g.script l).commitOn b with
  | (.ok (), b) => commit b
  | failed => failed

end Ledger

end StakeLedger

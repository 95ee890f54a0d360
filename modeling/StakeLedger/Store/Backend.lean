import StakeLedger.Failure
import StakeLedger.Store.Contents
/-!
# The backing store

What a ledger keeps outlives it in a backing store. Any access to that store may fail, for a reason
of its own, and then nothing is done. What did reach the store is logged in order.
-/

namespace StakeLedger

/-- A way to use a backing store. -/
inductive Access where
  | get (key : Bytes)
  | set (key : Bytes)
  | flush
  deriving DecidableEq

/-- Something that reached the backing store. -/
inductive Event where
  | wrote (key value : Bytes)
  | flushed
  deriving DecidableEq

/-- A backing store. -/
structure Backend where
  contents : Contents
  /-- The accesses that fail, with the reason each gives. -/
  faults : List (Access × String)
  log : List Event
  deriving DecidableEq

namespace Backend

/-- A backing store that holds nothing and never fails. -/
def empty : Backend := ⟨.empty, [], []⟩

instance : Inhabited Backend := ⟨empty⟩

/-- Why an access fails, if it does. -/
def fault? (b : Backend) (access : Access) : Option StoreFailure :=
  (b.faults.lookup access).map .backend

def get (b : Backend) (key : Bytes) : Except StoreFailure (Option Bytes) :=
  match b.fault? (.get key) with
  | some f => .error f
  | none => .ok (b.contents.get? key)

/-- The store with a key set to a value. -/
def set (b : Backend) (key value : Bytes) : Except StoreFailure Backend :=
  match b.fault? (.set key) with
  | some f => .error f
  | none =>
    .ok { b with contents := b.contents.insert key value, log := b.log ++ [.wrote key value] }

/-- The store with everything in it made to last. -/
def flush (b : Backend) : Except StoreFailure Backend :=
  match b.fault? .flush with
  | some f => .error f
  | none => .ok { b with log := b.log ++ [.flushed] }

/-- The store with several keys set in order. The first update that fails ends it; what was set
before stays. -/
def setAll (b : Backend) : List (Bytes × Bytes) → Backend × Option StoreFailure
  | [] => (b, none)
  | (key, value) :: rest =>
    match b.set key value with
    | .error f => (b, some f)
    | .ok b => b.setAll rest

end Backend

end StakeLedger

import StakeLedger.Ledger.Parameters
import StakeLedger.Throttle
import StakeLedger.Vesting
/-!
# The ledger

A ledger is a set of parameters that can be used. Its operations are scripts on a store; each reads
all the records it needs, computes, and sets the records that changed.
-/

namespace StakeLedger

/-- A ledger with usable parameters. -/
structure Ledger where
  parameters : Parameters
  sound : parameters.defect? = none
  deriving DecidableEq

namespace Ledger

def withParameters (p : Parameters) : Except Failure Ledger :=
  match h : p.defect? with
  | none => .ok ⟨p, h⟩
  | some defect => .error (.config defect)

/-- How deposits become stake. -/
def vesting (l : Ledger) : Vesting := ⟨l.parameters.vestingWindow⟩

/-- How messages are paid for. -/
def throttle (l : Ledger) : Throttle := ⟨l.parameters.recoverPeriod, l.parameters.scale⟩

def describe (l : Ledger) : String :=
  "LedgerApp \x7b config: " ++ l.parameters.describe ++ " \x7d"

end Ledger

end StakeLedger

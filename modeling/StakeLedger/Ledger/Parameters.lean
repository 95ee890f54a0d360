import StakeLedger.Failure
/-!
# Parameters

The economy of a ledger is set by four numbers. Everyone who runs the ledger needs the same ones.
-/

namespace StakeLedger

/-- The numbers that set the economy of a ledger. -/
structure Parameters where
  vestingWindow : Seconds
  recoverPeriod : Seconds
  scale : Word64
  registerFee : Coin
  deriving DecidableEq

namespace Parameters

def standardFee : Coin := ⟨100000, by decide⟩

/-- A week for vesting and for recovery, and five decimal places. -/
def standard : Parameters where
  vestingWindow := ⟨604800, by decide, by decide⟩
  recoverPeriod := ⟨604800, by decide, by decide⟩
  scale := ⟨100000, by decide⟩
  registerFee := standardFee

/-- The first parameter that has to be positive and is not. -/
def defect? (p : Parameters) : Option ConfigDefect :=
  if p.vestingWindow.count ≤ 0 then some (.notPositive .vestingWindow)
  else if p.recoverPeriod.count ≤ 0 then some (.notPositive .recoverPeriod)
  else if p.scale.val = 0 then some (.notPositive .decimalScale)
  else none

def describe (p : Parameters) : String :=
  "LedgerConfig \x7b " ++
    s!"vesting_window_secs: {p.vestingWindow.count}, " ++
    s!"capacity_recover_period_secs: {p.recoverPeriod.count}, " ++
    s!"decimal_scale: {p.scale.val}, " ++
    s!"register_fee: Coin({p.registerFee.units})" ++ " \x7d"

end Parameters

end StakeLedger

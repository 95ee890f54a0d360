import StakeLedger.Failure
import StakeLedger.Record.Basic
/-!
# Income

Income is credited as it comes in, with friction or without, and all that can be claimed is claimed
at once.
-/

namespace StakeLedger.Earnings

/-- Credits `income`, and `reward` that can be claimed. -/
def accrue (e : Earnings) (income reward : Coin) : Except Failure Earnings :=
  match e.total.plus? income, e.direct.plus? reward, e.unclaimed.plus? reward with
  | some total, some direct, some unclaimed => .ok { e with total, direct, unclaimed }
  | _, _, _ => .error (.overflow "accrue reward")

/-- Credits income from friction, none of which can be claimed. -/
def accrueFriction (e : Earnings) (amount : Coin) : Except Failure Earnings :=
  match e.total.plus? amount, e.friction.plus? amount with
  | some total, some friction => .ok { e with total, friction }
  | _, _ => .error (.overflow "accrue friction income")

def claimed (e : Earnings) : Earnings := { e with unclaimed := .zero }

end StakeLedger.Earnings

import StakeLedger.Failure
/-!
# Ratios

A message costs a share of one whole coin. The share is a ratio of two 64-bit numbers; it may come
unreduced and with a zero below the line, and then it has no value.
-/

namespace StakeLedger

/-- A ratio as written. -/
structure Ratio where
  num : Word64
  den : Word64
  deriving DecidableEq

namespace Ratio

/-- The ratio of two numbers in lowest terms. -/
def reduced (num den : Word64) : Except Failure Ratio :=
  if den.val = 0 then .error (.invalidAmount "ratio" (.ofWord num))
  else
    let g := num.val.gcd den.val
    .ok ⟨⟨num.val / g, Nat.lt_of_le_of_lt (Nat.div_le_self _ _) num.val_lt⟩,
      ⟨den.val / g, Nat.lt_of_le_of_lt (Nat.div_le_self _ _) den.val_lt⟩⟩

/-- The share of `amount`, rounded down. -/
def shareOf (r : Ratio) (amount : Word64) : Except Failure Coin :=
  if r.den.val = 0 then .error (.invalidAmount "ratio" (.ofWord r.num))
  else
    match Coin.ofNat? (amount.val * r.num.val / r.den.val) with
    | none => .error (.overflow "ratio")
    | some share => .ok share

end Ratio

end StakeLedger

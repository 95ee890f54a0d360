import StakeLedger.Decimal.Numeral
import StakeLedger.Decimal.Text
import StakeLedger.Failure
import StakeLedger.Text.Blank
/-!
# Amounts in whole coins

People write amounts in whole coins with a fraction; the ledger counts smallest units. An amount
finer than one unit is refused, not rounded.
-/

namespace StakeLedger.Coin

/-- The units of an amount in whole coins of `scale` units each. -/
def ofDecimalText (text : String) (scale : Word64) : Except Failure Coin :=
  match Numeral.ofChars? (Text.trimBlank text.toList) with
  | none => .error (.invalidAmount "parse coin" zero)
  | some amount =>
    if amount.isNegative then .error (.invalidAmount "parse coin" zero)
    else
      match amount.size.timesWhole? scale.val with
      | none => .error (.overflow "parse coin")
      | some units =>
        if !units.isWhole then .error (.invalidAmount "parse coin" zero)
        else
          match ofNat? units.wholePart with
          | none => .error (.overflow "parse coin")
          | some coin => .ok coin

/-- The amount in whole coins of `scale` units each; a scale of zero counts as one. -/
def toDecimal (coin : Coin) (scale : Word64) : Decimal :=
  ((Decimal.ofQuotient? coin.units (max scale.val 1)).getD Decimal.zero).trimmed

end StakeLedger.Coin

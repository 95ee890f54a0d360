import StakeLedger.Decimal.Amount
import StakeLedger.Ledger.Message
/-!
# Genesis

A ledger starts with some accounts that hold coin. Each is opened as if its coin had been deposited
at the address of its key and the key had then been registered.
-/

namespace StakeLedger

/-- An account that exists from the start. -/
structure FirstAccount where
  username : Username
  /-- Its key, in hexadecimal digits. -/
  publicKey : String
  /-- Its coin, as people write amounts. -/
  coin : String
  deriving DecidableEq

/-- How a ledger starts. -/
structure Genesis where
  time : Seconds
  accounts : List FirstAccount
  deriving DecidableEq

def FirstAccount.script (l : Ledger) (time : Seconds) (a : FirstAccount) : Script Unit := do
  let key ← .ofExcept (PublicKey.require a.publicKey)
  let coin ← .ofExcept (Coin.ofDecimalText a.coin l.parameters.scale)
  l.deposit key.address coin time
  let _ ← l.register a.username key time

def Genesis.script (l : Ledger) (g : Genesis) : Script Unit :=
  go g.accounts
where
  /-- Opens the given accounts. -/
  go : List FirstAccount → Script Unit
    | [] => .done ()
    | a :: rest => do
      a.script l g.time
      go rest

end StakeLedger

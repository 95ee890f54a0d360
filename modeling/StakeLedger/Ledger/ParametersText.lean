import StakeLedger.Ledger.FileEntry
import StakeLedger.Ledger.Parameters
import StakeLedger.Toml.Document
/-!
# Parameters as text

The parameters of a ledger are kept in a file as TOML, one key to a line. Keys that are no
parameters are passed over, and the fee may be left out.
-/

namespace StakeLedger

namespace Parameters

/-- The whole number under a key; `none` if there is no such key. -/
def integerAt (s : Toml.Scope) (name : String) : Except Failure (Option Int) :=
  match s.top? name with
  | none => .ok none
  | some (.value (.integer n)) => .ok (some n)
  | some _ => .error (.config .unreadable)

/-- The value read from the whole number under a key, or the value for when there is none. -/
def settingAt {α : Type} (s : Toml.Scope) (name : String) (read : Int → Option α)
    (absent : Option α) : Except Failure α := do
  let value := match ← integerAt s name with
    | none => absent
    | some n => read n
  match value with
  | some a => return a
  | none => .error (.config .unreadable)

/-- A whole number that is not negative, read by its size. -/
def ofNatural {α : Type} (read : Nat → Option α) (n : Int) : Option α :=
  if n < 0 then none else read n.toNat

/-- The parameters that a document gives, if they can be used. -/
def ofScope (s : Toml.Scope) : Except Failure Parameters := do
  let vestingWindow ← settingAt s Setting.vestingWindow.name Seconds.ofInt? none
  let recoverPeriod ← settingAt s Setting.recoverPeriod.name Seconds.ofInt? none
  let scale ← settingAt s Setting.decimalScale.name (ofNatural Word.ofNat?) none
  let registerFee ← settingAt s "register_fee" (ofNatural Coin.ofNat?) (some standardFee)
  let p : Parameters := ⟨vestingWindow, recoverPeriod, scale, registerFee⟩
  match p.defect? with
  | none => return p
  | some defect => .error (.config defect)

/-- The parameters that a text gives, if they can be used. -/
def ofText (text : String) : Except Failure Parameters :=
  match Toml.Scope.ofText? text with
  | none => .error (.config .unreadable)
  | some s => ofScope s

def toText (p : Parameters) : String :=
  s!"vesting_window_secs = {p.vestingWindow.count}\n" ++
    s!"capacity_recover_period_secs = {p.recoverPeriod.count}\n" ++
    s!"decimal_scale = {p.scale.val}\n" ++
    s!"register_fee = {p.registerFee.units}\n"

def load (e : FileEntry) : Except Failure Parameters :=
  match e.text? with
  | some text => ofText text
  | none => .error (.config .unreadable)

/-- The parameters in a file, or the standard ones if it has none that can be used, and what is
found there afterwards. A file that is missing is made; one that cannot be used stays as it is. -/
def loadOrStandard (e : FileEntry) : Parameters × FileEntry :=
  match e with
  | .absent => (standard, .file standard.toText)
  | .unreachable | .directory | .file _ =>
    match load e with
    | .ok p => (p, e)
    | .error _ => (standard, e)

end Parameters

end StakeLedger

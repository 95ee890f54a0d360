import StakeLedger.Failure
/-!
# Rosters

Who follows an account, and whom it follows, are lists of usernames in the order in which they were
added, each name at most once. The length of a list fits into 64 binary digits.
-/

namespace StakeLedger

/-- Usernames in the order in which they were added. -/
structure Roster where
  names : List Username
  short : names.length < 0x10000000000000000
  deriving DecidableEq

namespace Roster

def empty : Roster := ⟨[], by decide⟩

/-- The roster of a list of names, unless the list is too long. -/
def ofNames? (names : List Username) : Option Roster :=
  if h : names.length < 0x10000000000000000 then some ⟨names, h⟩ else none

def has (r : Roster) (name : Username) : Bool := r.names.contains name

/-- The list with the name at its end, unless it is there already. -/
def join (r : Roster) (name : Username) : Except Failure Roster :=
  if r.has name then .ok r
  else
    match ofNames? (r.names ++ [name]) with
    | some longer => .ok longer
    | none => .error .rosterFull

/-- The list without the first occurrence of the name. -/
def leave (r : Roster) (name : Username) : Roster where
  names := r.names.erase name
  short := Nat.lt_of_le_of_lt List.length_erase_le r.short

@[ext] theorem ext {r s : Roster} (h : r.names = s.names) : r = s := by
  cases r; cases s; cases h; rfl

@[simp] theorem ofNames?_names (r : Roster) : ofNames? r.names = some r := dif_pos r.short

end Roster

end StakeLedger

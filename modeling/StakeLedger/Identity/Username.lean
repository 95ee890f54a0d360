/-!
# Usernames

A username has 3 to 20 bytes, all of them lower-case letters, digits or one of `-`, `_`, `.`.
-/

namespace StakeLedger

/-- The rules of usernames, in the order in which they are checked. -/
inductive UsernameFlaw where
  | tooShort
  | tooLong
  | illegalCharacter
  deriving DecidableEq

def UsernameFlaw.message : UsernameFlaw → String
  | .tooShort => "too short"
  | .tooLong => "too long"
  | .illegalCharacter => "illegal character"

def isUsernameChar (c : Char) : Bool :=
  c.isLower || c.isDigit || c == '-' || c == '_' || c == '.'

/-- The first rule that a text breaks as a username. -/
def usernameFlaw? (text : String) : Option UsernameFlaw :=
  if text.utf8ByteSize < 3 then some .tooShort
  else if 20 < text.utf8ByteSize then some .tooLong
  else if text.toList.all isUsernameChar then none
  else some .illegalCharacter

structure Username where
  text : String
  flawless : usernameFlaw? text = none
  deriving DecidableEq

namespace Username

/-- The username of a text, or the first rule that the text breaks. -/
def ofText (text : String) : Except UsernameFlaw Username :=
  match h : usernameFlaw? text with
  | none => .ok ⟨text, h⟩
  | some flaw => .error flaw

@[ext] theorem ext {a b : Username} (h : a.text = b.text) : a = b := by
  cases a; cases b; cases h; rfl

theorem ofText_eq_ok_iff {text : String} {name : Username} :
    ofText text = .ok name ↔ name.text = text := by
  unfold ofText
  split
  · constructor
    · rintro ⟨⟩; rfl
    · intro h; exact congrArg Except.ok (ext h.symm)
  · rename_i flaw h
    refine ⟨fun h => (nomatch h), fun same => ?_⟩
    rw [← same, name.flawless] at h
    cases h

theorem ofText_eq_error_iff {text : String} {flaw : UsernameFlaw} :
    ofText text = .error flaw ↔ usernameFlaw? text = some flaw := by
  unfold ofText
  split
  · rename_i h
    simp [h]
  · rename_i flaw' h
    simp [h]

@[simp] theorem ofText_text (name : Username) : ofText name.text = .ok name :=
  ofText_eq_ok_iff.2 rfl

end Username

end StakeLedger

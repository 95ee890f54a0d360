/-!
# Bounded naturals

Natural numbers below a limit, such as those of 64 or of 128 binary digits.
-/

namespace StakeLedger

/-- A natural number below a limit. -/
structure Word (limit : Nat) where
  val : Nat
  val_lt : val < limit
  deriving DecidableEq

abbrev Word64 := Word 0x10000000000000000

abbrev Word128 := Word 0x100000000000000000000000000000000

namespace Word

variable {limit : Nat}

/-- The word holding `n`, unless `n` is too large. -/
def ofNat? (n : Nat) : Option (Word limit) :=
  if h : n < limit then some ⟨n, h⟩ else none

def zero64 : Word64 := ⟨0, by decide⟩

def zero128 : Word128 := ⟨0, by decide⟩

/-- What a number leaves of a word, nothing if the number is the larger. -/
def less (w : Word limit) (n : Nat) : Word limit :=
  ⟨w.val - n, Nat.lt_of_le_of_lt (Nat.sub_le _ _) w.val_lt⟩

@[ext] theorem ext {a b : Word limit} (h : a.val = b.val) : a = b := by
  cases a; cases b; cases h; rfl

@[simp] theorem val_less (w : Word limit) (n : Nat) : (w.less n).val = w.val - n := rfl

@[simp] theorem less_zero (w : Word limit) : w.less 0 = w := rfl

theorem less_less (w : Word limit) (m n : Nat) : (w.less m).less n = w.less (m + n) :=
  ext (Nat.sub_sub w.val m n)

theorem ofNat?_eq_some_iff {n : Nat} {w : Word limit} : ofNat? n = some w ↔ w.val = n := by
  unfold ofNat?
  split
  · constructor
    · rintro ⟨⟩; rfl
    · intro h; exact congrArg some (ext h.symm)
  · rename_i large
    exact ⟨fun h => (nomatch h), fun h => absurd (h ▸ w.val_lt) large⟩

@[simp] theorem ofNat?_val (w : Word limit) : ofNat? w.val = some w :=
  ofNat?_eq_some_iff.2 rfl

end Word

end StakeLedger

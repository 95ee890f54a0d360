import StakeLedger.Number.Word
/-!
# Coin

An amount is a whole number of the smallest units, below two to the power of 64. Sums that would
leave the range are refused, never wrapped.
-/

namespace StakeLedger

/-- An amount of coin in smallest units. -/
structure Coin where
  units : Nat
  units_lt : units < 0x10000000000000000
  deriving DecidableEq

namespace Coin

def zero : Coin := ⟨0, Word.zero64.val_lt⟩

instance : Inhabited Coin := ⟨zero⟩

/-- The amount of `n` units, unless `n` is too large. -/
def ofNat? (n : Nat) : Option Coin :=
  if h : n < 0x10000000000000000 then some ⟨n, h⟩ else none

def ofWord (w : Word64) : Coin := ⟨w.val, w.val_lt⟩

def toWord (c : Coin) : Word64 := ⟨c.units, c.units_lt⟩

def isZero (c : Coin) : Bool := c.units == 0

def plus? (a b : Coin) : Option Coin := ofNat? (a.units + b.units)

/-- What `b` leaves of `a`, nothing if `b` is the larger. -/
def monus (a b : Coin) : Coin := ⟨a.units - b.units, by have := a.units_lt; omega⟩

/-- The difference, unless `b` is the larger. -/
def minus? (a b : Coin) : Option Coin :=
  if b.units ≤ a.units then some (a.monus b) else none

/-- The smaller of two amounts. -/
def least (a b : Coin) : Coin := if b.units < a.units then b else a

/-- The amount of so many whole coins, each of `scale` units. -/
def ofWhole? (coins scale : Word64) : Option Coin := ofNat? (coins.val * scale.val)

@[ext] theorem ext {a b : Coin} (h : a.units = b.units) : a = b := by
  cases a; cases b; cases h; rfl

@[simp] theorem units_zero : zero.units = 0 := rfl

@[simp] theorem units_monus (a b : Coin) : (a.monus b).units = a.units - b.units := rfl

@[simp] theorem isZero_iff {c : Coin} : c.isZero = true ↔ c.units = 0 := beq_iff_eq

@[simp] theorem monus_zero (a : Coin) : a.monus zero = a := rfl

theorem monus_monus {a b sum : Coin} (add : sum.units = a.units + b.units) (c : Coin) :
    (c.monus a).monus b = c.monus sum :=
  ext (by simp only [units_monus]; omega)

theorem ofNat?_eq_some_iff {n : Nat} {c : Coin} : ofNat? n = some c ↔ c.units = n := by
  unfold ofNat?
  split
  · constructor
    · rintro ⟨⟩; rfl
    · intro h; exact congrArg some (ext h.symm)
  · rename_i large
    exact ⟨fun h => (nomatch h), fun h => absurd (h ▸ c.units_lt) large⟩

theorem ofNat?_eq_none_iff {n : Nat} : ofNat? n = none ↔ 0x10000000000000000 ≤ n := by
  unfold ofNat?
  split <;> simp <;> omega

/-- What is too large stays so when more is added. -/
theorem ofNat?_eq_none_of_le {m n : Nat} (large : ofNat? m = none) (le : m ≤ n) :
    ofNat? n = none :=
  ofNat?_eq_none_iff.2 (Nat.le_trans (ofNat?_eq_none_iff.1 large) le)

@[simp] theorem ofNat?_units (c : Coin) : ofNat? c.units = some c :=
  ofNat?_eq_some_iff.2 rfl

theorem plus?_eq_some_iff {a b c : Coin} : a.plus? b = some c ↔ c.units = a.units + b.units :=
  ofNat?_eq_some_iff

/-- To take off what was added gives back what there was. -/
theorem monus_of_plus? {a b c : Coin} (h : a.plus? b = some c) : c.monus b = a :=
  ext (by rw [units_monus, plus?_eq_some_iff.1 h, Nat.add_sub_cancel])

/-- To take a part off what was added is to add the rest. -/
theorem plus?_monus {a b c part : Coin} (h : a.plus? b = some c) (le : part.units ≤ b.units) :
    a.plus? (b.monus part) = some (c.monus part) := by
  rw [plus?_eq_some_iff, units_monus, units_monus, plus?_eq_some_iff.1 h, Nat.add_sub_assoc le]

theorem minus?_eq_some_iff {a b c : Coin} :
    a.minus? b = some c ↔ c.units + b.units = a.units := by
  unfold minus?
  split
  · simp only [Option.some.injEq]
    exact ⟨fun h => by subst h; simp; omega, fun h => ext (by simp; omega)⟩
  · exact ⟨fun h => (nomatch h), fun h => by omega⟩

end Coin

end StakeLedger

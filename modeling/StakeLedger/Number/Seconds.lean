import StakeLedger.Number.Word
/-!
# Seconds

Points in time and lengths of time are whole numbers of seconds, kept in 64 bits with a sign. A sum
that leaves the range is no result. A difference is kept in 64 bits whatever it is: one that leaves
the range at one end comes round at the other. Two times whose difference is in range are *in reach*
of each other, and there the time that passed between them is what the integers say.
-/

namespace StakeLedger

/-- A count of seconds in the signed 64-bit range: a point in time or a length of time. -/
structure Seconds where
  count : Int
  lower : -0x8000000000000000 ≤ count
  upper : count < 0x8000000000000000
  deriving DecidableEq

namespace Seconds

/-- The count `n`, unless it leaves the 64-bit range. -/
def ofInt? (n : Int) : Option Seconds :=
  if h : -0x8000000000000000 ≤ n ∧ n < 0x8000000000000000 then some ⟨n, h.1, h.2⟩ else none

/-- No time at all, and the point that times are counted from. -/
def zero : Seconds := ⟨0, by decide, by decide⟩

def plus? (t span : Seconds) : Option Seconds :=
  ofInt? (t.count + span.count)

/-- What 64 bits keep of a number: the count in range that is congruent to it. -/
def wrap (n : Int) : Seconds where
  count := n.bmod 0x10000000000000000
  lower := Int.le_bmod (by decide)
  upper := Int.bmod_lt (by decide)

/-- The difference of two times, in 64 bits. -/
def minus (now start : Seconds) : Seconds := wrap (now.count - start.count)

/-- The seconds from `start` to `now`, by their difference in 64 bits; none pass when that is
negative. -/
def since (now start : Seconds) : Nat := (now.minus start).count.toNat

/-- The difference of the two times is in range. -/
def InReach (now start : Seconds) : Prop :=
  -0x8000000000000000 ≤ now.count - start.count ∧ now.count - start.count < 0x8000000000000000

instance (now start : Seconds) : Decidable (now.InReach start) :=
  inferInstanceAs (Decidable (_ ∧ _))

/-- The count modulo two to the power of 64. -/
def toWord (t : Seconds) : Word64 :=
  have bound : (t.count % 0x10000000000000000).toNat < 0x10000000000000000 := by omega
  ⟨(t.count % 0x10000000000000000).toNat, bound⟩

/-- The signed number that is congruent to a word modulo two to the power of 64. -/
def centered (w : Word64) : Int :=
  if w.val < 0x8000000000000000 then w.val else w.val - 0x10000000000000000

theorem centered_bounds (w : Word64) :
    -0x8000000000000000 ≤ centered w ∧ centered w < 0x8000000000000000 := by
  have := w.val_lt
  unfold centered
  split <;> omega

/-- The count that is congruent to a word modulo two to the power of 64. -/
def ofWord (w : Word64) : Seconds := ⟨centered w, (centered_bounds w).1, (centered_bounds w).2⟩

@[ext] theorem ext {a b : Seconds} (h : a.count = b.count) : a = b := by
  cases a; cases b; cases h; rfl

theorem ofInt?_eq_some_iff {n : Int} {s : Seconds} : ofInt? n = some s ↔ s.count = n := by
  unfold ofInt?
  split
  · constructor
    · rintro ⟨⟩; rfl
    · intro h; exact congrArg some (ext h.symm)
  · rename_i out
    exact ⟨fun h => (nomatch h), fun h => absurd ⟨h ▸ s.lower, h ▸ s.upper⟩ out⟩

@[simp] theorem ofInt?_count (s : Seconds) : ofInt? s.count = some s :=
  ofInt?_eq_some_iff.2 rfl

/-! ## The time that passed -/

variable {now start : Seconds}

theorem since_def (now start : Seconds) :
    now.since start = ((now.count - start.count).bmod 0x10000000000000000).toNat := rfl

@[simp] theorem since_self (t : Seconds) : t.since t = 0 := by
  rw [since_def, Int.sub_self]
  rfl

/-- Within reach the seconds that passed are those of the integers. -/
theorem since_eq (near : now.InReach start) :
    now.since start = (now.count - start.count).toNat := by
  rw [since_def, Int.bmod_eq_of_le near.1 near.2]

/-- A difference that is too large comes round to a negative one, and no time has passed. -/
theorem since_of_far (far : start.count + 0x8000000000000000 ≤ now.count) :
    now.since start = 0 := by
  have lower := start.lower
  have upper := now.upper
  have round : (now.count - start.count).bmod 0x10000000000000000 =
      now.count - start.count - 0x10000000000000000 := by
    rw [← Int.sub_bmod_right]
    exact Int.bmod_eq_of_le (by omega) (by omega)
  rw [since_def, round]
  omega

/-- Unless the difference is too far below zero, no more seconds count than passed. -/
theorem since_le (lower : start.count ≤ now.count + 0x8000000000000000) :
    now.since start ≤ (now.count - start.count).toNat := by
  by_cases far : start.count + 0x8000000000000000 ≤ now.count
  · rw [since_of_far far]
    exact Nat.zero_le _
  · exact Nat.le_of_eq (since_eq ⟨by omega, by omega⟩)

end Seconds

end StakeLedger

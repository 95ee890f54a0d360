import StakeLedger.Number.Bytes
/-!
# Contents of a store

A store maps keys to values, both byte sequences, and lists its entries in the byte order of the
keys.

## Main definitions

* `precedes` — the order of bytes, the first difference deciding.
* `Contents` — entries in strictly ascending order of their keys.
* `Contents.get?`, `Contents.insert` — look-up and update.
* `Contents.addAll` — one contents written over another.

## Main results

* `Contents.get?_insert` — an update changes the value of its own key and no other.
* `Contents.ext_get?` — contents with the same values are the same.
-/

namespace StakeLedger

/-- Whether one byte sequence comes before another: at the first difference the smaller byte
decides, and a sequence comes before its continuations. -/
def precedes : Bytes → Bytes → Bool
  | _, [] => false
  | [], _ :: _ => true
  | a :: as, b :: bs => if a = b then precedes as bs else a.toNat < b.toNat

theorem precedes_irrefl (a : Bytes) : precedes a a = false := by
  induction a with
  | nil => rfl
  | cons x as ih => simp [precedes, ih]

theorem precedes_trans {a b c : Bytes} (hab : precedes a b = true) (hbc : precedes b c = true) :
    precedes a c = true := by
  induction a generalizing b c with
  | nil =>
    cases b with
    | nil => simp [precedes] at hab
    | cons y bs => cases c <;> simp_all [precedes]
  | cons x as ih =>
    cases b with
    | nil => simp [precedes] at hab
    | cons y bs =>
      cases c with
      | nil => simp [precedes] at hbc
      | cons z cs =>
        simp only [precedes] at hab hbc ⊢
        by_cases hxy : x = y <;> by_cases hyz : y = z
        · subst hxy hyz
          simp only [if_true] at hab hbc ⊢
          exact ih hab hbc
        · subst hxy
          simp_all
        · subst hyz
          simp_all
        · simp only [hxy, hyz, if_false, decide_eq_true_eq] at hab hbc
          have apart : x ≠ z := fun h => by subst h; omega
          simp only [apart, if_false, decide_eq_true_eq]
          omega

theorem precedes_or_eq (a b : Bytes) : a = b ∨ precedes a b = true ∨ precedes b a = true := by
  induction a generalizing b with
  | nil => cases b <;> simp [precedes]
  | cons x as ih =>
    cases b with
    | nil => simp [precedes]
    | cons y bs =>
      by_cases hxy : x = y
      · subst hxy
        simpa [precedes] using ih bs
      · have apart : x.toNat ≠ y.toNat := fun h => hxy (UInt8.toNat_inj.1 h)
        have apart' : y ≠ x := fun h => hxy h.symm
        simp only [precedes, hxy, apart', if_false, decide_eq_true_eq]
        omega

/-- Keys and their values, in strictly ascending order of the keys. -/
structure Contents where
  entries : List (Bytes × Bytes)
  ordered : entries.Pairwise fun p q => precedes p.1 q.1 = true
  deriving DecidableEq

/-- Entries with a key set to a value, in order. -/
def putEntry (key value : Bytes) : List (Bytes × Bytes) → List (Bytes × Bytes)
  | [] => [(key, value)]
  | (k, v) :: rest =>
    if k = key then (key, value) :: rest
    else if precedes key k then (key, value) :: (k, v) :: rest
    else (k, v) :: putEntry key value rest

theorem mem_putEntry {key value : Bytes} {entries : List (Bytes × Bytes)} {p : Bytes × Bytes}
    (h : p ∈ putEntry key value entries) : p = (key, value) ∨ p ∈ entries := by
  fun_induction putEntry key value entries <;> grind

theorem ordered_putEntry (key value : Bytes) {entries : List (Bytes × Bytes)}
    (h : entries.Pairwise fun p q => precedes p.1 q.1 = true) :
    (putEntry key value entries).Pairwise fun p q => precedes p.1 q.1 = true := by
  fun_induction putEntry key value entries with
  | case1 => simp
  | case2 v rest =>
    rw [List.pairwise_cons] at h ⊢
    exact h
  | case3 k v rest _ first =>
    rw [List.pairwise_cons]
    refine ⟨fun q hq => ?_, h⟩
    rw [List.pairwise_cons] at h
    rcases List.mem_cons.1 hq with rfl | hq
    · exact first
    · exact precedes_trans first (h.1 q hq)
  | case4 k v rest other notFirst ih =>
    rw [List.pairwise_cons] at h ⊢
    refine ⟨fun q hq => ?_, ih h.2⟩
    rcases mem_putEntry hq with rfl | hq
    · rcases precedes_or_eq k key with same | before | after
      · exact absurd same other
      · exact before
      · exact absurd after notFirst
    · exact h.1 q hq

def findEntry (key : Bytes) : List (Bytes × Bytes) → Option Bytes
  | [] => none
  | (k, v) :: rest => if k = key then some v else findEntry key rest

namespace Contents

def empty : Contents := ⟨[], List.Pairwise.nil⟩

instance : Inhabited Contents := ⟨empty⟩

def get? (c : Contents) (key : Bytes) : Option Bytes := findEntry key c.entries

/-- The contents with a key set to a value. -/
def insert (c : Contents) (key value : Bytes) : Contents :=
  ⟨putEntry key value c.entries, ordered_putEntry key value c.ordered⟩

def size (c : Contents) : Nat := c.entries.length

/-- All entries of `upper` written over `lower`. -/
def addAll (upper lower : Contents) : Contents :=
  upper.entries.foldl (fun c entry => c.insert entry.1 entry.2) lower

end Contents

theorem findEntry_putEntry_self (key value : Bytes) (entries : List (Bytes × Bytes)) :
    findEntry key (putEntry key value entries) = some value := by
  fun_induction putEntry key value entries <;> simp_all [findEntry]

theorem findEntry_putEntry_of_ne {key value other : Bytes} (h : other ≠ key)
    (entries : List (Bytes × Bytes)) :
    findEntry other (putEntry key value entries) = findEntry other entries := by
  fun_induction putEntry key value entries <;> simp_all [findEntry, Ne.symm h]

theorem findEntry_eq_none {key : Bytes} {entries : List (Bytes × Bytes)}
    (h : ∀ p ∈ entries, precedes key p.1 = true) : findEntry key entries = none := by
  induction entries with
  | nil => rfl
  | cons p rest ih =>
    obtain ⟨k, v⟩ := p
    have first := h (k, v) (by simp)
    have apart : k ≠ key := fun same => by
      subst same
      simp [precedes_irrefl] at first
    simp [findEntry, apart, ih fun q hq => h q (by simp [hq])]

theorem entries_eq_of_findEntry {l m : List (Bytes × Bytes)}
    (hl : l.Pairwise fun p q => precedes p.1 q.1 = true)
    (hm : m.Pairwise fun p q => precedes p.1 q.1 = true)
    (h : ∀ key, findEntry key l = findEntry key m) : l = m := by
  induction l generalizing m with
  | nil =>
    cases m with
    | nil => rfl
    | cons q m =>
      have := h q.1
      simp [findEntry] at this
  | cons p l ih =>
    cases m with
    | nil =>
      have := h p.1
      simp [findEntry] at this
    | cons q m =>
      obtain ⟨k, v⟩ := p
      obtain ⟨k', v'⟩ := q
      rw [List.pairwise_cons] at hl hm
      have same : k = k' := by
        rcases precedes_or_eq k k' with same | before | after
        · exact same
        · have absent : findEntry k ((k', v') :: m) = none := by
            refine findEntry_eq_none fun r hr => ?_
            rcases List.mem_cons.1 hr with rfl | hr
            · exact before
            · exact precedes_trans before (hm.1 r hr)
          rw [← h k] at absent
          simp [findEntry] at absent
        · have absent : findEntry k' ((k, v) :: l) = none := by
            refine findEntry_eq_none fun r hr => ?_
            rcases List.mem_cons.1 hr with rfl | hr
            · exact after
            · exact precedes_trans after (hl.1 r hr)
          rw [h k'] at absent
          simp [findEntry] at absent
      subst same
      have value : v = v' := by simpa [findEntry] using h k
      subst value
      congr 1
      refine ih hl.2 hm.2 fun key => ?_
      by_cases hk : k = key
      · subst hk
        rw [findEntry_eq_none fun r hr => hl.1 r hr, findEntry_eq_none fun r hr => hm.1 r hr]
      · simpa [findEntry, hk] using h key

namespace Contents

@[simp] theorem get?_empty (key : Bytes) : empty.get? key = none := rfl

/-- An update changes the value of its own key and no other. -/
theorem get?_insert (c : Contents) (key value other : Bytes) :
    (c.insert key value).get? other = if other = key then some value else c.get? other := by
  split
  · rename_i h
    subst h
    exact findEntry_putEntry_self _ _ _
  · rename_i h
    exact findEntry_putEntry_of_ne h _

/-- Contents with the same values are the same. -/
theorem ext_get? {c d : Contents} (h : ∀ key, c.get? key = d.get? key) : c = d := by
  obtain ⟨l, hl⟩ := c
  obtain ⟨m, hm⟩ := d
  have := entries_eq_of_findEntry hl hm h
  subst this
  rfl

end Contents

end StakeLedger

import Mathlib.Data.List.Basic
import StakeLedger.Json.Fields
import StakeLedger.Proofs.Json.Built

/-!
# Records written in other ways

The fields of a record can be given in any order, with other members anywhere among them, and the
same values are found for them. What the ledger writes for a value of its own is read as that value.
`Json.Lists` is an object that gives fields in this way.
-/

namespace StakeLedger.Json

/-- An object that gives these values for some of the named fields, in any order, and may have other
members among them, whatever they hold, as long as their keys are no names of fields. -/
def Lists (names : List String) (given : List (String × Json)) (v : Json) : Prop :=
  ∃ others members : List (String × Json), (∀ p ∈ others, p.1 ∉ names) ∧
    members.Perm (given ++ others) ∧ v = record members

variable {names : List String} {given members : List (String × Json)} {v : Json}

theorem lists_record (names : List String) (given : List (String × Json)) :
    (record given).Lists names given :=
  ⟨[], given, nofun, by rw [List.append_nil], rfl⟩

theorem mapM_eq_some_map {α β : Type} {f : α → Option β} {g : α → β} {l : List α}
    (h : ∀ a ∈ l, f a = some (g a)) : l.mapM f = some (l.map g) := by
  induction l with
  | nil => rfl
  | cons a l ih =>
    rw [List.forall_mem_cons] at h
    simp [List.mapM_cons, h.1, ih h.2]

theorem textKeys?_map (members : List (String × Json)) :
    textKeys? (members.map fun (key, v) => (some key, v)) = some members := by
  unfold textKeys?
  rw [List.mapM_map]
  exact (mapM_eq_some_map (g := id) fun p _ => rfl).trans (congrArg some (List.map_id members))

/-- Where no key is there twice, the members with a key are the one that is looked up. -/
theorem filter_key (nodup : (given.map Prod.fst).Nodup) (name : String) :
    given.filter (·.1 == name) = ((given.lookup name).map (name, ·)).toList := by
  induction given with
  | nil => rfl
  | cons p given ih =>
    obtain ⟨key, w⟩ := p
    rw [List.map_cons, List.nodup_cons] at nodup
    by_cases same : key = name
    · subst same
      have none : given.filter (·.1 == key) = [] := by
        rw [List.filter_eq_nil_iff]
        rintro q hq found
        exact nodup.1 (List.mem_map.2 ⟨q, hq, by simpa using found⟩)
      simp [none]
    · have apart : (name == key) = false := by simpa using Ne.symm same
      rw [List.filter_cons_of_neg (by simpa using same), ih nodup.2, List.lookup_cons, apart]

/-- Each field has the value that is given for it, if there is one. -/
theorem field?_eq (nodup : (given.map Prod.fst).Nodup) {others : List (String × Json)}
    {name : String} (unknown : ∀ p ∈ others, p.1 ≠ name) (perm : members.Perm (given ++ others)) :
    field? members name = some (given.lookup name) := by
  have none : others.filter (·.1 == name) = [] := by
    rw [List.filter_eq_nil_iff]
    exact fun p hp found => unknown p hp (by simpa using found)
  have found := perm.filter (·.1 == name)
  rw [List.filter_append, none, List.append_nil, filter_key nodup] at found
  unfold field?
  cases hlookup : given.lookup name with
  | none =>
    rw [hlookup] at found
    rw [List.perm_nil.1 found]
  | some w =>
    rw [hlookup] at found
    rw [List.perm_singleton.1 found]

/-- The values that are found for the fields do not depend on their order, nor on other members. -/
theorem Lists.fields?_eq (h : v.Lists names given) (nodup : (given.map Prod.fst).Nodup) :
    v.fields? names = some (names.map (given.lookup ·)) := by
  obtain ⟨others, members, unknown, perm, rfl⟩ := h
  simp only [record, fields?, textKeys?_map, bind, Option.bind_some]
  refine mapM_eq_some_map fun name hname => field?_eq nodup (fun p hp same => ?_) perm
  subst same
  exact unknown p hp hname

/-- The values that are found in a record as it is written. -/
theorem fields?_record (names : List String) (nodup : (given.map Prod.fst).Nodup) :
    (record given).fields? names = some (names.map (given.lookup ·)) :=
  (lists_record names given).fields?_eq nodup

@[simp] theorem legal_record : (record given).Legal ↔ ∀ p ∈ given, p.2.Legal := by
  rw [record, Legal, legalMembers_iff, List.forall_mem_map]

@[simp] theorem required_some {α : Type} (read : Json → Option α) (v : Json) :
    required read (some v) = read v := rfl

@[simp] theorem optional_some {α : Type} (absent : α) (read : Json → Option α) (v : Json) :
    optional absent read (some v) = read v := rfl

@[simp] theorem optional_none {α : Type} (absent : α) (read : Json → Option α) :
    optional absent read none = some absent := rfl

/-! ## Values of the ledger -/

@[simp] theorem legal_ofNat (n : Nat) : (ofNat n).Legal := rfl

@[simp] theorem legal_ofInt (n : Int) : (ofInt n).Legal := rfl

@[simp] theorem legal_ofString (s : String) : (ofString s).Legal := trivial

@[simp] theorem legal_ofCoin (c : Coin) : (ofCoin c).Legal := legal_ofNat c.units

@[simp] theorem legal_ofSeconds (s : Seconds) : (ofSeconds s).Legal := legal_ofInt s.count

@[simp] theorem legal_ofAddress (a : Address) : (ofAddress a).Legal := legal_ofString a.text

@[simp] theorem legal_ofUsername (u : Username) : (ofUsername u).Legal := legal_ofString u.text

@[simp] theorem legal_ofOption {α : Type} {write : α → Json} (legal : ∀ a, (write a).Legal)
    (o : Option α) : (ofOption write o).Legal := by
  cases o with
  | none => trivial
  | some a => exact legal a

@[simp] theorem word?_ofNat (w : Word64) : word? (ofNat w.val) = some w := by
  simp [word?, ofNat, natural?]

@[simp] theorem coin?_ofCoin (c : Coin) : coin? (ofCoin c) = some c := by
  simp [coin?, ofCoin, ofNat, natural?]

@[simp] theorem integer?_ofInt (n : Int) : (ofInt n).integer? = some n := by
  by_cases negative : n < 0
  · have apart : n.natAbs ≠ 0 := by omega
    have back : -(n.natAbs : Int) = n := by omega
    simp only [ofInt, integer?, decide_eq_true negative, if_neg apart, back]
  · have back : (n.natAbs : Int) = n := by omega
    simp only [ofInt, integer?, decide_eq_false negative, back]

@[simp] theorem seconds?_ofSeconds (s : Seconds) : seconds? (ofSeconds s) = some s := by
  simp [seconds?, ofSeconds]

@[simp] theorem address?_ofAddress (a : Address) : address? (ofAddress a) = some a := by
  simp [address?, ofAddress, ofString, text?]

theorem text?_ofString (s : String) : text? (ofString s) = some s := rfl

@[simp] theorem username?_ofUsername (u : Username) : username? (ofUsername u) = some u := by
  simp [username?, ofUsername, ofString, text?]

theorem nullable_ofOption {α : Type} {read : Json → Option α} {write : α → Json}
    (back : ∀ a, read (write a) = some a) (something : ∀ a, write a ≠ null) (o : Option α) :
    nullable read (ofOption write o) = some o := by
  cases o with
  | none => rfl
  | some a =>
    rw [ofOption, nullable, back, Option.map_some]
    exact something a

end StakeLedger.Json

import Mathlib.Logic.Function.Basic
import StakeLedger.Proofs.Codec.RoundTrip
import StakeLedger.Proofs.Store.Plain

/-!
# Records in the contents of a store

Contents are seen as records: each has its place, a table and a name there, and different places
have different keys. So a record set at one place is found there and no other place changes.

## Main definitions

* `Place` — where a record is kept.
* `Table.peek`, `Table.put` — the record of a name in some contents, and the contents with it set.

## Main statements

* `Place.key_injective` — no two places share a key.
* `Table.load_runPlain`, `Table.require_runPlain_eq_ok`, `Table.save_runPlain` — what the scripts of
  a table do to contents.
* `Table.peek_put_of_ne` — setting a record leaves the other places as they were.
-/

namespace StakeLedger

/-! ## Places -/

/-- The place of a record: its table and the name that it has there. -/
inductive Place where
  | bank (address : Address)
  | queue (address : Address)
  | usage (account : Username)
  | earnings (account : Username)
  | registration (account : Username)
  | followers (account : Username)
  | following (account : Username)
  deriving DecidableEq

namespace Place

/-- The key of the record at a place. -/
def key : Place → Bytes
  | bank address => Table.banks.key address
  | queue address => Table.queues.key address
  | usage account => Table.usages.key account
  | earnings account => Table.earnings.key account
  | registration account => Table.registrations.key account
  | followers account => Table.followers.key account
  | following account => Table.following.key account

/-- The label of the table, without the stroke that ends it. -/
def stem : Place → List Char
  | bank _ => ['b', 'a', 'n', 'k']
  | queue _ => ['p', 'e', 'n', 'd', 'i', 'n', 'g', '_', 's', 't', 'a', 'k', 'e']
  | usage _ => ['m', 'e', 't', 'a']
  | earnings _ => ['r', 'e', 'w', 'a', 'r', 'd']
  | registration _ => ['i', 'n', 'f', 'o']
  | followers _ => ['f', 'o', 'l', 'l', 'o', 'w', 'e', 'r']
  | following _ => ['f', 'o', 'l', 'l', 'o', 'w', 'i', 'n', 'g']

def name : Place → String
  | bank address | queue address => address.text
  | usage account | earnings account | registration account | followers account
  | following account => account.text

theorem key_eq (p : Place) :
    p.key = Text.utf8 (String.ofList (p.stem ++ '/' :: p.name.toList)) := by
  have text (s : String) (stem : List Char) (label : String)
      (h : label.toList = stem ++ ['/']) :
      label ++ s = String.ofList (stem ++ '/' :: s.toList) := by
    apply String.toList_injective
    simp [h]
  cases p <;> exact congrArg Text.utf8 (text _ _ _ rfl)

theorem stroke_notMem_stem (p : Place) : ∀ c ∈ p.stem, c ≠ '/' := by
  cases p <;> simp [stem]

/-- What stands before the first stroke of a text is determined by the text. -/
theorem eq_of_append_stroke {a b x y : List Char} (ha : ∀ c ∈ a, c ≠ '/') (hb : ∀ c ∈ b, c ≠ '/')
    (h : a ++ '/' :: x = b ++ '/' :: y) : a = b ∧ x = y := by
  have same : a = b := by
    have cut := congrArg (List.takeWhile (· != '/')) h
    rw [List.takeWhile_append_of_pos (by simpa using ha),
      List.takeWhile_append_of_pos (by simpa using hb)] at cut
    simpa using cut
  subst same
  simpa using h

/-- No two places share a key. -/
theorem key_injective : Function.Injective key := by
  intro p q h
  rw [key_eq, key_eq, Text.utf8_inj] at h
  obtain ⟨stem, name⟩ := eq_of_append_stroke (stroke_notMem_stem p) (stroke_notMem_stem q)
    (String.ofList_injective h)
  have name : p.name = q.name := String.toList_injective name
  cases p <;> cases q <;> simp [Place.stem] at stem
  case bank a b => exact congrArg bank (Address.ext name)
  case queue a b => exact congrArg queue (Address.ext name)
  case usage u v => exact congrArg usage (Username.ext name)
  case earnings u v => exact congrArg earnings (Username.ext name)
  case registration u v => exact congrArg registration (Username.ext name)
  case followers u v => exact congrArg followers (Username.ext name)
  case following u v => exact congrArg following (Username.ext name)

@[simp] theorem key_inj {p q : Place} : p.key = q.key ↔ p = q := key_injective.eq_iff

end Place

namespace Table

variable {ν ρ ν' ρ' : Type}

-- These are no definitional rewrites, so that they may discharge side conditions.
@[simp] theorem key_banks (a : Address) : banks.key a = (Place.bank a).key := (rfl)

@[simp] theorem key_queues (a : Address) : queues.key a = (Place.queue a).key := (rfl)

@[simp] theorem key_usages (u : Username) : usages.key u = (Place.usage u).key := (rfl)

@[simp] theorem key_earnings (u : Username) : earnings.key u = (Place.earnings u).key := (rfl)

@[simp] theorem key_registrations (u : Username) :
    registrations.key u = (Place.registration u).key := (rfl)

@[simp] theorem key_followers (u : Username) : followers.key u = (Place.followers u).key := (rfl)

@[simp] theorem key_following (u : Username) : following.key u = (Place.following u).key := (rfl)

/-! ## Records in contents -/

/-- The record of a name in some contents, if there is one; it is a failure if the bytes found there
are none. -/
def peek (t : Table ν ρ) (c : Contents) (name : ν) : Except Failure (Option ρ) :=
  match c.get? (t.key name) with
  | none => .ok none
  | some bytes => (parse t.codec (t.keyText name) bytes).map some

/-- The contents with the record of a name set. -/
def put (t : Table ν ρ) (c : Contents) (name : ν) (record : ρ) : Contents :=
  c.insert (t.key name) (t.codec.write record)

/-- Setting a record leaves the bytes under the other keys as they were. -/
@[simp] theorem get?_put_of_ne {t : Table ν ρ} {name : ν} {key : Bytes} (h : key ≠ t.key name)
    (c : Contents) (record : ρ) : (t.put c name record).get? key = c.get? key :=
  (Contents.get?_insert _ _ _ _).trans (if_neg h)

theorem peek_eq_none_iff {t : Table ν ρ} {c : Contents} {name : ν} :
    t.peek c name = .ok none ↔ c.get? (t.key name) = none := by
  unfold peek
  cases c.get? (t.key name) with
  | none => simp
  | some bytes =>
    dsimp only
    cases parse t.codec (t.keyText name) bytes <;> simp [Except.map]

theorem peek_of_decode {t : Table ν ρ} {c : Contents} {name : ν} {bytes : Bytes} {record : ρ}
    (found : c.get? (t.key name) = some bytes) (reads : t.codec.decode bytes = .ok record) :
    t.peek c name = .ok (some record) := by
  simp only [peek, found, parse, reads, Except.map]

/-- A record that its codec reads back is found where it was put. -/
theorem peek_put_self {t : Table ν ρ} {record : ρ} (h : t.codec.Reads record) (c : Contents)
    (name : ν) : t.peek (t.put c name record) name = .ok (some record) :=
  peek_of_decode (by simp [put, Contents.get?_insert]) h.decode

/-- Something is found where a record was put. -/
theorem peek_put_ne_none (t : Table ν ρ) (c : Contents) (name : ν) (record : ρ) :
    t.peek (t.put c name record) name ≠ .ok none := by
  rw [Ne, peek_eq_none_iff, put, Contents.get?_insert, if_pos rfl]
  nofun

/-- Setting a record leaves the other places as they were. -/
@[simp] theorem peek_put_of_ne {t : Table ν ρ} {t' : Table ν' ρ'} {name : ν} {name' : ν'}
    (h : t.key name ≠ t'.key name') (c : Contents) (record : ρ') :
    t.peek (t'.put c name' record) name = t.peek c name := by
  simp only [peek, put, Contents.get?_insert, if_neg h]

/-- Setting a record that is there already makes none appear. -/
theorem peek_put_eq_none_iff {t : Table ν ρ} {c : Contents} {name : ν} {record : ρ}
    (present : t.peek c name ≠ .ok none) (other : ν) :
    t.peek (t.put c name record) other = .ok none ↔ t.peek c other = .ok none := by
  rw [Ne, peek_eq_none_iff] at present
  rw [peek_eq_none_iff, peek_eq_none_iff, put, Contents.get?_insert]
  split
  · rename_i same
    simp [same, present]
  · rfl

@[simp] theorem peek_put_bank (c : Contents) (a : Address) (b : Bank) :
    banks.peek (banks.put c a b) a = .ok (some b) :=
  peek_put_self (t := banks) (Codec.reads_bank b.address.fits_stored) c a

@[simp] theorem peek_put_usage (c : Contents) (u : Username) (usage : Usage) :
    usages.peek (usages.put c u usage) u = .ok (some usage) :=
  peek_put_self (t := usages) (Codec.reads_usage usage) c u

@[simp] theorem peek_put_earnings (c : Contents) (u : Username) (e : Earnings) :
    earnings.peek (earnings.put c u e) u = .ok (some e) :=
  peek_put_self (t := earnings) (Codec.reads_earnings e) c u

@[simp] theorem peek_put_followers (c : Contents) (u : Username) (r : Roster) :
    followers.peek (followers.put c u r) u = .ok (some r) :=
  peek_put_self (t := followers) (Codec.reads_roster r) c u

@[simp] theorem peek_put_following (c : Contents) (u : Username) (r : Roster) :
    following.peek (following.put c u r) u = .ok (some r) :=
  peek_put_self (t := following) (Codec.reads_roster r) c u

@[simp] theorem peek_empty (t : Table ν ρ) (name : ν) : t.peek .empty name = .ok none := rfl

/-! ## The scripts of a table -/

@[simp] theorem load_runPlain (t : Table ν ρ) (name : ν) (c : Contents) :
    (t.load name).runPlain c = (t.peek c name, c) := by
  simp only [load, Script.runPlain, peek]
  cases c.get? (t.key name) with
  | none => rfl
  | some bytes => exact Script.ofExcept_runPlain _ _

@[simp] theorem save_runPlain (t : Table ν ρ) (name : ν) (record : ρ) (c : Contents) :
    (t.save name record).runPlain c = (.ok (), t.put c name record) := rfl

theorem require_runPlain_eq_ok {t : Table ν ρ} {during : Activity} {name : ν} {c c' : Contents}
    {record : ρ} :
    (t.require during name).runPlain c = (.ok record, c') ↔
      t.peek c name = .ok (some record) ∧ c = c' := by
  rw [require, Script.bind_runPlain_eq_ok]
  constructor
  · rintro ⟨found, d, hload, rest⟩
    rw [load_runPlain, Prod.mk.injEq] at hload
    obtain ⟨hpeek, rfl⟩ := hload
    cases found with
    | none => cases rest
    | some r =>
      rw [Script.pure_runPlain, Prod.mk.injEq] at rest
      obtain ⟨same, rfl⟩ := rest
      cases same
      exact ⟨hpeek, rfl⟩
  · rintro ⟨hpeek, rfl⟩
    exact ⟨some record, c, by rw [load_runPlain, hpeek], rfl⟩

theorem require_runPlain {t : Table ν ρ} {during : Activity} {name : ν} {c : Contents} {record : ρ}
    (h : t.peek c name = .ok (some record)) :
    (t.require during name).runPlain c = (.ok record, c) :=
  require_runPlain_eq_ok.2 ⟨h, rfl⟩

theorem loadRoster_runPlain_eq_ok {t : Table Username Roster} {name : Username} {c c' : Contents}
    {r : Roster} :
    (t.loadRoster name).runPlain c = (.ok r, c') ↔
      ∃ found, t.peek c name = .ok found ∧ r = found.getD .empty ∧ c = c' := by
  rw [loadRoster, Script.bind_runPlain_eq_ok]
  constructor
  · rintro ⟨found, d, hload, rest⟩
    rw [load_runPlain, Prod.mk.injEq] at hload
    rw [Script.pure_runPlain, Prod.mk.injEq] at rest
    obtain ⟨hpeek, rfl⟩ := hload
    obtain ⟨same, rfl⟩ := rest
    cases same
    exact ⟨found, hpeek, rfl, rfl⟩
  · rintro ⟨found, hpeek, rfl, rfl⟩
    exact ⟨found, c, by rw [load_runPlain, hpeek], rfl⟩

theorem loadRoster_runPlain {t : Table Username Roster} {name : Username} {c : Contents}
    {found : Option Roster} (h : t.peek c name = .ok found) :
    (t.loadRoster name).runPlain c = (.ok (found.getD .empty), c) :=
  loadRoster_runPlain_eq_ok.2 ⟨found, h, rfl, rfl⟩

theorem addressOf_runPlain_eq_ok {during : Activity} {u : Username} {c c' : Contents}
    {a : Address} :
    (addressOf during u).runPlain c = (.ok a, c') ↔
      ∃ r, registrations.peek c u = .ok (some r) ∧ r.address = a ∧ c = c' := by
  rw [addressOf, Script.bind_runPlain_eq_ok]
  constructor
  · rintro ⟨r, d, hrequire, rest⟩
    obtain ⟨hpeek, rfl⟩ := require_runPlain_eq_ok.1 hrequire
    rw [Script.pure_runPlain, Prod.mk.injEq] at rest
    obtain ⟨same, rfl⟩ := rest
    cases same
    exact ⟨r, hpeek, rfl, rfl⟩
  · rintro ⟨r, hpeek, rfl, rfl⟩
    exact ⟨r, c, require_runPlain hpeek, rfl⟩

theorem addressOf_runPlain {during : Activity} {u : Username} {c : Contents} {r : Registration}
    (h : registrations.peek c u = .ok (some r)) :
    (addressOf during u).runPlain c = (.ok r.address, c) :=
  addressOf_runPlain_eq_ok.2 ⟨r, h, rfl, rfl⟩

end Table

end StakeLedger

import StakeLedger.Proofs.Codec.Exact

/-!
# Stored records

A record is looked up under a key of a store as its codec reads it there. It comes back from its own
bytes, whatever follows them; from fewer bytes nothing comes back but the message that the record is
corrupt; and nothing comes back that was not written in this way. `Codec.keeps_stored` says this of
all kinds of records.
-/

namespace StakeLedger

/-! ## Looking up -/

/-- The record that the bytes under a key stand for, if there are any. -/
def Codec.lookUp {ρ : Type} (codec : Codec ρ) (key : String) : Script (Option ρ) :=
  .read (Text.utf8 key) fun
    | none => .done none
    | some bytes => .ofExcept ((Table.parse codec key bytes).map some)

theorem Table.load_eq_lookUp {ν ρ : Type} (t : Table ν ρ) (name : ν) :
    t.load name = t.codec.lookUp (t.keyText name) := rfl

/-- A store has some bytes under a key, and does not fail to give them. -/
def Backend.Gives (b : Backend) (key : String) (bytes : Bytes) : Prop :=
  b.get (Text.utf8 key) = .ok (some bytes)

theorem Codec.lookUp_runOn {ρ : Type} {codec : Codec ρ} {key : String} {b : Backend}
    {bytes : Bytes} (found : b.Gives key bytes) :
    (codec.lookUp key).runOn b = ((Table.parse codec key bytes).map some, b) := by
  simp only [Backend.Gives] at found
  simp only [lookUp, Script.runOn, found]
  cases Table.parse codec key bytes <;> rfl

/-! ## Usernames -/

/-- What makes a text a username: 3 to 20 bytes, all of them lower-case letters, digits or one of
`-`, `_`, `.`. -/
structure Username.Rules (text : String) : Prop where
  long : 3 ≤ text.utf8ByteSize
  short : text.utf8ByteSize ≤ 20
  plain : ∀ c ∈ text.toList,
    'a' ≤ c ∧ c ≤ 'z' ∨ '0' ≤ c ∧ c ≤ '9' ∨ c = '-' ∨ c = '_' ∨ c = '.'

theorem isUsernameChar_iff {c : Char} :
    isUsernameChar c = true ↔
      'a' ≤ c ∧ c ≤ 'z' ∨ '0' ≤ c ∧ c ≤ '9' ∨ c = '-' ∨ c = '_' ∨ c = '.' := by
  have lower : c.isLower = (decide ('a' ≤ c) && decide (c ≤ 'z')) := rfl
  have digit : c.isDigit = (decide ('0' ≤ c) && decide (c ≤ '9')) := rfl
  simp [isUsernameChar, lower, digit, or_assoc]

theorem usernameFlaw?_eq_none_iff {text : String} :
    usernameFlaw? text = none ↔ Username.Rules text := by
  unfold usernameFlaw?
  constructor
  · intro h
    split_ifs at h with few many plain
    refine ⟨by omega, by omega, fun c hc => ?_⟩
    exact isUsernameChar_iff.1 (List.all_eq_true.1 plain c hc)
  · rintro ⟨long, short, plain⟩
    rw [if_neg (by omega), if_neg (by omega), if_pos]
    exact List.all_eq_true.2 fun c hc => isUsernameChar_iff.2 (plain c hc)

theorem Username.rules (name : Username) : Rules name.text :=
  usernameFlaw?_eq_none_iff.1 name.flawless

def Bank.usernames (b : Bank) : List Username := b.owner.toList

def Registration.usernames (r : Registration) : List Username := [r.username]

def Snapshot.usernames (s : Snapshot) : List Username :=
  s.registration.usernames ++ s.bank.usernames

namespace Codec

variable {ρ : Type} {codec : Codec ρ}

/-! ## Records that are kept -/

/-- Records come back from a store as they were written, or not at all. -/
structure Keeps (codec : Codec ρ) (fits : ρ → Prop) (usernames : ρ → List Username) : Prop where
  /-- A record comes back from its bytes, whatever follows them. -/
  back : ∀ {r : ρ}, fits r → ∀ {b : Backend} {key : String} {rest : Bytes},
    b.Gives key (codec.write r ++ rest) → (codec.lookUp key).runOn b = (.ok (some r), b)
  /-- A record that has been cut short is corrupt. -/
  cut : ∀ {r : ρ}, fits r → ∀ {b : Backend} {key : String} {front : Bytes},
    front <+: codec.write r → front ≠ codec.write r → b.Gives key front →
    ∃ defect, (codec.lookUp key).runOn b = (.error (.store (.corrupt key defect)), b)
  /-- What comes back was written so, and its usernames obey the rules. -/
  written : ∀ {r : ρ} {b b' : Backend} {key : String} {bytes : Bytes}, b.Gives key bytes →
    (codec.lookUp key).runOn b = (.ok (some r), b') →
    codec.write r <+: bytes ∧ ∀ name ∈ usernames r, Username.Rules name.text

theorem parse_eq_ok_iff {key : String} {bytes : Bytes} {r : ρ} :
    Table.parse codec key bytes = .ok r ↔ ∃ rest, codec.read bytes = .ok (r, rest) := by
  unfold Table.parse decode
  cases codec.read bytes with
  | ok found =>
    obtain ⟨r', rest⟩ := found
    simp [Except.map]
  | error defect => simp [Except.map]

theorem parse_eq_error {key : String} {bytes : Bytes}
    (h : ∀ r, Table.parse codec key bytes ≠ .ok r) :
    ∃ defect, Table.parse codec key bytes = .error (.store (.corrupt key defect)) := by
  unfold Table.parse at h ⊢
  cases read : codec.decode bytes with
  | ok r => exact absurd (by rw [read]) (h r)
  | error defect => exact ⟨defect, rfl⟩

/-- Nothing is read from the bytes of a value that have been cut short. -/
theorem Exact.read_cut {r s : ρ} {front rest : Bytes} (exact : codec.Exact) (reads : codec.Reads r)
    (part : front <+: codec.write r) (read : codec.read front = .ok (s, rest)) :
    front = codec.write r := by
  obtain ⟨more, whole⟩ := part
  obtain ⟨rfl, reads'⟩ := exact read
  -- Both values are read from the front of the whole bytes, so both readings end there.
  have once := reads []
  rw [← whole, List.append_nil, List.append_assoc, reads' (rest ++ more)] at once
  simp only [Except.ok.injEq, Prod.mk.injEq, List.append_eq_nil_iff] at once
  obtain ⟨rfl, rfl, rfl⟩ := once
  exact List.append_nil _

/-- A codec that reads only what it would have written keeps its records. -/
theorem Exact.keeps (exact : codec.Exact) {fits : ρ → Prop} (reads : ∀ r, fits r → codec.Reads r)
    (usernames : ρ → List Username) : codec.Keeps fits usernames where
  back {r} hfits {b key rest} found := by
    rw [lookUp_runOn found, parse_eq_ok_iff.2 ⟨rest, reads r hfits rest⟩]
    rfl
  cut {r} hfits {b key front} part proper found := by
    have nothing (s : ρ) : Table.parse codec key front ≠ .ok s := by
      intro parsed
      obtain ⟨rest, read⟩ := parse_eq_ok_iff.1 parsed
      exact proper (exact.read_cut (reads r hfits) part read)
    obtain ⟨defect, failed⟩ := parse_eq_error nothing
    exact ⟨defect, by rw [lookUp_runOn found, failed]; rfl⟩
  written {r b b' key bytes} found run := by
    rw [lookUp_runOn found, Prod.mk.injEq] at run
    cases parsed : Table.parse codec key bytes with
    | error f =>
      rw [parsed] at run
      cases run.1
    | ok r' =>
      rw [parsed] at run
      cases run.1
      obtain ⟨rest, read⟩ := parse_eq_ok_iff.1 parsed
      exact ⟨⟨rest, (exact read).1.symm⟩, fun name _ => name.rules⟩

/-! ## Names -/

theorem read_username {layout : Layout} {s : String} (fits : layout.Admits s.utf8ByteSize)
    (rest : Bytes) :
    (username layout).read ((text layout).write s ++ rest) =
      match Username.ofText s with
      | .ok name => .ok (name, rest)
      | .error flaw => .error (.notUsername ⟨s, flaw⟩) := by
  simp only [username, refine, reads_text fits rest, bind, Except.bind]
  cases Username.ofText s <;> rfl

/-- Where a username is due, a text is taken if it obeys the rules, and refused with the first flaw
otherwise. -/
theorem lookUp_username {s : String} (fits : Layout.stored.Admits s.utf8ByteSize) {b : Backend}
    {key : String} {rest : Bytes} (found : b.Gives key ((text .stored).write s ++ rest)) :
    (Username.Rules s → ∃ name, name.text = s ∧
        ((username .stored).lookUp key).runOn b = (.ok (some name), b)) ∧
      (¬Username.Rules s → ∃ flaw, usernameFlaw? s = some flaw ∧
        ((username .stored).lookUp key).runOn b =
          (.error (.store (.corrupt key (.notUsername ⟨s, flaw⟩))), b)) := by
  rw [lookUp_runOn found, Table.parse, decode, read_username fits, ← usernameFlaw?_eq_none_iff]
  constructor
  · intro flawless
    have taken : Username.ofText s = .ok ⟨s, flawless⟩ := Username.ofText_eq_ok_iff.2 rfl
    exact ⟨⟨s, flawless⟩, rfl, by rw [taken]; rfl⟩
  · intro flawed
    obtain ⟨flaw, hflaw⟩ := Option.ne_none_iff_exists'.1 flawed
    exact ⟨flaw, hflaw, by rw [Username.ofText_eq_error_iff.2 hflaw]; rfl⟩

/-- Every kind of stored record comes back as it was written, or not at all. The texts and lists in
it are shorter than two to the power of 64, as their length words have eight bytes. Where a username
is due, a text is taken if it obeys the rules, and refused with its first flaw otherwise. -/
theorem keeps_stored :
    (bank .stored).Keeps (fun _ => True) Bank.usernames ∧
      (queue .stored).Keeps (PendingQueue.Fits .stored) (fun _ => []) ∧
      usage.Keeps (fun _ => True) (fun _ => []) ∧ earnings.Keeps (fun _ => True) (fun _ => []) ∧
      (registration .stored).Keeps (Registration.Fits .stored) Registration.usernames ∧
      (snapshot .stored).Keeps (Snapshot.Fits .stored) Snapshot.usernames ∧
      (roster .stored).Keeps (fun _ => True) Roster.names ∧
      ∀ {s : String}, Layout.stored.Admits s.utf8ByteSize → ∀ {b : Backend} {key : String}
        {rest : Bytes}, b.Gives key ((text .stored).write s ++ rest) →
        (Username.Rules s → ∃ name, name.text = s ∧
          ((username .stored).lookUp key).runOn b = (.ok (some name), b)) ∧
        (¬Username.Rules s → ∃ flaw, usernameFlaw? s = some flaw ∧
          ((username .stored).lookUp key).runOn b =
            (.error (.store (.corrupt key (.notUsername ⟨s, flaw⟩))), b)) := by
  refine ⟨?_, ?_, ?_, ?_, ?_, ?_, ?_, fun fits _ _ _ found => lookUp_username fits found⟩
  · exact (exact_bank .stored).keeps (fun b _ => reads_bank b.address.fits_stored) _
  · exact (exact_queue .stored).keeps (fun _ fits => reads_queue fits) _
  · exact exact_usage.keeps (fun u _ => reads_usage u) _
  · exact exact_earnings.keeps (fun e _ => reads_earnings e) _
  · exact (exact_registration .stored).keeps (fun _ fits => reads_registration fits) _
  · exact (exact_snapshot .stored).keeps (fun _ fits => reads_snapshot fits) _
  · exact (exact_roster .stored).keeps (fun r _ => reads_roster r) _

/-- The bank of an account is found again with a byte behind it, and is corrupt without its last
byte, which belongs to the username. -/
theorem keeps_stored_bank :
    let bob : Bank := ⟨⟨"x", by decide⟩, .zero, .zero, some ⟨"bob", by decide⟩⟩
    let bytes := (bank .stored).write bob
    let kept (found : Bytes) : Backend := ⟨.insert .empty (Text.utf8 "bank/x") found, [], []⟩
    ((bank .stored).lookUp "bank/x").runOn (kept (bytes ++ [7])) =
        (.ok (some bob), kept (bytes ++ [7])) ∧
      ∃ defect, ((bank .stored).lookUp "bank/x").runOn (kept bytes.dropLast) =
        (.error (.store (.corrupt "bank/x" defect)), kept bytes.dropLast) := by
  intro bob bytes kept
  have gives (found : Bytes) : (kept found).Gives "bank/x" found := by
    simp [Backend.Gives, Backend.get, Backend.fault?, kept, Contents.get?_insert]
  have proper : bytes.dropLast ≠ bytes := by decide +kernel
  exact ⟨keeps_stored.1.back trivial (gives _),
    keeps_stored.1.cut trivial (List.dropLast_prefix _) proper (gives _)⟩

end Codec

end StakeLedger

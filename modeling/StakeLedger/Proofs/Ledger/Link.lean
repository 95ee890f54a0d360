import StakeLedger.Proofs.Identity.KeyText
import StakeLedger.Proofs.Ledger.Holdings

/-!
# Accounts and their addresses

An account and the address of its key belong to each other. The registration of the account leads to
the address, the bank of the address carries the account, and once made, neither half of the link is
ever taken away.
-/

namespace StakeLedger

open Table

/-! ## What is kept for an account -/

/-- The bank of an address belongs to an account. -/
def Owned (c : Contents) (a : Address) (u : Username) : Prop :=
  ∃ bank, banks.peek c a = .ok (some bank) ∧ bank.owner = some u

/-- What is kept for an account: none of its records, or all of them. Then its registration is under
its own name and leads to the address of the registered key, which belongs to it. -/
inductive Enrolled (c : Contents) (u : Username) : Option Registration → Prop
  | nobody (hregistration : registrations.peek c u = .ok none)
    (husage : usages.peek c u = .ok none) (hearnings : earnings.peek c u = .ok none) :
    Enrolled c u none
  | account {r : Registration} {key : PublicKey}
    (hregistration : registrations.peek c u = .ok (some r)) (husage : usages.peek c u ≠ .ok none)
    (hearnings : earnings.peek c u ≠ .ok none) (username : r.username = u)
    (hkey : PublicKey.ofHex r.publicKey = .ok key) (address : key.address = r.address)
    (owned : Owned c r.address u) : Enrolled c u (some r)

/-- Each account has all its records or none, and each bank that belongs to an account is the one
that the account leads to. -/
structure Linked (c : Contents) : Prop where
  enrolled : ∀ u, ∃ kept, Enrolled c u kept
  known : ∀ a u, Owned c a u → ∃ r, registrations.peek c u = .ok (some r) ∧ r.address = a

/-- On the way from one contents to others no registration changes, and no bank loses the account
that it belongs to. -/
structure Lasting (c d : Contents) : Prop where
  registration : ∀ u bytes, c.get? (registrations.key u) = some bytes →
    d.get? (registrations.key u) = some bytes
  owned : ∀ a u, Owned c a u → Owned d a u

theorem linked_empty : Linked .empty where
  enrolled _ := ⟨none, .nobody rfl rfl rfl⟩
  known := nofun

theorem Lasting.refl (c : Contents) : Lasting c c := ⟨fun _ _ h => h, fun _ _ h => h⟩

theorem Lasting.trans {c d e : Contents} (first : Lasting c d) (second : Lasting d e) :
    Lasting c e where
  registration u bytes h := second.registration u bytes (first.registration u bytes h)
  owned a u h := second.owned a u (first.owned a u h)

/-- A bank belongs to one account at most. -/
theorem Owned.unique {c : Contents} {a : Address} {u v : Username} (hu : Owned c a u)
    (hv : Owned c a v) : u = v := by
  obtain ⟨bank, hbank, owner⟩ := hu
  obtain ⟨bank', hbank', owner'⟩ := hv
  rw [hbank] at hbank'
  cases hbank'
  rw [owner] at owner'
  exact Option.some.inj owner'

/-! ## Ownership and changes -/

section

variable {c d : Contents} {a : Address} {u : Username}

theorem owned_congr (same : banks.peek d a = banks.peek c a) : Owned d a u ↔ Owned c a u := by
  rw [Owned, same, Owned]

/-- What counts for an address belongs to the account that the kept bank belongs to. -/
theorem Kept.owned_iff {window : Seconds} {kept : Option Holding} (k : Kept window c a kept)
    (now : Seconds) (u : Username) :
    Owned c a u ↔ (heldAt a now kept).bank.owner = some u := by
  rw [Owned, k.peek_eq.1]
  cases kept <;> simp [heldAt, Bank.empty]

/-- A holding that takes the place of the kept one without changing the owner leaves all banks to
whom they belonged. -/
theorem owned_putHolding {h : Holding} (address : h.bank.address = a)
    (owner : ∀ u, Owned c a u ↔ h.bank.owner = some u) (b : Address) (u : Username) :
    Owned (putHolding c a h) b u ↔ Owned c b u := by
  subst address
  by_cases same : b = h.bank.address
  · subst same
    rw [owner, Owned]
    simp [putHolding]
  · exact owned_congr (by simp [putHolding, same])

/-- What is kept for an account stays where its registration does, it loses no bank, and it gains
and loses no other record. -/
theorem Enrolled.frame {kept : Option Registration} (enrolled : Enrolled c u kept)
    (registration : registrations.peek d u = registrations.peek c u)
    (usage : usages.peek d u = .ok none ↔ usages.peek c u = .ok none)
    (earned : earnings.peek d u = .ok none ↔ earnings.peek c u = .ok none)
    (owned : ∀ a, Owned c a u → Owned d a u) : Enrolled d u kept := by
  cases enrolled with
  | nobody hregistration husage hearnings =>
    exact .nobody (registration.trans hregistration) (usage.2 husage) (earned.2 hearnings)
  | account hregistration husage hearnings username hkey address own =>
    exact .account (registration.trans hregistration) (mt usage.1 husage) (mt earned.1 hearnings)
      username hkey address (owned _ own)

/-- Nothing changes for the links where no registration does and no bank changes hands, as long as
no account gains or loses a record. -/
theorem Linked.frame (linked : Linked c)
    (registration : ∀ u, d.get? (registrations.key u) = c.get? (registrations.key u))
    (usage : ∀ u, usages.peek d u = .ok none ↔ usages.peek c u = .ok none)
    (earned : ∀ u, earnings.peek d u = .ok none ↔ earnings.peek c u = .ok none)
    (owned : ∀ a u, Owned d a u ↔ Owned c a u) : Linked d ∧ Lasting c d := by
  have peek (u : Username) : registrations.peek d u = registrations.peek c u := by
    simp only [Table.peek, registration]
  refine ⟨⟨fun u => ?_, fun a u h => ?_⟩, ⟨fun u bytes h => ?_, fun a u => (owned a u).2⟩⟩
  · obtain ⟨kept, enrolled⟩ := linked.enrolled u
    exact ⟨kept, enrolled.frame (peek u) (usage u) (earned u) fun a => (owned a u).2⟩
  · rw [peek]
    exact linked.known a u ((owned a u).1 h)
  · rw [registration, h]

/-- A holding that takes the place of the kept one without changing the owner leaves the links. -/
theorem Linked.putHolding (linked : Linked c) {h : Holding} (address : h.bank.address = a)
    (owner : ∀ u, Owned c a u ↔ h.bank.owner = some u) :
    Linked (putHolding c a h) ∧ Lasting c (putHolding c a h) :=
  linked.frame (fun u => by simp [Table.putHolding]) (fun u => by simp [Table.putHolding])
    (fun u => by simp [Table.putHolding]) (owned_putHolding address owner)

/-! ## New accounts -/

/-- A bank that takes the place of one without an owner: the others keep theirs. -/
theorem owned_putAccount {key : PublicKey} {bank : Bank}
    (hbank : banks.peek c key.address = .ok (some bank)) (address : bank.address = key.address)
    (howner : bank.owner = none) (u : Username) (now : Seconds) (a : Address) (v : Username) :
    Owned (putAccount c u key bank now) a v ↔ a = key.address ∧ v = u ∨ Owned c a v := by
  by_cases same : a = key.address
  · subst same
    have free : ¬Owned c key.address v := by
      rintro ⟨bank', hbank', owner⟩
      rw [hbank] at hbank'
      cases hbank'
      rw [howner] at owner
      cases owner
    rw [Owned]
    simp [putAccount, address, free, eq_comm]
  · rw [owned_congr (c := c) (by simp [putAccount, address, same])]
    simp [same]

/-- A new account is linked to the address of its key, and the others stay linked to theirs. -/
theorem Linked.putAccount {key : PublicKey} {bank : Bank} {now : Seconds} (linked : Linked c)
    (hnew : registrations.peek c u = .ok none)
    (hbank : banks.peek c key.address = .ok (some bank)) (address : bank.address = key.address)
    (howner : bank.owner = none) :
    Linked (putAccount c u key bank now) ∧ Lasting c (putAccount c u key bank now) := by
  have owned := owned_putAccount hbank address howner u now
  have reads : registrations.codec.Reads ⟨u, now, key.address, key.toHex⟩ := by
    have size := key.utf8ByteSize_toHex_le
    exact Codec.reads_registration
      ⟨key.address.fits_stored, Layout.admits_stored_iff.2 (by dsimp only; omega)⟩
  have own : registrations.peek (Table.putAccount c u key bank now) u =
      .ok (some ⟨u, now, key.address, key.toHex⟩) := by
    simp [Table.putAccount, peek_put_self reads]
  have others {v : Username} (h : v ≠ u) :
      (Table.putAccount c u key bank now).get? (registrations.key v) =
        c.get? (registrations.key v) := by
    simp [Table.putAccount, h]
  refine ⟨⟨fun v => ?_, fun a v h => ?_⟩,
    ⟨fun v bytes h => ?_, fun a v h => (owned a v).2 (.inr h)⟩⟩
  · by_cases same : v = u
    · subst same
      refine ⟨_, .account own ?_ ?_ rfl key.ofHex_toHex rfl ((owned _ _).2 (.inl ⟨rfl, rfl⟩))⟩
      · simp [Table.putAccount]
      · simp [Table.putAccount]
    · obtain ⟨kept, enrolled⟩ := linked.enrolled v
      refine ⟨kept, enrolled.frame ?_ ?_ ?_ fun a h => (owned a v).2 (.inr h)⟩
      · simp only [Table.peek, others same]
      · simp [Table.putAccount, same]
      · simp [Table.putAccount, same]
  · rcases (owned a v).1 h with ⟨rfl, rfl⟩ | before
    · exact ⟨_, own, rfl⟩
    · obtain ⟨r, hr, leads⟩ := linked.known a v before
      have other : v ≠ u := by
        rintro rfl
        rw [hnew] at hr
        cases hr
      refine ⟨r, ?_, leads⟩
      rw [← hr]
      simp only [Table.peek, others other]
  · have other : v ≠ u := by
      rintro rfl
      rw [peek_eq_none_iff.1 hnew] at h
      cases h
    rw [others other, h]

end

/-! ## What every change preserves -/

/-- Every change keeps accounts and addresses linked, and the links last. -/
theorem Step.linked {l : Ledger} {now : Seconds} {move : Move} {c d : Contents}
    (h : Step l now move c d) (vested : Vested l.vesting.window c) (linked : Linked c) :
    Linked d ∧ Lasting c d := by
  cases move with
  | credit a x =>
    obtain ⟨kept, k⟩ := vested a
    obtain ⟨h', credited, -, rfl⟩ := h.credit_kept k
    have owner (u : Username) : Owned c a u ↔ h'.bank.owner = some u := by
      rw [credited.owner_eq, k.owned_iff now]
    exact linked.putHolding (k.address_credited credited) owner
  | debit a x =>
    obtain ⟨kept, k⟩ := vested a
    obtain ⟨held, h', rfl, debited, -, rfl⟩ := h.debit_kept k
    have owner (u : Username) : Owned c a u ↔ h'.bank.owner = some u := by
      rw [debited.owner_eq, k.owned_iff now]
      rfl
    exact linked.putHolding (k.address_debited debited) owner
  | enrol u key =>
    cases h with
    | enrol hnew hbank howner hfee =>
      obtain ⟨kept, k⟩ := vested key.address
      obtain ⟨queue, -, address, -⟩ := k.of_bank hbank
      exact linked.putAccount hnew hbank address howner
  | meter u usage =>
    cases h with
    | meter husage =>
      exact linked.frame (fun v => by simp) (peek_put_eq_none_iff (by simp [husage]))
        (fun v => by simp) fun a v => owned_congr (by simp)
  | earn u e e' =>
    cases h with
    | earn hearnings =>
      exact linked.frame (fun v => by simp) (fun v => by simp)
        (peek_put_eq_none_iff (by simp [hearnings])) fun a v => owned_congr (by simp)
  | followers u r =>
    cases h
    exact linked.frame (fun v => by simp) (fun v => by simp) (fun v => by simp)
      fun a v => owned_congr (by simp)
  | following u r =>
    cases h
    exact linked.frame (fun v => by simp) (fun v => by simp) (fun v => by simp)
      fun a v => owned_congr (by simp)

namespace Ledger

/-- On the way through any run, accounts and addresses stay linked, and the links last. -/
theorem run_lasting {l : Ledger} {b : Backend} (reliable : b.Reliable)
    (vested : Vested l.vesting.window b.contents) (linked : Linked b.contents)
    (requests : List Request) :
    Linked (l.run b requests).2.contents ∧
      Lasting b.contents (l.run b requests).2.contents := by
  refine (run_preserves
    (I := fun c => Vested l.vesting.window c ∧ Linked c ∧ Lasting b.contents c)
    (fun step ⟨vested, linked, lasting⟩ => ?_) reliable ⟨vested, linked, .refl _⟩ requests).1.2
  obtain ⟨still, further⟩ := step.linked vested linked
  exact ⟨(step.vested vested).1, still, lasting.trans further⟩

/-- After any run from an empty store, an account has all of registration, usage and earnings or
none of them. Its registration carries its name and leads to the address of the registered key,
whose bank belongs to the account; a bank belongs to an account only if that account leads to it,
and no two accounts lead to one address. Whatever comes after, the bytes of the registration and the
owner of the bank stay. -/
theorem run_linked (l : Ledger) (requests more : List Request) (u v : Username) (a : Address) :
    let c := (l.run .empty requests).2.contents
    let d := (l.run .empty (requests ++ more)).2.contents
    (c.get? (registrations.key u) = none ↔ c.get? (usages.key u) = none) ∧
      (c.get? (registrations.key u) = none ↔ c.get? (Table.earnings.key u) = none) ∧
      (c.get? (registrations.key u) ≠ none →
        ∃ r key bank, registrations.peek c u = .ok (some r) ∧ r.username = u ∧
          banks.peek c r.address = .ok (some bank) ∧ bank.owner = some u ∧
          PublicKey.ofHex r.publicKey = .ok key ∧ key.address = r.address) ∧
      (∀ bank, banks.peek c a = .ok (some bank) → bank.owner = some u →
        ∃ r, registrations.peek c u = .ok (some r) ∧ r.address = a) ∧
      (∀ r s, registrations.peek c u = .ok (some r) → registrations.peek c v = .ok (some s) →
        r.address = s.address → u = v) ∧
      (∀ bytes, c.get? (registrations.key u) = some bytes →
        d.get? (registrations.key u) = some bytes) ∧
      ∀ bank, banks.peek c a = .ok (some bank) → bank.owner = some u →
        ∃ later, banks.peek d a = .ok (some later) ∧ later.owner = some u := by
  intro c d
  have start := vested_empty l.vesting.window
  have vested := (run_onward Backend.reliable_empty start requests).1
  have linked := (run_lasting Backend.reliable_empty start linked_empty requests).1
  have reliable := (run_preserves (l := l) (I := fun _ => True) (fun _ _ => trivial)
    Backend.reliable_empty trivial requests).2
  have lasting := (run_lasting reliable vested linked more).2
  rw [← run_append] at lasting
  have owns {u : Username} {r : Registration} (hr : registrations.peek c u = .ok (some r)) :
      Owned c r.address u := by
    obtain ⟨kept, enrolled⟩ := linked.enrolled u
    cases enrolled with
    | nobody hregistration => exact absurd (hregistration.symm.trans hr) nofun
    | account hregistration _ _ _ _ _ owned =>
      cases hregistration.symm.trans hr
      exact owned
  simp only [← peek_eq_none_iff]
  refine ⟨?_, ?_, fun present => ?_, fun bank hbank owner => linked.known a u ⟨bank, hbank, owner⟩,
    fun r s hr hs same => (owns hr).unique (same ▸ owns hs), lasting.registration u,
    fun bank hbank owner => lasting.owned a u ⟨bank, hbank, owner⟩⟩
  all_goals obtain ⟨kept, enrolled⟩ := linked.enrolled u
  · cases enrolled with
    | nobody hregistration husage => simp [c, hregistration, husage]
    | account hregistration husage => simp [c, hregistration, husage]
  · cases enrolled with
    | nobody hregistration _ hearnings => simp [c, hregistration, hearnings]
    | account hregistration _ hearnings => simp [c, hregistration, hearnings]
  · cases enrolled with
    | nobody hregistration => exact absurd (peek_eq_none_iff.1 hregistration) present
    | account hregistration _ _ username hkey address owned =>
      obtain ⟨bank, hbank, owner⟩ := owned
      exact ⟨_, _, bank, hregistration, username, hbank, owner, hkey, address⟩

end Ledger

end StakeLedger

import StakeLedger.Proofs.Ledger.Buffered
import StakeLedger.Proofs.Ledger.Complete

/-!
# How messages can be refused

In complete records a message is refused because an account that it acts on does not exist, because
the address of a new key has never received coin, for want of capacity, or for what is wrong with
the numbers and texts in it. The store is never the reason, and no record of an account that exists
is ever missing.

## Main definitions

* `Message.actors` — the accounts that a message acts on.
* `Script.FailsBy` — a script on certain contents fails in allowed ways only.
* `Message.Excuse` — the ways in which a message can be refused.
* `Pays`, `Ledger.Received` — the addresses that an accepted request, or a run, brings coin to.

## Main statements

* `Message.failsBy_excuse` — a message is refused in these ways only.
* `Ledger.snapshot_runPlain` — all records of an account that exists can be read.
* `Ledger.run_answers` — what messages and questions are answered after every run.
-/

namespace StakeLedger

open Table

/-! ## Scripts that fail in allowed ways -/

namespace Script

variable {α β : Type} {P : Failure → Prop} {c : Contents}

/-- On these contents the script fails in allowed ways only. -/
def FailsBy (P : Failure → Prop) (script : Script α) (c : Contents) : Prop :=
  ∀ f d, script.runPlain c = (.error f, d) → P f

theorem FailsBy.bind {script : Script α} {next : α → Script β} (first : script.FailsBy P c)
    (rest : ∀ a d, script.runPlain c = (.ok a, d) → (next a).FailsBy P d) :
    (script >>= next).FailsBy P c := by
  intro f d run
  rcases bind_runPlain_eq_error.1 run with failed | ⟨a, mid, passed, failed⟩
  · exact first f d failed
  · exact rest a mid passed f d failed

theorem FailsBy.answer {script : Script α} (h : script.FailsBy P c) (form : α → β) :
    (script >>= fun a => pure (form a)).FailsBy P c :=
  fun f d run => h f d (answer_runPlain_eq_error.1 run)

theorem FailsBy.fail {f : Failure} (allowed : P f) : (fail f : Script α).FailsBy P c := by
  rintro _ _ ⟨⟩
  exact allowed

theorem FailsBy.ofExcept {answer : Except Failure α} (h : ∀ f, answer = .error f → P f) :
    (Script.ofExcept answer).FailsBy P c := by
  intro f d run
  rw [ofExcept_runPlain, Prod.mk.injEq] at run
  exact h f run.1

theorem failsBy_pure (a : α) : (pure a : Script α).FailsBy P c := by
  rintro _ _ ⟨⟩

theorem failsBy_save {ν ρ : Type} (t : Table ν ρ) (name : ν) (record : ρ) :
    (t.save name record).FailsBy P c := by
  rintro _ _ ⟨⟩

theorem FailsBy.load {ν ρ : Type} {t : Table ν ρ} {name : ν} {found : Option ρ}
    (h : t.peek c name = .ok found) : (t.load name).FailsBy P c := by
  intro f d run
  rw [load_runPlain, h] at run
  cases run

theorem FailsBy.require {ν ρ : Type} {t : Table ν ρ} {during : Activity} {name : ν}
    {found : Option ρ} (h : t.peek c name = .ok found)
    (missing : found = none → P (.recordNotFound during t.noun (t.nameText name))) :
    (t.require during name).FailsBy P c := by
  cases found with
  | none =>
    refine (FailsBy.load h).bind fun a d run => ?_
    rw [load_runPlain, h] at run
    cases run
    exact .fail (missing rfl)
  | some record =>
    intro f d run
    rw [require_runPlain h] at run
    cases run

end Script

/-! ## Why messages are refused -/

namespace Message

/-- The accounts that a message acts on. -/
def actors : Message → List Username
  | deposit .. => []
  | depositToAccount u _ | withdraw u _ | transfer u .. | checkCapacity u _ | accrueReward u ..
  | accrueFrictionIncome u _ | claimReward u | createAccount u _ | increaseSequence u => [u]
  | follow u v | unfollow u v => [u, v]

/-- The ways in which a message can be refused. -/
inductive Excuse (c : Contents) (m : Message) : Failure → Prop
  | plain {f : Failure} (h : f.Plain) : Excuse c m f
  | short (u : Username) (cost available : Coin) : Excuse c m (.capacityShort u cost available)
  | unregistered {u : Username} (acts : u ∈ m.actors) (unknown : registrations.peek c u = .ok none)
    (during : Activity) (record key : String) : Excuse c m (.recordNotFound during record key)
  | penniless {u : Username} {text : String} {key : PublicKey} (opens : m = .createAccount u text)
    (hkey : PublicKey.require text = .ok key) (nothing : banks.peek c key.address = .ok none) :
    Excuse c m (.bankNotFound key.address)

end Message

/-! ## Operations in complete records -/

section

variable {l : Ledger} {c : Contents} {P : Failure → Prop}
  (plain : ∀ {f : Failure}, f.Plain → P f)

include plain

theorem Kept.failsBy_withdrawFrom {window : Seconds} {a : Address} {held : Holding}
    (k : Kept window c a (some held)) (x : Coin) (now : Seconds) :
    (Ledger.withdrawFrom a x now).FailsBy P c := by
  intro f d run
  rw [Ledger.withdrawFrom_runPlain k.peek_eq.1 k.peek_eq.2] at run
  generalize hresult : (Vesting.withdraw held x now).result = result at run
  cases result with
  | ok h => cases run
  | error cause =>
    cases run
    exact plain (Failure.plain_of_amount (Vesting.withdraw_error hresult))

theorem Vested.failsBy_deposit {window : Seconds} (vested : Vested window c) (a : Address)
    (x : Coin)
    (now : Seconds) : (l.deposit a x now).FailsBy P c := by
  obtain ⟨kept, k⟩ := vested a
  intro f d run
  rw [Ledger.deposit_runPlain k.peek_eq.1 k.peek_eq.2] at run
  generalize hresult : (l.vesting.add _ x now).result = result at run
  cases result with
  | ok h => cases run
  | error cause =>
    cases run
    exact plain (Failure.plain_of_amount (Vesting.add_error hresult))

theorem Vested.failsBy_stakeAt {window : Seconds} (vested : Vested window c) (a : Address)
    (now : Seconds) : (l.stakeAt a now).FailsBy P c := by
  obtain ⟨kept, k⟩ := vested a
  intro f d run
  cases kept with
  | none =>
    rw [Ledger.stakeAt_runPlain_of_none k.peek_eq.1] at run
    cases run
  | some held =>
    rw [Ledger.stakeAt_runPlain k.peek_eq.1 k.peek_eq.2, Prod.mk.injEq] at run
    exact plain (Vesting.stakeAt_error run.1).plain

namespace Complete

variable (complete : Complete l c) {u : Username}
  (missing : registrations.peek c u = .ok none →
    ∀ during record key, P (.recordNotFound during record key))

section

include complete missing
omit plain

/-- The records of an account are missing only if there is no such account. -/
theorem failsBy_require (during : Activity) :
    (registrations.require during u).FailsBy P c ∧ (usages.require during u).FailsBy P c ∧
      (earnings.require during u).FailsBy P c := by
  cases complete.standing u with
  | nobody hregistration husage hearnings =>
    have absent := missing hregistration
    exact ⟨.require hregistration fun _ => absent _ _ _, .require husage fun _ => absent _ _ _,
      .require hearnings fun _ => absent _ _ _⟩
  | account hregistration husage hearnings =>
    exact ⟨.require hregistration nofun, .require husage nofun, .require hearnings nofun⟩

theorem failsBy_addressOf (during : Activity) : (addressOf during u).FailsBy P c :=
  (complete.failsBy_require missing during).1.answer _

end

theorem failsBy_resolve (complete : Complete l c) (sender : Username) (receiver : Receiver) :
    (Ledger.resolve sender receiver).FailsBy P c := by
  obtain ⟨account, address⟩ := receiver
  cases account with
  | none =>
    cases address with
    | some a => exact Script.failsBy_pure a
    | none => exact .fail (plain trivial)
  | some v =>
    have found : (registrations.load v).FailsBy P c := by
      cases complete.standing v with
      | nobody hregistration => exact .load hregistration
      | account hregistration => exact .load hregistration
    refine found.bind fun registered d run => ?_
    cases registered with
    | some r => exact Script.failsBy_pure _
    | none =>
      cases address with
      | some a => exact Script.failsBy_pure a
      | none => exact .fail (plain trivial)

theorem failsBy_register (complete : Complete l c) {key : PublicKey}
    (penniless : banks.peek c key.address = .ok none → P (.bankNotFound key.address))
    (now : Seconds) : (l.register u key now).FailsBy P c := by
  have known : (Ledger.isRegistered u).FailsBy P c := by
    cases complete.standing u with
    | nobody hregistration => exact (Script.FailsBy.load hregistration).answer _
    | account hregistration => exact (Script.FailsBy.load hregistration).answer _
  refine known.bind fun registered d run => ?_
  obtain rfl := (Ledger.obeys_isRegistered u).eq_of_runPlain run
  split
  · exact .fail (plain trivial)
  · obtain ⟨kept, k⟩ := complete.vested key.address
    refine (Script.FailsBy.load k.peek_eq.1).bind fun bank d run => ?_
    rw [load_runPlain, Prod.mk.injEq] at run
    obtain ⟨hbank, rfl⟩ := run
    split
    · exact .fail (penniless hbank)
    · split
      · exact .fail (plain trivial)
      · split
        · exact .fail (plain trivial)
        · rintro f d ⟨⟩

include complete missing

theorem failsBy_stakeOf (now : Seconds) : (l.stakeOf u now).FailsBy P c := by
  apply (complete.failsBy_addressOf missing _).bind
  intro a d run
  obtain ⟨r, hr, rfl, rfl⟩ := addressOf_runPlain_eq_ok.1 run
  exact complete.vested.failsBy_stakeAt plain _ _

theorem failsBy_charge (short : ∀ cost available, P (.capacityShort u cost available))
    (ratio : Ratio)
    (now : Seconds) : (l.charge u ratio now).FailsBy P c := by
  apply (complete.failsBy_require missing _).2.1.bind
  intro usage d run
  obtain ⟨husage, rfl⟩ := require_runPlain_eq_ok.1 run
  apply (complete.failsBy_stakeOf plain missing now).bind
  intro ceiling d run
  obtain rfl := (l.obeys_stakeOf u now).eq_of_runPlain run
  generalize hcharge : l.throttle.charge u usage ceiling ratio now = charged
  obtain ⟨usage', answer⟩ := charged
  dsimp only
  refine (Script.failsBy_save usages u usage').bind fun saved d run => ?_
  apply Script.FailsBy.ofExcept
  rintro f rfl
  rcases Throttle.charge_error hcharge with h | ⟨cost, available, rfl, -⟩
  · exact plain h
  · exact short cost available

theorem failsBy_nextSequence : (Ledger.nextSequence u).FailsBy P c := by
  apply (complete.failsBy_require missing _).2.1.bind
  intro usage d run
  split
  · exact .fail (plain trivial)
  · exact (Script.failsBy_save _ _ _).answer _

theorem failsBy_accrue (income reward : Coin) : (Ledger.accrue u income reward).FailsBy P c := by
  apply (complete.failsBy_require missing _).2.2.bind
  intro e d run
  apply (Script.FailsBy.ofExcept fun f h => plain (Earnings.accrue_error h).plain).bind
  intro e' d' run
  exact Script.failsBy_save _ _ _

theorem failsBy_accrueFriction (amount : Coin) : (Ledger.accrueFriction u amount).FailsBy P c := by
  apply (complete.failsBy_require missing _).2.2.bind
  intro e d run
  apply (Script.FailsBy.ofExcept fun f h => plain (Earnings.accrueFriction_error h).plain).bind
  intro e' d' run
  exact Script.failsBy_save _ _ _

theorem failsBy_claim (now : Seconds) : (l.claim u now).FailsBy P c := by
  apply (complete.failsBy_require missing _).2.2.bind
  intro e d run
  obtain ⟨hearnings, rfl⟩ := require_runPlain_eq_ok.1 run
  apply (complete.failsBy_addressOf missing _).bind
  intro a d run
  obtain ⟨r, hr, rfl, rfl⟩ := addressOf_runPlain_eq_ok.1 run
  split
  · exact Script.failsBy_pure _
  · apply (complete.vested.failsBy_deposit plain _ _ _).bind
    intro received d run
    exact (Script.failsBy_save _ _ _).answer _

theorem failsBy_withdraw (x : Coin) (now : Seconds) : (Ledger.withdraw u x now).FailsBy P c := by
  apply (complete.failsBy_addressOf missing _).bind
  intro a d run
  obtain ⟨r, hr, rfl, rfl⟩ := addressOf_runPlain_eq_ok.1 run
  obtain ⟨held, k⟩ := complete.exists_kept hr
  exact k.failsBy_withdrawFrom plain x now

theorem failsBy_depositTo (x : Coin) (now : Seconds) : (l.depositTo u x now).FailsBy P c := by
  apply (complete.failsBy_addressOf missing _).bind
  intro a d run
  obtain ⟨r, hr, rfl, rfl⟩ := addressOf_runPlain_eq_ok.1 run
  exact complete.vested.failsBy_deposit plain _ _ _

/-- Who receives a transfer need not exist: that is no missing record. -/
theorem failsBy_transfer (receiver : Receiver) (x : Coin) (now : Seconds) :
    (l.transfer u receiver x now).FailsBy P c := by
  apply (complete.failsBy_addressOf missing _).bind
  intro a d run
  obtain ⟨r, hr, rfl, rfl⟩ := addressOf_runPlain_eq_ok.1 run
  apply (complete.failsBy_resolve plain u receiver).bind
  intro target d run
  obtain ⟨-, rfl⟩ := Ledger.resolve_eq_ok run
  obtain ⟨held, k⟩ := complete.exists_kept hr
  apply (k.failsBy_withdrawFrom plain x now).bind
  intro _ d paid
  have vested := ((Ledger.withdrawFrom_runPlain_eq_ok (l := l)).1 paid).vested complete.vested
  exact vested.1.failsBy_deposit plain _ _ _

theorem failsBy_editRosters {v : Username} (missing' : registrations.peek c v = .ok none →
      ∀ during record key, P (.recordNotFound during record key)) (during : Activity)
    (p q : Roster → Bool) {edit edit' : Roster → Except Failure Roster}
    (hedit : ∀ r f, edit r = .error f → f.Plain) (hedit' : ∀ r f, edit' r = .error f → f.Plain) :
    (Ledger.editRosters during u v p q edit edit').FailsBy P c := by
  apply (complete.failsBy_require missing _).1.bind
  intro r d run
  obtain ⟨hr, rfl⟩ := require_runPlain_eq_ok.1 run
  apply (complete.failsBy_require missing' _).1.bind
  intro s d run
  obtain ⟨hs, rfl⟩ := require_runPlain_eq_ok.1 run
  obtain ⟨theirs, htheirs⟩ := complete.legible.followers v
  obtain ⟨own, hown⟩ := complete.legible.following u
  refine ((Script.FailsBy.load htheirs).answer _).bind fun theirs d run => ?_
  obtain ⟨_, -, rfl, rfl⟩ := loadRoster_runPlain_eq_ok.1 run
  refine ((Script.FailsBy.load hown).answer _).bind fun own d run => ?_
  apply (Script.FailsBy.ofExcept fun f h => plain (hedit _ f h)).bind
  intro theirs' d run
  apply (Script.FailsBy.ofExcept fun f h => plain (hedit' _ f h)).bind
  -- What is left are updates, and those cannot fail.
  intro own' d run f d run
  generalize p _ = listed at run
  generalize q _ = known at run
  cases listed <;> cases known <;> cases run

end Complete

end

/-- In complete records a message is refused in these ways only. -/
theorem Message.failsBy_excuse {l : Ledger} {c : Contents} (complete : Complete l c) (m : Message)
    (now : Seconds) : (m.script l now).FailsBy (m.Excuse c) c := by
  have plain {f : Failure} (h : f.Plain) : m.Excuse c f := .plain h
  have missing {u : Username} (acts : u ∈ m.actors) (unknown : registrations.peek c u = .ok none)
      (during : Activity) (record key : String) :
      m.Excuse c (.recordNotFound during record key) := .unregistered acts unknown _ _ _
  cases m with
  | deposit a x => exact (complete.vested.failsBy_deposit plain a x now).answer _
  | depositToAccount u x =>
    exact (complete.failsBy_depositTo plain (missing (by simp [actors])) x now).answer _
  | withdraw u x =>
    exact (complete.failsBy_withdraw plain (missing (by simp [actors])) x now).answer _
  | transfer u receiver x memo =>
    exact (complete.failsBy_transfer plain (missing (by simp [actors])) receiver x now).answer _
  | follow u v =>
    rw [script, Ledger.follow_eq]
    exact (complete.failsBy_editRosters plain (missing (by simp [actors]))
      (missing (by simp [actors])) _ _ _ (fun _ _ h => (Roster.join_error h).plain)
      fun _ _ h => (Roster.join_error h).plain).answer _
  | unfollow u v =>
    rw [script, Ledger.unfollow_eq]
    exact (complete.failsBy_editRosters plain (missing (by simp [actors]))
      (missing (by simp [actors])) _ _ _ (by rintro _ _ ⟨⟩) (by rintro _ _ ⟨⟩)).answer _
  | checkCapacity u ratio =>
    exact (complete.failsBy_charge plain (missing (by simp [actors])) (.short u) ratio now).answer _
  | accrueReward u income reward =>
    exact (complete.failsBy_accrue plain (missing (by simp [actors])) income reward).answer _
  | accrueFrictionIncome u amount =>
    exact (complete.failsBy_accrueFriction plain (missing (by simp [actors])) amount).answer _
  | claimReward u =>
    exact (complete.failsBy_claim plain (missing (by simp [actors])) now).answer _
  | createAccount u text =>
    refine (Script.FailsBy.ofExcept fun f h => plain (PublicKey.require_error h).plain).bind
      fun key d run => ?_
    rw [Script.ofExcept_runPlain, Prod.mk.injEq] at run
    obtain ⟨hkey, rfl⟩ := run
    exact (complete.failsBy_register plain (.penniless rfl hkey) now).answer _
  | increaseSequence u =>
    exact (complete.failsBy_nextSequence plain (missing (by simp [actors]))).answer _

/-! ## What is delivered -/

namespace Ledger

/-- In complete records a message that is delivered is refused in these ways only. -/
theorem deliver_excuse {l : Ledger} {b : Backend} (reliable : b.Reliable)
    (complete : Complete l b.contents) {m : Message} {now : Seconds} {f : Failure}
    (refused : (l.deliver b m now).1 = .error f) : m.Excuse b.contents f := by
  unfold deliver at refused
  split at refused
  · rename_i unchecked
    cases refused
    exact .plain (m.check_plain unchecked)
  · rw [(Script.commitOn_eq_runPlain reliable _).1] at refused
    exact m.failsBy_excuse complete now f _ (Prod.ext refused rfl)

/-- All records of an account that exists can be read, and of one that does not none is. -/
theorem snapshot_runPlain {l : Ledger} {c : Contents} (complete : Complete l c) (u : Username) :
    (∃ s, (snapshot u).runPlain c = (.ok s, c)) ∧ (∃ r, registrations.peek c u = .ok (some r)) ∨
      (∃ f, (snapshot u).runPlain c = (.error f, c)) ∧ registrations.peek c u = .ok none := by
  cases complete.standing u with
  | nobody hregistration =>
    refine .inr ⟨⟨.recordNotFound "get info" "info" u.text, ?_⟩, hregistration⟩
    simp only [snapshot, registrationOf, require, Script.runPlain_bind, load_runPlain,
      hregistration]
    rfl
  | @account r usage e held hregistration husage hearnings kept =>
    refine .inl ⟨⟨⟨r, held.bank, held.queue, usage, e⟩, ?_⟩, r, hregistration⟩
    simp only [snapshot, registrationOf, bankAt, queueAt, usageOf, earningsOf,
      Script.runPlain_bind, require_runPlain hregistration, require_runPlain kept.peek_eq.1,
      require_runPlain kept.peek_eq.2, require_runPlain husage, require_runPlain hearnings]
    rfl

theorem digest_runPlain {u : Username} {answer : Except Failure Snapshot} {c : Contents}
    (h : (snapshot u).runPlain c = (answer, c)) :
    (digest u).runPlain c = (answer.map (Codec.snapshot .canonical).fingerprint, c) := by
  change (snapshot u >>= fun s => pure ((Codec.snapshot .canonical).fingerprint s)).runPlain c = _
  rw [Script.runPlain_bind, h]
  cases answer <;> rfl

end Ledger

/-! ## Addresses that have received coin -/

/-- The addresses that a request brings coin to if it is accepted, by the records before it. -/
inductive Pays (c : Contents) : Request → Address → Prop
  | deposit (a : Address) (x : Coin) (now : Seconds) : Pays c (.deliver (.deposit a x) now) a
  | depositToAccount {u : Username} {r : Registration}
    (hr : registrations.peek c u = .ok (some r)) (x : Coin) (now : Seconds) :
    Pays c (.deliver (.depositToAccount u x) now) r.address
  | transfer {receiver : Receiver} {target : Address} (htarget : Resolves c receiver target)
    (s : Username) (x : Coin) (memo : String) (now : Seconds) :
    Pays c (.deliver (.transfer s receiver x memo) now) target
  | claimReward {u : Username} {r : Registration} {e : Earnings}
    (hr : registrations.peek c u = .ok (some r))
    (hearnings : Table.earnings.peek c u = .ok (some e)) (some : e.unclaimed.units ≠ 0)
    (now : Seconds) : Pays c (.deliver (.claimReward u) now) r.address
  | start {g : Genesis} {a : FirstAccount} {key : PublicKey} (first : a ∈ g.accounts)
    (hkey : PublicKey.require a.publicKey = .ok key) : Pays c (.start g) key.address

/-- In the course of a run from an empty store, an accepted request has brought coin to the
address. -/
def Ledger.Received (l : Ledger) (requests : List Request) (a : Address) : Prop :=
  ∃ before r after, requests = before ++ r :: after ∧
    Pays (l.run .empty before).2.contents r a ∧
    (l.serve (l.run .empty before).2 r).1.isOk

/-- The address has a queue, so something has come in there. -/
def Endowed (c : Contents) (a : Address) : Prop := ∃ queue, queues.peek c a = .ok (some queue)

section

variable {l : Ledger} {now : Seconds} {c d : Contents} {a : Address}

theorem Onward.endowed (onward : Onward c d) (h : Endowed c a) : Endowed d a := by
  obtain ⟨queue, hqueue⟩ := h
  obtain ⟨later, hlater, -⟩ := onward a queue hqueue
  exact ⟨later, hlater⟩

theorem Vested.exists_bank {window : Seconds} (vested : Vested window c) (h : Endowed c a) :
    ∃ bank, banks.peek c a = .ok (some bank) := by
  obtain ⟨queue, hqueue⟩ := h
  obtain ⟨kept, k⟩ := vested a
  cases k with
  | nothing hbank hqueue' => exact absurd (hqueue.symm.trans hqueue') nofun
  | holding hbank => exact ⟨_, hbank⟩

theorem Step.endowed {x : Coin} (h : Step l now (.credit a x) c d)
    (vested : Vested l.vesting.window c) : Endowed d a := by
  obtain ⟨kept, k⟩ := vested a
  obtain ⟨held, credited, -, rfl⟩ := h.credit_kept k
  have k' := Kept.putHolding_self (c := c) (k.address_credited credited) credited.sound
  exact ⟨held.queue, k'.peek_eq.2⟩

theorem Resolves.unique {receiver : Receiver} {b : Address} (ha : Resolves c receiver a)
    (hb : Resolves c receiver b) : a = b := by
  cases ha with
  | account hr =>
    cases hb with
    | account hr' =>
      cases hr.symm.trans hr'
      rfl
    | fallback unknown => exact absurd (hr.symm.trans (unknown _ rfl)) nofun
  | fallback unknown =>
    cases hb with
    | account hr => exact absurd (hr.symm.trans (unknown _ rfl)) nofun
    | fallback unknown' => rfl

/-- Once a genesis is accepted, the addresses of all its keys have received coin. -/
theorem Genesis.Effect.endowed {accounts : List FirstAccount} (h : Effect l now accounts c d)
    (vested : Vested l.vesting.window c) {first : FirstAccount} (hfirst : first ∈ accounts)
    {key : PublicKey} (hkey : PublicKey.require first.publicKey = .ok key) :
    Endowed d key.address := by
  induction h with
  | none c => cases hfirst
  | account hkey' hcoin received opened later ih =>
    have paid := (received.vested vested).1
    have registered := opened.vested paid
    rcases List.mem_cons.1 hfirst with rfl | hfirst
    · cases hkey.symm.trans hkey'
      obtain ⟨moves, steps, -⟩ := later.steps
      have onward := registered.2.trans (steps.vested registered.1).2
      exact onward.endowed (received.endowed vested)
    · exact ih registered.1 hfirst

/-- An accepted request brings coin to the addresses that it pays. -/
theorem Served.endowed {r : Request} {answer : Except Failure Outcome} (h : Served l r c answer d)
    (accepted : answer.isOk) (vested : Vested l.vesting.window c) (pays : Pays c r a) :
    Endowed d a := by
  cases h with
  | refused r drops c => cases accepted
  | short husage => cases accepted
  | started h =>
    cases pays with
    | start first hkey => exact h.endowed vested first hkey
  | delivered check h =>
    cases pays with
    | deposit a x now =>
      cases h with
      | deposit received => exact received.endowed vested
    | depositToAccount hr x now =>
      cases h with
      | depositToAccount hr' received =>
        cases hr.symm.trans hr'
        exact received.endowed vested
    | transfer htarget s x memo now =>
      cases h with
      | transfer hr htarget' paid received =>
        cases htarget.unique htarget'
        exact received.endowed (paid.vested vested).1
    | claimReward hr hearnings some now =>
      cases h with
      | claimNothing hearnings' hr' zero =>
        cases hearnings.symm.trans hearnings'
        exact absurd zero some
      | claimReward hearnings' hr' received =>
        cases hr.symm.trans hr'
        obtain ⟨queue, hqueue⟩ := received.endowed vested
        exact ⟨queue, by simpa using hqueue⟩

end

namespace Ledger

/-- An address that has received coin in a run has a bank ever after. -/
theorem Received.exists_bank {l : Ledger} {requests : List Request} {a : Address}
    (received : l.Received requests a) :
    ∃ bank, banks.peek (l.run .empty requests).2.contents a = .ok (some bank) := by
  obtain ⟨before, r, after, rfl, pays, accepted⟩ := received
  have start := vested_empty l.vesting.window
  have vested := (run_onward Backend.reliable_empty start before).1
  have reliable := run_reliable (l := l) Backend.reliable_empty before
  obtain ⟨served, still⟩ := serve_served (l := l) reliable r
  obtain ⟨moves, steps, -⟩ := served.steps
  have endowed := served.endowed accepted vested pays
  obtain ⟨vested', onward⟩ := run_onward still (steps.vested vested).1 after
  rw [run_append]
  exact vested'.exists_bank (onward.endowed endowed)

/-- After any run from an empty store, a message that is delivered is never refused because of the
store. A record is not found only if an account that the message acts on is not registered, and a
bank only if the message is to open an account at an address that has never received coin. All
records of an account, and the digest of them, can be asked for exactly if it is registered. -/
theorem run_answers (l : Ledger) (requests : List Request) (m : Message) (now : Seconds)
    (u : Username) :
    let b := (l.run .empty requests).2
    (∀ during record key, (l.deliver b m now).1 = .error (.recordNotFound during record key) →
      ∃ v ∈ m.actors, ((isRegistered v).runOn b).1 = .ok false) ∧
    (∀ cause, (l.deliver b m now).1 ≠ .error (.store cause)) ∧
    (∀ a, (l.deliver b m now).1 = .error (.bankNotFound a) → ¬l.Received requests a ∧
      ∃ v text key, m = .createAccount v text ∧ PublicKey.require text = .ok key ∧
        key.address = a) ∧
    ((∃ s, ((snapshot u).runOn b).1 = .ok s) ↔ ((isRegistered u).runOn b).1 = .ok true) ∧
    ((∃ s, ((digest u).runOn b).1 = .ok s) ↔ ((isRegistered u).runOn b).1 = .ok true) := by
  intro b
  have complete : Complete l b.contents :=
    run_complete Backend.reliable_empty (complete_empty l) requests
  have reliable : b.Reliable := run_reliable Backend.reliable_empty requests
  have registered (v : Username) {found : Option Registration}
      (h : registrations.peek b.contents v = .ok found) :
      ((isRegistered v).runOn b).1 = .ok found.isSome := by
    rw [Script.runOn_of_looks reliable (obeys_isRegistered v), isRegistered, Script.runPlain_bind,
      load_runPlain, h]
    rfl
  refine ⟨fun during record key refused => ?_, fun cause refused => ?_, fun a refused => ?_, ?_⟩
  · cases deliver_excuse reliable complete refused with
    | plain h => cases h
    | unregistered acts unknown => exact ⟨_, acts, registered _ unknown⟩
  · cases deliver_excuse reliable complete refused with
    | plain h => cases h
  · cases deliver_excuse reliable complete refused with
    | plain h => cases h
    | penniless opens hkey nothing =>
      refine ⟨fun received => ?_, _, _, _, opens, hkey, rfl⟩
      obtain ⟨bank, hbank⟩ := received.exists_bank
      cases nothing.symm.trans hbank
  · have asked {α : Type} (question : Script α) :
        (question.runOn b).1 = (question.runPlain b.contents).1 := by
      rw [Script.runOn_eq_updates reliable]
    rcases snapshot_runPlain complete u with ⟨⟨s, run⟩, r, hr⟩ | ⟨⟨f, run⟩, hr⟩
    · rw [registered u hr, asked, asked, run, digest_runPlain run]
      simp [Except.map]
    · rw [registered u hr, asked, asked, run, digest_runPlain run]
      simp [Except.map]

end Ledger

end StakeLedger

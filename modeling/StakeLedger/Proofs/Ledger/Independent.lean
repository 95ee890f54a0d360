import StakeLedger.Proofs.Ledger.Answers
import StakeLedger.Proofs.Ledger.Direct
import StakeLedger.Proofs.Store.Footprint

/-!
# Independent messages

A message only reads and sets records of the accounts and addresses that it reaches: those that it
names, and the addresses that these accounts are registered to. So two messages that reach nothing
in common can be delivered in either order.
-/

namespace StakeLedger

open Table

/-! ## Regions -/

/-- Accounts and addresses, and with them the places of all their records. -/
structure Region where
  accounts : Username → Prop
  addresses : Address → Prop

namespace Region

def Holds (r : Region) : Place → Prop
  | .bank a | .queue a => r.addresses a
  | .usage u | .earnings u | .registration u | .followers u | .following u => r.accounts u

/-- The keys of the records in a region. -/
def Keys (r : Region) (key : Bytes) : Prop := ∃ p : Place, r.Holds p ∧ p.key = key

/-- The regions have no account and no address in common. -/
structure Apart (r s : Region) : Prop where
  accounts : ∀ u, r.accounts u → ¬s.accounts u
  addresses : ∀ a, r.addresses a → ¬s.addresses a

/-- Regions that are apart have no key in common. -/
theorem Apart.keys {r s : Region} (apart : r.Apart s) (key : Bytes) (inside : r.Keys key) :
    ¬s.Keys key := by
  rintro ⟨q, inside', same⟩
  obtain ⟨p, inside, rfl⟩ := inside
  obtain rfl := Place.key_injective same
  cases q with
  | bank a | queue a => exact apart.addresses a inside inside'
  | usage u | earnings u | registration u | followers u | following u =>
    exact apart.accounts u inside inside'

/-- The region has the account and, if it is registered, its address. -/
structure Covers (g : Region) (c : Contents) (u : Username) : Prop where
  account : g.accounts u
  home : ∀ r, registrations.peek c u = .ok (some r) → g.addresses r.address

end Region

/-! ## The scripts of a table -/

namespace Table

variable {ν ρ α : Type} {K : Bytes → Prop} {t : Table ν ρ} {name : ν} {c : Contents}

theorem within_load (inside : K (t.key name)) (c : Contents) : (t.load name).Within K c := by
  refine .read inside ?_
  cases c.get? (t.key name) with
  | none => exact .done none c
  | some bytes => exact .ofExcept _ c

theorem within_save (inside : K (t.key name)) (record : ρ) (c : Contents) :
    (t.save name record).Within K c :=
  .write inside (.done () _)

/-- What goes on after a record was looked up finds the same contents. -/
theorem within_load_bind (inside : K (t.key name)) {next : Option ρ → Script α}
    (rest : ∀ found, t.peek c name = .ok found → (next found).Within K c) :
    (t.load name >>= next).Within K c := by
  refine (within_load inside c).bind fun found d run => ?_
  rw [load_runPlain, Prod.mk.injEq] at run
  obtain ⟨hpeek, rfl⟩ := run
  exact rest found hpeek

theorem within_require_bind (inside : K (t.key name)) {during : Activity} {next : ρ → Script α}
    (rest : ∀ record, t.peek c name = .ok (some record) → (next record).Within K c) :
    (t.require during name >>= next).Within K c := by
  have found : (t.require during name).Within K c := by
    refine within_load_bind inside fun found _ => ?_
    cases found with
    | none => exact .fail _ c
    | some record => exact .pure record c
  refine found.bind fun record d run => ?_
  obtain ⟨hpeek, rfl⟩ := require_runPlain_eq_ok.1 run
  exact rest record hpeek

theorem within_loadRoster_bind {t : Table Username Roster} {u : Username} (inside : K (t.key u))
    {next : Roster → Script α} (rest : ∀ r, (next r).Within K c) :
    (t.loadRoster u >>= next).Within K c := by
  refine ((within_load inside c).answer _).bind fun r d run => ?_
  obtain ⟨-, -, -, rfl⟩ := loadRoster_runPlain_eq_ok.1 run
  exact rest r

end Table

/-! ## Operations -/

namespace Ledger

variable {l : Ledger} {c : Contents} {g : Region} {a : Address} {u v : Username}

theorem within_saveHolding {h : Holding} (inside : g.addresses a) (address : h.bank.address = a)
    (c : Contents) : (saveHolding a h).Within g.Keys c := by
  subst address
  refine (within_save ⟨.bank _, inside, rfl⟩ h.bank c).bind fun _ d _ => ?_
  exact within_save ⟨.queue _, inside, rfl⟩ h.queue d

/-- The bank is set under the address that it carries, and that is the one coin comes in at. -/
theorem within_deposit (vested : Vested l.vesting.window c) (inside : g.addresses a) (x : Coin)
    (now : Seconds) : (l.deposit a x now).Within g.Keys c := by
  obtain ⟨kept, k⟩ := vested a
  refine within_load_bind ⟨.bank a, inside, rfl⟩ fun bank hbank => ?_
  refine within_load_bind ⟨.queue a, inside, rfl⟩ fun queue hqueue => ?_
  cases k.peek_eq.1.symm.trans hbank
  cases k.peek_eq.2.symm.trans hqueue
  refine .ofExcept_bind fun h hadd => ?_
  rw [heldAt_eq] at hadd
  exact within_saveHolding inside (k.address_credited (k.credited hadd).1) c

theorem within_withdrawFrom (vested : Vested l.vesting.window c) (inside : g.addresses a) (x : Coin)
    (now : Seconds) : (withdrawFrom a x now).Within g.Keys c := by
  have found : (requireHolding "withdraw" a).Within g.Keys c := by
    refine within_require_bind ⟨.bank a, inside, rfl⟩ fun bank _ => ?_
    exact within_require_bind ⟨.queue a, inside, rfl⟩ fun queue _ => .pure _ c
  refine found.bind fun held d run => ?_
  obtain ⟨hbank, hqueue, rfl⟩ := requireHolding_runPlain_eq_ok.1 run
  obtain ⟨kept, k⟩ := vested a
  obtain rfl := k.eq_some hbank hqueue
  refine .ofExcept_bind fun h hwithdraw => ?_
  exact within_saveHolding inside (k.address_debited (k.debited hwithdraw).1) c

theorem within_stakeAt (inside : g.addresses a) (now : Seconds) (c : Contents) :
    (l.stakeAt a now).Within g.Keys c := by
  refine within_load_bind ⟨.bank a, inside, rfl⟩ fun bank _ => ?_
  cases bank with
  | none => exact .pure _ c
  | some bank =>
    refine within_load_bind ⟨.queue a, inside, rfl⟩ fun queue _ => ?_
    cases queue with
    | none => exact .pure _ c
    | some queue => exact .ofExcept _ c

section

variable (own : g.accounts u)
include own

theorem within_nextSequence (c : Contents) : (nextSequence u).Within g.Keys c := by
  refine within_require_bind ⟨.usage u, own, rfl⟩ fun usage _ => ?_
  split
  · exact .fail _ c
  · exact (within_save ⟨.usage u, own, rfl⟩ _ c).answer _

theorem within_accrue (income reward : Coin) (c : Contents) :
    (accrue u income reward).Within g.Keys c := by
  refine within_require_bind ⟨.earnings u, own, rfl⟩ fun e _ => ?_
  exact .ofExcept_bind fun e' _ => within_save ⟨.earnings u, own, rfl⟩ e' c

theorem within_accrueFriction (amount : Coin) (c : Contents) :
    (accrueFriction u amount).Within g.Keys c := by
  refine within_require_bind ⟨.earnings u, own, rfl⟩ fun e _ => ?_
  exact .ofExcept_bind fun e' _ => within_save ⟨.earnings u, own, rfl⟩ e' c

theorem within_editRosters (other : g.accounts v) (during : Activity) (p q : Roster → Bool)
    (edit edit' : Roster → Except Failure Roster) (c : Contents) :
    (editRosters during u v p q edit edit').Within g.Keys c := by
  refine within_require_bind ⟨.registration u, own, rfl⟩ fun r _ => ?_
  refine within_require_bind ⟨.registration v, other, rfl⟩ fun s _ => ?_
  refine within_loadRoster_bind ⟨.followers v, other, rfl⟩ fun theirs => ?_
  refine within_loadRoster_bind ⟨.following u, own, rfl⟩ fun known => ?_
  refine .ofExcept_bind fun theirs' _ => ?_
  refine .ofExcept_bind fun known' _ => ?_
  -- The follower's roster is edited whether or not that of the followed account was.
  have last (d : Contents) :
      (if q known then following.save u known' else pure ()).Within g.Keys d :=
    .ite (within_save ⟨.following u, own, rfl⟩ known' d) (.pure () d)
  apply Script.Within.ite
  · exact (within_save ⟨.followers v, other, rfl⟩ theirs' c).bind fun _ d _ => last d
  · exact last c

/-- The bank of a key is set under the address that it carries, and that is the one of the key. -/
theorem within_register (vested : Vested l.vesting.window c) {key : PublicKey}
    (inside : g.addresses key.address) (now : Seconds) :
    (l.register u key now).Within g.Keys c := by
  refine ((within_load ⟨.registration u, own, rfl⟩ c).answer _).bind fun known d run => ?_
  obtain rfl := (obeys_isRegistered u).eq_of_runPlain run
  split
  · exact .fail _ d
  refine within_load_bind ⟨.bank key.address, inside, rfl⟩ fun bank hbank => ?_
  cases bank with
  | none => exact .fail _ d
  | some bank =>
    dsimp only
    split
    · exact .fail _ d
    split
    · exact .fail _ d
    obtain ⟨kept, k⟩ := vested key.address
    obtain ⟨queue, -, address, -⟩ := k.of_bank hbank
    have bankKey : g.Keys (banks.key bank.address) := ⟨.bank _, address ▸ inside, rfl⟩
    refine (within_save bankKey _ d).bind fun _ d _ => ?_
    refine (within_save ⟨.registration u, own, rfl⟩ _ d).bind fun _ d _ => ?_
    refine (within_save ⟨.usage u, own, rfl⟩ _ d).bind fun _ d _ => ?_
    exact (within_save ⟨.earnings u, own, rfl⟩ _ d).answer _

end

/-- What goes on at the address of an account stays within a region that covers the account. -/
theorem within_addressOf_bind {α : Type} (covers : g.Covers c u) {during : Activity}
    {next : Address → Script α} (rest : ∀ a, g.addresses a → (next a).Within g.Keys c) :
    (addressOf during u >>= next).Within g.Keys c := by
  have found : (addressOf during u).Within g.Keys c :=
    within_require_bind ⟨.registration u, covers.account, rfl⟩ fun r _ => .pure _ c
  refine found.bind fun a d run => ?_
  obtain ⟨r, hr, rfl, rfl⟩ := addressOf_runPlain_eq_ok.1 run
  exact rest _ (covers.home r hr)

theorem within_charge (covers : g.Covers c u) (ratio : Ratio) (now : Seconds) :
    (l.charge u ratio now).Within g.Keys c := by
  have usageKey : g.Keys (usages.key u) := ⟨.usage u, covers.account, rfl⟩
  refine within_require_bind usageKey fun usage _ => ?_
  have stake : (l.stakeOf u now).Within g.Keys c :=
    within_addressOf_bind covers fun a inside => within_stakeAt inside now c
  refine stake.bind fun ceiling d _ => ?_
  exact (within_save usageKey _ d).bind fun _ d _ => .ofExcept _ d

theorem within_claim (vested : Vested l.vesting.window c) (covers : g.Covers c u) (now : Seconds) :
    (l.claim u now).Within g.Keys c := by
  have earningsKey : g.Keys (earnings.key u) := ⟨.earnings u, covers.account, rfl⟩
  refine within_require_bind earningsKey fun e _ => ?_
  refine within_addressOf_bind covers fun a inside => ?_
  split
  · exact .pure _ c
  · refine (within_deposit vested inside _ now).bind fun _ d _ => ?_
    exact (within_save earningsKey _ d).answer _

theorem within_resolve (sender : Username) {receiver : Receiver}
    (payee : ∀ v, receiver.account = some v → g.accounts v) (c : Contents) :
    (resolve sender receiver).Within g.Keys c := by
  obtain ⟨account, address⟩ := receiver
  cases account with
  | none =>
    cases address with
    | some b => exact .pure b c
    | none => exact .fail _ c
  | some v =>
    refine within_load_bind ⟨.registration v, payee v rfl, rfl⟩ fun registered _ => ?_
    cases registered with
    | some r => exact .pure _ c
    | none =>
      cases address with
      | some b => exact .pure b c
      | none => exact .fail _ c

/-- The receiver of a transfer is looked up before its sender pays. -/
theorem within_transfer (vested : Vested l.vesting.window c) (covers : g.Covers c u)
    {receiver : Receiver} (payee : ∀ v, receiver.account = some v → g.Covers c v)
    (fallback : ∀ b, receiver.address = some b → g.addresses b) (x : Coin) (now : Seconds) :
    (l.transfer u receiver x now).Within g.Keys c := by
  refine within_addressOf_bind covers fun a inside => ?_
  refine (within_resolve u (fun v h => (payee v h).account) c).bind fun b d run => ?_
  obtain ⟨resolves, rfl⟩ := resolve_eq_ok run
  have goal : g.addresses b := by
    cases resolves with
    | account hr => exact (payee _ rfl).home _ hr
    | fallback unknown => exact fallback b rfl
  refine (within_withdrawFrom vested inside x now).bind fun _ d paid => ?_
  have still := ((withdrawFrom_runPlain_eq_ok (l := l)).1 paid).vested vested
  exact within_deposit still.1 goal x now

end Ledger

/-! ## Messages -/

namespace Message

/-- The accounts that a message names: those that it acts on, and who receives a transfer. -/
def usernames (m : Message) : List Username :=
  match m with
  | transfer _ receiver .. => m.actors ++ receiver.account.toList
  | _ => m.actors

/-- The addresses that a message names by themselves or by a key. -/
def addresses : Message → List Address
  | deposit a _ => [a]
  | transfer _ receiver .. => receiver.address.toList
  | createAccount _ text => (PublicKey.require text).toOption.toList.map PublicKey.address
  | _ => []

/-- What a message reaches: the accounts and addresses that it names, and the addresses that these
accounts are registered to. -/
def region (c : Contents) (m : Message) : Region where
  accounts u := u ∈ m.usernames
  addresses a := a ∈ m.addresses ∨
    ∃ u r, u ∈ m.usernames ∧ registrations.peek c u = .ok (some r) ∧ r.address = a

/-- The script of a message with its check in front. -/
def checked (l : Ledger) (now : Seconds) (m : Message) : Script Outcome := do
  .ofExcept m.check
  m.script l now

variable {l : Ledger} {c : Contents}

theorem region_covers {m : Message} {u : Username} (named : u ∈ m.usernames) (c : Contents) :
    (m.region c).Covers c u :=
  ⟨named, fun r hr => .inr ⟨u, r, named, hr, rfl⟩⟩

theorem usernames_of_actors {m : Message} {u : Username} (acts : u ∈ m.actors) :
    u ∈ m.usernames := by
  cases m with
  | transfer => exact List.mem_append_left _ acts
  | _ => exact acts

/-- A message reads and sets records of its region only. -/
theorem within_region (vested : Vested l.vesting.window c) (m : Message) (now : Seconds) :
    (m.script l now).Within (m.region c).Keys c := by
  have covers {u : Username} (acts : u ∈ m.actors) : (m.region c).Covers c u :=
    region_covers (usernames_of_actors acts) c
  have own {u : Username} (acts : u ∈ m.actors) : (m.region c).accounts u := (covers acts).account
  cases m with
  | deposit a x =>
    have inside : ((deposit a x).region c).addresses a := .inl (by simp [addresses])
    exact (Ledger.within_deposit vested inside x now).answer _
  | depositToAccount u x =>
    exact (Ledger.within_addressOf_bind (covers (by simp [actors])) fun a inside =>
      Ledger.within_deposit vested inside x now).answer _
  | withdraw u x =>
    exact (Ledger.within_addressOf_bind (covers (by simp [actors])) fun a inside =>
      Ledger.within_withdrawFrom vested inside x now).answer _
  | transfer s receiver x memo =>
    have payee (v : Username) (h : receiver.account = some v) :
        ((transfer s receiver x memo).region c).Covers c v :=
      region_covers (by simp [usernames, h]) c
    have fallback (b : Address) (h : receiver.address = some b) :
        ((transfer s receiver x memo).region c).addresses b := .inl (by simp [addresses, h])
    exact (Ledger.within_transfer vested (covers (by simp [actors])) payee fallback x now).answer _
  | follow u v =>
    rw [script, Ledger.follow_eq]
    exact (Ledger.within_editRosters (own (by simp [actors])) (own (by simp [actors]))
      _ _ _ _ _ c).answer _
  | unfollow u v =>
    rw [script, Ledger.unfollow_eq]
    exact (Ledger.within_editRosters (own (by simp [actors])) (own (by simp [actors]))
      _ _ _ _ _ c).answer _
  | checkCapacity u ratio =>
    exact (Ledger.within_charge (covers (by simp [actors])) ratio now).answer _
  | accrueReward u income reward =>
    exact (Ledger.within_accrue (own (by simp [actors])) income reward c).answer _
  | accrueFrictionIncome u amount =>
    exact (Ledger.within_accrueFriction (own (by simp [actors])) amount c).answer _
  | claimReward u =>
    exact (Ledger.within_claim vested (covers (by simp [actors])) now).answer _
  | createAccount u text =>
    refine .ofExcept_bind fun key hkey => ?_
    have inside : ((createAccount u text).region c).addresses key.address :=
      .inl (by simp [addresses, hkey, Except.toOption])
    exact (Ledger.within_register (own (by simp [actors])) vested inside now).answer _
  | increaseSequence u =>
    exact (Ledger.within_nextSequence (own (by simp [actors])) c).answer _

theorem within_checked (vested : Vested l.vesting.window c) (m : Message) (now : Seconds) :
    (m.checked l now).Within (m.region c).Keys c :=
  .ofExcept_bind fun _ _ => m.within_region vested now

end Message

namespace Ledger

/-- A failing check drops what nobody has written, so it may as well be part of the script. -/
theorem deliver_eq_commitOn (l : Ledger) (b : Backend) (m : Message) (now : Seconds) :
    l.deliver b m now = (m.checked l now).commitOn b := by
  unfold deliver Message.checked
  cases hcheck : m.check with
  | ok => rfl
  | error f =>
    have dropped : ((Script.fail f : Script Outcome)).commitOn b = (.error f, b) :=
      if_neg (by simp [keepsUpdates, (m.check_plain hcheck).keepsUpdates])
    exact dropped.symm

/-- After any deeds on an empty store, two messages that reach no account and no address in common
can change places: each is answered as if the other were not there, and the contents are the same in
the end. -/
theorem deliver_comm (l : Ledger) (deeds : List Deed) (m m' : Message) (now now' : Seconds) :
    let b := l.performAll .empty deeds
    let here := l.deliver b m now
    let there := l.deliver b m' now'
    (m.region b.contents).Apart (m'.region b.contents) →
      (l.deliver there.2 m now).1 = here.1 ∧ (l.deliver here.2 m' now').1 = there.1 ∧
        (l.deliver here.2 m' now').2.contents = (l.deliver there.2 m now).2.contents := by
  intro b here there apart
  obtain ⟨reliable, vested, -⟩ := performAll_vested_tidy (l := l) Backend.reliable_empty
    (vested_empty _) tidy_empty deeds
  simp only [here, there, deliver_eq_commitOn]
  obtain ⟨answer, contents, still⟩ := Script.commitOn_eq_outcome reliable (m.checked l now)
  obtain ⟨answer', contents', still'⟩ := Script.commitOn_eq_outcome reliable (m'.checked l now')
  obtain ⟨last, after, -⟩ := Script.commitOn_eq_outcome still (m'.checked l now')
  obtain ⟨last', after', -⟩ := Script.commitOn_eq_outcome still' (m.checked l now)
  rw [answer, answer', last, last', after, after', contents, contents']
  exact Script.outcome_comm apart.keys (m.within_checked vested now)
    (m'.within_checked vested now')

/-- A deposit of 2 to one address, and a transfer to another by an account that does not exist. The
deposit is accepted and the transfer refused, whichever comes first. -/
theorem deliver_comm_refused :
    let l : Ledger := ⟨.standard, by decide⟩
    let alice : Username := ⟨"alice", by decide⟩
    let x : Address := ⟨"x", by decide⟩
    let y : Address := ⟨"y", by decide⟩
    let deeds : List Deed := [.request (.deliver (.deposit x ⟨5, by decide⟩) .zero)]
    let b := l.performAll .empty deeds
    let m : Message := .deposit x ⟨2, by decide⟩
    let m' : Message := .transfer alice ⟨none, some y⟩ ⟨1, by decide⟩ ""
    let now : Seconds := ⟨10, by decide, by decide⟩
    let here := l.deliver b m now
    let there := l.deliver b m' .zero
    (m.region b.contents).Apart (m'.region b.contents) ∧ here.1 = .ok .done ∧
      there.1 = .error (.recordNotFound "transfer" "info" "alice") ∧
      (l.deliver there.2 m now).1 = here.1 ∧ (l.deliver here.2 m' .zero).1 = there.1 ∧
      (l.deliver here.2 m' .zero).2.contents = (l.deliver there.2 m now).2.contents := by
  intro l alice x y deeds b m m' now here there
  have apart {c : Contents} (unknown : registrations.peek c alice = .ok none) :
      (m.region c).Apart (m'.region c) := by
    constructor
    · nofun
    · rintro a (named | ⟨u, r, named, -⟩) (other | ⟨u, r, own, hr, -⟩)
      · cases List.mem_singleton.1 named
        exact absurd (List.mem_singleton.1 other) (by decide)
      · cases List.mem_singleton.1 own
        cases hr.symm.trans unknown
      · cases named
      · cases named
  obtain ⟨accepted, refused, unknown⟩ : here.1 = .ok .done ∧
      there.1 = .error (.recordNotFound "transfer" "info" "alice") ∧
      registrations.peek b.contents alice = .ok none := by decide +kernel
  have swap := deliver_comm l deeds m m' now .zero
  extract_lets at swap
  clear_value here there b -- nothing is to be delivered again
  exact ⟨apart unknown, accepted, refused, swap (apart unknown)⟩

end Ledger

end StakeLedger

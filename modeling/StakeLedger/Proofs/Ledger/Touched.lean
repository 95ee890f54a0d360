import StakeLedger.Proofs.Ledger.Answers
import StakeLedger.Proofs.Ledger.Direct

/-!
# What a message touches

A message changes records at a few places only, and which ones can be told from the records before
it. Inside the records that it changes, coin that moves leaves the address and the owner of a bank,
and an account that is opened leaves the coin. Paying for a message does not number it, and
numbering one does nothing else.
-/

namespace StakeLedger

open Table

/-! ## Places that change -/

/-- Nothing changes from one contents to others, but at some places. -/
def Confined (places : Place → Prop) (c d : Contents) : Prop :=
  ∀ key, (∀ p, places p → p.key ≠ key) → d.get? key = c.get? key

namespace Confined

variable {places more : Place → Prop} {c d e : Contents}

theorem refl (places : Place → Prop) (c : Contents) : Confined places c c := fun _ _ => rfl

theorem trans (first : Confined places c d) (second : Confined places d e) : Confined places c e :=
  fun key outside => (second key outside).trans (first key outside)

theorem mono (h : Confined places c d) (within : ∀ p, places p → more p) : Confined more c d :=
  fun key outside => h key fun p hp => outside p (within p hp)

/-- Setting a record changes nothing but at its place. -/
theorem put {ν ρ : Type} {t : Table ν ρ} {name : ν} {p : Place} (inside : places p)
    (place : t.key name = p.key) (c : Contents) (record : ρ) :
    Confined places c (t.put c name record) :=
  fun _ outside => get?_put_of_ne (place ▸ (outside p inside).symm) c record

theorem edited {t : Table Username Roster} {u : Username} {p : Place} (inside : places p)
    (place : t.key u = p.key) (c : Contents) (changes : Bool) (r : Roster) :
    Confined places c (t.edited c u changes r) := by
  cases changes with
  | false => exact refl places c
  | true => exact put inside place c r

end Confined

/-- The places that a change sets. -/
inductive Move.Sets : Move → Place → Prop
  | creditBank {a : Address} {x : Coin} : Sets (.credit a x) (.bank a)
  | creditQueue {a : Address} {x : Coin} : Sets (.credit a x) (.queue a)
  | debitBank {a : Address} {x : Coin} : Sets (.debit a x) (.bank a)
  | debitQueue {a : Address} {x : Coin} : Sets (.debit a x) (.queue a)
  | enrolBank {u : Username} {key : PublicKey} : Sets (.enrol u key) (.bank key.address)
  | enrolRegistration {u : Username} {key : PublicKey} : Sets (.enrol u key) (.registration u)
  | enrolUsage {u : Username} {key : PublicKey} : Sets (.enrol u key) (.usage u)
  | enrolEarnings {u : Username} {key : PublicKey} : Sets (.enrol u key) (.earnings u)
  | meter {u : Username} {usage : Usage} : Sets (.meter u usage) (.usage u)
  | earn {u : Username} {e e' : Earnings} : Sets (.earn u e e') (.earnings u)
  | followers {u : Username} {r : Roster} : Sets (.followers u r) (.followers u)
  | following {u : Username} {r : Roster} : Sets (.following u r) (.following u)

theorem Confined.putHolding {places : Place → Prop} {a : Address} {h : Holding}
    (address : h.bank.address = a) (bank : places (.bank a)) (queue : places (.queue a))
    (c : Contents) : Confined places c (putHolding c a h) := by
  subst address
  exact (put bank rfl c h.bank).trans (put queue rfl _ h.queue)

section

variable {l : Ledger} {now : Seconds} {c d : Contents} {move : Move}

/-- A change sets the places that it stands for and no other. -/
theorem Step.confined (h : Step l now move c d) (vested : Vested l.vesting.window c) :
    Confined move.Sets c d := by
  cases move with
  | credit a x =>
    obtain ⟨kept, k⟩ := vested a
    obtain ⟨h', credited, -, rfl⟩ := h.credit_kept k
    exact .putHolding (k.address_credited credited) .creditBank .creditQueue c
  | debit a x =>
    obtain ⟨kept, k⟩ := vested a
    obtain ⟨held, h', rfl, debited, -, rfl⟩ := h.debit_kept k
    exact .putHolding (k.address_debited debited) .debitBank .debitQueue c
  | enrol u key =>
    cases h with
    | @enrol _ _ _ bank hnew hbank howner hfee =>
      obtain ⟨kept, k⟩ := vested key.address
      obtain ⟨-, -, address, -⟩ := k.of_bank hbank
      have place : banks.key bank.address = (Place.bank key.address).key := by rw [address]; rfl
      exact (((Confined.put .enrolBank place c _).trans (.put .enrolRegistration rfl _ _)).trans
        (.put .enrolUsage rfl _ _)).trans (.put .enrolEarnings rfl _ _)
  | meter u usage =>
    cases h
    exact .put .meter rfl c _
  | earn u e e' =>
    cases h
    exact .put .earn rfl c _
  | followers u r =>
    cases h
    exact .put .followers rfl c _
  | following u r =>
    cases h
    exact .put .following rfl c _

end

/-! ## What a message touches -/

/-- The addresses that coin goes out from with a message, by the records before it. -/
inductive Message.Draws (c : Contents) : Message → Address → Prop
  | withdraw {u : Username} {r : Registration} (hr : registrations.peek c u = .ok (some r))
    (x : Coin) : Draws c (.withdraw u x) r.address
  | transfer {s : Username} {r : Registration} (hr : registrations.peek c s = .ok (some r))
    (receiver : Receiver) (x : Coin) (memo : String) :
    Draws c (.transfer s receiver x memo) r.address

/-- Coin comes in or goes out at the address with a message. -/
def Message.Moves (c : Contents) (m : Message) (a : Address) : Prop :=
  (∃ now, Pays c (.deliver m now) a) ∨ m.Draws c a

/-- The places that a message may change, by the records before it. -/
inductive Message.Touches (c : Contents) : Message → Place → Prop
  | bank {m : Message} {a : Address} (moves : m.Moves c a) : Touches c m (.bank a)
  | queue {m : Message} {a : Address} (moves : m.Moves c a) : Touches c m (.queue a)
  | checkCapacity (u : Username) (ratio : Ratio) : Touches c (.checkCapacity u ratio) (.usage u)
  | increaseSequence (u : Username) : Touches c (.increaseSequence u) (.usage u)
  | accrueReward (u : Username) (income reward : Coin) :
    Touches c (.accrueReward u income reward) (.earnings u)
  | accrueFrictionIncome (u : Username) (x : Coin) :
    Touches c (.accrueFrictionIncome u x) (.earnings u)
  | claimReward (u : Username) : Touches c (.claimReward u) (.earnings u)
  | followFollowers (u v : Username) : Touches c (.follow u v) (.followers v)
  | followFollowing (u v : Username) : Touches c (.follow u v) (.following u)
  | unfollowFollowers (u v : Username) : Touches c (.unfollow u v) (.followers v)
  | unfollowFollowing (u v : Username) : Touches c (.unfollow u v) (.following u)
  | createBank (u : Username) {text : String} {key : PublicKey}
    (hkey : PublicKey.require text = .ok key) :
    Touches c (.createAccount u text) (.bank key.address)
  | createRegistration (u : Username) (text : String) :
    Touches c (.createAccount u text) (.registration u)
  | createUsage (u : Username) (text : String) : Touches c (.createAccount u text) (.usage u)
  | createEarnings (u : Username) (text : String) : Touches c (.createAccount u text) (.earnings u)

theorem Message.touches_deposit {c : Contents} {a : Address} {x : Coin} {p : Place} :
    (deposit a x).Touches c p ↔ p = .bank a ∨ p = .queue a := by
  have moves {b : Address} (h : (deposit a x).Moves c b) : b = a := by
    rcases h with ⟨now, pays⟩ | draws
    · cases pays
      rfl
    · cases draws
  have pays : (deposit a x).Moves c a := .inl ⟨.zero, .deposit a x .zero⟩
  constructor
  · intro h
    cases h with
    | bank h => exact .inl (congrArg Place.bank (moves h))
    | queue h => exact .inr (congrArg Place.queue (moves h))
  · rintro (rfl | rfl)
    · exact .bank pays
    · exact .queue pays

section

variable {l : Ledger} {now : Seconds} {c d : Contents} {m : Message}

theorem Confined.credit {a : Address} {x : Coin} (h : Step l now (.credit a x) c d)
    (vested : Vested l.vesting.window c) {places : Place → Prop} (bank : places (.bank a))
    (queue : places (.queue a)) : Confined places c d :=
  (h.confined vested).mono fun
    | _, .creditBank => bank
    | _, .creditQueue => queue

theorem Confined.debit {a : Address} {x : Coin} (h : Step l now (.debit a x) c d)
    (vested : Vested l.vesting.window c) {places : Place → Prop} (bank : places (.bank a))
    (queue : places (.queue a)) : Confined places c d :=
  (h.confined vested).mono fun
    | _, .debitBank => bank
    | _, .debitQueue => queue

/-- An accepted message changes nothing but what it touches. -/
theorem Message.Effect.confined {o : Outcome} (h : m.Effect l now c o d)
    (vested : Vested l.vesting.window c) : Confined (m.Touches c) c d := by
  cases h with
  | @deposit a x _ _ h =>
    have pays : Moves c (.deposit a x) a := .inl ⟨now, .deposit a x now⟩
    exact .credit h vested (.bank pays) (.queue pays)
  | @depositToAccount u x _ _ r hr h =>
    have pays : Moves c (.depositToAccount u x) r.address := .inl ⟨now, .depositToAccount hr x now⟩
    exact .credit h vested (.bank pays) (.queue pays)
  | @withdraw u x _ _ r hr h =>
    have draws : Moves c (.withdraw u x) r.address := .inr (.withdraw hr x)
    exact .debit h vested (.bank draws) (.queue draws)
  | @transfer s receiver x memo _ e _ r target hr htarget paid received =>
    have draws : Moves c (.transfer s receiver x memo) r.address := .inr (.transfer hr _ _ _)
    have pays : Moves c (.transfer s receiver x memo) target :=
      .inl ⟨now, .transfer htarget s x memo now⟩
    have out : Confined (Touches c (.transfer s receiver x memo)) c e :=
      .debit paid vested (.bank draws) (.queue draws)
    exact out.trans (.credit received (paid.vested vested).1 (.bank pays) (.queue pays))
  | @follow u v =>
    have theirs (r : Roster) (p : Bool) : Confined (Touches c (.follow u v)) c _ :=
      .edited (t := followers) (.followFollowers u v) rfl c p r
    exact (theirs _ _).trans (.edited (.followFollowing u v) rfl _ _ _)
  | @unfollow u v =>
    have theirs (r : Roster) (p : Bool) : Confined (Touches c (.unfollow u v)) c _ :=
      .edited (t := followers) (.unfollowFollowers u v) rfl c p r
    exact (theirs _ _).trans (.edited (.unfollowFollowing u v) rfl _ _ _)
  | checkCapacity => exact .put (.checkCapacity _ _) rfl c _
  | accrueReward => exact .put (.accrueReward _ _ _) rfl c _
  | accrueFrictionIncome => exact .put (.accrueFrictionIncome _ _) rfl c _
  | claimNothing => exact .refl _ c
  | @claimReward u _ e earnings r hearnings hr received =>
    -- Depositing nothing is refused, so there was something to claim.
    have something : earnings.unclaimed.units ≠ 0 := Nat.ne_of_gt received.credit_pos
    have pays : Moves c (.claimReward u) r.address :=
      .inl ⟨now, .claimReward hr hearnings something now⟩
    have coin : Confined (Touches c (.claimReward u)) c e :=
      .credit received vested (.bank pays) (.queue pays)
    exact coin.trans (.put (.claimReward u) rfl _ _)
  | createAccount hkey h =>
    exact (h.confined vested).mono fun
      | _, .enrolBank => .createBank _ hkey
      | _, .enrolRegistration => .createRegistration _ _
      | _, .enrolUsage => .createUsage _ _
      | _, .enrolEarnings => .createEarnings _ _
  | increaseSequence => exact .put (.increaseSequence _) rfl c _

/-- A message changes nothing but what it touches, whatever the answer. -/
theorem Served.confined {answer : Except Failure Outcome}
    (h : Served l (.deliver m now) c answer d) (vested : Vested l.vesting.window c) :
    Confined (m.Touches c) c d := by
  cases h with
  | delivered check h => exact h.confined vested
  | refused => exact .refl _ c
  | short => exact .put (.checkCapacity _ _) rfl c _

end

/-! ## Inside the records -/

/-- No record of a table is lost from one contents to others, and each is related to what becomes of
it. -/
def Table.Carries {ν ρ : Type} (t : Table ν ρ) (related : ρ → ρ → Prop) (c d : Contents) : Prop :=
  ∀ name record, t.peek c name = .ok (some record) →
    ∃ later, t.peek d name = .ok (some later) ∧ related record later

namespace Table.Carries

variable {ν ρ : Type} {t : Table ν ρ} {related : ρ → ρ → Prop} {c d e : Contents}

theorem of_peek_eq (refl : ∀ r, related r r) (same : ∀ name, t.peek d name = t.peek c name) :
    t.Carries related c d :=
  fun name record h => ⟨record, (same name).trans h, refl record⟩

theorem trans (compose : ∀ {r s u}, related r s → related s u → related r u)
    (first : t.Carries related c d) (second : t.Carries related d e) : t.Carries related c e := by
  intro name record h
  obtain ⟨later, hlater, near⟩ := first name record h
  obtain ⟨last, hlast, far⟩ := second name later hlater
  exact ⟨last, hlast, compose near far⟩

end Table.Carries

/-- The bank still has its address and its owner. -/
def Bank.SameHome (before after : Bank) : Prop :=
  after.address = before.address ∧ after.owner = before.owner

/-- The bank still has its address, its balance and its stake. -/
def Bank.SameCoin (before after : Bank) : Prop :=
  after.address = before.address ∧ after.balance = before.balance ∧ after.stake = before.stake

/-- As many messages have been numbered. -/
def Usage.SameSequence (before after : Usage) : Prop := after.sequence = before.sequence

/-- Nothing has changed but how many messages have been numbered. -/
def Usage.OnlySequence (before after : Usage) : Prop :=
  after = { before with sequence := after.sequence }

section

variable {l : Ledger} {now : Seconds} {c d : Contents} {m : Message}

theorem Bank.SameHome.refl (b : Bank) : b.SameHome b := ⟨rfl, rfl⟩

theorem Bank.SameHome.trans {x y z : Bank} (first : x.SameHome y) (second : y.SameHome z) :
    x.SameHome z :=
  ⟨second.1.trans first.1, second.2.trans first.2⟩

theorem Bank.SameCoin.refl (b : Bank) : b.SameCoin b := ⟨rfl, rfl, rfl⟩

theorem Usage.SameSequence.refl (u : Usage) : u.SameSequence u := rfl

theorem Usage.OnlySequence.refl (u : Usage) : u.OnlySequence u := rfl

/-- A holding that takes the place of the kept one carries on what is kept for all addresses. -/
theorem Kept.carries_putHolding {window : Seconds} {related : Bank → Bank → Prop}
    (refl : ∀ b, related b b) {a : Address} {kept : Option Holding} (k : Kept window c a kept)
    {h : Holding} (address : h.bank.address = a) (sound : h.Sound window)
    (carried : ∀ held, kept = some held → related held.bank h.bank) :
    banks.Carries related c (putHolding c a h) := by
  intro b bank hbank
  by_cases own : b = a
  · subst own
    rw [k.peek_eq.1] at hbank
    cases kept with
    | none => cases hbank
    | some held =>
      cases hbank
      exact ⟨h.bank, (putHolding_self address sound).peek_eq.1, carried held rfl⟩
  · subst address
    exact ⟨bank, by simpa [putHolding, own] using hbank, refl bank⟩

/-- Coin that comes in changes no address and no owner. -/
theorem Step.credit_carries {a : Address} {x : Coin} (h : Step l now (.credit a x) c d)
    (vested : Vested l.vesting.window c) : banks.Carries Bank.SameHome c d := by
  obtain ⟨kept, k⟩ := vested a
  obtain ⟨h', credited, -, rfl⟩ := h.credit_kept k
  refine k.carries_putHolding .refl (k.address_credited credited) credited.sound fun held same => ?_
  subst same
  exact ⟨credited.address_eq, credited.owner_eq⟩

/-- Coin that goes out changes no address and no owner. -/
theorem Step.debit_carries {a : Address} {x : Coin} (h : Step l now (.debit a x) c d)
    (vested : Vested l.vesting.window c) : banks.Carries Bank.SameHome c d := by
  obtain ⟨kept, k⟩ := vested a
  obtain ⟨held, h', rfl, debited, -, rfl⟩ := h.debit_kept k
  refine k.carries_putHolding .refl (k.address_debited debited) debited.sound fun held same => ?_
  cases same
  exact ⟨debited.address_eq, debited.owner_eq⟩

/-- An account that is opened changes no address and no coin. -/
theorem Step.enrol_carries {u : Username} {key : PublicKey} (h : Step l now (.enrol u key) c d)
    (vested : Vested l.vesting.window c) : banks.Carries Bank.SameCoin c d := by
  cases h with
  | @enrol _ _ _ bank hnew hbank howner hfee =>
    obtain ⟨kept, k⟩ := vested key.address
    obtain ⟨-, -, address, -⟩ := k.of_bank hbank
    intro a old hold
    by_cases own : a = key.address
    · subst own
      cases hbank.symm.trans hold
      exact ⟨{ bank with owner := some u }, by simp [putAccount, address], rfl, rfl, rfl⟩
    · exact ⟨old, by simpa [putAccount, address, own] using hold, rfl, rfl, rfl⟩

/-- Only opening an account changes the owner of a bank, and nothing changes its address. -/
theorem Message.Effect.carries_home {o : Outcome} (h : m.Effect l now c o d)
    (vested : Vested l.vesting.window c) (other : ∀ u text, m ≠ .createAccount u text) :
    banks.Carries Bank.SameHome c d := by
  cases h with
  | deposit h | depositToAccount hr h => exact h.credit_carries vested
  | withdraw hr h => exact h.debit_carries vested
  | transfer hr htarget paid received =>
    exact (paid.debit_carries vested).trans .trans (received.credit_carries (paid.vested vested).1)
  | claimReward hearnings hr received =>
    exact (received.credit_carries vested).trans .trans (.of_peek_eq .refl fun a => by simp)
  | createAccount hkey h => exact absurd rfl (other _ _)
  | follow | unfollow | checkCapacity | accrueReward | accrueFrictionIncome | claimNothing
  | increaseSequence => exact .of_peek_eq .refl fun a => by simp

/-- A usage that is set carries on all usages if it carries on the one that it takes the place of.
-/
theorem Table.carries_putUsage {related : Usage → Usage → Prop} (refl : ∀ r, related r r)
    {u : Username} {usage usage' : Usage} (husage : usages.peek c u = .ok (some usage))
    (carried : related usage usage') : usages.Carries related c (usages.put c u usage') := by
  intro v old hold
  by_cases own : v = u
  · subst own
    cases husage.symm.trans hold
    exact ⟨usage', by simp, carried⟩
  · exact ⟨old, by simpa [own] using hold, refl old⟩

/-- Paying for a message does not number it, and a refusal for want of capacity does not either. -/
theorem Served.carries_sequence {u : Username} {ratio : Ratio} {answer : Except Failure Outcome}
    (h : Served l (.deliver (.checkCapacity u ratio) now) c answer d) :
    usages.Carries Usage.SameSequence c d := by
  cases h with
  | delivered check h =>
    cases h with
    | @checkCapacity _ _ _ usage usage' ceiling left husage hstake hcharge =>
      have outcome := Throttle.charge_cases l.period_pos ⟨u, ceiling, ratio, now⟩ usage
      rw [hcharge] at outcome
      exact carries_putUsage Usage.SameSequence.refl husage outcome.sequence_eq
  | refused => exact .of_peek_eq .refl fun _ => rfl
  | short husage => exact carries_putUsage Usage.SameSequence.refl husage rfl

theorem Served.carries_numbered {u : Username} {answer : Except Failure Outcome}
    (h : Served l (.deliver (.increaseSequence u) now) c answer d) :
    usages.Carries Usage.OnlySequence c d := by
  cases h with
  | delivered check h =>
    cases h with
    | increaseSequence husage hn => exact carries_putUsage Usage.OnlySequence.refl husage rfl
  | refused => exact .of_peek_eq .refl fun _ => rfl

theorem Served.carries_home {answer : Except Failure Outcome}
    (h : Served l (.deliver m now) c answer d) (vested : Vested l.vesting.window c)
    (other : ∀ u text, m ≠ .createAccount u text) : banks.Carries Bank.SameHome c d := by
  cases h with
  | delivered check h => exact h.carries_home vested other
  | refused => exact .of_peek_eq .refl fun _ => rfl
  | short => exact .of_peek_eq .refl fun a => by simp

theorem Served.carries_coin {u : Username} {text : String} {answer : Except Failure Outcome}
    (h : Served l (.deliver (.createAccount u text) now) c answer d)
    (vested : Vested l.vesting.window c) : banks.Carries Bank.SameCoin c d := by
  cases h with
  | delivered check h =>
    cases h with
    | createAccount hkey h => exact h.enrol_carries vested
  | refused => exact .of_peek_eq .refl fun _ => rfl

end

namespace Ledger

/-- No two places share a key. After any deeds on an empty store, a message that is delivered
changes no key but those of the places that it touches, whatever it answers. No bank is lost; its
address stays, its owner stays unless an account is opened, and then its balance and its stake stay.
A check of capacity leaves the numbers of all usages, and numbering a message leaves all else in
them. -/
theorem deliver_confined (l : Ledger) (deeds : List Deed) (m : Message) (now : Seconds) :
    let b := l.performAll .empty deeds
    let c := b.contents
    let d := (l.deliver b m now).2.contents
    Function.Injective Place.key ∧
      (∀ key, (∀ p, m.Touches c p → p.key ≠ key) → d.get? key = c.get? key) ∧
      ((∀ u text, m ≠ .createAccount u text) → banks.Carries Bank.SameHome c d) ∧
      (∀ u text, m = .createAccount u text → banks.Carries Bank.SameCoin c d) ∧
      (∀ u ratio, m = .checkCapacity u ratio → usages.Carries Usage.SameSequence c d) ∧
      ∀ u, m = .increaseSequence u → usages.Carries Usage.OnlySequence c d := by
  intro b c d
  obtain ⟨reliable, vested, -⟩ := performAll_vested_tidy (l := l) Backend.reliable_empty
    (vested_empty _) tidy_empty deeds
  have served : Served l (.deliver m now) c (l.deliver b m now).1 d :=
    (deliver_served reliable m now).1
  -- With the message known, comparing contents would run it.
  clear_value d
  refine ⟨Place.key_injective, served.confined vested, served.carries_home vested, ?_, ?_, ?_⟩
  · rintro u text rfl
    exact served.carries_coin vested
  · rintro u ratio rfl
    exact served.carries_sequence
  · rintro u rfl
    exact served.carries_numbered

/-- The bank at one address has a key that begins as the one at another, and goes on as the queue
there does. What is deposited there leaves the bank at the shorter one. -/
theorem deliver_confined_longer :
    let l : Ledger := ⟨.standard, by decide⟩
    let x : Address := ⟨"x", by decide⟩
    let y : Address := ⟨"x/pending_stake/x", by decide⟩
    let deeds : List Deed := [.request (.deliver (.deposit x ⟨5, by decide⟩) .zero)]
    let m : Message := .deposit y ⟨7, by decide⟩
    let b := l.performAll .empty deeds
    let d := (l.deliver b m .zero).2.contents
    (l.deliver b m .zero).1 = .ok .done ∧
      d.get? (Place.bank x).key = b.contents.get? (Place.bank x).key ∧
      ∃ later, banks.peek d x = .ok (some later) ∧
        Bank.SameHome ⟨x, ⟨5, by decide⟩, .zero, none⟩ later := by
  intro l x y deeds m
  dsimp only
  have accepted : (l.deliver (l.performAll .empty deeds) m .zero).1 = .ok .done := by
    decide +kernel
  have kept : banks.peek (l.performAll .empty deeds).contents x =
      .ok (some ⟨x, ⟨5, by decide⟩, .zero, none⟩) := by decide +kernel
  obtain ⟨-, frame, home, -⟩ := deliver_confined l deeds m .zero
  refine ⟨accepted, frame _ fun p touches same => ?_, home nofun x _ kept⟩
  obtain rfl := Place.key_injective same
  have apart : x ≠ y := by decide
  rcases Message.touches_deposit.1 touches with bank | queue
  · exact apart (Place.bank.inj bank)
  · cases queue

end Ledger

end StakeLedger

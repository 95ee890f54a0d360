import StakeLedger.Proofs.Ledger.Failures
import StakeLedger.Proofs.Store.Records

/-!
# What can be checked without a store

Amounts, ratios, keys and receivers are looked at twice: when a message is checked, before it comes
to the store, and again by the operations that it calls. Both agree. What the check refuses, the
operations refuse as well, whatever the store holds. And what the check lets pass is never refused
for a malformed amount or key afterwards, though coin also moves in amounts that only the store
knows.
-/

namespace StakeLedger

/-! ## Scripts that cannot succeed -/

namespace Script

variable {α β : Type}

/-- The script ends with a failure, whatever it reads. -/
inductive Doomed : Script α → Prop
  | fail (failure : Failure) : Doomed (fail failure)
  | read {key : Bytes} {next : Option Bytes → Script α} (rest : ∀ found, Doomed (next found)) :
    Doomed (read key next)
  | write {key value : Bytes} {next : Script α} (rest : Doomed next) :
    Doomed (write key value next)

namespace Doomed

/-- Nothing that comes after it saves a doomed script. -/
theorem bind {script : Script α} (h : script.Doomed) (next : α → Script β) :
    (script >>= next).Doomed := by
  induction h with
  | fail f => exact .fail f
  | read _ ih => exact .read ih
  | write _ ih => exact .write ih

/-- Nor does anything that comes before it. -/
theorem after (script : Script α) {next : α → Script β} (rest : ∀ a, (next a).Doomed) :
    (script >>= next).Doomed := by
  induction script with
  | done a => exact rest a
  | fail f => exact .fail f
  | read key next' ih => exact .read ih
  | write key value next' ih => exact .write ih

theorem runOn {script : Script α} (h : script.Doomed) (b : Backend) :
    ∃ f b', script.runOn b = (.error f, b') := by
  induction h generalizing b with
  | fail f => exact ⟨f, b, rfl⟩
  | read _ ih =>
    rw [Script.runOn]
    split
    · exact ⟨_, b, rfl⟩
    · exact ih _ b
  | write _ ih =>
    rw [Script.runOn]
    split
    · exact ⟨_, b, rfl⟩
    · exact ih _

theorem runBuffered {script : Script α} (h : script.Doomed) (b : Backend) (buffer : Contents) :
    ∃ f after, script.runBuffered b buffer = (.error f, after) := by
  induction h generalizing buffer with
  | fail f => exact ⟨f, buffer, rfl⟩
  | read _ ih =>
    rw [Script.runBuffered]
    split
    · exact ⟨_, buffer, rfl⟩
    · exact ih _ buffer
  | write _ ih => exact ih _

theorem commitOn {script : Script α} (h : script.Doomed) (b : Backend) :
    ∃ f b', script.commitOn b = (.error f, b') := by
  obtain ⟨f, after, run⟩ := h.runBuffered b .empty
  simp only [Script.commitOn, run]
  split
  · split
    · exact ⟨f, _, rfl⟩
    · exact ⟨_, _, rfl⟩
  · exact ⟨f, b, rfl⟩

end Doomed

end Script

/-! ## Coin that is none -/

namespace Vesting

variable {h : Holding} {amount : Coin} {now : Seconds}

theorem add_zero (zero : amount.isZero = true) (v : Vesting) :
    (v.add h amount now).result = .error (.invalidAmount "add coin" amount) := by
  rw [add, if_pos zero]
  rfl

theorem withdraw_zero (zero : amount.isZero = true) :
    (withdraw h amount now).result = .error (.invalidAmount "minus coin" amount) := by
  rw [withdraw, if_pos zero]
  rfl

end Vesting

/-- Nothing is paid for a message whose ratio has no value. -/
theorem Throttle.charge_invalid {ratio : Ratio} (invalid : ratio.den.val = 0) (t : Throttle)
    (account : Username) (usage : Usage) (ceiling : Coin) (now : Seconds) :
    ∃ after f, t.charge account usage ceiling ratio now = (after, .error f) := by
  have priceless : t.cost ratio = .error (.invalidAmount "ratio" (.ofWord ratio.num)) :=
    if_pos invalid
  rw [charge, priceless]
  split
  · exact ⟨usage, _, rfl⟩
  · exact ⟨usage, _, rfl⟩

/-! ## Operations -/

namespace Ledger

open Table

variable {amount : Coin} {ratio : Ratio}

/-- An amount that is none is never received, whatever is known about the address. -/
theorem doomed_deposit (zero : amount.isZero = true) (l : Ledger) (address : Address)
    (now : Seconds) : (l.deposit address amount now).Doomed := by
  apply Script.Doomed.after
  intro bank
  apply Script.Doomed.after
  intro queue
  dsimp only
  rw [Vesting.add_zero zero]
  exact .fail _

theorem doomed_withdrawFrom (zero : amount.isZero = true) (address : Address) (now : Seconds) :
    (withdrawFrom address amount now).Doomed := by
  apply Script.Doomed.after
  intro h
  rw [Vesting.withdraw_zero zero]
  exact .fail _

/-- Nobody is found nowhere. -/
theorem resolve_nobody {receiver : Receiver} (nobody : receiver.isNobody = true)
    (sender : Username) : resolve sender receiver = .fail (.unknownReceiver sender "") := by
  obtain ⟨account, address⟩ := receiver
  cases account <;> cases address <;> first | rfl | cases nobody

theorem doomed_transfer {receiver : Receiver}
    (wrong : amount.isZero = true ∨ receiver.isNobody = true) (l : Ledger) (sender : Username)
    (now : Seconds) : (l.transfer sender receiver amount now).Doomed := by
  apply Script.Doomed.after
  intro source
  rcases wrong with zero | nobody
  · apply Script.Doomed.after
    intro target
    exact (doomed_withdrawFrom zero source now).bind _
  · rw [resolve_nobody nobody]
    exact .fail _

/-- A ratio without a value has no price, so a charge fails even where capacity can be told. -/
theorem doomed_charge (invalid : ratio.den.val = 0) (l : Ledger) (account : Username)
    (now : Seconds) : (l.charge account ratio now).Doomed := by
  apply Script.Doomed.after
  intro usage
  apply Script.Doomed.after
  intro ceiling
  obtain ⟨after, f, hcharge⟩ := Throttle.charge_invalid invalid l.throttle account usage ceiling now
  rw [hcharge]
  exact .write (.fail f)

end Ledger

/-! ## Messages -/

namespace Message

variable {m : Message}

/-- The check finds what is wrong with a message by itself. -/
theorem check_eq_ok_iff : m.check = .ok () ↔ ¬m.Flawed := by
  cases m with
  | deposit | depositToAccount | withdraw | checkCapacity =>
    simp only [check, Flawed]
    split <;> simp_all
  | transfer s r x memo =>
    simp only [check, Flawed]
    split
    · simp_all
    · split <;> simp_all
  | createAccount u text =>
    simp only [check, Flawed]
    cases PublicKey.require text <;> simp [Except.map]
  | follow | unfollow | accrueReward | accrueFrictionIncome | claimReward | increaseSequence =>
    simp [check, Flawed]

/-- With something wrong by itself, a message cannot succeed. -/
theorem doomed_script (flawed : m.Flawed) (l : Ledger) (now : Seconds) :
    (m.script l now).Doomed := by
  cases m with
  | deposit a x => exact (Ledger.doomed_deposit flawed l a now).bind _
  | depositToAccount u x =>
    refine Script.Doomed.bind (Script.Doomed.after _ fun a => ?_) _
    exact Ledger.doomed_deposit flawed l a now
  | withdraw u x =>
    refine Script.Doomed.bind (Script.Doomed.after _ fun a => ?_) _
    exact Ledger.doomed_withdrawFrom flawed a now
  | transfer s r x memo => exact (Ledger.doomed_transfer flawed l s now).bind _
  | checkCapacity u ratio => exact (Ledger.doomed_charge flawed l u now).bind _
  | createAccount u text =>
    obtain ⟨f, hkey⟩ := flawed
    rw [script, hkey]
    exact .fail f
  | follow | unfollow | accrueReward | accrueFrictionIncome | claimReward | increaseSequence =>
    exact flawed.elim

/-- The check of a message and the operations that it calls agree. A message that the check refuses
fails on every store, with any contents and any faults, whether it runs straight on the store or its
updates are held back until it has ended. A message that the check lets pass never fails there for a
malformed amount, key, username or parameter. -/
theorem check_decides (l : Ledger) (m : Message) (now : Seconds) :
    (∀ refusal, m.check = .error refusal → ∀ b : Backend,
      (∃ f b', (m.script l now).runOn b = (.error f, b')) ∧
        ∃ f b', (m.script l now).commitOn b = (.error f, b')) ∧
    (m.check = .ok () → ∀ (b b' : Backend) (f : Failure),
      (m.script l now).runOn b = (.error f, b') ∨ (m.script l now).commitOn b = (.error f, b') →
        ¬f.Malformed) := by
  refine ⟨fun refusal refused b => ?_, fun passed b b' f failed => ?_⟩
  · have flawed : m.Flawed := by
      by_contra flawless
      cases refused.symm.trans (check_eq_ok_iff.2 flawless)
    have doomed := doomed_script flawed l now
    exact ⟨doomed.runOn b, doomed.commitOn b⟩
  · have store (cause : StoreFailure) : m.Refusal (.store cause) := .fair (.ordinary ⟨rfl, id⟩)
    have obeys := m.obeys_script l now
    have refusal : m.Refusal f := by
      rcases failed with run | run
      · exact obeys.runOn_error store run
      · exact obeys.commitOn_mayFail store run
    cases refusal with
    | fair h => exact (h.ordinary_of_not (check_eq_ok_iff.1 passed)).proper
    | short => exact id

/-- An account has 7 to claim at an address that holds the largest amount there is. A check of its
capacity at a ratio without a value is refused, and could not have succeeded. A claim is let pass
and fails, but not for its amount. -/
theorem check_decides_full :
    let l : Ledger := ⟨.standard, by decide⟩
    let alice : Username := ⟨"alice", by decide⟩
    let x : Address := ⟨"x", by decide⟩
    let seven : Coin := ⟨7, by decide⟩
    let most : Coin := ⟨2 ^ 64 - 1, by decide⟩
    let c := Table.usages.put .empty alice (.fresh .zero)
    let c' := Table.registrations.put c alice ⟨alice, .zero, x, ""⟩
    let c'' := Table.earnings.put c' alice ⟨seven, seven, .zero, seven⟩
    let b : Backend := ⟨Table.banks.put c'' x ⟨x, most, most, none⟩, [], []⟩
    let worthless : Message := .checkCapacity alice ⟨⟨1, by decide⟩, .zero64⟩
    let claim : Message := .claimReward alice
    worthless.check = .error (.invalidAmount "check_capacity" ⟨1, by decide⟩) ∧
      (∃ f b', (worthless.script l .zero).runOn b = (.error f, b')) ∧
      claim.check = .ok () ∧
      (claim.script l .zero).runOn b = (.error (.overflow "add coin"), b) ∧
      ¬(Failure.overflow "add coin").Malformed := by
  intro l alice x seven most c c' c'' b worthless claim
  have refused : worthless.check = .error (.invalidAmount "check_capacity" ⟨1, by decide⟩) := rfl
  have passed : claim.check = .ok () := rfl
  have run : (claim.script l .zero).runOn b = (.error (.overflow "add coin"), b) := by
    decide +kernel
  clear_value b -- what is stored is not to be read again
  exact ⟨refused, ((check_decides l worthless .zero).1 _ refused b).1, passed, run,
    (check_decides l claim .zero).2 passed b b _ (.inl run)⟩

end Message

end StakeLedger

import StakeLedger.Proofs.Ledger.Buffered
import StakeLedger.Proofs.Ledger.Direct
import StakeLedger.Proofs.Vesting.Moved

/-!
# Transfers and stake

A transfer takes coin from the holding of one address and deposits it at another, or at the same.
Whatever time the coin had been held for is lost, so that at no later time the two addresses have
more stake together than they would have had, up to one unit of rounding.
-/

namespace StakeLedger

open Table

/-- Lots that what is kept for an address stands for. -/
def lotsAt (window : Seconds) (kept : Option Holding) : List Lot :=
  (kept.map (Holding.lots window)).getD []

/-- The balance that counts for an address: where there is no bank there is none. -/
def balanceOf (bank : Option Bank) : Nat := (bank.map fun b => b.balance.units).getD 0

section

variable {l : Ledger} {c d : Contents} {a : Address} {now t : Seconds} {kept : Option Holding}

theorem balance_heldAt (a : Address) (now : Seconds) (kept : Option Holding) :
    (heldAt a now kept).bank.balance.units = balanceOf (kept.map Holding.bank) := by
  cases kept <;> rfl

/-- The stake of an address is that of a history that its holding stands for. -/
theorem Kept.exists_stake {h : Holding} {history : History}
    (k : Kept l.vesting.window c a (some h)) (r : h.Represents l.vesting.window history)
    (inTime : h.queue.lastUpdate.count ≤ t.count) :
    ∃ stake, (l.stakeAt a t).runPlain c = (.ok stake, c) ∧
      stake.units = History.vested l.vesting.window.count t.count history.lots /
        l.vesting.window.count.toNat := by
  obtain ⟨stake, hstake, units⟩ := r.exists_stake l.window_pos inTime
  refine ⟨stake, ?_, units⟩
  rw [Ledger.stakeAt_runPlain k.peek_eq.1 k.peek_eq.2, hstake]

/-- Before coin comes in at an address, its stake is that of the lots that it has. -/
theorem Kept.exists_stake_lotsAt (k : Kept l.vesting.window c a kept)
    (inTime : (heldAt a now kept).queue.lastUpdate.count ≤ t.count) :
    ∃ stake, (l.stakeAt a t).runPlain c = (.ok stake, c) ∧
      stake.units = History.vested l.vesting.window.count t.count (lotsAt l.vesting.window kept) /
        l.vesting.window.count.toNat := by
  cases k with
  | nothing hbank hqueue =>
    refine ⟨.zero, Ledger.stakeAt_runPlain_of_none hbank, ?_⟩
    simp [lotsAt, History.vested, Coin.units_zero]
  | holding hbank hqueue address sound =>
    exact (Kept.holding hbank hqueue address sound).exists_stake sound.represents inTime

theorem Kept.represents {window : Seconds} (k : Kept window c a kept) (now : Seconds) :
    (heldAt a now kept).Represents window
      ⟨lotsAt window kept, (heldAt a now kept).queue.lastUpdate.count⟩ := by
  cases k with
  | nothing => exact Holding.represents_fresh window a now
  | holding hbank hqueue address sound => exact sound.represents

/-- The stake of an address depends on its own records only. -/
theorem Ledger.stakeAt_congr (hbank : banks.peek d a = banks.peek c a)
    (hqueue : queues.peek d a = queues.peek c a) (t : Seconds) :
    ((l.stakeAt a t).runPlain d).1 = ((l.stakeAt a t).runPlain c).1 := by
  simp only [Ledger.stakeAt, Script.runPlain_bind, load_runPlain, hbank]
  cases banks.peek c a with
  | error f => rfl
  | ok bank =>
    cases bank with
    | none => rfl
    | some bank =>
      dsimp only
      rw [Script.runPlain_bind, Script.runPlain_bind, load_runPlain, load_runPlain, hqueue]
      cases queues.peek c a with
      | error f => rfl
      | ok queue => cases queue <;> simp

end

/-- A holding that is debited had enough, and none of it came in later than the debit. -/
theorem Holding.Debited.enough {window : Seconds} {held mid : Holding} {now : Seconds} {x : Coin}
    (debited : held.Debited window x now mid) (sound : held.Sound window)
    (pos : 0 < window.count) (inTime : held.queue.lastUpdate.count ≤ now.count) :
    x.units ≤ lotCoin (held.lots window) ∧ ∀ lot ∈ held.lots window, lot.start ≤ now.count := by
  have sum : lotCoin (held.lots window) = held.bank.balance.units := sound.represents.sum_eq
  have left := debited.balance_eq
  exact ⟨by omega, fun lot hlot => Int.le_trans (sound.begun pos lot hlot) inTime⟩

/-! ## What a transfer does -/

section

variable {l : Ledger} {now : Seconds} {x : Coin} {c d e : Contents} {f r : Address}
  (vested : Vested l.vesting.window c) (paid : Step l now (.debit f x) c d)
  (received : Step l now (.credit r x) d e)

include vested paid received

/-- Coin that is sent to its own address gains no stake, and the balance stays. -/
theorem transfer_within (same : r = f) :
    (∃ bank bank', banks.peek c f = .ok bank ∧ banks.peek e f = .ok bank' ∧
      balanceOf bank' = balanceOf bank) ∧
    ∀ t : Seconds, now.count ≤ t.count →
      ∃ before after, (l.stakeAt f t).runPlain c = (.ok before, c) ∧
        (l.stakeAt f t).runPlain e = (.ok after, e) ∧ after.units ≤ before.units := by
  subst same
  obtain ⟨kept, k⟩ := vested r
  obtain ⟨held, mid, rfl, debited, inTime, rfl⟩ := paid.debit_kept k
  have address := k.address_debited debited
  obtain ⟨last, credited, inTime', rfl⟩ :=
    received.credit_kept (Kept.putHolding_self (c := c) address debited.sound)
  have k' := Kept.putHolding_self (c := putHolding c r mid)
    (credited.address_eq.trans address) credited.sound
  refine ⟨⟨_, _, k.peek_eq.1, k'.peek_eq.1, ?_⟩, fun t later => ?_⟩
  · have out := debited.balance_eq
    have back := credited.balance_eq
    simp only [balanceOf, heldAt, Option.map_some, Option.getD_some] at back ⊢
    omega
  · obtain ⟨enough, begun⟩ := debited.enough k.sound l.window_pos inTime
    obtain ⟨before, hbefore, units⟩ := k.exists_stake k.sound.represents (inTime.trans later)
    have stands := (k.sound.represents.debited inTime debited).credited inTime' credited
    have later' : last.queue.lastUpdate.count ≤ t.count := by rwa [credited.lastUpdate_eq]
    obtain ⟨after, hafter, units'⟩ := k'.exists_stake stands later'
    refine ⟨before, after, hbefore, hafter, ?_⟩
    rw [units, units']
    exact History.stake_moved_within enough begun

/-- Coin that is sent to another address gains at most what two roundings make of it, and both
balances together stay. -/
theorem transfer_between (other : r ≠ f) :
    (∃ bank bank' there there', banks.peek c f = .ok bank ∧ banks.peek e f = .ok bank' ∧
      banks.peek c r = .ok there ∧ banks.peek e r = .ok there' ∧
      balanceOf bank' + balanceOf there' = balanceOf bank + balanceOf there) ∧
    ∀ t : Seconds, now.count ≤ t.count →
      ∃ before after before' after', (l.stakeAt f t).runPlain c = (.ok before, c) ∧
        (l.stakeAt f t).runPlain e = (.ok after, e) ∧
        (l.stakeAt r t).runPlain c = (.ok before', c) ∧
        (l.stakeAt r t).runPlain e = (.ok after', e) ∧
        after.units + after'.units ≤ before.units + before'.units + 1 := by
  obtain ⟨kept, k⟩ := vested f
  obtain ⟨there, k'⟩ := vested r
  obtain ⟨held, mid, rfl, debited, inTime, rfl⟩ := paid.debit_kept k
  have address := k.address_debited debited
  obtain ⟨last, credited, inTime', rfl⟩ :=
    received.credit_kept (k'.putHolding_of_ne other address)
  have address' := k'.address_credited credited
  have m := (Kept.putHolding_self (c := c) address debited.sound).putHolding_of_ne
    (Ne.symm other) address'
  have m' := Kept.putHolding_self (c := putHolding c f mid) address' credited.sound
  refine ⟨⟨_, _, _, _, k.peek_eq.1, m.peek_eq.1, k'.peek_eq.1, m'.peek_eq.1, ?_⟩, fun t later => ?_⟩
  · have out := debited.balance_eq
    have came := credited.balance_eq
    rw [balance_heldAt] at came
    simp only [balanceOf, Option.map_some, Option.getD_some] at came ⊢
    omega
  · obtain ⟨enough, begun⟩ := debited.enough k.sound l.window_pos inTime
    obtain ⟨before, hbefore, units⟩ := k.exists_stake k.sound.represents (inTime.trans later)
    obtain ⟨before', hbefore', units'⟩ := k'.exists_stake_lotsAt (inTime'.trans later)
    have later₁ : mid.queue.lastUpdate.count ≤ t.count := by rwa [debited.lastUpdate_eq]
    have later₂ : last.queue.lastUpdate.count ≤ t.count := by rwa [credited.lastUpdate_eq]
    obtain ⟨after, hafter, left⟩ :=
      m.exists_stake (k.sound.represents.debited inTime debited) later₁
    obtain ⟨after', hafter', grown⟩ :=
      m'.exists_stake ((k'.represents now).credited inTime' credited) later₂
    refine ⟨before, after, before', after', hbefore, hafter, hbefore', hafter', ?_⟩
    rw [units, units', left, grown]
    exact History.stake_moved_between l.window_pos enough begun _

/-- Other addresses are not concerned. -/
theorem transfer_elsewhere {a : Address} (hf : a ≠ f) (hr : a ≠ r) (t : Seconds) :
    ((l.stakeAt a t).runPlain e).1 = ((l.stakeAt a t).runPlain c).1 := by
  obtain ⟨kept, k⟩ := vested a
  obtain ⟨keptFrom, kf⟩ := vested f
  obtain ⟨there, kr⟩ := (paid.vested vested).1 r
  obtain ⟨held, mid, rfl, debited, -, rfl⟩ := paid.debit_kept kf
  obtain ⟨last, credited, -, rfl⟩ := received.credit_kept kr
  have k' := (k.putHolding_of_ne hf (kf.address_debited debited)).putHolding_of_ne hr
    (kr.address_credited credited)
  exact Ledger.stakeAt_congr (k'.peek_eq.1.trans k.peek_eq.1.symm)
    (k'.peek_eq.2.trans k.peek_eq.2.symm) t

end

/-- An accepted transfer after any run from an empty store debits the address of its sender and
credits the address that its receiver resolves to. From then on, if these are one address, it has at
most the stake that it would have had. If they are two, they have together at most one unit of stake
more than they would have had, and the same balance. No other address is concerned. -/
theorem Ledger.transfer_mints_nothing (l : Ledger) (requests : List Request) {s : Username}
    {receiver : Receiver} {x : Coin} {memo : String} {now : Seconds} {o : Outcome} {b' : Backend}
    (accepted :
      l.deliver (l.run .empty requests).2 (.transfer s receiver x memo) now = (.ok o, b')) :
    let b := (l.run .empty requests).2
    ∃ f r, (addressOf "transfer" s).runOn b = (.ok f, b) ∧
      (resolve s receiver).runOn b = (.ok r, b) ∧
      (r = f →
        (∃ bank bank', (banks.load f).runOn b = (.ok bank, b) ∧
          (banks.load f).runOn b' = (.ok bank', b') ∧ balanceOf bank' = balanceOf bank) ∧
        ∀ t : Seconds, now.count ≤ t.count → ∃ before after,
          (l.stakeAt f t).runOn b = (.ok before, b) ∧ (l.stakeAt f t).runOn b' = (.ok after, b') ∧
          after.units ≤ before.units) ∧
      (r ≠ f →
        (∃ bank bank' there there', (banks.load f).runOn b = (.ok bank, b) ∧
          (banks.load f).runOn b' = (.ok bank', b') ∧ (banks.load r).runOn b = (.ok there, b) ∧
          (banks.load r).runOn b' = (.ok there', b') ∧
          balanceOf bank' + balanceOf there' = balanceOf bank + balanceOf there) ∧
        ∀ t : Seconds, now.count ≤ t.count → ∃ before after before' after',
          (l.stakeAt f t).runOn b = (.ok before, b) ∧ (l.stakeAt f t).runOn b' = (.ok after, b') ∧
          (l.stakeAt r t).runOn b = (.ok before', b) ∧
          (l.stakeAt r t).runOn b' = (.ok after', b') ∧
          after.units + after'.units ≤ before.units + before'.units + 1) ∧
      ∀ a, a ≠ f → a ≠ r → ∀ t,
        ((l.stakeAt a t).runOn b').1 = ((l.stakeAt a t).runOn b).1 := by
  intro b
  have vested : Vested l.vesting.window b.contents :=
    (run_onward Backend.reliable_empty (vested_empty l.vesting.window) requests).1
  have reliable : b.Reliable := run_reliable Backend.reliable_empty requests
  obtain ⟨-, run, still⟩ := deliver_ok reliable accepted
  clear_value b
  cases Message.effect_of_script run with
  | @transfer _ _ _ _ _ _ _ account r hr htarget paid received =>
    have stake {a : Address} {t : Seconds} {answer : Except Failure Coin} :
        (l.stakeAt a t).runPlain b.contents = (answer, b.contents) →
          (l.stakeAt a t).runOn b = (answer, b) :=
      Script.runOn_of_runPlain reliable (l.obeys_stakeAt a t)
    have stake' {a : Address} {t : Seconds} {answer : Except Failure Coin} :
        (l.stakeAt a t).runPlain b'.contents = (answer, b'.contents) →
          (l.stakeAt a t).runOn b' = (answer, b') :=
      Script.runOn_of_runPlain still (l.obeys_stakeAt a t)
    have bank {a : Address} {found : Option Bank} (h : banks.peek b.contents a = .ok found) :
        (banks.load a).runOn b = (.ok found, b) :=
      Script.runOn_of_runPlain reliable (obeys_load banks a) (by rw [load_runPlain, h])
    have bank' {a : Address} {found : Option Bank} (h : banks.peek b'.contents a = .ok found) :
        (banks.load a).runOn b' = (.ok found, b') :=
      Script.runOn_of_runPlain still (obeys_load banks a) (by rw [load_runPlain, h])
    refine ⟨account.address, r,
      Script.runOn_of_runPlain reliable (obeys_addressOf _ s) (addressOf_runPlain hr),
      Script.runOn_of_runPlain reliable (obeys_resolve s receiver) (resolve_runPlain htarget),
      fun same => ?_, fun other => ?_, fun a hf hr' t => ?_⟩
    · obtain ⟨⟨b₁, b₂, h₁, h₂, stays⟩, stakes⟩ := transfer_within vested paid received same
      refine ⟨⟨b₁, b₂, bank h₁, bank' h₂, stays⟩, fun t later => ?_⟩
      obtain ⟨s₁, s₂, g₁, g₂, le⟩ := stakes t later
      exact ⟨s₁, s₂, stake g₁, stake' g₂, le⟩
    · obtain ⟨⟨b₁, b₂, b₃, b₄, h₁, h₂, h₃, h₄, sum⟩, stakes⟩ :=
        transfer_between vested paid received other
      refine ⟨⟨b₁, b₂, b₃, b₄, bank h₁, bank' h₂, bank h₃, bank' h₄, sum⟩, fun t later => ?_⟩
      obtain ⟨s₁, s₂, s₃, s₄, g₁, g₂, g₃, g₄, le⟩ := stakes t later
      exact ⟨s₁, s₂, s₃, s₄, stake g₁, stake' g₂, stake g₃, stake' g₄, le⟩
    · rw [Script.runOn_of_looks still (l.obeys_stakeAt a t),
        Script.runOn_of_looks reliable (l.obeys_stakeAt a t)]
      exact transfer_elsewhere vested paid received hf hr' t

/-- An account holds 5 coins and sends 2 and a unit on after half a week. Half of what stays had
become stake, and of what was sent nothing has. -/
theorem Ledger.transfer_mints_nothing_half :
    let l : Ledger := ⟨.standard, by decide⟩
    let key := "8a88e3dd7409f195fd52db2d3cba5d72ca6709bf1d94121bf3748801b40f6f5c"
    let alice : Username := ⟨"alice", by decide⟩
    let owned : Address := ⟨"34750f98bd59fcfc946da45aaabe933be154a4b5", by decide⟩
    let x : Address := ⟨"x", by decide⟩
    let half : Seconds := ⟨302400, by decide, by decide⟩
    let requests : List Request := [.start ⟨.zero, [⟨alice, key, "5"⟩]⟩]
    let m : Message := .transfer alice ⟨none, some x⟩ ⟨200001, by decide⟩ ""
    let b := (l.run .empty requests).2
    let sent := l.deliver b m half
    sent.1 = .ok .done ∧ ((l.stakeAt owned half).runOn b).1 = .ok ⟨250000, by decide⟩ ∧
      ((l.stakeAt owned half).runOn sent.2).1 = .ok ⟨149999, by decide⟩ ∧
      ∃ before after before' after', (l.stakeAt owned half).runOn b = (.ok before, b) ∧
        (l.stakeAt owned half).runOn sent.2 = (.ok after, sent.2) ∧
        (l.stakeAt x half).runOn b = (.ok before', b) ∧
        (l.stakeAt x half).runOn sent.2 = (.ok after', sent.2) ∧
        after.units + after'.units ≤ before.units + before'.units + 1 := by
  intro l key alice owned x half requests m b sent
  obtain ⟨accepted, stake, left, source, target⟩ : sent.1 = .ok .done ∧
      ((l.stakeAt owned half).runOn b).1 = .ok ⟨250000, by decide⟩ ∧
      ((l.stakeAt owned half).runOn sent.2).1 = .ok ⟨149999, by decide⟩ ∧
      ((addressOf "transfer" alice).runOn b).1 = .ok owned ∧
      ((resolve alice ⟨none, some x⟩).runOn b).1 = .ok x := by decide +kernel
  have delivered : (sent.1, sent.2) = sent := Prod.mk.eta
  rw [accepted] at delivered
  have mints := transfer_mints_nothing l requests delivered.symm
  extract_lets at mints
  clear_value sent b -- the message is not to be delivered again
  obtain ⟨f, r, hf, hr, -, between, -⟩ := mints
  have hf : owned = f := by
    rw [hf] at source
    exact (Except.ok.inj source).symm
  have hr : x = r := by
    rw [hr] at target
    exact (Except.ok.inj target).symm
  subst hf hr
  exact ⟨accepted, stake, left, (between (by decide)).2 half (Int.le_refl _)⟩

end StakeLedger

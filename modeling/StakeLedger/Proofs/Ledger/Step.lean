import StakeLedger.Proofs.Ledger.Atomic

/-!
# Steps on records

Whatever the ledger does to the records that it keeps comes down to a few kinds of change. An
operation that succeeds makes one or two of them, and no operation changes records in another way.

## Main definitions

* `Move` — what changes. `Step` — when a change can be made, and how it leaves the records.
* `Steps` — changes one after another.
* `Table.putHolding`, `Table.putAccount`, `Table.edited` — the records afterwards.
* `Table.recorded` — what an operation on a holding comes to.

## Main statements

* `Ledger.deposit_runPlain`, `Ledger.withdrawFrom_runPlain` — coin comes in or goes out, or the
  records stay.
* `Ledger.register_eq_ok`, `Ledger.claim_eq_ok`, … — when an operation succeeds,
  and with which changes.
-/

namespace StakeLedger

/-! ## Changes -/

namespace Table

/-- The records with both records of a holding set; its queue is kept under `address`. -/
def putHolding (c : Contents) (address : Address) (h : Holding) : Contents :=
  queues.put (banks.put c h.bank.address h.bank) address h.queue

/-- What an operation on the holding of an address comes to: the records with the new holding, or a
failure and the records as they were. -/
def recorded (c : Contents) (address : Address) :
    Except Failure Holding → Except Failure Unit × Contents
  | .ok h => (.ok (), putHolding c address h)
  | .error f => (.error f, c)

/-- The records with all records of a new account set. -/
def putAccount (c : Contents) (account : Username) (key : PublicKey) (bank : Bank)
    (now : Seconds) : Contents :=
  earnings.put
    (usages.put
      (registrations.put
        (banks.put c bank.address { bank with owner := some account })
        account ⟨account, now, key.address, key.toHex⟩)
      account (.fresh now))
    account .empty

/-- The records with a roster set, if it is to change. -/
def edited (t : Table Username Roster) (c : Contents) (account : Username) (changes : Bool)
    (r : Roster) : Contents :=
  if changes then t.put c account r else c

/-- A roster that is edited leaves the other records as they were. -/
@[simp] theorem peek_edited_of_ne {ν ρ : Type} {t : Table Username Roster} {account : Username}
    {s : Table ν ρ} {name : ν} (h : s.key name ≠ t.key account) (c : Contents) (changes : Bool)
    (r : Roster) : s.peek (t.edited c account changes r) name = s.peek c name := by
  cases changes with
  | false => rfl
  | true => exact peek_put_of_ne h c r

end Table

/-- A change of the records of a ledger. -/
inductive Move where
  | credit (address : Address) (amount : Coin)
  | debit (address : Address) (amount : Coin)
  | enrol (account : Username) (key : PublicKey)
  | meter (account : Username) (usage : Usage)
  | earn (account : Username) (before after : Earnings)
  | followers (account : Username) (roster : Roster)
  | following (account : Username) (roster : Roster)

open Table in
/-- When a change can be made at `now`, and the records before and after it. -/
inductive Step (l : Ledger) (now : Seconds) : Move → Contents → Contents → Prop
  | credit {c : Contents} {a : Address} {x : Coin} {bank : Option Bank}
    {queue : Option PendingQueue} {h : Holding} (hbank : banks.peek c a = .ok bank)
    (hqueue : queues.peek c a = .ok queue)
    (hadd : (l.vesting.add ⟨bank.getD (.empty a), queue.getD (.empty now)⟩ x now).result = .ok h) :
    Step l now (.credit a x) c (putHolding c a h)
  | debit {c : Contents} {a : Address} {x : Coin} {h h' : Holding}
    (hbank : banks.peek c a = .ok (some h.bank)) (hqueue : queues.peek c a = .ok (some h.queue))
    (hwithdraw : (Vesting.withdraw h x now).result = .ok h') :
    Step l now (.debit a x) c (putHolding c a h')
  | enrol {c : Contents} {u : Username} {key : PublicKey} {bank : Bank}
    (hnew : registrations.peek c u = .ok none) (hbank : banks.peek c key.address = .ok (some bank))
    (howner : bank.owner = none) (hfee : l.parameters.registerFee.units ≤ bank.balance.units) :
    Step l now (.enrol u key) c (putAccount c u key bank now)
  | meter {c : Contents} {u : Username} {usage usage' : Usage}
    (husage : usages.peek c u = .ok (some usage)) :
    Step l now (.meter u usage') c (usages.put c u usage')
  | earn {c : Contents} {u : Username} {e e' : Earnings}
    (hearnings : earnings.peek c u = .ok (some e)) :
    Step l now (.earn u e e') c (earnings.put c u e')
  | followers {c : Contents} {u : Username} {r : Roster} :
    Step l now (.followers u r) c (followers.put c u r)
  | following {c : Contents} {u : Username} {r : Roster} :
    Step l now (.following u r) c (following.put c u r)

/-- Coin that comes in is something. -/
theorem Vesting.add_pos {v : Vesting} {h h' : Holding} {x : Coin} {now : Seconds}
    (accepted : (v.add h x now).result = .ok h') : 0 < x.units := by
  by_contra none
  have zero : x.isZero = true := Coin.isZero_iff.2 (by omega)
  rw [add, if_pos zero] at accepted
  cases accepted

theorem Step.credit_pos {l : Ledger} {now : Seconds} {a : Address} {x : Coin} {c d : Contents}
    (h : Step l now (.credit a x) c d) : 0 < x.units := by
  cases h with
  | credit _ _ hadd => exact Vesting.add_pos hadd

/-- Changes one after another. -/
inductive Steps (l : Ledger) (now : Seconds) : List Move → Contents → Contents → Prop
  | done (c : Contents) : Steps l now [] c c
  | step {move : Move} {rest : List Move} {c d e : Contents} (first : Step l now move c d)
    (later : Steps l now rest d e) : Steps l now (move :: rest) c e

namespace Steps

variable {l : Ledger} {now : Seconds}

theorem one {move : Move} {c d : Contents} (h : Step l now move c d) : Steps l now [move] c d :=
  .step h (.done d)

theorem trans {moves more : List Move} {c d e : Contents} (first : Steps l now moves c d)
    (later : Steps l now more d e) : Steps l now (moves ++ more) c e := by
  induction first with
  | done c => exact later
  | step first rest ih => exact .step first (ih later)

/-- What every change preserves, changes one after another preserve. -/
theorem preserves {I : Contents → Prop}
    (step : ∀ {move c d}, Step l now move c d → I c → I d) {moves : List Move} {c d : Contents}
    (h : Steps l now moves c d) (holds : I c) : I d := by
  induction h with
  | done c => exact holds
  | step first rest ih => exact ih (step first holds)

end Steps

/-! ## Coin that moves -/

namespace Ledger

open Table

/-- Coin that comes in changes one holding, or nothing. -/
theorem deposit_runPlain {l : Ledger} {a : Address} {x : Coin} {now : Seconds} {c : Contents}
    {bank : Option Bank} {queue : Option PendingQueue} (hbank : banks.peek c a = .ok bank)
    (hqueue : queues.peek c a = .ok queue) :
    (l.deposit a x now).runPlain c = recorded c a
      (l.vesting.add ⟨bank.getD (.empty a), queue.getD (.empty now)⟩ x now).result := by
  simp only [deposit, Script.runPlain_bind, load_runPlain, hbank, hqueue, Script.ofExcept_runPlain]
  generalize (l.vesting.add _ x now).result = result
  cases result <;> rfl

theorem requireHolding_runPlain_eq_ok {during : Activity} {a : Address} {h : Holding}
    {c c' : Contents} :
    (requireHolding during a).runPlain c = (.ok h, c') ↔
      banks.peek c a = .ok (some h.bank) ∧ queues.peek c a = .ok (some h.queue) ∧ c = c' := by
  simp only [requireHolding, Script.bind_runPlain_eq_ok, require_runPlain_eq_ok]
  constructor
  · rintro ⟨bank, d, ⟨hbank, rfl⟩, queue, d', ⟨hqueue, rfl⟩, same⟩
    cases same
    exact ⟨hbank, hqueue, rfl⟩
  · rintro ⟨hbank, hqueue, rfl⟩
    exact ⟨h.bank, c, ⟨hbank, rfl⟩, h.queue, c, ⟨hqueue, rfl⟩, rfl⟩

theorem requireHolding_runPlain_of_none {during : Activity} {a : Address} {c : Contents}
    (hbank : banks.peek c a = .ok none) :
    (requireHolding during a).runPlain c =
      (.error (.recordNotFound during "bank" a.text), c) := by
  simp only [requireHolding, require, Script.runPlain_bind, load_runPlain, hbank]
  rfl

/-- Coin that goes out changes one holding, or nothing. -/
theorem withdrawFrom_runPlain {a : Address} {x : Coin} {now : Seconds} {c : Contents} {h : Holding}
    (hbank : banks.peek c a = .ok (some h.bank)) (hqueue : queues.peek c a = .ok (some h.queue)) :
    (withdrawFrom a x now).runPlain c = recorded c a (Vesting.withdraw h x now).result := by
  have found : (requireHolding "withdraw" a).runPlain c = (.ok h, c) :=
    requireHolding_runPlain_eq_ok.2 ⟨hbank, hqueue, rfl⟩
  simp only [withdrawFrom, Script.runPlain_bind, found, Script.ofExcept_runPlain]
  generalize (Vesting.withdraw h x now).result = result
  cases result <;> rfl

/-- Bringing an address up to date changes one holding, or nothing. -/
theorem advance_runPlain {a : Address} {now : Seconds} {c : Contents} {h : Holding}
    (hbank : banks.peek c a = .ok (some h.bank)) (hqueue : queues.peek c a = .ok (some h.queue)) :
    (advance a now).runPlain c = recorded c a (Vesting.advance h now) := by
  have found : (requireHolding "advance stake" a).runPlain c = (.ok h, c) :=
    requireHolding_runPlain_eq_ok.2 ⟨hbank, hqueue, rfl⟩
  simp only [advance, Script.runPlain_bind, found, Script.ofExcept_runPlain]
  generalize Vesting.advance h now = result
  cases result <;> rfl

/-- The stake of an address is that of the holding kept there. -/
theorem stakeAt_runPlain {l : Ledger} {a : Address} {now : Seconds} {c : Contents} {h : Holding}
    (hbank : banks.peek c a = .ok (some h.bank)) (hqueue : queues.peek c a = .ok (some h.queue)) :
    (l.stakeAt a now).runPlain c = (l.vesting.stakeAt h.bank h.queue now, c) := by
  simp only [stakeAt, Script.runPlain_bind, load_runPlain, hbank, hqueue, Script.ofExcept_runPlain]

theorem stakeAt_runPlain_of_none {l : Ledger} {a : Address} {now : Seconds} {c : Contents}
    (hbank : banks.peek c a = .ok none) : (l.stakeAt a now).runPlain c = (.ok .zero, c) := by
  simp only [stakeAt, Script.runPlain_bind, load_runPlain, hbank, Script.pure_runPlain]

theorem deposit_runPlain_eq_ok {l : Ledger} {a : Address} {x : Coin} {now : Seconds}
    {c c' : Contents} :
    (l.deposit a x now).runPlain c = (.ok (), c') ↔ Step l now (.credit a x) c c' := by
  constructor
  · intro run
    have steps := run
    simp only [deposit, Script.bind_runPlain_eq_ok, load_runPlain, Prod.mk.injEq] at steps
    obtain ⟨bank, d, ⟨hbank, rfl⟩, queue, d', ⟨hqueue, rfl⟩, h, d'', hadd, hsave⟩ := steps
    rw [Script.ofExcept_runPlain, Prod.mk.injEq] at hadd
    obtain ⟨hadd, rfl⟩ := hadd
    cases hsave
    exact .credit hbank hqueue hadd
  · rintro ⟨hbank, hqueue, hadd⟩
    rw [deposit_runPlain hbank hqueue, hadd]
    rfl

theorem withdrawFrom_runPlain_eq_ok {l : Ledger} {a : Address} {x : Coin} {now : Seconds}
    {c c' : Contents} :
    (withdrawFrom a x now).runPlain c = (.ok (), c') ↔ Step l now (.debit a x) c c' := by
  constructor
  · intro run
    simp only [withdrawFrom, Script.bind_runPlain_eq_ok, requireHolding_runPlain_eq_ok] at run
    obtain ⟨h, d, ⟨hbank, hqueue, rfl⟩, h', d', hwithdraw, hsave⟩ := run
    rw [Script.ofExcept_runPlain, Prod.mk.injEq] at hwithdraw
    obtain ⟨hwithdraw, rfl⟩ := hwithdraw
    cases hsave
    exact .debit hbank hqueue hwithdraw
  · rintro (_ | ⟨hbank, hqueue, hwithdraw⟩)
    rw [withdrawFrom_runPlain hbank hqueue, hwithdraw]
    rfl

/-! ## Accounts -/

theorem register_eq_ok {l : Ledger} {u : Username} {key : PublicKey} {now : Seconds}
    {c c' : Contents} {a : Address} (run : (l.register u key now).runPlain c = (.ok a, c')) :
    Step l now (.enrol u key) c c' ∧ a = key.address := by
  simp only [register, isRegistered, Script.bind_runPlain_eq_ok, load_runPlain, Prod.mk.injEq,
    Script.pure_runPlain] at run
  obtain ⟨known, d, ⟨found, d', ⟨hfound, rfl⟩, same, rfl⟩, run⟩ := run
  cases same
  cases found with
  | some r => cases run
  | none =>
    simp only [Option.isSome_none, Bool.false_eq_true, if_false, Script.bind_runPlain_eq_ok,
      load_runPlain, Prod.mk.injEq] at run
    obtain ⟨bank, d, ⟨hbank, rfl⟩, run⟩ := run
    cases bank with
    | none => cases run
    | some bank =>
      dsimp only at run
      split at run
      · cases run
      · rename_i howner
        split at run
        · cases run
        · rename_i hfee
          cases run
          have step : Step l now (.enrol u key) c (putAccount c u key bank now) :=
            .enrol hfound hbank howner (Nat.le_of_not_lt hfee)
          exact ⟨step, rfl⟩

/-- A message that is paid for sets the usage that the throttle gives. -/
theorem charge_eq_ok {l : Ledger} {u : Username} {ratio : Ratio} {now : Seconds} {c c' : Contents}
    {left : Coin} (run : (l.charge u ratio now).runPlain c = (.ok left, c')) :
    ∃ usage ceiling usage', usages.peek c u = .ok (some usage) ∧
      (l.stakeOf u now).runPlain c = (.ok ceiling, c) ∧
      l.throttle.charge u usage ceiling ratio now = (usage', .ok left) ∧
      c' = usages.put c u usage' := by
  simp only [charge, Script.bind_runPlain_eq_ok, require_runPlain_eq_ok] at run
  obtain ⟨usage, d, ⟨husage, rfl⟩, ceiling, d, hstake, run⟩ := run
  have same := (l.obeys_stakeOf u now).runPlain_of_looks c
  rw [hstake] at same
  subst same
  generalize hcharge : l.throttle.charge u usage ceiling ratio now = charged at run
  obtain ⟨usage', answer⟩ := charged
  simp only [save_runPlain, Script.ofExcept_runPlain, Prod.mk.injEq] at run
  obtain ⟨_, _, ⟨-, rfl⟩, rfl, rfl⟩ := run
  exact ⟨usage, ceiling, usage', husage, hstake, hcharge, rfl⟩

theorem nextSequence_eq_ok {u : Username} {c c' : Contents} {n : Word64}
    (run : (nextSequence u).runPlain c = (.ok n, c')) :
    ∃ usage, usages.peek c u = .ok (some usage) ∧ n.val = usage.sequence.val + 1 ∧
      c' = usages.put c u { usage with sequence := n } := by
  simp only [nextSequence, Script.bind_runPlain_eq_ok, require_runPlain_eq_ok] at run
  obtain ⟨usage, d, ⟨husage, rfl⟩, run⟩ := run
  split at run
  · cases run
  · rename_i number hnumber
    cases run
    exact ⟨usage, husage, Word.ofNat?_eq_some_iff.1 hnumber, rfl⟩

theorem accrue_eq_ok {u : Username} {income reward : Coin} {c c' : Contents}
    (run : (accrue u income reward).runPlain c = (.ok (), c')) :
    ∃ e e', Table.earnings.peek c u = .ok (some e) ∧ e.accrue income reward = .ok e' ∧
      c' = Table.earnings.put c u e' := by
  simp only [accrue, Script.bind_runPlain_eq_ok, require_runPlain_eq_ok, Script.ofExcept_runPlain,
    Prod.mk.injEq] at run
  obtain ⟨e, d, ⟨hearnings, rfl⟩, e', d, ⟨haccrue, rfl⟩, run⟩ := run
  cases run
  exact ⟨e, e', hearnings, haccrue, rfl⟩

theorem accrueFriction_eq_ok {u : Username} {amount : Coin} {c c' : Contents}
    (run : (accrueFriction u amount).runPlain c = (.ok (), c')) :
    ∃ e e', Table.earnings.peek c u = .ok (some e) ∧ e.accrueFriction amount = .ok e' ∧
      c' = Table.earnings.put c u e' := by
  simp only [accrueFriction, Script.bind_runPlain_eq_ok, require_runPlain_eq_ok,
    Script.ofExcept_runPlain, Prod.mk.injEq] at run
  obtain ⟨e, d, ⟨hearnings, rfl⟩, e', d, ⟨haccrue, rfl⟩, run⟩ := run
  cases run
  exact ⟨e, e', hearnings, haccrue, rfl⟩

/-- A claim pays all that is unclaimed, unless there is nothing. -/
theorem claim_eq_ok {l : Ledger} {u : Username} {now : Seconds} {c c' : Contents} {x : Coin}
    (run : (l.claim u now).runPlain c = (.ok x, c')) :
    ∃ e r, Table.earnings.peek c u = .ok (some e) ∧ registrations.peek c u = .ok (some r) ∧
      x = e.unclaimed ∧ (e.unclaimed.units = 0 ∧ c' = c ∨
        ∃ d, Step l now (.credit r.address e.unclaimed) c d ∧
          c' = Table.earnings.put d u e.claimed) := by
  simp only [claim, Script.bind_runPlain_eq_ok, require_runPlain_eq_ok,
    addressOf_runPlain_eq_ok] at run
  obtain ⟨e, d, ⟨hearnings, rfl⟩, a, d, ⟨r, hr, rfl, rfl⟩, run⟩ := run
  split at run
  · rename_i zero
    cases run
    exact ⟨e, r, hearnings, hr, rfl, .inl ⟨Coin.isZero_iff.1 zero, rfl⟩⟩
  · simp only [Script.bind_runPlain_eq_ok, save_runPlain, Prod.mk.injEq] at run
    obtain ⟨_, d, hdeposit, _, _, ⟨-, rfl⟩, run⟩ := run
    cases run
    exact ⟨e, r, hearnings, hr, rfl, .inr ⟨d, deposit_runPlain_eq_ok.1 hdeposit, rfl⟩⟩

theorem editRosters_eq_ok {during : Activity} {u v : Username} {p q : Roster → Bool}
    {edit edit' : Roster → Except Failure Roster} {c c' : Contents}
    (run : (editRosters during u v p q edit edit').runPlain c = (.ok (), c')) :
    ∃ r s theirs own theirs' own', registrations.peek c u = .ok (some r) ∧
      registrations.peek c v = .ok (some s) ∧ followers.peek c v = .ok theirs ∧
      following.peek c u = .ok own ∧ edit (theirs.getD .empty) = .ok theirs' ∧
      edit' (own.getD .empty) = .ok own' ∧
      c' = following.edited (followers.edited c v (p (theirs.getD .empty)) theirs') u
        (q (own.getD .empty)) own' := by
  simp only [editRosters, Script.bind_runPlain_eq_ok, require_runPlain_eq_ok,
    loadRoster_runPlain_eq_ok, Script.ofExcept_runPlain, Prod.mk.injEq] at run
  obtain ⟨r, d, ⟨hr, rfl⟩, s, d, ⟨hs, rfl⟩, _, d, ⟨theirs, htheirs, rfl, rfl⟩, _, d,
    ⟨own, hown, rfl, rfl⟩, theirs', d, ⟨hedit, rfl⟩, own', d, ⟨hedit', rfl⟩, run⟩ := run
  refine ⟨r, s, theirs, own, theirs', own', hr, hs, htheirs, hown, hedit, hedit', ?_⟩
  generalize p (theirs.getD .empty) = listed at run ⊢
  generalize q (own.getD .empty) = known at run ⊢
  cases listed <;> cases known <;> cases run <;> rfl

end Ledger

end StakeLedger

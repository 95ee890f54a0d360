import StakeLedger.Proofs.Ledger.Holdings
import StakeLedger.Proofs.Ledger.Prepared

/-!
# Operations straight on a store

An operation can also be used without a buffer, straight on a store. If it is refused there, all
records are as they were before, with one exception: a transfer that has been paid by its sender and
that its receiver cannot take stays paid.

## Main definitions

* `Operation`, `Deed`, `Ledger.performAll` — operations and requests, and how they are used one
  after another.
* `Tidy` — usages are stored as they are written.
* `Operation.Strands` — a transfer that its sender can pay and its receiver cannot take.

## Main statements

* `Operation.error_cases` — what an operation that fails leaves behind.
* `Ledger.performAll_vested_tidy` — what is kept after any deeds.
* `Operation.unchanged_iff` — when a refused operation changes nothing.
-/

namespace StakeLedger

/-- An operation on a ledger: what a message does, without its check, or one for which there is no
message. -/
inductive Operation where
  | message (m : Message)
  | withdrawFrom (address : Address) (amount : Coin)
  | advance (address : Address)
  | register (account : Username) (key : PublicKey)

def Operation.script (l : Ledger) (now : Seconds) : Operation → Script Outcome
  | message m => m.script l now
  | withdrawFrom address amount => do
    Ledger.withdrawFrom address amount now
    return .done
  | advance address => do
    Ledger.advance address now
    return .done
  | register account key => do
    return .accountCreated (← l.register account key now)

/-- What is done with a ledger: it serves a request, or one of its operations is used straight on
its store. -/
inductive Deed where
  | request (r : Request)
  | direct (op : Operation) (now : Seconds)

namespace Ledger

def perform (l : Ledger) (b : Backend) : Deed → Backend
  | .request r => (l.serve b r).2
  | .direct op now => ((op.script l now).runOn b).2

/-- The store after deeds one after another. -/
def performAll (l : Ledger) (b : Backend) : List Deed → Backend
  | [] => b
  | deed :: rest => l.performAll (l.perform b deed) rest

end Ledger

open Table

/-! ## Usages as they are written -/

/-- Every stored usage is in the form that usages are written in, with nothing behind it. -/
def Tidy (c : Contents) : Prop :=
  ∀ u bytes, c.get? (usages.key u) = some bytes → ∃ usage, bytes = usages.codec.write usage

theorem tidy_empty : Tidy .empty := nofun

theorem Tidy.of_get?_eq {c d : Contents} (tidy : Tidy c)
    (same : ∀ u, d.get? (usages.key u) = c.get? (usages.key u)) : Tidy d :=
  fun u bytes h => tidy u bytes ((same u).symm.trans h)

theorem Tidy.put {c : Contents} (tidy : Tidy c) (u : Username) (usage : Usage) :
    Tidy (usages.put c u usage) := by
  intro v bytes h
  rw [Table.put, Contents.get?_insert] at h
  split at h
  · cases h
    exact ⟨usage, rfl⟩
  · exact tidy v bytes h

/-- Saving a stored usage again changes nothing. -/
theorem Tidy.put_self {c : Contents} (tidy : Tidy c) {u : Username} {usage : Usage}
    (stored : usages.peek c u = .ok (some usage)) : usages.put c u usage = c := by
  apply Contents.ext_get?
  intro key
  rw [Table.put, Contents.get?_insert]
  split
  · rename_i same
    subst same
    cases found : c.get? (usages.key u) with
    | none =>
      rw [peek_eq_none_iff.2 found] at stored
      cases stored
    | some bytes =>
      obtain ⟨old, rfl⟩ := tidy u bytes found
      rw [peek_of_decode found (Codec.reads_usage old).decode] at stored
      cases stored
      rfl
  · rfl

theorem Tidy.putHolding {c : Contents} (tidy : Tidy c) (a : Address) (h : Holding) :
    Tidy (putHolding c a h) :=
  tidy.of_get?_eq fun u => by simp [Table.putHolding]

theorem Step.tidy {l : Ledger} {now : Seconds} {move : Move} {c d : Contents}
    (h : Step l now move c d) (tidy : Tidy c) : Tidy d := by
  cases h with
  | credit | debit => exact tidy.putHolding _ _
  | @enrol c u key bank =>
    have renamed : Tidy (registrations.put
        (banks.put c bank.address { bank with owner := some u }) u
        ⟨u, now, key.address, key.toHex⟩) :=
      tidy.of_get?_eq fun v => by simp
    exact (renamed.put u (.fresh now)).of_get?_eq fun v => by simp [putAccount]
  | meter => exact tidy.put _ _
  | earn | followers | following => exact tidy.of_get?_eq fun u => by simp

/-! ## Operations that fail -/

theorem Ledger.period_pos (l : Ledger) : 0 < l.throttle.period.count := by
  have sound := l.sound
  unfold Parameters.defect? at sound
  split at sound
  · cases sound
  · split at sound
    · cases sound
    · rename_i positive
      exact Int.lt_of_not_ge positive

/-- Coin that goes out is something. -/
theorem Vesting.withdraw_pos {h h' : Holding} {x : Coin} {now : Seconds}
    (accepted : (withdraw h x now).result = .ok h') : 0 < x.units := by
  by_contra none
  have zero : x.isZero = true := Coin.isZero_iff.2 (by omega)
  rw [withdraw, if_pos zero] at accepted
  cases accepted

namespace Ledger

variable {l : Ledger} {now : Seconds} {c c' : Contents} {f : Failure} {x : Coin}

/-- A charge that fails has set the usage that the throttle gives, or nothing. -/
theorem charge_eq_error {u : Username} {ratio : Ratio}
    (run : (l.charge u ratio now).runPlain c = (.error f, c')) :
    c' = c ∨ ∃ usage ceiling usage', usages.peek c u = .ok (some usage) ∧
      l.throttle.charge u usage ceiling ratio now = (usage', .error f) ∧
      c' = usages.put c u usage' := by
  rw [charge, Script.bind_runPlain_eq_error] at run
  rcases run with early | ⟨usage, d, hrequire, rest⟩
  · exact .inl (Script.Obeys.eq_of_runPlain (obeys_require usages _ u) early)
  obtain ⟨husage, rfl⟩ := require_runPlain_eq_ok.1 hrequire
  rw [Script.bind_runPlain_eq_error] at rest
  rcases rest with early | ⟨ceiling, d, hstake, last⟩
  · exact .inl ((l.obeys_stakeOf u now).eq_of_runPlain early)
  obtain rfl := (l.obeys_stakeOf u now).eq_of_runPlain hstake
  generalize hcharge : l.throttle.charge u usage ceiling ratio now = charged at last
  obtain ⟨usage', answer⟩ := charged
  simp only [Script.runPlain_bind, save_runPlain, Script.ofExcept_runPlain, Prod.mk.injEq] at last
  obtain ⟨rfl, rfl⟩ := last
  exact .inr ⟨usage, ceiling, usage', husage, hcharge, rfl⟩

/-- A transfer that fails has changed nothing, or its sender has paid and the deposit was
refused. -/
theorem transfer_eq_error {s : Username} {receiver : Receiver}
    (run : (l.transfer s receiver x now).runPlain c = (.error f, c')) :
    c' = c ∨ ∃ r target, registrations.peek c s = .ok (some r) ∧ Resolves c receiver target ∧
      Step l now (.debit r.address x) c c' ∧
      (l.deposit target x now).runPlain c' = (.error f, c') := by
  rw [transfer, Script.bind_runPlain_eq_error] at run
  rcases run with early | ⟨source, d, haddress, rest⟩
  · exact .inl (Script.Obeys.eq_of_runPlain (obeys_addressOf _ s) early)
  obtain ⟨r, hr, rfl, rfl⟩ := addressOf_runPlain_eq_ok.1 haddress
  rw [Script.bind_runPlain_eq_error] at rest
  rcases rest with early | ⟨target, d, hresolve, moving⟩
  · exact .inl (Script.Obeys.eq_of_runPlain (obeys_resolve s receiver) early)
  obtain ⟨htarget, rfl⟩ := resolve_eq_ok hresolve
  rw [Script.bind_runPlain_eq_error] at moving
  rcases moving with unpaid | ⟨_, mid, paid, refused⟩
  · exact .inl ((prepared_withdrawFrom r.address x now).runPlain_error unpaid)
  · obtain rfl := (l.prepared_deposit target x now).runPlain_error refused
    exact .inr ⟨r, target, hr, htarget, withdrawFrom_runPlain_eq_ok.1 paid, refused⟩

/-- A deposit of some coin is refused for one of three reasons. -/
theorem deposit_refused {a : Address} {kept : Option Holding} (k : Kept l.vesting.window c a kept)
    (pos : 0 < x.units) (run : (l.deposit a x now).runPlain c = (.error f, c')) :
    now.count < (heldAt a now kept).queue.lastUpdate.count ∨
      0x10000000000000000 ≤ (heldAt a now kept).bank.balance.units + x.units ∨
      0x8000000000000000 ≤ now.count + l.vesting.window.count := by
  have outcome := (k.heldAt_sound now).1.add_cases l.window_pos x now
  rw [deposit_runPlain k.peek_eq.1 k.peek_eq.2, heldAt_eq] at run
  generalize l.vesting.add (heldAt a now kept) x now = attempt at run outcome
  cases outcome with
  | nothing zero => omega
  | early _ early => exact .inl early
  | tooLarge _ _ large => exact .inr large
  | credited => cases run

end Ledger

/-! ## Transfers that strand -/

/-- A transfer that its sender can pay, while the address that it goes to is counted to a later time
already, or would hold too much coin, or the time by which the coin is to mature is out of range. -/
inductive Operation.Strands (l : Ledger) (now : Seconds) (c : Contents) : Operation → Prop
  | transfer {s : Username} {receiver : Receiver} {x : Coin} {memo : String} {r : Registration}
    {target : Address} {payer : Holding} {payee : Option Holding}
    (hr : registrations.peek c s = .ok (some r)) (htarget : Resolves c receiver target)
    (hpayer : Kept l.vesting.window c r.address (some payer))
    (hpayee : Kept l.vesting.window c target payee) (pos : 0 < x.units)
    (inTime : payer.queue.lastUpdate.count ≤ now.count)
    (enough : x.units ≤ payer.bank.balance.units)
    (unable : 0x8000000000000000 ≤ now.count + l.vesting.window.count ∨
      target ≠ r.address ∧
        (now.count < (heldAt target now payee).queue.lastUpdate.count ∨
          0x10000000000000000 ≤ (heldAt target now payee).bank.balance.units + x.units)) :
    Strands l now c (.message (.transfer s receiver x memo))

namespace Step

variable {l : Ledger} {now : Seconds} {c d : Contents} {a : Address} {x : Coin}

theorem debit_pos (h : Step l now (.debit a x) c d) : 0 < x.units := by
  cases h with
  | debit _ _ hwithdraw => exact Vesting.withdraw_pos hwithdraw

/-- Coin that goes out leaves other records than before. -/
theorem debit_ne {held : Holding} (k : Kept l.vesting.window c a (some held))
    (h : Step l now (.debit a x) c d) : d ≠ c := by
  have pos := h.debit_pos
  obtain ⟨_, h', same, debited, -, rfl⟩ := h.debit_kept k
  cases same
  intro unchanged
  have after := (Kept.putHolding_self (c := c) (k.address_debited debited) debited.sound).peek_eq.1
  rw [unchanged, k.peek_eq.1] at after
  have balance : held.bank = h'.bank := by simpa using after
  have less := debited.balance_eq
  rw [balance] at less
  omega

/-- What a holding has can be paid out at any time that does not run back. -/
theorem exists_debit {held : Holding} (k : Kept l.vesting.window c a (some held))
    (pos : 0 < x.units) (inTime : held.queue.lastUpdate.count ≤ now.count)
    (enough : x.units ≤ held.bank.balance.units) : ∃ d, Step l now (.debit a x) c d := by
  cases k with
  | holding hbank hqueue address sound =>
    have outcome := sound.withdraw_cases x now
    generalize hattempt : Vesting.withdraw held x now = attempt at outcome
    cases outcome with
    | nothing | early | short => omega
    | debited => exact ⟨_, .debit hbank hqueue (by rw [hattempt]; rfl)⟩

end Step

namespace Ledger

variable {l : Ledger} {now : Seconds} {c c' : Contents} {f : Failure} {x : Coin}

theorem resolve_runPlain {s : Username} {receiver : Receiver} {target : Address}
    (h : Resolves c receiver target) : (resolve s receiver).runPlain c = (.ok target, c) := by
  cases h with
  | account hr => simp only [resolve, Script.runPlain_bind, load_runPlain, hr, Script.pure_runPlain]
  | @fallback account a unknown =>
    cases account with
    | none => rfl
    | some u =>
      simp only [resolve, Script.runPlain_bind, load_runPlain, unknown u rfl, Script.pure_runPlain]

/-- Once its sender can pay, a transfer comes down to the deposit. -/
theorem transfer_runPlain {s : Username} {receiver : Receiver} {r : Registration}
    {target : Address} {mid : Contents} (hr : registrations.peek c s = .ok (some r))
    (htarget : Resolves c receiver target) (paid : Step l now (.debit r.address x) c mid) :
    (l.transfer s receiver x now).runPlain c = (l.deposit target x now).runPlain mid := by
  simp only [transfer, Script.runPlain_bind, addressOf_runPlain hr, resolve_runPlain htarget,
    withdrawFrom_runPlain_eq_ok.2 paid]

/-- A transfer strands if its sender has paid and the deposit is refused. -/
theorem strands_of_refused (vested : Vested l.vesting.window c) {s : Username}
    {receiver : Receiver} {memo : String} {r : Registration} {target : Address}
    (hr : registrations.peek c s = .ok (some r)) (htarget : Resolves c receiver target)
    (paid : Step l now (.debit r.address x) c c')
    (refused : (l.deposit target x now).runPlain c' = (.error f, c')) :
    Operation.Strands l now c (.message (.transfer s receiver x memo)) := by
  have pos := paid.debit_pos
  obtain ⟨kept, k⟩ := vested r.address
  obtain ⟨payee, hpayee⟩ := vested target
  obtain ⟨payer, h', rfl, debited, inTime, rfl⟩ := paid.debit_kept k
  have left := debited.balance_eq
  have address := k.address_debited debited
  refine .transfer hr htarget k hpayee pos inTime (by omega) ?_
  by_cases same : target = r.address
  · -- The sender has just paid itself, so neither the time nor the sum can be the reason.
    subst same
    have own := Kept.putHolding_self (c := c) address debited.sound
    have last := congrArg Seconds.count debited.lastUpdate_eq
    have bound := payer.bank.balance.units_lt
    rcases deposit_refused own pos refused with early | large | late
    · simp only [heldAt, Option.getD_some] at early
      omega
    · simp only [heldAt, Option.getD_some] at large
      omega
    · exact .inl late
  · have other := hpayee.putHolding_of_ne (h := h') same address
    rcases deposit_refused other pos refused with early | large | late
    · exact .inr ⟨same, .inl early⟩
    · exact .inr ⟨same, .inr large⟩
    · exact .inl late

/-- A transfer that strands, and so fails, leaves other records than before. -/
theorem ne_of_strands {op : Operation} (strands : op.Strands l now c)
    (run : (op.script l now).runPlain c = (.error f, c')) : c' ≠ c := by
  obtain ⟨hr, htarget, hpayer, hpayee, pos, inTime, enough, unable⟩ := strands
  obtain ⟨mid, paid⟩ := Step.exists_debit hpayer pos inTime enough
  have refused := Script.answer_runPlain_eq_error.1 run
  rw [transfer_runPlain hr htarget paid] at refused
  obtain rfl := (l.prepared_deposit _ _ now).runPlain_error refused
  exact paid.debit_ne hpayer

end Ledger

/-! ## What operations do to records -/

section

variable {l : Ledger} {now : Seconds} {c c' : Contents}

namespace Operation

/-- All operations but transfers and checks of capacity check before they change. -/
theorem prepared_script (l : Ledger) (now : Seconds) {op : Operation}
    (noTransfer : ∀ s r x memo, op ≠ .message (.transfer s r x memo))
    (noCheck : ∀ u ratio, op ≠ .message (.checkCapacity u ratio)) :
    (op.script l now).Prepared := by
  cases op with
  | message m =>
    exact m.prepared_script l now (fun s r x memo h => noTransfer s r x memo (congrArg message h))
      fun u ratio h => noCheck u ratio (congrArg message h)
  | withdrawFrom a x => exact (Ledger.prepared_withdrawFrom a x now).bind fun _ => .pure _
  | advance a => exact (Ledger.prepared_advance a now).bind fun _ => .pure _
  | register u key => exact (l.prepared_register u key now).bind fun _ => .pure _

/-- An operation that fails has changed nothing, or it is a transfer whose deposit was refused, or a
check of capacity that has set a usage. -/
theorem error_cases {op : Operation} {f : Failure}
    (run : (op.script l now).runPlain c = (.error f, c')) :
    c' = c ∨
      (∃ s receiver x memo r target, op = .message (.transfer s receiver x memo) ∧
        registrations.peek c s = .ok (some r) ∧ Resolves c receiver target ∧
        Step l now (.debit r.address x) c c' ∧
        (l.deposit target x now).runPlain c' = (.error f, c')) ∨
      ∃ u ratio usage ceiling usage', op = .message (.checkCapacity u ratio) ∧
        usages.peek c u = .ok (some usage) ∧
        l.throttle.charge u usage ceiling ratio now = (usage', .error f) ∧
        c' = usages.put c u usage' := by
  by_cases transfer : ∃ s r x memo, op = .message (.transfer s r x memo)
  · obtain ⟨s, receiver, x, memo, rfl⟩ := transfer
    rcases Ledger.transfer_eq_error (Script.answer_runPlain_eq_error.1 run) with
      unchanged | ⟨r, target, stranded⟩
    · exact .inl unchanged
    · exact .inr (.inl ⟨s, receiver, x, memo, r, target, rfl, stranded⟩)
  by_cases check : ∃ u ratio, op = .message (.checkCapacity u ratio)
  · obtain ⟨u, ratio, rfl⟩ := check
    rcases Ledger.charge_eq_error (Script.answer_runPlain_eq_error.1 run) with
      unchanged | ⟨usage, ceiling, usage', charged⟩
    · exact .inl unchanged
    · exact .inr (.inr ⟨u, ratio, usage, ceiling, usage', rfl, charged⟩)
  have prepared := op.prepared_script l now (fun s r x memo h => transfer ⟨s, r, x, memo, h⟩)
    fun u ratio h => check ⟨u, ratio, h⟩
  exact .inl (prepared.runPlain_error run)

/-- An operation that fails leaves the records as changes leave them. -/
theorem steps_of_error {op : Operation} {f : Failure}
    (run : (op.script l now).runPlain c = (.error f, c')) : ∃ moves, Steps l now moves c c' := by
  rcases error_cases run with rfl | ⟨s, receiver, x, memo, r, target, -, -, -, paid, -⟩ |
    ⟨u, ratio, usage, ceiling, usage', -, husage, -, rfl⟩
  · exact ⟨_, .done _⟩
  · exact ⟨_, .one paid⟩
  · exact ⟨_, .one (.meter husage)⟩

/-- An operation that succeeds makes changes, or brings an address up to date. -/
theorem steps_of_ok {op : Operation} {o : Outcome}
    (run : (op.script l now).runPlain c = (.ok o, c')) :
    (∃ moves, Steps l now moves c c') ∨
      ∃ a h h', banks.peek c a = .ok (some h.bank) ∧ queues.peek c a = .ok (some h.queue) ∧
        Vesting.advance h now = .ok h' ∧ c' = putHolding c a h' := by
  cases op with
  | message m =>
    obtain ⟨moves, steps, -⟩ := (m.effect_of_script run).steps
    exact .inl ⟨moves, steps⟩
  | withdrawFrom a x =>
    obtain ⟨_, d, run, last⟩ := Script.bind_runPlain_eq_ok.1 run
    cases last
    exact .inl ⟨_, .one (Ledger.withdrawFrom_runPlain_eq_ok.1 run)⟩
  | advance a =>
    obtain ⟨_, d, run, last⟩ := Script.bind_runPlain_eq_ok.1 run
    cases last
    obtain ⟨h, d, hkept, run⟩ := Script.bind_runPlain_eq_ok.1 run
    obtain ⟨hbank, hqueue, rfl⟩ := Ledger.requireHolding_runPlain_eq_ok.1 hkept
    obtain ⟨h', d, hadvance, run⟩ := Script.bind_runPlain_eq_ok.1 run
    rw [Script.ofExcept_runPlain, Prod.mk.injEq] at hadvance
    obtain ⟨hadvance, rfl⟩ := hadvance
    cases run
    exact .inr ⟨a, h, h', hbank, hqueue, hadvance, rfl⟩
  | register u key =>
    obtain ⟨a, d, run, last⟩ := Script.bind_runPlain_eq_ok.1 run
    cases last
    exact .inl ⟨_, .one (Ledger.register_eq_ok run).1⟩

end Operation

/-- Bringing an address up to date leaves sound holdings. -/
theorem Vested.advance (vested : Vested l.vesting.window c) {a : Address} {h h' : Holding}
    (hbank : banks.peek c a = .ok (some h.bank)) (hqueue : queues.peek c a = .ok (some h.queue))
    (hadvance : Vesting.advance h now = .ok h') :
    Vested l.vesting.window (Table.putHolding c a h') := by
  obtain ⟨kept, k⟩ := vested a
  obtain ⟨queue, hqueue', address, sound⟩ := k.of_bank hbank
  rw [hqueue] at hqueue'
  cases hqueue'
  have inTime : h.queue.lastUpdate.count ≤ now.count := by
    by_contra early
    rw [Holding.Sound.advance_of_early (by omega)] at hadvance
    cases hadvance
  obtain ⟨current, hcurrent, advanced⟩ := sound.advance_eq_ok inTime
  rw [hadvance] at hcurrent
  cases hcurrent
  refine (vested.putHolding (advanced.address_eq.trans address) advanced.sound fun q hq => ?_).1
  rw [hqueue] at hq
  cases hq
  rw [advanced.lastUpdate_eq]
  exact inTime

theorem Steps.vested_tidy {moves : List Move} (steps : Steps l now moves c c')
    (vested : Vested l.vesting.window c) (tidy : Tidy c) :
    Vested l.vesting.window c' ∧ Tidy c' :=
  steps.preserves (I := fun c => Vested l.vesting.window c ∧ Tidy c)
    (fun step h => ⟨(step.vested h.1).1, step.tidy h.2⟩) ⟨vested, tidy⟩

/-- Whatever comes of an operation, sound holdings and tidy usages are left. -/
theorem Operation.vested_tidy (op : Operation) (now : Seconds)
    (vested : Vested l.vesting.window c) (tidy : Tidy c) :
    Vested l.vesting.window ((op.script l now).runPlain c).2 ∧
      Tidy ((op.script l now).runPlain c).2 := by
  rcases hrun : (op.script l now).runPlain c with ⟨answer, c'⟩
  cases answer with
  | error f =>
    obtain ⟨moves, steps⟩ := steps_of_error hrun
    exact steps.vested_tidy vested tidy
  | ok o =>
    rcases steps_of_ok hrun with ⟨moves, steps⟩ | ⟨a, h, h', hbank, hqueue, hadvance, rfl⟩
    · exact steps.vested_tidy vested tidy
    · exact ⟨vested.advance hbank hqueue hadvance, tidy.putHolding a h'⟩

/-- An operation that is refused, though not for want of capacity, changes nothing, unless it is a
transfer that strands. -/
theorem Operation.runPlain_unchanged_iff {op : Operation} {f : Failure}
    (vested : Vested l.vesting.window c) (tidy : Tidy c)
    (run : (op.script l now).runPlain c = (.error f, c'))
    (other : ∀ u cost available, f ≠ .capacityShort u cost available) :
    c' = c ↔ ¬op.Strands l now c := by
  constructor
  · intro unchanged strands
    exact Ledger.ne_of_strands strands run unchanged
  · intro fine
    rcases error_cases run with unchanged |
      ⟨s, receiver, x, memo, r, target, rfl, hr, htarget, paid, refused⟩ |
      ⟨u, ratio, usage, ceiling, usage', rfl, husage, hcharge, rfl⟩
    · exact unchanged
    · exact absurd (Ledger.strands_of_refused vested hr htarget paid refused) fine
    · have outcome := Throttle.charge_cases l.period_pos ⟨u, ceiling, ratio, now⟩ usage
      rw [hcharge] at outcome
      rw [outcome.of_other rfl other]
      exact tidy.put_self husage

end

namespace Ledger

variable {l : Ledger}

/-- After any deeds a store that started reliable still is, and it holds sound holdings and tidy
usages. -/
theorem performAll_vested_tidy {b : Backend} (reliable : b.Reliable)
    (vested : Vested l.vesting.window b.contents) (tidy : Tidy b.contents) (deeds : List Deed) :
    (l.performAll b deeds).Reliable ∧ Vested l.vesting.window (l.performAll b deeds).contents ∧
      Tidy (l.performAll b deeds).contents := by
  induction deeds generalizing b with
  | nil => exact ⟨reliable, vested, tidy⟩
  | cons deed rest ih =>
    cases deed with
    | request r =>
      obtain ⟨served, still⟩ := serve_served (l := l) reliable r
      obtain ⟨moves, steps, -⟩ := served.steps
      obtain ⟨vested, tidy⟩ := steps.vested_tidy vested tidy
      exact ih still vested tidy
    | direct op now =>
      obtain ⟨log, run⟩ := (op.script l now).runOn_eq_runPlain reliable
      have after := op.vested_tidy now vested tidy
      have same : l.perform b (.direct op now) =
          ⟨((op.script l now).runPlain b.contents).2, b.faults, log⟩ := by
        rw [perform, run]
      rw [performAll, same]
      exact ih (reliable.of_faults rfl) after.1 after.2

end Ledger

/-- After any deeds on an empty store, an operation that is refused straight on the store, though
not for want of capacity, leaves all records as they were exactly if it is no transfer that strands.
-/
theorem Operation.unchanged_iff (l : Ledger) (deeds : List Deed) (op : Operation) (now : Seconds)
    {f : Failure} {b' : Backend} :
    let b := l.performAll .empty deeds
    (op.script l now).runOn b = (.error f, b') →
      (∀ u cost available, f ≠ .capacityShort u cost available) →
      (b'.contents = b.contents ↔ ¬op.Strands l now b.contents) := by
  intro b run other
  obtain ⟨reliable, vested, tidy⟩ := Ledger.performAll_vested_tidy (l := l)
    Backend.reliable_empty (vested_empty _) tidy_empty deeds
  obtain ⟨log, plain⟩ := (op.script l now).runOn_eq_runPlain reliable
  rw [run] at plain
  rcases hrun : (op.script l now).runPlain b.contents with ⟨answer, c'⟩
  rw [hrun] at plain
  cases plain
  exact runPlain_unchanged_iff vested tidy hrun other

/-- A withdrawal of more than an address holds. -/
theorem Operation.unchanged_iff_withdraw :
    let l : Ledger := ⟨.standard, by decide⟩
    let x : Address := ⟨"x", by decide⟩
    let deeds : List Deed := [.request (.deliver (.deposit x ⟨5, by decide⟩) .zero)]
    let b := l.performAll .empty deeds
    let op : Operation := .withdrawFrom x ⟨7, by decide⟩
    let after := (op.script l .zero).runOn b
    after.1 = .error (.insufficientBalance "minus coin" x ⟨7, by decide⟩ ⟨5, by decide⟩) ∧
      after.2.contents = b.contents := by
  intro l x deeds b op after
  have refused : after.1 =
      .error (.insufficientBalance "minus coin" x ⟨7, by decide⟩ ⟨5, by decide⟩) := by
    decide +kernel
  have run : (after.1, after.2) = after := Prod.mk.eta
  rw [refused] at run
  have iff : after.2.contents = b.contents ↔ ¬op.Strands l .zero b.contents :=
    unchanged_iff l deeds op .zero run.symm (by simp)
  have fine : ¬Operation.Strands l .zero b.contents (.withdrawFrom x ⟨7, by decide⟩) := by
    intro strands
    cases strands
  exact ⟨refused, iff.2 fine⟩

/-- An account pays an address that is counted to a later time already: the transfer is refused, and
the payment stays. -/
theorem Ledger.transfer_leaves_debit :
    let l : Ledger := ⟨.standard, by decide⟩
    let key : PublicKey :=
      { bytes := [0x8a, 0x88, 0xe3, 0xdd, 0x74, 0x09, 0xf1, 0x95, 0xfd, 0x52, 0xdb, 0x2d, 0x3c,
          0xba, 0x5d, 0x72, 0xca, 0x67, 0x09, 0xbf, 0x1d, 0x94, 0x12, 0x1b, 0xf3, 0x74, 0x88, 0x01,
          0xb4, 0x0f, 0x6f, 0x5c]
        length_eq := by decide
        onCurve := by decide +kernel }
    let alice : Username := ⟨"alice", by decide⟩
    let x : Address := ⟨"x", by decide⟩
    let b := l.performAll .empty
      [.direct (.message (.deposit key.address ⟨300000, by decide⟩)) .zero,
        .direct (.register alice key) .zero,
        .direct (.message (.deposit x ⟨5, by decide⟩)) ⟨10, by decide, by decide⟩]
    let op : Operation := .message (.transfer alice ⟨none, some x⟩ ⟨7, by decide⟩ "")
    let after := (op.script l ⟨3, by decide, by decide⟩).runOn b
    after.1 = .error (.timeRunsBack "settle stake" x ⟨10, by decide, by decide⟩
        ⟨3, by decide, by decide⟩) ∧
      after.2.contents ≠ b.contents := by
  decide +kernel

end StakeLedger

import StakeLedger.Proofs.Ledger.Run
import StakeLedger.Proofs.Vesting.Sound

/-!
# Holdings in the records

In all records that a ledger can get to, an address has both records of a sound holding or neither,
and the time up to which its queue is counted does not go back. `Ledger.run_vested` says so of every
run.
-/

namespace StakeLedger

open Table

theorem Ledger.window_pos (l : Ledger) : 0 < l.vesting.window.count := by
  have sound := l.sound
  unfold Parameters.defect? at sound
  split at sound
  · cases sound
  · rename_i positive
    exact Int.lt_of_not_ge positive

/-! ## What is kept for an address -/

/-- What is kept for an address: both records of a sound holding, or neither. -/
inductive Kept (window : Seconds) (c : Contents) (a : Address) : Option Holding → Prop
  | nothing (hbank : banks.peek c a = .ok none) (hqueue : queues.peek c a = .ok none) :
    Kept window c a none
  | holding {h : Holding} (hbank : banks.peek c a = .ok (some h.bank))
    (hqueue : queues.peek c a = .ok (some h.queue)) (address : h.bank.address = a)
    (sound : h.Sound window) : Kept window c a (some h)

/-- For every address both records of a sound holding are kept, or neither. -/
def Vested (window : Seconds) (c : Contents) : Prop := ∀ a, ∃ kept, Kept window c a kept

/-- No queue is lost on the way from one contents to others, and none is counted back. -/
def Onward (c d : Contents) : Prop :=
  ∀ a queue, queues.peek c a = .ok (some queue) →
    ∃ later, queues.peek d a = .ok (some later) ∧ queue.lastUpdate.count ≤ later.lastUpdate.count

/-- The holding that counts for an address: the kept one, or one that nothing has come in at. -/
def heldAt (a : Address) (now : Seconds) (kept : Option Holding) : Holding :=
  kept.getD ⟨.empty a, .empty now⟩

theorem heldAt_eq (a : Address) (now : Seconds) (kept : Option Holding) :
    ⟨(kept.map Holding.bank).getD (.empty a), (kept.map Holding.queue).getD (.empty now)⟩ =
      heldAt a now kept := by
  cases kept <;> rfl

theorem vested_empty (window : Seconds) : Vested window .empty := fun _ => ⟨none, .nothing rfl rfl⟩

theorem Onward.refl (c : Contents) : Onward c c := fun _ queue h => ⟨queue, h, Int.le_refl _⟩

theorem Onward.trans {c d e : Contents} (first : Onward c d) (second : Onward d e) :
    Onward c e := by
  intro a queue h
  obtain ⟨q, hq, le⟩ := first a queue h
  obtain ⟨later, hlater, le'⟩ := second a q hq
  exact ⟨later, hlater, Int.le_trans le le'⟩

/-- The queue of a sound holding is read back as it was written. -/
theorem Holding.Sound.reads_queue {window : Seconds} {h : Holding} (sound : h.Sound window) :
    queues.codec.Reads h.queue := by
  have count := length_le_coinOf fun d hd => (sound.running d hd).coin_pos
  have total := sound.total_eq
  have bound := h.queue.total.units_lt
  exact Codec.reads_queue (Layout.admits_stored_iff.2 (by omega))

/-- Whether a holding is sound does not depend on whom its bank belongs to. -/
theorem Holding.Sound.of_coin_eq {window : Seconds} {bank bank' : Bank} {queue : PendingQueue}
    (sound : Holding.Sound window ⟨bank, queue⟩) (balance : bank'.balance = bank.balance)
    (stake : bank'.stake = bank.stake) : Holding.Sound window ⟨bank', queue⟩ := by
  refine ⟨sound.ordered, sound.running, sound.total_eq, sound.progress_eq, ?_⟩
  have balance_eq := sound.balance_eq
  dsimp only at *
  rw [balance, stake, balance_eq]

namespace Kept

variable {window : Seconds} {c d : Contents} {a : Address} {kept : Option Holding}

theorem of_peek_eq (k : Kept window c a kept) (bank : banks.peek d a = banks.peek c a)
    (queue : queues.peek d a = queues.peek c a) : Kept window d a kept := by
  cases k with
  | nothing hbank hqueue => exact .nothing (bank.trans hbank) (queue.trans hqueue)
  | holding hbank hqueue address sound =>
    exact .holding (bank.trans hbank) (queue.trans hqueue) address sound

theorem putHolding_self {h : Holding} (address : h.bank.address = a) (sound : h.Sound window) :
    Kept window (putHolding c a h) a (some h) := by
  subst address
  refine .holding ?_ ?_ rfl sound
  · simp [putHolding]
  · exact peek_put_self sound.reads_queue _ _

theorem putHolding_of_ne (k : Kept window c a kept) {b : Address} {h : Holding} (other : a ≠ b)
    (address : h.bank.address = b) : Kept window (putHolding c b h) a kept := by
  subst address
  exact k.of_peek_eq (by simp [putHolding, other]) (by simp [putHolding, other])

theorem peek_eq (k : Kept window c a kept) :
    banks.peek c a = .ok (kept.map Holding.bank) ∧
      queues.peek c a = .ok (kept.map Holding.queue) := by
  cases k with
  | nothing hbank hqueue => exact ⟨hbank, hqueue⟩
  | holding hbank hqueue => exact ⟨hbank, hqueue⟩

theorem address_eq {h : Holding} (k : Kept window c a (some h)) : h.bank.address = a := by
  cases k with
  | holding _ _ address => exact address

theorem sound {h : Holding} (k : Kept window c a (some h)) : h.Sound window := by
  cases k with
  | holding _ _ _ sound => exact sound

/-- Where a bank is kept, a queue is kept that makes up a sound holding with it. -/
theorem of_bank (k : Kept window c a kept) {bank : Bank}
    (hbank : banks.peek c a = .ok (some bank)) :
    ∃ queue, queues.peek c a = .ok (some queue) ∧ bank.address = a ∧
      Holding.Sound window ⟨bank, queue⟩ := by
  cases k with
  | nothing hbank' =>
    rw [hbank'] at hbank
    cases hbank
  | holding hbank' hqueue address sound =>
    rw [hbank'] at hbank
    cases hbank
    exact ⟨_, hqueue, address, sound⟩

/-- The records of a holding that are found for an address make up what is kept there. -/
theorem eq_some (k : Kept window c a kept) {h : Holding}
    (hbank : banks.peek c a = .ok (some h.bank)) (hqueue : queues.peek c a = .ok (some h.queue)) :
    kept = some h := by
  cases k with
  | nothing hbank' => cases hbank.symm.trans hbank'
  | @holding held hbank' hqueue' =>
    obtain ⟨bank, queue⟩ := held
    cases hbank.symm.trans hbank'
    cases hqueue.symm.trans hqueue'
    rfl

/-- What counts for an address before coin comes in there is sound, and carries the address. -/
theorem heldAt_sound (k : Kept window c a kept) (now : Seconds) :
    (heldAt a now kept).Sound window ∧ (heldAt a now kept).bank.address = a := by
  cases k with
  | nothing => exact ⟨Holding.sound_fresh window a now, rfl⟩
  | holding hbank hqueue address sound => exact ⟨sound, address⟩

end Kept

theorem Vesting.Attempt.result_eq_ok {t : Vesting.Attempt} {h : Holding} :
    t.result = .ok h ↔ t = ⟨h, none⟩ := by
  obtain ⟨after, failure⟩ := t
  cases failure <;> simp [Attempt.result]

section

variable {l : Ledger} {now : Seconds} {c d : Contents} {a : Address} {x : Coin}
  {kept : Option Holding}

namespace Kept

/-- Coin that comes in is credited to what is kept for the address. -/
theorem credited (k : Kept l.vesting.window c a kept) {h' : Holding}
    (hadd : (l.vesting.add (heldAt a now kept) x now).result = .ok h') :
    (heldAt a now kept).Credited l.vesting.window x now h' ∧
      (heldAt a now kept).queue.lastUpdate.count ≤ now.count := by
  have outcome := (k.heldAt_sound now).1.add_cases l.window_pos x now
  rw [Vesting.Attempt.result_eq_ok.1 hadd] at outcome
  cases outcome with
  | credited pos inTime fits room credited => exact ⟨credited, inTime⟩

/-- Coin that goes out is debited to what is kept for the address. -/
theorem debited {window : Seconds} {held h' : Holding} (k : Kept window c a (some held))
    (hwithdraw : (Vesting.withdraw held x now).result = .ok h') :
    held.Debited window x now h' ∧ held.queue.lastUpdate.count ≤ now.count := by
  have outcome := k.sound.withdraw_cases x now
  rw [Vesting.Attempt.result_eq_ok.1 hwithdraw] at outcome
  cases outcome with
  | debited pos inTime enough debited => exact ⟨debited, inTime⟩

/-- What comes of what is kept for an address still carries the address. -/
theorem address_credited {window : Seconds} (k : Kept window c a kept) {h' : Holding}
    (credited : (heldAt a now kept).Credited window x now h') : h'.bank.address = a :=
  credited.address_eq.trans (k.heldAt_sound now).2

theorem address_debited {window : Seconds} {held h' : Holding} (k : Kept window c a (some held))
    (debited : held.Debited window x now h') : h'.bank.address = a :=
  debited.address_eq.trans k.address_eq

end Kept

namespace Step

/-- A credit changes what is kept for the address as coin that comes in does. -/
theorem credit_kept (k : Kept l.vesting.window c a kept) (h : Step l now (.credit a x) c d) :
    ∃ h', (heldAt a now kept).Credited l.vesting.window x now h' ∧
      (heldAt a now kept).queue.lastUpdate.count ≤ now.count ∧ d = putHolding c a h' := by
  cases h with
  | @credit _ _ _ bank queue h' hbank hqueue hadd =>
    cases k.peek_eq.1.symm.trans hbank
    cases k.peek_eq.2.symm.trans hqueue
    rw [heldAt_eq] at hadd
    obtain ⟨credited, inTime⟩ := k.credited hadd
    exact ⟨h', credited, inTime, rfl⟩

/-- A debit changes what is kept for the address, which is something, as coin that goes out does. -/
theorem debit_kept (k : Kept l.vesting.window c a kept) (h : Step l now (.debit a x) c d) :
    ∃ held h', kept = some held ∧ held.Debited l.vesting.window x now h' ∧
      held.queue.lastUpdate.count ≤ now.count ∧ d = putHolding c a h' := by
  cases h with
  | @debit _ _ _ held h' hbank hqueue hwithdraw =>
    have same := k.eq_some hbank hqueue
    subst same
    obtain ⟨debited, inTime⟩ := k.debited hwithdraw
    exact ⟨held, h', rfl, debited, inTime, rfl⟩

end Step

end

/-! ## What every change preserves -/

section

variable {window : Seconds} {c d : Contents}

/-- Nothing changes for holdings where none of their records does. -/
theorem Vested.of_peek_eq (vested : Vested window c)
    (bank : ∀ a, banks.peek d a = banks.peek c a)
    (queue : ∀ a, queues.peek d a = queues.peek c a) : Vested window d ∧ Onward c d := by
  constructor
  · intro a
    obtain ⟨kept, k⟩ := vested a
    exact ⟨kept, k.of_peek_eq (bank a) (queue a)⟩
  · intro a q hq
    exact ⟨q, (queue a).trans hq, Int.le_refl _⟩

/-- A sound holding takes the place of what was kept for its address before. -/
theorem Vested.putHolding (vested : Vested window c) {a : Address} {h : Holding}
    (address : h.bank.address = a) (sound : h.Sound window)
    (later : ∀ q, queues.peek c a = .ok (some q) →
      q.lastUpdate.count ≤ h.queue.lastUpdate.count) :
    Vested window (putHolding c a h) ∧ Onward c (putHolding c a h) := by
  constructor
  · intro b
    by_cases same : b = a
    · subst same
      exact ⟨_, Kept.putHolding_self address sound⟩
    · obtain ⟨kept, k⟩ := vested b
      exact ⟨kept, k.putHolding_of_ne same address⟩
  · intro b q hq
    by_cases same : b = a
    · subst same
      exact ⟨h.queue, peek_put_self sound.reads_queue _ _, later q hq⟩
    · exact ⟨q, by simpa [Table.putHolding, same] using hq, Int.le_refl _⟩

theorem Kept.lastUpdate_le {a : Address} {h : Holding} (k : Kept window c a (some h))
    {q : PendingQueue} (hq : queues.peek c a = .ok (some q)) :
    q.lastUpdate.count ≤ h.queue.lastUpdate.count := by
  rw [k.peek_eq.2] at hq
  cases hq
  exact Int.le_refl _

end

/-- Every change leaves sound holdings, and counts no queue back. -/
theorem Step.vested {l : Ledger} {now : Seconds} {move : Move} {c d : Contents}
    (h : Step l now move c d) (vested : Vested l.vesting.window c) :
    Vested l.vesting.window d ∧ Onward c d := by
  cases move with
  | credit a x =>
    obtain ⟨kept, k⟩ := vested a
    obtain ⟨h', credited, inTime, rfl⟩ := h.credit_kept k
    apply vested.putHolding (k.address_credited credited) credited.sound
    intro q hq
    rw [credited.lastUpdate_eq]
    cases kept with
    | none => exact absurd (k.peek_eq.2.symm.trans hq) nofun
    | some held => exact Int.le_trans (k.lastUpdate_le hq) inTime
  | debit a x =>
    obtain ⟨kept, k⟩ := vested a
    obtain ⟨held, h', rfl, debited, inTime, rfl⟩ := h.debit_kept k
    apply vested.putHolding (k.address_debited debited) debited.sound
    intro q hq
    rw [debited.lastUpdate_eq]
    exact Int.le_trans (k.lastUpdate_le hq) inTime
  | enrol u key =>
    cases h with
    | @enrol _ _ _ bank hnew hbank howner hfee =>
      obtain ⟨kept, k⟩ := vested key.address
      obtain ⟨queue, hqueue, address, sound⟩ := k.of_bank hbank
      have queues_eq (a : Address) : queues.peek (putAccount c u key bank now) a =
          queues.peek c a := by simp [putAccount]
      refine ⟨fun a => ?_, fun a q hq => ⟨q, (queues_eq a).trans hq, Int.le_refl _⟩⟩
      by_cases same : a = key.address
      · subst same
        refine ⟨some ⟨{ bank with owner := some u }, queue⟩, .holding ?_ ?_ address ?_⟩
        · simp [putAccount, address]
        · exact (queues_eq _).trans hqueue
        · exact sound.of_coin_eq rfl rfl
      · obtain ⟨kept, k⟩ := vested a
        refine ⟨kept, k.of_peek_eq ?_ (queues_eq a)⟩
        simp [putAccount, address, same]
  | meter u usage =>
    cases h
    exact vested.of_peek_eq (fun a => by simp) fun a => by simp
  | earn u e e' =>
    cases h
    exact vested.of_peek_eq (fun a => by simp) fun a => by simp
  | followers u r =>
    cases h
    exact vested.of_peek_eq (fun a => by simp) fun a => by simp
  | following u r =>
    cases h
    exact vested.of_peek_eq (fun a => by simp) fun a => by simp

theorem Steps.vested {l : Ledger} {now : Seconds} {moves : List Move} {c d : Contents}
    (h : Steps l now moves c d) (vested : Vested l.vesting.window c) :
    Vested l.vesting.window d ∧ Onward c d := by
  induction h with
  | done c => exact ⟨vested, .refl c⟩
  | step first rest ih =>
    obtain ⟨still, onward⟩ := first.vested vested
    obtain ⟨last, further⟩ := ih still
    exact ⟨last, onward.trans further⟩

namespace Ledger

/-- On the way through any run, holdings stay sound and no queue is lost or counted back. -/
theorem run_onward {l : Ledger} {b : Backend} (reliable : b.Reliable)
    (vested : Vested l.vesting.window b.contents) (requests : List Request) :
    Vested l.vesting.window (l.run b requests).2.contents ∧
      Onward b.contents (l.run b requests).2.contents := by
  refine (run_preserves (I := fun c => Vested l.vesting.window c ∧ Onward b.contents c)
    (fun step ⟨vested, onward⟩ => ?_) reliable ⟨vested, .refl _⟩ requests).1
  obtain ⟨still, further⟩ := step.vested vested
  exact ⟨still, onward.trans further⟩

/-- After any run from an empty store, an address either has no record, or it has the records of a
sound holding, whose bank carries the address; and whatever comes after, its queue is not counted
back. -/
theorem run_vested (l : Ledger) (requests more : List Request) (a : Address) :
    let c := (l.run .empty requests).2.contents
    let d := (l.run .empty (requests ++ more)).2.contents
    (c.get? (banks.key a) = none ∧ c.get? (queues.key a) = none ∨
      ∃ h : Holding, banks.peek c a = .ok (some h.bank) ∧ queues.peek c a = .ok (some h.queue) ∧
        h.bank.address = a ∧ h.Sound l.parameters.vestingWindow) ∧
      ∀ queue, queues.peek c a = .ok (some queue) → ∃ later,
        queues.peek d a = .ok (some later) ∧ queue.lastUpdate.count ≤ later.lastUpdate.count := by
  intro c d
  have start := vested_empty l.vesting.window
  have vested := (run_onward Backend.reliable_empty start requests).1
  have reliable := (run_preserves (l := l) (I := fun _ => True) (fun _ _ => trivial)
    Backend.reliable_empty trivial requests).2
  constructor
  · obtain ⟨kept, k⟩ := vested a
    cases k with
    | nothing hbank hqueue => exact .inl ⟨peek_eq_none_iff.1 hbank, peek_eq_none_iff.1 hqueue⟩
    | holding hbank hqueue address sound => exact .inr ⟨_, hbank, hqueue, address, sound⟩
  · intro queue hq
    have onward := (run_onward reliable vested more).2
    rw [← run_append] at onward
    exact onward a queue hq

end Ledger

end StakeLedger

import StakeLedger.Proofs.Ledger.Failures

/-!
# Operations that check before they change

An operation that reads and checks all it needs before its first update, and cannot fail after it,
changes nothing when it fails, even where no buffer holds its updates back. All operations on the
ledger work so but two: a transfer pays out before it looks at the receiver, and a charge records
what has recovered before it refuses.
-/

namespace StakeLedger

namespace Script

variable {α β : Type}

/-- The script ends with no failure of its own. -/
abbrev Unfailing (script : Script α) : Prop := script.Obeys (fun _ => True) (fun _ => False)

/-- Nothing after the first update of the script can fail. -/
inductive Prepared : Script α → Prop
  | done (answer : α) : Prepared (done answer)
  | fail (failure : Failure) : Prepared (fail failure)
  | read {key : Bytes} {next : Option Bytes → Script α} (rest : ∀ found, Prepared (next found)) :
    Prepared (read key next)
  | write {key value : Bytes} {next : Script α} (rest : next.Unfailing) :
    Prepared (write key value next)

theorem Obeys.runPlain_of_unfailing {script : Script α} (h : script.Unfailing) (c : Contents) :
    ∃ a c', script.runPlain c = (.ok a, c') := by
  induction h generalizing c with
  | done a => exact ⟨a, c, rfl⟩
  | fail never => exact never.elim
  | read rest ih => exact ih _ _
  | write _ rest ih => exact ih _

theorem Obeys.prepared {script : Script α} (h : script.Unfailing) : script.Prepared := by
  induction h with
  | done a => exact .done a
  | fail never => exact never.elim
  | read rest ih => exact .read ih
  | write _ rest ih => exact .write rest

/-- What only reads may come before what is prepared. -/
theorem Obeys.prepared_bind {mayFail : Failure → Prop} {script : Script α} {next : α → Script β}
    (looks : script.Obeys (fun _ => False) mayFail) (rest : ∀ a, (next a).Prepared) :
    (script >>= next).Prepared := by
  induction looks with
  | done a => exact rest a
  | fail => exact .fail _
  | read _ ih => exact .read ih
  | write never => exact never.elim

namespace Prepared

theorem pure (a : α) : (Pure.pure a : Script α).Prepared := .done a

/-- What cannot fail may come after what is prepared. -/
theorem bind {script : Script α} {next : α → Script β} (first : script.Prepared)
    (rest : ∀ a, (next a).Unfailing) : (script >>= next).Prepared := by
  induction first with
  | done a => exact (rest a).prepared
  | fail f => exact .fail f
  | read _ ih => exact .read ih
  | write unfailing => exact .write (unfailing.bind rest)

theorem ite {c : Prop} [Decidable c] {yes no : Script α} (hyes : yes.Prepared)
    (hno : no.Prepared) : (if c then yes else no).Prepared := by
  split
  · exact hyes
  · exact hno

/-- A computation comes before what is prepared. -/
theorem ofExcept_bind {answer : Except Failure α} {next : α → Script β}
    (rest : ∀ a, (next a).Prepared) : (Script.ofExcept answer >>= next).Prepared := by
  have looks : (Script.ofExcept answer).Obeys (fun _ => False) (fun _ => True) :=
    .ofExcept fun _ _ => trivial
  exact looks.prepared_bind rest

/-- A prepared script that fails has changed nothing. -/
theorem runPlain_error {script : Script α} (h : script.Prepared) {c c' : Contents} {f : Failure}
    (run : script.runPlain c = (.error f, c')) : c' = c := by
  induction h with
  | done a => cases run
  | fail cause =>
    cases run
    rfl
  | read rest ih => exact ih _ run
  | write unfailing =>
    obtain ⟨a, d, success⟩ := unfailing.runPlain_of_unfailing (c.insert _ _)
    rw [runPlain, success] at run
    cases run

end Prepared

end Script

namespace Table

theorem unfailing_save {ν ρ : Type} (t : Table ν ρ) (name : ν) (record : ρ) :
    (t.save name record).Unfailing :=
  .write trivial (.done ())

end Table

namespace Ledger

open Table

theorem unfailing_saveHolding (a : Address) (h : Holding) : (saveHolding a h).Unfailing :=
  (unfailing_save banks _ _).bind fun _ => unfailing_save queues _ _

theorem prepared_deposit (l : Ledger) (a : Address) (x : Coin) (now : Seconds) :
    (l.deposit a x now).Prepared := by
  apply (obeys_load banks a).prepared_bind
  intro bank
  apply (obeys_load queues a).prepared_bind
  intro queue
  exact .ofExcept_bind fun h => (unfailing_saveHolding a h).prepared

theorem prepared_withdrawFrom (a : Address) (x : Coin) (now : Seconds) :
    (withdrawFrom a x now).Prepared := by
  apply (obeys_requireHolding _ a).prepared_bind
  intro h
  exact .ofExcept_bind fun h' => (unfailing_saveHolding a h').prepared

theorem prepared_advance (a : Address) (now : Seconds) : (advance a now).Prepared := by
  apply (obeys_requireHolding _ a).prepared_bind
  intro h
  exact .ofExcept_bind fun h' => (unfailing_saveHolding a h').prepared

theorem prepared_register (l : Ledger) (u : Username) (key : PublicKey) (now : Seconds) :
    (l.register u key now).Prepared := by
  apply (obeys_isRegistered u).prepared_bind
  intro known
  refine .ite (.fail _) ?_
  apply (obeys_load banks key.address).prepared_bind
  intro bank
  cases bank with
  | none => exact .fail _
  | some bank =>
    dsimp only
    split
    · exact .fail _
    · refine .ite (.fail _) (Script.Obeys.prepared ?_)
      apply (unfailing_save banks _ _).bind
      intro saved
      apply (unfailing_save registrations _ _).bind
      intro saved
      apply (unfailing_save usages _ _).bind
      intro saved
      exact (unfailing_save Table.earnings _ _).bind fun _ => .pure _

theorem prepared_nextSequence (u : Username) : (nextSequence u).Prepared := by
  apply (obeys_require usages _ u).prepared_bind
  intro usage
  split
  · exact .fail _
  · exact ((unfailing_save usages u _).bind fun _ => .pure _).prepared

theorem prepared_accrue (u : Username) (income reward : Coin) :
    (accrue u income reward).Prepared := by
  apply (obeys_require Table.earnings _ u).prepared_bind
  intro e
  exact .ofExcept_bind fun e' => (unfailing_save Table.earnings u e').prepared

theorem prepared_accrueFriction (u : Username) (amount : Coin) :
    (accrueFriction u amount).Prepared := by
  apply (obeys_require Table.earnings _ u).prepared_bind
  intro e
  exact .ofExcept_bind fun e' => (unfailing_save Table.earnings u e').prepared

theorem prepared_claim (l : Ledger) (u : Username) (now : Seconds) : (l.claim u now).Prepared := by
  apply (obeys_require Table.earnings _ u).prepared_bind
  intro e
  apply (obeys_addressOf _ u).prepared_bind
  intro a
  refine .ite (.pure _) ?_
  apply (l.prepared_deposit a e.unclaimed now).bind
  intro received
  exact (unfailing_save Table.earnings u e.claimed).bind fun _ => .pure _

theorem prepared_editRosters (during : Activity) (u v : Username) (p q : Roster → Bool)
    (edit edit' : Roster → Except Failure Roster) :
    (editRosters during u v p q edit edit').Prepared := by
  apply (obeys_require registrations during u).prepared_bind
  intro r
  apply (obeys_require registrations during v).prepared_bind
  intro s
  apply (obeys_loadRoster followers v).prepared_bind
  intro theirs
  apply (obeys_loadRoster following u).prepared_bind
  intro own
  refine .ofExcept_bind fun theirs' => .ofExcept_bind fun own' => ?_
  apply Script.Obeys.prepared
  apply Script.Obeys.ite
  · apply (unfailing_save followers v _).bind
    intro saved
    exact .ite (unfailing_save following u _) (.pure _)
  · exact .ite (unfailing_save following u _) (.pure _)

end Ledger

/-- All messages but transfers and checks of capacity check before they change. -/
theorem Message.prepared_script (l : Ledger) (now : Seconds) {m : Message}
    (noTransfer : ∀ s r x memo, m ≠ .transfer s r x memo)
    (noCheck : ∀ u ratio, m ≠ .checkCapacity u ratio) : (m.script l now).Prepared := by
  have answered {α : Type} {script : Script α} (h : script.Prepared) (outcome : α → Outcome) :
      (script >>= fun a => Pure.pure (outcome a)).Prepared := h.bind fun _ => .pure _
  cases m with
  | deposit a x => exact answered (l.prepared_deposit a x now) _
  | depositToAccount u x =>
    refine answered ?_ _
    exact (Table.obeys_addressOf _ u).prepared_bind fun a => l.prepared_deposit a x now
  | withdraw u x =>
    refine answered ?_ _
    exact (Table.obeys_addressOf _ u).prepared_bind fun a => Ledger.prepared_withdrawFrom a x now
  | transfer s r x memo => exact absurd rfl (noTransfer s r x memo)
  | follow u v =>
    rw [script, Ledger.follow_eq]
    exact answered (Ledger.prepared_editRosters _ u v _ _ _ _) _
  | unfollow u v =>
    rw [script, Ledger.unfollow_eq]
    exact answered (Ledger.prepared_editRosters _ u v _ _ _ _) _
  | checkCapacity u ratio => exact absurd rfl (noCheck u ratio)
  | accrueReward u income reward => exact answered (Ledger.prepared_accrue u income reward) _
  | accrueFrictionIncome u x => exact answered (Ledger.prepared_accrueFriction u x) _
  | claimReward u => exact answered (l.prepared_claim u now) _
  | createAccount u text =>
    exact .ofExcept_bind fun key => answered (l.prepared_register u key now) _
  | increaseSequence u => exact answered (Ledger.prepared_nextSequence u) _

end StakeLedger

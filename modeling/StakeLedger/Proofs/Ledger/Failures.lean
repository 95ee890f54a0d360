import StakeLedger.Ledger.Genesis
import StakeLedger.Proofs.Store.Obeys
import StakeLedger.Proofs.Throttle.Budget
import StakeLedger.Proofs.Vesting.Refused

/-!
# How the operations fail

Each script of the ledger is looked at once, for the keys that it sets and the failures that it can
end with. Most failures are ordinary: something is missing in the store, the store itself fails, or
numbers do not go together. Only coin that is none, a ratio without a value and a text that is no
key are found fault with by themselves, and only a charge ends with a want of capacity.
`Message.obeys_script` says so of all messages. What a refused message leaves behind, and what its
check had to find, both follow from it.

None of this depends on what the store holds, or on which of its keys can be read.
-/

namespace StakeLedger

/-! ## Computations -/

/-- The failure says that numbers do not go together: a sum leaves its range, time runs back, or
there is too little of something. -/
def Failure.OutOfRange : Failure → Prop
  | .insufficientBalance .. | .timeRunsBack .. | .overflow _ | .emptyWindow | .rosterFull => True
  | _ => False

namespace Failure

variable {f : Failure}

theorem OutOfRange.plain (h : f.OutOfRange) : f.Plain := by
  cases f <;> trivial

theorem OutOfRange.ordinary (h : f.OutOfRange) : f.Ordinary where
  drops := h.plain.keepsUpdates
  proper := by cases f <;> simp_all [OutOfRange, Malformed]

section

variable {flawed : Prop} {during : Activity} {amount : Coin}

/-- An amount is refused fairly if it is for its flaw, or because numbers do not go together. -/
theorem fair_of_amount (h : flawed ∧ f = .invalidAmount during amount ∨ f.OutOfRange) :
    f.Fair flawed := by
  rcases h with ⟨flaw, rfl⟩ | range
  · exact .malformed flaw trivial
  · exact .ordinary range.ordinary

theorem plain_of_amount (h : flawed ∧ f = .invalidAmount during amount ∨ f.OutOfRange) :
    f.Plain := by
  rcases h with ⟨-, rfl⟩ | range
  · trivial
  · exact range.plain

end

end Failure

namespace Holding

variable {v : Vesting} {h : Holding} {f : Failure}

theorem Unsettled.outOfRange {now : Seconds} (unsettled : h.Unsettled now f) : f.OutOfRange := by
  cases unsettled <;> trivial

theorem outOfRange_of_stale {now : Seconds}
    (reason : h.Unsettled now f ∨ f = .overflow "advance stake") : f.OutOfRange := by
  rcases reason with unsettled | rfl
  · exact unsettled.outOfRange
  · trivial

theorem Late.outOfRange {use : Vesting.Use} (late : h.Late v use f) : f.OutOfRange := by
  cases late <;> trivial

end Holding

namespace Vesting

theorem stakeAt_error {v : Vesting} {bank : Bank} {queue : PendingQueue} {now : Seconds}
    {f : Failure} (failed : v.stakeAt bank queue now = .error f) : f.OutOfRange := by
  rcases Holding.stakeAt_failed (h := ⟨bank, queue⟩) failed with unsettled | ⟨-, rfl⟩ | rfl
  · exact unsettled.outOfRange
  · trivial
  · trivial

theorem Attempt.result_eq_error {a : Attempt} {f : Failure} :
    a.result = .error f ↔ a.failure = some f := by
  obtain ⟨after, failure⟩ := a
  cases failure <;> simp [Attempt.result]

/-- Coin is refused because it is none, or because numbers do not go together. -/
theorem add_error {v : Vesting} {h : Holding} {amount : Coin} {now : Seconds} {f : Failure}
    (failed : (v.add h amount now).result = .error f) :
    amount.isZero = true ∧ f = .invalidAmount "add coin" amount ∨ f.OutOfRange := by
  rw [Attempt.result_eq_error] at failed
  rcases Holding.add_failed (congrArg (Attempt.mk _) failed) with ⟨-, early⟩ | ⟨-, late⟩
  · cases early with
    | addNothing none => exact .inl ⟨Coin.isZero_iff.2 none, rfl⟩
    | stale _ reason => exact .inr (Holding.outOfRange_of_stale reason)
  · exact .inr late.outOfRange

theorem withdraw_error {h : Holding} {amount : Coin} {now : Seconds} {f : Failure}
    (failed : (withdraw h amount now).result = .error f) :
    amount.isZero = true ∧ f = .invalidAmount "minus coin" amount ∨ f.OutOfRange := by
  rw [Attempt.result_eq_error] at failed
  rcases Holding.withdraw_failed (v := ⟨now⟩) (congrArg (Attempt.mk _) failed) with
    ⟨-, early⟩ | ⟨-, late⟩
  · cases early with
    | withdrawNothing none => exact .inl ⟨Coin.isZero_iff.2 none, rfl⟩
    | stale _ reason => exact .inr (Holding.outOfRange_of_stale reason)
  · exact .inr late.outOfRange

end Vesting

theorem Earnings.accrue_error {e : Earnings} {income reward : Coin} {f : Failure}
    (failed : e.accrue income reward = .error f) : f.OutOfRange := by
  unfold accrue at failed
  split at failed <;> cases failed
  trivial

theorem Earnings.accrueFriction_error {e : Earnings} {amount : Coin} {f : Failure}
    (failed : e.accrueFriction amount = .error f) : f.OutOfRange := by
  unfold accrueFriction at failed
  split at failed <;> cases failed
  trivial

theorem Roster.join_error {r : Roster} {name : Username} {f : Failure}
    (failed : r.join name = .error f) : f.OutOfRange := by
  unfold join at failed
  split at failed
  · cases failed
  · split at failed <;> cases failed
    trivial

theorem PublicKey.require_error {text : String} {f : Failure}
    (failed : PublicKey.require text = .error f) : f.Malformed := by
  unfold require at failed
  split at failed <;> cases failed
  trivial

theorem Coin.ofDecimalText_plain {text : String} {scale : Word64} {f : Failure}
    (failed : Coin.ofDecimalText text scale = .error f) : f.Plain := by
  unfold ofDecimalText at failed
  split at failed
  · cases failed
    trivial
  · split at failed
    · cases failed
      trivial
    · split at failed
      · cases failed
        trivial
      · split at failed
        · cases failed
          trivial
        · split at failed <;> cases failed
          trivial

theorem Throttle.recovered_error {t : Throttle} {usage : Usage} {ceiling : Coin} {now : Seconds}
    {f : Failure} (failed : t.recovered usage ceiling now = .error f) : f.OutOfRange := by
  unfold recovered at failed
  split at failed
  · cases failed
  · dsimp only at failed
    split at failed
    · cases failed
    · split at failed
      · cases failed
        trivial
      · split at failed <;> cases failed
        trivial

/-- Why a charge is refused: its ratio has no value, numbers do not go together, or capacity is
short. -/
theorem Throttle.charge_error_cases {t : Throttle} {account : Username} {usage after : Usage}
    {ceiling : Coin} {ratio : Ratio} {now : Seconds} {f : Failure}
    (h : t.charge account usage ceiling ratio now = (after, .error f)) :
    ratio.den.val = 0 ∧ f = .invalidAmount "ratio" (.ofWord ratio.num) ∨ f.OutOfRange ∨
      ∃ cost available, f = .capacityShort account cost available ∧
        after = { usage with capacity := available } := by
  unfold charge at h
  split at h
  · rename_i unrecovered
    cases h
    exact .inr (.inl (recovered_error unrecovered))
  · split at h
    · rename_i priceless
      cases h
      rcases cost_error priceless with invalid | rfl
      · exact .inl invalid
      · exact .inr (.inl trivial)
    · split at h
      · cases h
      · cases h
        exact .inr (.inr ⟨_, _, rfl, rfl⟩)

/-- A charge is refused for want of capacity, or for what is wrong with its numbers. -/
theorem Throttle.charge_error {t : Throttle} {account : Username} {usage after : Usage}
    {ceiling : Coin} {ratio : Ratio} {now : Seconds} {f : Failure}
    (h : t.charge account usage ceiling ratio now = (after, .error f)) :
    f.Plain ∨ ∃ cost available, f = .capacityShort account cost available ∧
      after = { usage with capacity := available } := by
  rcases charge_error_cases h with ⟨-, rfl⟩ | range | short
  · exact .inl trivial
  · exact .inl range.plain
  · exact .inr short

/-! ## Scripts -/

namespace Table

variable {ν ρ : Type} {mayWrite : Bytes → Prop} {mayFail : Failure → Prop}

/-- To look for a record is to fail with the store, if at all. -/
theorem obeys_load (t : Table ν ρ) (name : ν) : (t.load name).Obeys mayWrite Failure.Ordinary := by
  apply Script.Obeys.read
  intro found
  cases found with
  | none => exact .done none
  | some bytes =>
    apply Script.Obeys.ofExcept
    intro f h
    unfold parse at h
    split at h <;> cases h
    exact ⟨rfl, id⟩

/-- A record that is required may also be missing. -/
theorem obeys_require (t : Table ν ρ) (during : Activity) (name : ν) :
    (t.require during name).Obeys mayWrite Failure.Ordinary := by
  apply (obeys_load t name).bind
  intro found
  cases found with
  | none => exact .fail ⟨rfl, id⟩
  | some record => exact .pure record

theorem obeys_loadRoster (t : Table Username Roster) (name : Username) :
    (t.loadRoster name).Obeys mayWrite Failure.Ordinary :=
  (obeys_load t name).bind fun _ => .pure _

theorem obeys_addressOf (during : Activity) (account : Username) :
    (addressOf during account).Obeys mayWrite Failure.Ordinary :=
  (obeys_require registrations during account).bind fun _ => .pure _

theorem obeys_save {t : Table ν ρ} {name : ν} (allowed : mayWrite (t.key name)) (record : ρ) :
    (t.save name record).Obeys mayWrite mayFail :=
  .write allowed (.done ())

end Table

namespace Ledger

open Table

variable {mayWrite : Bytes → Prop} {mayFail : Failure → Prop}

theorem obeys_requireHolding (during : Activity) (address : Address) :
    (requireHolding during address).Obeys mayWrite Failure.Ordinary := by
  apply (obeys_require banks during address).bind
  intro bank
  apply (obeys_require queues during address).bind
  intro queue
  exact .pure _

theorem obeys_resolve (sender : Username) (receiver : Receiver) :
    (resolve sender receiver).Obeys mayWrite Failure.Ordinary := by
  obtain ⟨account, address⟩ := receiver
  cases account with
  | none => cases address <;> first | exact .pure _ | exact .fail ⟨rfl, id⟩
  | some account =>
    apply (obeys_load registrations account).bind
    intro registered
    cases registered with
    | some r => exact .pure _
    | none => cases address <;> first | exact .pure _ | exact .fail ⟨rfl, id⟩

theorem obeys_stakeAt (l : Ledger) (address : Address) (now : Seconds) :
    (l.stakeAt address now).Obeys mayWrite Failure.Ordinary := by
  apply (obeys_load banks address).bind
  intro bank
  cases bank with
  | none => exact .pure _
  | some bank =>
    apply (obeys_load queues address).bind
    intro queue
    cases queue with
    | none => exact .pure _
    | some queue => exact .ofExcept fun _ failed => (Vesting.stakeAt_error failed).ordinary

theorem obeys_stakeOf (l : Ledger) (account : Username) (now : Seconds) :
    (l.stakeOf account now).Obeys mayWrite Failure.Ordinary := by
  apply (obeys_addressOf _ account).bind
  intro address
  exact l.obeys_stakeAt address now

theorem obeys_isRegistered (account : Username) :
    (isRegistered account).Obeys mayWrite Failure.Ordinary :=
  (obeys_load registrations account).bind fun _ => .pure _

section

-- Coin is kept at addresses of any name: the records say under which.
variable (bank : ∀ address, mayWrite (banks.key address))
  (queue : ∀ address, mayWrite (queues.key address))
include bank queue

theorem obeys_saveHolding (address : Address) (h : Holding) :
    (saveHolding address h).Obeys mayWrite mayFail :=
  (obeys_save (bank _) h.bank).bind fun _ => obeys_save (queue address) h.queue

theorem obeys_deposit (l : Ledger) (address : Address) (amount : Coin) (now : Seconds) :
    (l.deposit address amount now).Obeys mayWrite (Failure.Fair (amount.isZero = true)) := by
  apply ((obeys_load banks address).fair _).bind
  intro found
  apply ((obeys_load queues address).fair _).bind
  intro pending
  apply (Script.Obeys.ofExcept fun _ failed =>
    Failure.fair_of_amount (Vesting.add_error failed)).bind
  exact obeys_saveHolding bank queue address

theorem obeys_depositTo (l : Ledger) (account : Username) (amount : Coin) (now : Seconds) :
    (l.depositTo account amount now).Obeys mayWrite (Failure.Fair (amount.isZero = true)) := by
  apply ((obeys_addressOf _ account).fair _).bind
  intro address
  exact obeys_deposit bank queue l address amount now

theorem obeys_withdrawFrom (address : Address) (amount : Coin) (now : Seconds) :
    (withdrawFrom address amount now).Obeys mayWrite (Failure.Fair (amount.isZero = true)) := by
  apply ((obeys_requireHolding _ address).fair _).bind
  intro h
  apply (Script.Obeys.ofExcept fun _ failed =>
    Failure.fair_of_amount (Vesting.withdraw_error failed)).bind
  exact obeys_saveHolding bank queue address

theorem obeys_withdraw (account : Username) (amount : Coin) (now : Seconds) :
    (withdraw account amount now).Obeys mayWrite (Failure.Fair (amount.isZero = true)) := by
  apply ((obeys_addressOf _ account).fair _).bind
  intro address
  exact obeys_withdrawFrom bank queue address amount now

theorem obeys_transfer (l : Ledger) (sender : Username) (receiver : Receiver) (amount : Coin)
    (now : Seconds) : (l.transfer sender receiver amount now).Obeys mayWrite
      (Failure.Fair (amount.isZero = true)) := by
  apply ((obeys_addressOf _ sender).fair _).bind
  intro source
  apply ((obeys_resolve sender receiver).fair _).bind
  intro target
  apply (obeys_withdrawFrom bank queue source amount now).bind
  intro paid
  exact obeys_deposit bank queue l target amount now

/-- What is claimed is deposited only if it is some coin. -/
theorem obeys_claim {account : Username} (own : mayWrite (Table.earnings.key account)) (l : Ledger)
    (now : Seconds) : (l.claim account now).Obeys mayWrite Failure.Ordinary := by
  apply (obeys_require Table.earnings _ account).bind
  intro e
  apply (obeys_addressOf _ account).bind
  intro address
  split
  · exact .pure _
  · rename_i some
    have deposited := (obeys_deposit bank queue l address e.unclaimed now).mono_fail
      fun _ fair => fair.ordinary_of_not some
    apply deposited.bind
    intro received
    exact (obeys_save own e.claimed).bind fun _ => .pure _

end

theorem obeys_accrue {account : Username} (own : mayWrite (Table.earnings.key account))
    (income reward : Coin) : (accrue account income reward).Obeys mayWrite Failure.Ordinary := by
  apply (obeys_require Table.earnings _ account).bind
  intro e
  apply (Script.Obeys.ofExcept fun _ failed => (Earnings.accrue_error failed).ordinary).bind
  intro e'
  exact obeys_save own e'

theorem obeys_accrueFriction {account : Username} (own : mayWrite (Table.earnings.key account))
    (amount : Coin) : (accrueFriction account amount).Obeys mayWrite Failure.Ordinary := by
  apply (obeys_require Table.earnings _ account).bind
  intro e
  apply (Script.Obeys.ofExcept fun _ failed => (Earnings.accrueFriction_error failed).ordinary).bind
  intro e'
  exact obeys_save own e'

section

variable (free : ∀ key, mayWrite key)
include free

theorem obeys_register (l : Ledger) (account : Username) (key : PublicKey) (now : Seconds) :
    (l.register account key now).Obeys mayWrite Failure.Ordinary := by
  apply (obeys_isRegistered account).bind
  intro known
  refine .ite (.fail ⟨rfl, id⟩) ?_
  apply (obeys_load banks key.address).bind
  intro bank
  cases bank with
  | none => exact .fail ⟨rfl, id⟩
  | some bank =>
    dsimp only
    split
    · exact .fail ⟨rfl, id⟩
    · refine .ite (.fail ⟨rfl, id⟩) ?_
      apply (obeys_save (free _) _).bind
      intro saved
      apply (obeys_save (free _) _).bind
      intro saved
      apply (obeys_save (free _) _).bind
      intro saved
      apply (obeys_save (free _) _).bind
      intro saved
      exact .pure key.address

theorem obeys_nextSequence (account : Username) :
    (nextSequence account).Obeys mayWrite Failure.Ordinary := by
  apply (obeys_require usages _ account).bind
  intro usage
  split
  · exact .fail ⟨rfl, id⟩
  · exact (obeys_save (free _) _).bind fun _ => .pure _

/-- A charge may also end for want of capacity. -/
theorem obeys_charge (l : Ledger) (account : Username) (ratio : Ratio) (now : Seconds) :
    (l.charge account ratio now).Obeys mayWrite fun f => f.Fair (ratio.den.val = 0) ∨
      ∃ cost available, f = .capacityShort account cost available := by
  have ordinary {α : Type} {script : Script α} (h : script.Obeys mayWrite Failure.Ordinary) :
      script.Obeys mayWrite fun f => f.Fair (ratio.den.val = 0) ∨
        ∃ cost available, f = .capacityShort account cost available :=
    h.mono_fail fun _ h => .inl (.ordinary h)
  apply (ordinary (obeys_require usages _ account)).bind
  intro usage
  apply (ordinary (obeys_stakeOf l account now)).bind
  intro ceiling
  rcases hcharge : l.throttle.charge account usage ceiling ratio now with ⟨after, answer⟩
  apply (obeys_save (free _) after).bind
  intro saved
  refine .ofExcept fun f failed => ?_
  subst failed
  rcases Throttle.charge_error_cases hcharge with
    ⟨invalid, rfl⟩ | range | ⟨cost, available, rfl, -⟩
  · exact .inl (.malformed invalid trivial)
  · exact .inl (.ordinary range.ordinary)
  · exact .inr ⟨cost, available, rfl⟩

end

/-- Both rosters between two accounts are read and changed, and each is set if its test says so. -/
def editRosters (during : Activity) (u v : Username) (p q : Roster → Bool)
    (edit edit' : Roster → Except Failure Roster) : Script Unit := do
  let _ ← registrations.require during u
  let _ ← registrations.require during v
  let theirs ← followers.loadRoster v
  let own ← following.loadRoster u
  let theirs' ← .ofExcept (edit theirs)
  let own' ← .ofExcept (edit' own)
  if p theirs then followers.save v theirs'
  if q own then following.save u own'

theorem follow_eq (u v : Username) :
    follow u v =
      editRosters "follow" u v (!·.has u) (!·.has v) (·.join u) (·.join v) := rfl

theorem unfollow_eq (u v : Username) :
    unfollow u v =
      editRosters "unfollow" u v (·.has u) (·.has v) (.ok <| ·.leave u) (.ok <| ·.leave v) := rfl

theorem obeys_editRosters (free : ∀ key, mayWrite key) (during : Activity) (u v : Username)
    (p q : Roster → Bool) {edit edit' : Roster → Except Failure Roster}
    (range : ∀ r f, edit r = .error f → f.OutOfRange)
    (range' : ∀ r f, edit' r = .error f → f.OutOfRange) :
    (editRosters during u v p q edit edit').Obeys mayWrite Failure.Ordinary := by
  apply (obeys_require registrations during u).bind
  intro r
  apply (obeys_require registrations during v).bind
  intro s
  apply (obeys_loadRoster followers v).bind
  intro theirs
  apply (obeys_loadRoster following u).bind
  intro own
  apply (Script.Obeys.ofExcept fun f failed => (range theirs f failed).ordinary).bind
  intro theirs'
  apply (Script.Obeys.ofExcept fun f failed => (range' own f failed).ordinary).bind
  intro own'
  apply Script.Obeys.ite
  · apply (obeys_save (free _) _).bind
    intro saved
    exact .ite (obeys_save (free _) _) (.pure _)
  · exact .ite (obeys_save (free _) _) (.pure _)

end Ledger

/-! ## Messages -/

namespace Message

/-- What can be wrong with a message by itself. -/
def Flawed : Message → Prop
  | deposit _ amount | depositToAccount _ amount | withdraw _ amount => amount.isZero = true
  | transfer _ receiver amount _ => amount.isZero = true ∨ receiver.isNobody = true
  | checkCapacity _ ratio => ratio.den.val = 0
  | createAccount _ text => ∃ f, PublicKey.require text = .error f
  | follow .. | unfollow .. | accrueReward .. | accrueFrictionIncome .. | claimReward _
  | increaseSequence _ => False

/-- How a message can be refused, whatever the store holds. -/
inductive Refusal (m : Message) : Failure → Prop
  | fair {f : Failure} (h : f.Fair m.Flawed) : Refusal m f
  | short {account : Username} {ratio : Ratio} (check : m = .checkCapacity account ratio)
    (cost available : Coin) : Refusal m (.capacityShort account cost available)

/-- Whatever a message does to a store, it can only be refused so. -/
theorem obeys_script (l : Ledger) (m : Message) (now : Seconds) :
    (m.script l now).Obeys (fun _ => True) m.Refusal := by
  have answer {α : Type} {script : Script α} {form : α → Outcome} {flawed : Prop}
      (h : script.Obeys (fun _ => True) (Failure.Fair flawed)) (imp : flawed → m.Flawed) :
      (script >>= fun a => pure (form a)).Obeys (fun _ => True) m.Refusal :=
    (h.mono_fail fun _ fair => .fair (fair.mono imp)).bind fun _ => .pure _
  have ordinary {α : Type} {script : Script α} {form : α → Outcome}
      (h : script.Obeys (fun _ => True) Failure.Ordinary) :
      (script >>= fun a => pure (form a)).Obeys (fun _ => True) m.Refusal :=
    answer (h.fair False) False.elim
  have bank (a : Address) : True := trivial
  have free (key : Bytes) : True := trivial
  cases m with
  | deposit a x => exact answer (Ledger.obeys_deposit bank bank l a x now) id
  | depositToAccount u x => exact answer (Ledger.obeys_depositTo bank bank l u x now) id
  | withdraw u x => exact answer (Ledger.obeys_withdraw bank bank u x now) id
  | transfer s r x memo => exact answer (Ledger.obeys_transfer bank bank l s r x now) .inl
  | follow u v =>
    rw [script, Ledger.follow_eq]
    exact ordinary (Ledger.obeys_editRosters free _ u v _ _ (fun _ _ => Roster.join_error)
      fun _ _ => Roster.join_error)
  | unfollow u v =>
    rw [script, Ledger.unfollow_eq]
    exact ordinary (Ledger.obeys_editRosters free _ u v _ _ (by rintro _ _ ⟨⟩) (by rintro _ _ ⟨⟩))
  | checkCapacity u ratio =>
    refine Script.Obeys.bind ?_ fun _ => .pure _
    refine (Ledger.obeys_charge free l u ratio now).mono_fail fun f h => ?_
    rcases h with fair | ⟨cost, available, rfl⟩
    · exact .fair fair
    · exact .short rfl cost available
  | accrueReward u i r => exact ordinary (Ledger.obeys_accrue trivial i r)
  | accrueFrictionIncome u x => exact ordinary (Ledger.obeys_accrueFriction trivial x)
  | claimReward u => exact ordinary (Ledger.obeys_claim bank bank trivial l now)
  | createAccount u text =>
    rw [script]
    cases hkey : PublicKey.require text with
    | ok key => exact ordinary (Ledger.obeys_register free l u key now)
    | error f => exact .fail (.fair (.malformed ⟨f, hkey⟩ (PublicKey.require_error hkey)))
  | increaseSequence u => exact ordinary (Ledger.obeys_nextSequence free u)

end Message

theorem Message.check_plain {m : Message} {f : Failure} (refused : m.check = .error f) :
    f.Plain := by
  cases m <;> simp only [check] at refused
  case deposit | depositToAccount | withdraw | checkCapacity =>
    split at refused <;> cases refused
    trivial
  case transfer =>
    split at refused
    · cases refused
      trivial
    · split at refused <;> cases refused
      trivial
  case createAccount u text =>
    cases hkey : PublicKey.require text with
    | ok key => simp [hkey, Except.map] at refused
    | error cause =>
      rw [hkey] at refused
      cases refused
      exact (PublicKey.require_error hkey).plain
  all_goals cases refused

/-- A genesis never ends for want of capacity. -/
theorem Genesis.discards_script (l : Ledger) (g : Genesis) : (g.script l).Discards := by
  unfold script
  induction g.accounts with
  | nil => exact .done ()
  | cons a rest ih =>
    refine Script.Obeys.bind ?_ fun _ => ih
    apply (Script.Obeys.ofExcept fun _ failed => (PublicKey.require_error failed).drops).bind
    intro key
    apply (Script.Obeys.ofExcept fun _ failed =>
      (Coin.ofDecimalText_plain failed).keepsUpdates).bind
    intro coin
    have bank (address : Address) : True := trivial
    apply ((Ledger.obeys_deposit bank bank l _ coin _).mono_fail fun _ fair => fair.drops).bind
    intro received
    have free (key : Bytes) : True := trivial
    apply ((Ledger.obeys_register free l _ key _).mono_fail fun _ ordinary => ordinary.drops).bind
    exact fun _ => .pure _

end StakeLedger

import StakeLedger.Proofs.Ledger.Conservation
import StakeLedger.Proofs.Ledger.Interrupted
import StakeLedger.Proofs.Store.Disturbed
import StakeLedger.Proofs.Vesting.Advance

/-!
# Runs on a store that fails

Here the backing store may refuse anything at any time, other accesses for each request. A request
that is accepted does all that it stands for even so, and one that is refused for a reason of its
own nothing. Only a request that ends with a failure of the store can leave part of its changes
behind, those at the keys before the one that was refused.

The earnings of an account come last among its records, and last in the order of all keys that an
accrual or a claim sets. So these two leave all earnings alone when they fail, and nobody earns
before being registered, however the store fails.

## Main definitions

* `Occasion`, `Ledger.runAmid` — a request with the accesses that the store refuses, and runs of
  such.
* `Suffered` — what serving a request can do to the records of a store that fails.
* `Message.earner?` — the account whose earnings a message is about.
* `Addressed` — every bank is kept under its own address.

## Main statements

* `Ledger.serve_suffered` — requests are served so.
* `Ledger.runAmid_preserves` — what outlasts every request holds after every run.
* `Suffered.unearned`, `Suffered.addressed` — two properties that do.
-/

namespace StakeLedger

open Table

/-! ## Messages about earnings -/

/-- The account whose earnings a message is about. -/
def Message.earner? : Message → Option Username
  | accrueReward u .. | accrueFrictionIncome u _ | claimReward u => some u
  | deposit .. | depositToAccount .. | withdraw .. | transfer .. | follow .. | unfollow ..
  | checkCapacity .. | createAccount .. | increaseSequence _ => none

def Request.earner? : Request → Option Username
  | start _ => none
  | deliver m _ => m.earner?

/-- Keys whose labels differ in the first letter are in the order of these letters. -/
theorem precedes_of_labels {s t : String} {a b : UInt8} {l m : Bytes}
    (hs : Text.utf8 s = a :: l) (ht : Text.utf8 t = b :: m) (before : a.toNat < b.toNat)
    (x y : String) :
    precedes (Text.utf8 (s ++ x)) (Text.utf8 (t ++ y)) = true ∧
      precedes (Text.utf8 (t ++ y)) (Text.utf8 (s ++ x)) = false := by
  have apart : a ≠ b := fun same => by
    subst same
    omega
  rw [Text.utf8_append, Text.utf8_append, hs, ht]
  simp only [List.cons_append, precedes, if_neg apart, if_neg apart.symm, decide_eq_true_eq,
    decide_eq_false_iff_not]
  omega

theorem registration_precedes_earnings (u : Username) :
    precedes (registrations.key u) (earnings.key u) = true :=
  (precedes_of_labels (s := "info/") (t := "reward/") rfl rfl (by decide) _ _).1

theorem earnings_precedes_bank (u : Username) (a : Address) :
    precedes (earnings.key u) (banks.key a) = false :=
  (precedes_of_labels (s := "bank/") (t := "reward/") rfl rfl (by decide) _ _).2

theorem earnings_precedes_queue (u : Username) (a : Address) :
    precedes (earnings.key u) (queues.key a) = false :=
  (precedes_of_labels (s := "pending_stake/") (t := "reward/") rfl rfl (by decide) _ _).2

/-- The key does not come after the earnings that a request is about. -/
def Request.Within (r : Request) (key : Bytes) : Prop :=
  ∀ u, r.earner? = some u → precedes (earnings.key u) key = false

/-- No message sets a key after the earnings that it is about. -/
theorem Message.obeys_within (l : Ledger) (m : Message) (now : Seconds) :
    (m.script l now).Obeys (Request.deliver m now).Within (fun _ => True) := by
  have own {u : Username} (h : m.earner? = some u) :
      (Request.deliver m now).Within (earnings.key u) := by
    intro v hv
    cases h.symm.trans hv
    exact precedes_irrefl _
  have free (h : m.earner? = none) : (m.script l now).Obeys (Request.deliver m now).Within
      (fun _ => True) := by
    refine (m.script l now).obeys_anything.mono (fun key _ u hu => ?_) fun _ _ => trivial
    cases h.symm.trans hu
  have answer {α : Type} {script : Script α} {form : α → Outcome}
      (h : script.Obeys (Request.deliver m now).Within Failure.Ordinary) :
      (script >>= fun a => pure (form a)).Obeys (Request.deliver m now).Within fun _ => True :=
    (h.mono_fail fun _ _ => trivial).bind fun a => .pure (form a)
  cases m with
  | accrueReward u income reward => exact answer (Ledger.obeys_accrue (own rfl) income reward)
  | accrueFrictionIncome u x => exact answer (Ledger.obeys_accrueFriction (own rfl) x)
  | claimReward u =>
    -- The coin goes to an address of any name, but its keys have other labels.
    have bank (b : Address) : (Request.deliver (.claimReward u) now).Within (banks.key b) :=
      fun v _ => earnings_precedes_bank v b
    have queue (b : Address) : (Request.deliver (.claimReward u) now).Within (queues.key b) :=
      fun v _ => earnings_precedes_queue v b
    exact answer (Ledger.obeys_claim bank queue (own rfl) l now)
  | deposit | depositToAccount | withdraw | transfer | follow | unfollow | checkCapacity
  | createAccount | increaseSequence => exact free rfl

/-! ## Requests on a store that fails -/

/-- What serving a request can do to the records of a store that fails, and how it can be answered.
-/
inductive Suffered (l : Ledger) (r : Request) (c : Contents) :
    Except Failure Outcome → Contents → Prop
  | served {answer : Except Failure Outcome} {d : Contents} (h : Served l r c answer d) :
    Suffered l r c answer d
  | torn {answer : Except Failure Outcome} {whole d : Contents} {key : Bytes} (f : StoreFailure)
    (h : Served l r c answer whole) (within : r.Within key) (torn : c.Torn whole key d) :
    Suffered l r c (.error (.store f)) d
  | unlasting {g : Genesis} {d : Contents} (f : StoreFailure) (starts : r = .start g)
    (h : Genesis.Effect l g.time g.accounts c d) : Suffered l r c (.error (.store f)) d

/-- A request and the accesses that the store refuses while it is served. -/
structure Occasion where
  request : Request
  faults : List (Access × String)

namespace Ledger

variable {l : Ledger} {b : Backend}

theorem deliver_suffered (l : Ledger) (b : Backend) (m : Message) (now : Seconds) :
    Suffered l (.deliver m now) b.contents (l.deliver b m now).1
      (l.deliver b m now).2.contents := by
  have served := (deliver_served (l := l) b.reliable_mended m now).1
  cases check : m.check with
  | error f =>
    simp only [deliver, check] at served ⊢
    exact .served served
  | ok =>
    have disturbed := (m.obeys_within l now).commitOn_disturbed b
    simp only [deliver, check] at served ⊢
    generalize (m.script l now).commitOn b = came at disturbed
    cases disturbed with
    | refused f => exact .served (.refused _ rfl _)
    | undisturbed contents =>
      rw [contents]
      exact .served served
    | torn f within torn => exact .torn f served within torn

theorem start_suffered (l : Ledger) (b : Backend) (g : Genesis) :
    Suffered l (.start g) b.contents ((l.start b g).1.map fun _ => .done)
      (l.start b g).2.contents := by
  have within (key : Bytes) : (Request.start g).Within key := fun u h => nomatch h
  have obeys := (g.script l).obeys_anything.mono (fun key _ => within key) fun _ h => h
  have disturbed := obeys.commitOn_disturbed b
  have served := (start_served (l := l) b.reliable_mended g).1
  rw [contents_start] at served ⊢
  unfold start at served ⊢
  rcases hrun : (g.script l).commitOn b.mended with ⟨answer, whole⟩
  rw [hrun] at disturbed served
  generalize (g.script l).commitOn b = came at disturbed
  cases disturbed with
  | refused f => exact .served (.refused _ rfl _)
  | torn f _ torn => exact .torn f served (within _) torn
  | @undisturbed after contents _ =>
    dsimp only at contents
    cases answer with
    | error f =>
      rw [contents]
      exact .served served
    | ok =>
      have effect := Genesis.effect_of_script (Script.commitOn_ok b.reliable_mended hrun).1
      simp only [commit, Backend.flush, contents]
      cases after.fault? .flush with
      | none => exact .served (.started effect)
      | some f => exact .unlasting f rfl effect

/-- Whatever the store refuses, a request does to the records what it can do. -/
theorem serve_suffered (l : Ledger) (b : Backend) (r : Request) :
    Suffered l r b.contents (l.serve b r).1 (l.serve b r).2.contents := by
  cases r with
  | start g => exact start_suffered l b g
  | deliver m now => exact deliver_suffered l b m now

/-- Serves requests in order, each on the store with the accesses that it refuses just then. Each is
noted down with its answer. -/
def runAmid (l : Ledger) (b : Backend) :
    List Occasion → List (Request × Except Failure Outcome) × Backend
  | [] => ([], b)
  | o :: rest =>
    let (answer, b) := l.serve { b with faults := o.faults } o.request
    let (journal, b) := l.runAmid b rest
    ((o.request, answer) :: journal, b)

/-- What outlasts every request, however the store fails, holds after every run. -/
theorem runAmid_preserves {I : Contents → Prop}
    (step : ∀ {r c answer d}, Suffered l r c answer d → I c → I d) (holds : I b.contents)
    (occasions : List Occasion) : I (l.runAmid b occasions).2.contents := by
  induction occasions generalizing b with
  | nil => exact holds
  | cons o rest ih =>
    exact ih (step (serve_suffered l { b with faults := o.faults } o.request) holds)

end Ledger

namespace Suffered

variable {l : Ledger} {r : Request} {c d : Contents} {answer : Except Failure Outcome}

/-- What every change preserves, and torn contents with both that they are torn from, outlasts every
request. -/
theorem preserves {I : Contents → Prop}
    (step : ∀ {now move c d}, Step l now move c d → I c → I d)
    (torn : ∀ {now moves key c whole d}, Steps l now moves c whole → c.Torn whole key d → I c →
      I whole → I d) (h : Suffered l r c answer d) (holds : I c) : I d := by
  cases h with
  | served h =>
    obtain ⟨moves, steps, -⟩ := h.steps
    exact steps.preserves step holds
  | torn f h within cut =>
    obtain ⟨moves, steps, -⟩ := h.steps
    exact torn steps cut holds (steps.preserves step holds)
  | unlasting f starts h =>
    obtain ⟨moves, steps, -⟩ := h.steps
    exact steps.preserves step holds

/-- A message is only accepted with its effect, however the store fails. -/
theorem effect {m : Message} {now : Seconds} {o : Outcome}
    (h : Suffered l (.deliver m now) c (.ok o) d) : m.Effect l now c o d := by
  cases h with
  | served h =>
    cases h with
    | delivered check h => exact h

end Suffered

/-! ## Nobody earns before being registered -/

theorem Table.get?_put_eq_none {ν ρ : Type} {t : Table ν ρ} {c : Contents} {name : ν} {record : ρ}
    {key : Bytes} (h : (t.put c name record).get? key = none) : c.get? key = none := by
  rw [put, Contents.get?_insert] at h
  split at h
  · cases h
  · exact h

/-- No change takes a key out of the store. -/
theorem Step.get?_eq_none {l : Ledger} {now : Seconds} {move : Move} {c d : Contents}
    (h : Step l now move c d) {key : Bytes} (absent : d.get? key = none) : c.get? key = none := by
  cases h with
  | credit | debit => exact get?_put_eq_none (get?_put_eq_none absent)
  | enrol =>
    exact get?_put_eq_none (get?_put_eq_none (get?_put_eq_none (get?_put_eq_none absent)))
  | meter | earn | followers | following => exact get?_put_eq_none absent

theorem Steps.get?_eq_none {l : Ledger} {now : Seconds} {moves : List Move} {c d : Contents}
    (h : Steps l now moves c d) {key : Bytes} (absent : d.get? key = none) :
    c.get? key = none := by
  induction h with
  | done c => exact absent
  | step first rest ih => exact first.get?_eq_none (ih absent)

theorem unearned_empty : Unearned .empty := fun _ _ => rfl

section

variable {l : Ledger} {r : Request} {c d : Contents} {answer : Except Failure Outcome}

/-- Nobody earns before being registered, however the store fails: a registration comes before the
earnings in the order of keys. -/
theorem Suffered.unearned (h : Suffered l r c answer d) (unearned : Unearned c) : Unearned d := by
  refine h.preserves (fun step => step.unearned) (fun steps torn before after u hu => ?_) unearned
  rename_i key c whole d
  rw [peek_eq_none_iff] at hu ⊢
  rw [torn] at hu ⊢
  have first := registration_precedes_earnings u
  -- Earnings that were written before the store failed came after a registration.
  by_cases early : precedes (registrations.key u) key = true
  · rw [if_pos early] at hu
    split
    · exact peek_eq_none_iff.1 (after u (peek_eq_none_iff.2 hu))
    · exact peek_eq_none_iff.1 (before u (peek_eq_none_iff.2 (steps.get?_eq_none hu)))
  · rw [if_neg early] at hu
    rw [if_neg fun h => early (precedes_trans first h)]
    exact peek_eq_none_iff.1 (before u (peek_eq_none_iff.2 hu))

end

/-! ## Holdings that need not be sound -/

namespace Vesting

variable {v : Vesting} {h h' : Holding} {x : Coin} {now : Seconds}

/-- What coin that comes in does to any holding. -/
structure Received (v : Vesting) (h : Holding) (x : Coin) (now : Seconds) (h' : Holding) :
    Prop where
  address_eq : h'.bank.address = h.bank.address
  owner_eq : h'.bank.owner = h.bank.owner
  balance_eq : h'.bank.balance.units = h.bank.balance.units + x.units
  deposited : ∃ finish, finish.count = now.count + v.window.count ∧
    h'.queue.deposits = h.queue.deposits.dropWhile (isMature now) ++ [⟨now, finish, x⟩]

theorem add_received (accepted : (v.add h x now).result = .ok h') : v.Received h x now h' := by
  unfold add at accepted
  split at accepted
  · cases accepted
  · split at accepted
    · cases accepted
    · rename_i current hcurrent
      obtain ⟨address, owner, balance, deposits⟩ := advance_keeps h hcurrent
      split at accepted
      · rename_i sum total finish hsum htotal hfinish
        cases accepted
        refine ⟨address, owner, ?_, finish, Seconds.ofInt?_eq_some_iff.1 hfinish, ?_⟩
        · rw [← balance]
          exact Coin.plus?_eq_some_iff.1 hsum
        · rw [← deposits]
      · cases accepted

end Vesting

/-! ## Banks under their own addresses -/

/-- Every bank is kept under its own address. -/
def Addressed (c : Contents) : Prop :=
  ∀ a bank, banks.peek c a = .ok (some bank) → bank.address = a

theorem addressed_empty : Addressed .empty := nofun

namespace Addressed

variable {c d : Contents}

theorem of_peek_eq (h : Addressed c) (same : ∀ a, banks.peek d a = banks.peek c a) :
    Addressed d :=
  fun a bank hbank => h a bank ((same a).symm.trans hbank)

theorem putBank (h : Addressed c) (bank : Bank) : Addressed (banks.put c bank.address bank) := by
  intro a found hfound
  by_cases own : a = bank.address
  · subst own
    rw [peek_put_bank] at hfound
    cases hfound
    rfl
  · exact h a found (by simpa [own] using hfound)

end Addressed

section

variable {l : Ledger} {now : Seconds} {move : Move} {c d : Contents}

theorem Step.addressed (h : Step l now move c d) (addressed : Addressed c) : Addressed d := by
  cases h with
  | @credit _ _ _ _ _ h' | @debit _ _ _ _ h' =>
    exact (addressed.putBank h'.bank).of_peek_eq fun a => by simp [putHolding]
  | @enrol _ u _ bank =>
    exact (addressed.putBank { bank with owner := some u }).of_peek_eq fun a => by simp [putAccount]
  | meter | earn | followers | following => exact addressed.of_peek_eq fun a => by simp

/-- Banks stay under their own addresses, however the store fails. -/
theorem Suffered.addressed {r : Request} {answer : Except Failure Outcome}
    (h : Suffered l r c answer d) (addressed : Addressed c) : Addressed d := by
  refine h.preserves (fun step => step.addressed) (fun _ torn before after a bank hbank => ?_)
    addressed
  rename_i key c whole d
  rcases torn.peek_eq banks a with same | same
  · exact after a bank (same.symm.trans hbank)
  · exact before a bank (same.symm.trans hbank)

/-- Coin that comes in at an address is received by what is kept there, and changes nothing else. -/
theorem Step.credit_received {a : Address} {x : Coin} (h : Step l now (.credit a x) c d)
    (addressed : Addressed c) :
    ∃ bank queue h', banks.peek c a = .ok bank ∧ queues.peek c a = .ok queue ∧
      l.vesting.Received ⟨bank.getD (.empty a), queue.getD (.empty now)⟩ x now h' ∧
      h'.bank.address = a ∧ d = putHolding c a h' := by
  cases h with
  | @credit _ _ _ bank queue h' hbank hqueue hadd =>
    have received := Vesting.add_received hadd
    refine ⟨bank, queue, h', hbank, hqueue, received, received.address_eq.trans ?_, rfl⟩
    cases bank with
    | none => rfl
    | some bank => exact addressed a bank hbank

end

end StakeLedger

import StakeLedger.Proofs.Vesting.Strict

/-!
# Refusals

Each operation on a holding has few reasons to fail. Some of them show before the holding is brought
up to date, and leave it as it was; the others show afterwards, and leave it up to date. This holds
of holdings of any kind.
-/

namespace StakeLedger

open Vesting

/-- The time at which something is asked of a holding. -/
def Vesting.Use.time : Use → Seconds
  | .add _ now | .withdraw _ now | .advance now => now

namespace Holding

variable {v : Vesting} {h : Holding} {now : Seconds} {f : Failure}

/-- Why a holding cannot be settled at a time: it runs back, or a sum leaves its range. -/
inductive Unsettled (h : Holding) (now : Seconds) : Failure → Prop
  | early (before : now.count < h.queue.lastUpdate.count) :
    h.Unsettled now (.timeRunsBack "settle stake" h.bank.address h.queue.lastUpdate now)
  | overflow : h.Unsettled now (.overflow "settle stake")

/-- Why a use fails of a holding as it is: no coin is to move, or the holding cannot be brought up
to date. -/
inductive Early (h : Holding) : Use → Failure → Prop
  | addNothing {amount : Coin} {now : Seconds} (none : amount.units = 0) :
    h.Early (.add amount now) (.invalidAmount "add coin" amount)
  | withdrawNothing {amount : Coin} {now : Seconds} (none : amount.units = 0) :
    h.Early (.withdraw amount now) (.invalidAmount "minus coin" amount)
  | stale {use : Use} {f : Failure} (failed : advance h use.time = .error f)
      (reason : h.Unsettled use.time f ∨ f = .overflow "advance stake") : h.Early use f

/-- Why a use fails of a holding that has been brought up to date for it: there is too much coin or
too little, or the time by which the coin is to mature is out of range. -/
inductive Late (v : Vesting) (h : Holding) : Use → Failure → Prop
  | overflow {amount : Coin} {now : Seconds} (out : h.bank.balance.plus? amount = none ∨
      h.queue.total.plus? amount = none ∨ now.plus? v.window = none) :
    h.Late v (.add amount now) (.overflow "add coin")
  | short {amount : Coin} {now : Seconds} (short : h.bank.balance.units < amount.units) :
    h.Late v (.withdraw amount now)
      (.insufficientBalance "minus coin" h.bank.address amount h.bank.balance)

theorem unsettled_of_error (failed : settled h.bank h.queue now = .error f) :
    h.Unsettled now f := by
  unfold settled at failed
  split at failed
  · rename_i before
    cases failed
    exact .early before
  · dsimp only at failed
    split at failed
    · cases failed
      exact .overflow
    · split at failed
      · cases failed
      · split at failed <;> cases failed
        exact .overflow

theorem stale_of_error (use : Use) (failed : advance h use.time = .error f) : h.Early use f := by
  refine .stale failed ?_
  unfold advance at failed
  cases settle : settled h.bank h.queue use.time with
  | error cause =>
    rw [settle] at failed
    cases failed
    exact .inl (unsettled_of_error settle)
  | ok s =>
    simp only [settle, bind, Except.bind] at failed
    split at failed <;> cases failed
    exact .inr rfl

/-- How a use that moves coin begins: it refuses to move none, and brings the holding up to date. It
fails there, with the holding as it was, or it fails in what follows. -/
theorem begun_failed (use : Use) {amount : Coin} {during : Activity} {after : Holding}
    {goOn : Holding → Attempt}
    (failed : (if amount.isZero then ⟨h, some (.invalidAmount during amount)⟩
      else match advance h use.time with
        | .error f => ⟨h, some f⟩
        | .ok current => goOn current) = (⟨after, some f⟩ : Attempt))
    (nothing : amount.units = 0 → h.Early use (.invalidAmount during amount)) :
    after = h ∧ h.Early use f ∨
      ∃ current, advance h use.time = .ok current ∧ goOn current = ⟨after, some f⟩ := by
  split at failed
  · rename_i none
    cases failed
    exact .inl ⟨rfl, nothing (Coin.isZero_iff.1 none)⟩
  · split at failed
    · rename_i run
      cases failed
      exact .inl ⟨rfl, stale_of_error use run⟩
    · rename_i current run
      exact .inr ⟨current, run, failed⟩

/-- A deposit that fails leaves the holding as it was, or up to date. -/
theorem add_failed {amount : Coin} {after : Holding}
    (failed : v.add h amount now = ⟨after, some f⟩) :
    after = h ∧ h.Early (.add amount now) f ∨
      advance h now = .ok after ∧ after.Late v (.add amount now) f := by
  rcases begun_failed (.add amount now) failed .addNothing with early | ⟨current, run, late⟩
  · exact .inl early
  refine .inr ?_
  split at late
  · cases late
  · rename_i out
    cases late
    refine ⟨run, .overflow ?_⟩
    by_contra fits
    simp only [not_or, Option.eq_none_iff_forall_ne_some, not_forall, not_not] at fits
    obtain ⟨⟨balance, hbalance⟩, ⟨total, htotal⟩, finish, hfinish⟩ := fits
    exact out balance total finish hbalance htotal hfinish

/-- A payment that fails leaves the holding as it was, or up to date. -/
theorem withdraw_failed {amount : Coin} {after : Holding}
    (failed : Vesting.withdraw h amount now = ⟨after, some f⟩) :
    after = h ∧ h.Early (.withdraw amount now) f ∨
      advance h now = .ok after ∧ after.Late v (.withdraw amount now) f := by
  rcases begun_failed (.withdraw amount now) failed .withdrawNothing with
    early | ⟨current, run, late⟩
  · exact .inl early
  refine .inr ?_
  split at late <;> cases late
  rename_i refused
  refine ⟨run, .short (Nat.lt_of_not_le fun enough => ?_)⟩
  rw [Coin.minus?_of_le enough] at refused
  cases refused

/-- Whatever use fails, it leaves the holding as it was, or up to date. -/
theorem perform_failed {use : Use} {after : Holding}
    (failed : v.perform h use = ⟨after, some f⟩) :
    after = h ∧ h.Early use f ∨ advance h use.time = .ok after ∧ after.Late v use f := by
  cases use with
  | add amount now => exact add_failed failed
  | withdraw amount now => exact withdraw_failed failed
  | advance now =>
    rw [perform] at failed
    cases run : advance h now with
    | error cause =>
      rw [run] at failed
      cases failed
      exact .inl ⟨rfl, stale_of_error (.advance now) run⟩
    | ok current =>
      rw [run] at failed
      cases failed

/-- The stake cannot be told because the holding cannot be settled, or the window has no length, or
it is too large. -/
theorem stakeAt_failed (failed : v.stakeAt h.bank h.queue now = .error f) :
    h.Unsettled now f ∨ v.divisor = 0 ∧ f = .emptyWindow ∨ f = .overflow "get stake" := by
  unfold Vesting.stakeAt at failed
  cases settle : settled h.bank h.queue now with
  | error cause =>
    rw [settle] at failed
    cases failed
    exact .inl (unsettled_of_error settle)
  | ok s =>
    simp only [settle, bind, Except.bind] at failed
    split at failed
    · rename_i zero
      cases failed
      exact .inr (.inl ⟨zero, rfl⟩)
    · split at failed <;> cases failed
      exact .inr (.inr rfl)

end Holding

end StakeLedger

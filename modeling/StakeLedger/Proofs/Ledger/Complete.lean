import StakeLedger.Proofs.Ledger.Link

/-!
# Complete records

In all records that a ledger can get to, whatever is looked for is missing or can be read, and an
account has all that any message for it will need: registration, usage and earnings, and both
records of a holding at its address. Such records are `Complete`, and every change keeps them so.
-/

namespace StakeLedger

open Table

/-! ## Records that can be read -/

/-- Every record of a table is missing or can be read. -/
def Readable {ν ρ : Type} (t : Table ν ρ) (c : Contents) : Prop :=
  ∀ name, ∃ found, t.peek c name = .ok found

/-- The records about accounts can be read. -/
structure Legible (c : Contents) : Prop where
  usages : Readable usages c
  earnings : Readable earnings c
  followers : Readable followers c
  following : Readable following c

theorem legible_empty : Legible .empty where
  usages _ := ⟨none, rfl⟩
  earnings _ := ⟨none, rfl⟩
  followers _ := ⟨none, rfl⟩
  following _ := ⟨none, rfl⟩

section

variable {l : Ledger} {now : Seconds} {move : Move} {c d : Contents} {u : Username}

/-- Every change leaves records that can be read. -/
theorem Step.legible (h : Step l now move c d) (legible : Legible c) : Legible d := by
  obtain ⟨usage, earned, theirs, own⟩ := legible
  unfold Readable at usage earned theirs own
  cases h with
  | credit | debit => constructor <;> intro v <;> simp [putHolding, usage, earned, theirs, own]
  | @enrol c u | @meter c u | @earn c u | @followers c u | @following c u =>
    constructor <;> intro v <;> by_cases same : v = u <;>
      simp [putAccount, same, usage, earned, theirs, own]

/-! ## Accounts and what they need -/

/-- Holdings are sound, accounts are linked to their addresses, and the rest can be read. -/
structure Complete (l : Ledger) (c : Contents) : Prop where
  vested : Vested l.vesting.window c
  linked : Linked c
  legible : Legible c

theorem Step.complete (h : Step l now move c d) (complete : Complete l c) : Complete l d where
  vested := (h.vested complete.vested).1
  linked := (h.linked complete.vested complete.linked).1
  legible := h.legible complete.legible

/-- What is kept for an account: nothing, or all its records and a holding at its address. -/
inductive Standing (window : Seconds) (c : Contents) (u : Username) : Prop
  | nobody (hregistration : registrations.peek c u = .ok none)
    (husage : usages.peek c u = .ok none) (hearnings : earnings.peek c u = .ok none)
  | account {r : Registration} {usage : Usage} {e : Earnings} {held : Holding}
    (hregistration : registrations.peek c u = .ok (some r))
    (husage : usages.peek c u = .ok (some usage)) (hearnings : earnings.peek c u = .ok (some e))
    (kept : Kept window c r.address (some held))

/-- What becomes of what is kept for an account where nothing acts on it: it stays, or the account
is opened, with something fresh. -/
inductive Persists {α : Type} (fresh : α) (before after : Except Failure (Option α)) : Prop
  | same (same : after = before)
  | opened (absent : before = .ok none) (present : after = .ok (some fresh))

theorem Persists.trans {α : Type} {fresh : α} {x y z : Except Failure (Option α)}
    (first : Persists fresh x y) (second : Persists fresh y z) : Persists fresh x z := by
  cases first with
  | same first =>
    subst first
    exact second
  | opened absent present =>
    cases second with
    | same second => exact .opened absent (second.trans present)
    | opened again => cases present.symm.trans again

namespace Complete

variable (complete : Complete l c)
include complete

theorem standing (u : Username) : Standing l.vesting.window c u := by
  obtain ⟨kept, enrolled⟩ := complete.linked.enrolled u
  cases enrolled with
  | nobody hregistration husage hearnings => exact .nobody hregistration husage hearnings
  | @account r key hregistration husage hearnings username hkey address owned =>
    obtain ⟨usage, husage'⟩ := complete.legible.usages u
    obtain ⟨e, hearnings'⟩ := complete.legible.earnings u
    obtain ⟨held, k⟩ := complete.vested r.address
    obtain ⟨bank, hbank, -⟩ := owned
    cases usage with
    | none => exact absurd husage' husage
    | some usage =>
      cases e with
      | none => exact absurd hearnings' hearnings
      | some e =>
        cases held with
        | none => exact absurd (hbank.symm.trans k.peek_eq.1) nofun
        | some held => exact .account hregistration husage' hearnings' k

/-- An account has a holding at its address. -/
theorem exists_kept {r : Registration} (hr : registrations.peek c u = .ok (some r)) :
    ∃ held, Kept l.vesting.window c r.address (some held) := by
  cases complete.standing u with
  | nobody hregistration => exact absurd (hr.symm.trans hregistration) nofun
  | account hregistration husage hearnings kept =>
    cases hr.symm.trans hregistration
    exact ⟨_, kept⟩

end Complete

end

/-- The records after every run are complete. -/
theorem Ledger.run_complete {l : Ledger} {b : Backend} (reliable : b.Reliable)
    (complete : Complete l b.contents) (requests : List Request) :
    Complete l (l.run b requests).2.contents :=
  (run_preserves (fun step => step.complete) reliable complete requests).1

theorem complete_empty (l : Ledger) : Complete l .empty :=
  ⟨vested_empty l.vesting.window, linked_empty, legible_empty⟩

end StakeLedger

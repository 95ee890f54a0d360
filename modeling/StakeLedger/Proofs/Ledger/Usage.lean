import StakeLedger.Proofs.Ledger.Complete
import StakeLedger.Proofs.Ledger.Direct

/-!
# The usage of an account

The sequence number of an account and the state of its capacity are kept in one record. It comes in
fresh when the account is opened, and from then on only two kinds of message about that account set
it: a check of capacity, which may be recorded even if it is refused, and a request for the next
number. Neither touches what the other one counts. `Metered` has the cases.
-/

namespace StakeLedger

open Table

/-- The account whose usage a message is about. -/
def Message.user? : Message → Option Username
  | checkCapacity u _ | increaseSequence u => some u
  | deposit .. | depositToAccount .. | withdraw .. | transfer .. | follow .. | unfollow ..
  | accrueReward .. | accrueFrictionIncome .. | claimReward _ | createAccount .. => none

def Request.user? : Request → Option Username
  | start _ => none
  | deliver m _ => m.user?

/-- Nothing acts on the usage of an account: it stays, or it is fresh as the account is opened at
`now`. -/
abbrev UsageKept (now : Seconds) (c d : Contents) (u : Username) : Prop :=
  Persists (.fresh now) (usages.peek c u) (usages.peek d u)

section

variable {l : Ledger} {now : Seconds} {c d : Contents} {u : Username}

/-- No change but one of a usage acts on usages. -/
theorem Step.usage {move : Move} (h : Step l now move c d) (complete : Complete l c)
    (other : ∀ v usage, move ≠ .meter v usage) : UsageKept now c d u := by
  cases h with
  | credit | debit => exact .same (by simp [putHolding])
  | @enrol _ v key bank hnew =>
    by_cases own : u = v
    · subst own
      cases complete.standing u with
      | nobody _ husage => exact .opened husage (by simp [putAccount])
      | account hregistration => cases hnew.symm.trans hregistration
    · exact .same (by simp [putAccount, own])
  | meter => exact absurd rfl (other _ _)
  | earn | followers | following => exact .same (by simp)

/-- No accepted message about other usages acts on the usage of an account. -/
theorem Message.Effect.usage {m : Message} {o : Outcome} (h : m.Effect l now c o d)
    (complete : Complete l c) (other : m.user? ≠ some u) : UsageKept now c d u := by
  have apart {v : Username} (h : m.user? = some v) : u ≠ v := by
    rintro rfl
    exact other h
  cases h with
  | deposit h | depositToAccount _ h | withdraw _ h | createAccount _ h =>
    exact h.usage complete fun _ _ => nofun
  | transfer hr htarget paid received =>
    have between := paid.complete complete
    exact (paid.usage complete fun _ _ => nofun).trans
      (received.usage between fun _ _ => nofun)
  | claimReward hearnings hr received =>
    exact (received.usage complete fun _ _ => nofun).trans (.same (by simp))
  | follow | unfollow | accrueReward | accrueFrictionIncome | claimNothing => exact .same (by simp)
  | checkCapacity | increaseSequence => exact .same (by simp [apart rfl])

theorem Genesis.Effect.usage {accounts : List FirstAccount} (h : Effect l now accounts c d)
    (complete : Complete l c) : UsageKept now c d u := by
  induction h with
  | none c => exact .same rfl
  | account hkey hcoin received opened later ih =>
    have between := received.complete complete
    exact (received.usage complete fun _ _ => nofun).trans
      ((opened.usage between fun _ _ => nofun).trans (ih (opened.complete between)))

/-- All that a request can do to the usage of an account, by its answer. -/
inductive Metered (l : Ledger) (c d : Contents) (u : Username) :
    Request → Except Failure Outcome → Prop
  | kept {r : Request} {answer : Except Failure Outcome} (kept : UsageKept r.time c d u)
    (idle : r.user? = some u → ¬answer.isOk) : Metered l c d u r answer
  | paid {ratio : Ratio} {now : Seconds} {usage : Usage} {left : Coin}
    (before : usages.peek c u = .ok (some usage))
    (after : usages.peek d u = .ok (some { usage with capacity := left, lastActive := now })) :
    Metered l c d u (.deliver (.checkCapacity u ratio) now) (.ok (.capacityRemaining left))
  | short {ratio : Ratio} {now : Seconds} {usage : Usage} {cost available : Coin}
    (before : usages.peek c u = .ok (some usage))
    (after : usages.peek d u = .ok (some { usage with capacity := available })) :
    Metered l c d u (.deliver (.checkCapacity u ratio) now)
      (.error (.capacityShort u cost available))
  | numbered {now : Seconds} {usage : Usage} {n : Word64}
    (before : usages.peek c u = .ok (some usage)) (next : n.val = usage.sequence.val + 1)
    (after : usages.peek d u = .ok (some { usage with sequence := n })) :
    Metered l c d u (.deliver (.increaseSequence u) now) (.ok (.sequence n))

theorem Message.Effect.metered {m : Message} {o : Outcome} (h : m.Effect l now c o d)
    (own : m.user? = some u) :
    Metered l c d u (.deliver m now) (.ok o) := by
  cases h with
  | @checkCapacity _ ratio _ usage usage' ceiling left husage hstake hcharge =>
    cases own
    have outcome := Throttle.charge_cases l.period_pos ⟨u, ceiling, ratio, now⟩ usage
    rw [hcharge] at outcome
    cases outcome with
    | paid => exact .paid husage (peek_put_usage _ _ _)
  | increaseSequence husage next =>
    cases own
    exact .numbered husage next (peek_put_usage _ _ _)
  | deposit | depositToAccount | withdraw | transfer | follow | unfollow | accrueReward
  | accrueFrictionIncome | claimNothing | claimReward | createAccount => cases own

/-- What a request does to the usage of an account. -/
theorem Served.metered {r : Request} {answer : Except Failure Outcome} (h : Served l r c answer d)
    (complete : Complete l c) (u : Username) : Metered l c d u r answer := by
  cases h with
  | started h => exact .kept (h.usage complete) nofun
  | refused => exact .kept (.same rfl) fun _ => nofun
  | @short v ratio now _ _ _ _ husage =>
    by_cases own : u = v
    · subst own
      exact .short husage (peek_put_usage _ _ _)
    · exact .kept (.same (by simp [own])) fun _ => nofun
  | @delivered m _ _ _ _ check h =>
    by_cases own : m.user? = some u
    · exact h.metered own
    · exact .kept (h.usage complete own) fun same => absurd same own

end

end StakeLedger

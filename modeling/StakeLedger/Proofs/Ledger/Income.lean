import StakeLedger.Proofs.Ledger.Buffered
import StakeLedger.Proofs.Ledger.Complete
import StakeLedger.Proofs.Ledger.Disturbed

/-!
# What an account has earned

The earnings of an account are sums over the messages about them that were accepted: its income with
and without friction, the rewards that came in, and those that were claimed. This holds however the
store fails on the way, since an accrual or a claim that fails leaves all earnings alone. So no
accrual is lost, and no claim is counted twice. The coin of a claim that the store interrupts may be
at the address already, though, and it still waits to be claimed.

The total of an account is its income with friction. One of its two parts is the income from
friction, but the other counts the rewards that came in, and not the income that came in with them.
The parts add up to the total only as far as the two are the same.
-/

namespace StakeLedger

open Table

/-! ## Sums over messages -/

/-- Sums over accepted messages about the earnings of an account. -/
structure Tally where
  income : Nat
  reward : Nat
  friction : Nat
  claimed : Nat
  deriving DecidableEq

namespace Tally

def zero : Tally := ⟨0, 0, 0, 0⟩

def plus (s t : Tally) : Tally :=
  ⟨s.income + t.income, s.reward + t.reward, s.friction + t.friction, s.claimed + t.claimed⟩

@[simp] theorem plus_zero (t : Tally) : t.plus zero = t := rfl

@[simp] theorem zero_plus (t : Tally) : zero.plus t = t := by simp [plus, zero]

theorem plus_assoc (s t u : Tally) : (s.plus t).plus u = s.plus (t.plus u) := by
  simp [plus, Nat.add_assoc]

end Tally

/-- What a request counts for an account, by its answer. One that is refused counts for nothing. -/
def Request.tally (u : Username) : Request → Except Failure Outcome → Tally
  | .deliver (.accrueReward v income reward) _, .ok _ =>
    if v = u then ⟨income.units, reward.units, 0, 0⟩ else .zero
  | .deliver (.accrueFrictionIncome v amount) _, .ok _ =>
    if v = u then ⟨0, 0, amount.units, 0⟩ else .zero
  | .deliver (.claimReward v) _, .ok (.claimed amount) =>
    if v = u then ⟨0, 0, 0, amount.units⟩ else .zero
  | _, _ => .zero

/-- What the requests of a journal count for an account. -/
def tallyOf (u : Username) : List (Request × Except Failure Outcome) → Tally
  | [] => .zero
  | (r, answer) :: rest => (r.tally u answer).plus (tallyOf u rest)

theorem Request.tally_error (u : Username) (r : Request) (f : Failure) :
    r.tally u (.error f) = .zero := by
  unfold tally
  split <;> first | rfl | contradiction

/-- A request about the earnings of others counts for nothing. -/
theorem Request.tally_of_other {u : Username} {r : Request} (other : r.earner? ≠ some u)
    (answer : Except Failure Outcome) : r.tally u answer = .zero := by
  have apart {v : Username} (own : r.earner? = some v) : v ≠ u := by
    rintro rfl
    exact other own
  unfold tally
  split
  case h_4 => rfl
  all_goals exact if_neg (apart rfl)

/-! ## Requests by which nothing is earned -/

/-- Nothing is earned: the earnings of an account stay, or it is opened. -/
abbrev EarningsKept (c d : Contents) (u : Username) : Prop :=
  Persists .empty (earnings.peek c u) (earnings.peek d u)

section

variable {l : Ledger} {now : Seconds} {c d : Contents} {u : Username}

/-- No change but one of earnings changes earnings that are there. -/
theorem Step.earnings {move : Move} (h : Step l now move c d) (unearned : Unearned c)
    (other : ∀ v e e', move ≠ .earn v e e') : EarningsKept c d u := by
  cases h with
  | credit | debit => exact .same (by simp [putHolding])
  | @enrol _ v key bank hnew =>
    by_cases own : u = v
    · subst own
      exact .opened (unearned u hnew) (by simp [putAccount])
    · exact .same (by simp [putAccount, own])
  | earn => exact absurd rfl (other _ _ _)
  | meter | followers | following => exact .same (by simp)

theorem Message.Effect.earnings {m : Message} {o : Outcome} (h : m.Effect l now c o d)
    (unearned : Unearned c) (other : m.earner? ≠ some u) : EarningsKept c d u := by
  have apart {v : Username} (h : m.earner? = some v) : u ≠ v := by
    rintro rfl
    exact other h
  cases h with
  | deposit h | depositToAccount _ h | withdraw _ h | createAccount _ h =>
    exact h.earnings unearned fun _ _ _ => nofun
  | transfer hr htarget paid received =>
    have between := paid.unearned unearned
    exact (paid.earnings unearned fun _ _ _ => nofun).trans
      (received.earnings between fun _ _ _ => nofun)
  | follow | unfollow | checkCapacity | claimNothing | increaseSequence => exact .same (by simp)
  | accrueReward | accrueFrictionIncome => exact .same (by simp [apart rfl])
  | claimReward hearnings hr received =>
    exact (received.earnings unearned fun _ _ _ => nofun).trans (.same (by simp [apart rfl]))

theorem Genesis.Effect.earnings {accounts : List FirstAccount} (h : Effect l now accounts c d)
    (unearned : Unearned c) : EarningsKept c d u := by
  induction h with
  | none c => exact .same rfl
  | account hkey hcoin received opened later ih =>
    have between := received.unearned unearned
    exact (received.earnings unearned fun _ _ _ => nofun).trans
      ((opened.earnings between fun _ _ _ => nofun).trans (ih (opened.unearned between)))

theorem Served.earnings {r : Request} {answer : Except Failure Outcome}
    (h : Served l r c answer d) (unearned : Unearned c) (other : r.earner? ≠ some u) :
    EarningsKept c d u := by
  cases h with
  | started h => exact h.earnings unearned
  | delivered check h => exact h.earnings unearned other
  | refused => exact .same rfl
  | short => exact .same (by simp)

/-- Torn earnings are those before or those after. -/
theorem EarningsKept.torn {whole : Contents} {key : Bytes} (kept : EarningsKept c whole u)
    (torn : c.Torn whole key d) : EarningsKept c d u := by
  rcases torn.peek_eq Table.earnings u with same | same
  · exact kept.trans (.same same)
  · exact .same same

theorem Suffered.earnings {r : Request} {answer : Except Failure Outcome}
    (h : Suffered l r c answer d) (unearned : Unearned c) (other : r.earner? ≠ some u) :
    EarningsKept c d u := by
  cases h with
  | served h => exact h.earnings unearned other
  | torn f h within torn => exact (h.earnings unearned other).torn torn
  | unlasting f starts h => exact h.earnings unearned

/-- An accepted message about the earnings of one account leaves those of the others alone. -/
theorem Message.Effect.earnings_of_ne {m : Message} {o : Outcome} (h : m.Effect l now c o d)
    {v : Username} (own : m.earner? = some v) (other : u ≠ v) :
    Table.earnings.peek d u = Table.earnings.peek c u := by
  cases h with
  | accrueReward | accrueFrictionIncome =>
    cases own
    simp [other]
  | claimNothing => rfl
  | claimReward hearnings hr received =>
    cases own
    cases received
    simp [putHolding, other]
  | deposit | depositToAccount | withdraw | transfer | follow | unfollow | checkCapacity
  | createAccount | increaseSequence => cases own

/-- An accrual or a claim that fails leaves all earnings alone, however the store fails. -/
theorem Suffered.earnings_of_failed {r : Request} {f : Failure} {v : Username}
    (h : Suffered l r c (.error f) d) (own : r.earner? = some v) (u : Username) :
    Table.earnings.peek d u = Table.earnings.peek c u := by
  cases h with
  | served h =>
    cases h with
    | refused => rfl
    | short => cases own
  | unlasting f starts =>
    rw [starts] at own
    cases own
  | @torn _ whole _ key f h within torn =>
    by_cases same : u = v
    · subst same
      -- The earnings come last among the keys that are set, so none is set if one is refused.
      have early : ¬precedes (Table.earnings.key u) key = true := by
        rw [within u own]
        exact Bool.false_ne_true
      rw [peek, torn, if_neg early, peek]
    · have old : Table.earnings.peek whole u = Table.earnings.peek c u := by
        cases h with
        | started => cases own
        | delivered check h => exact h.earnings_of_ne own same
        | refused => rfl
        | short => cases own
      rcases torn.peek_eq Table.earnings u with new | new
      · exact new.trans old
      · exact new

/-! ## Earnings by tallies -/

/-- The earnings of an account are the sums of a tally. Where there are none, nothing was earned. -/
inductive Accounted (c : Contents) (u : Username) (t : Tally) : Prop
  | unopened (absent : earnings.peek c u = .ok none) (zero : t = .zero)
  | opened {e : Earnings} (hearnings : earnings.peek c u = .ok (some e))
    (total : e.total.units = t.income + t.friction) (direct : e.direct.units = t.reward)
    (friction : e.friction.units = t.friction)
    (unclaimed : e.unclaimed.units + t.claimed = t.reward)

namespace Accounted

variable {t : Tally}

theorem of_kept (accounted : Accounted c u t) (kept : EarningsKept c d u) : Accounted d u t := by
  cases accounted with
  | unopened absent zero =>
    cases kept with
    | same same => exact .unopened (same.trans absent) zero
    | opened before after =>
      subst zero
      exact .opened after rfl rfl rfl rfl
  | opened hearnings total direct friction unclaimed =>
    cases kept with
    | same same => exact .opened (same.trans hearnings) total direct friction unclaimed
    | opened before => exact absurd (hearnings.symm.trans before) nofun

/-- Earnings that are there are the sums. -/
theorem sums (accounted : Accounted c u t) {e : Earnings}
    (hearnings : earnings.peek c u = .ok (some e)) :
    e.total.units = t.income + t.friction ∧ e.direct.units = t.reward ∧
      e.friction.units = t.friction ∧ e.unclaimed.units + t.claimed = t.reward := by
  cases accounted with
  | unopened absent => cases hearnings.symm.trans absent
  | opened hold total direct friction unclaimed =>
    cases hearnings.symm.trans hold
    exact ⟨total, direct, friction, unclaimed⟩

/-- A message that is accepted goes into the earnings that it is about as it goes into the tally. -/
theorem of_effect (accounted : Accounted c u t) {m : Message} {o : Outcome}
    (h : m.Effect l now c o d) (own : m.earner? = some u) :
    Accounted d u (t.plus ((Request.deliver m now).tally u (.ok o))) := by
  cases h with
  | accrueReward hearnings haccrue =>
    cases own
    obtain ⟨total, direct, friction, unclaimed⟩ := accounted.sums hearnings
    obtain ⟨total', direct', friction', unclaimed'⟩ := Earnings.accrue_eq_ok haccrue
    simp only [Request.tally, if_true]
    refine .opened (peek_put_earnings _ _ _) ?_ ?_ ?_ ?_ <;> simp only [Tally.plus, friction'] <;>
      omega
  | accrueFrictionIncome hearnings haccrue =>
    cases own
    obtain ⟨total, direct, friction, unclaimed⟩ := accounted.sums hearnings
    obtain ⟨total', direct', friction', unclaimed'⟩ := Earnings.accrueFriction_eq_ok haccrue
    simp only [Request.tally, if_true]
    refine .opened (peek_put_earnings _ _ _) ?_ ?_ ?_ ?_ <;>
      simp only [Tally.plus, direct', unclaimed'] <;> omega
  | claimNothing hearnings hr zero =>
    cases own
    obtain ⟨total, direct, friction, unclaimed⟩ := accounted.sums hearnings
    simp only [Request.tally, if_true]
    refine .opened hearnings ?_ ?_ ?_ ?_ <;> simp only [Tally.plus] <;> omega
  | claimReward hearnings hr received =>
    cases own
    obtain ⟨total, direct, friction, unclaimed⟩ := accounted.sums hearnings
    simp only [Request.tally, if_true]
    refine .opened (peek_put_earnings _ _ _) ?_ ?_ ?_ ?_ <;>
      simp only [Tally.plus, Earnings.claimed, Coin.units_zero] <;> omega
  | deposit | depositToAccount | withdraw | transfer | follow | unfollow | checkCapacity
  | createAccount | increaseSequence => cases own

end Accounted

/-- A request goes into the earnings of an account as it goes into the tally, however the store
fails. -/
theorem Suffered.accounted {r : Request} {answer : Except Failure Outcome} {t : Tally}
    (h : Suffered l r c answer d) (unearned : Unearned c) (accounted : Accounted c u t) :
    Accounted d u (t.plus (r.tally u answer)) := by
  by_cases own : r.earner? = some u
  · cases answer with
    | error f =>
      rw [r.tally_error, Tally.plus_zero]
      exact accounted.of_kept (.same (h.earnings_of_failed own u))
    | ok o =>
      cases r with
      | start => cases own
      | deliver m now => exact accounted.of_effect h.effect own
  · rw [r.tally_of_other own, Tally.plus_zero]
    exact accounted.of_kept (h.earnings unearned own)

/-- A message about earnings that fails leaves all records alone, unless the store failed. -/
theorem Suffered.contents_of_failed {r : Request} {f : Failure} {v : Username}
    (h : Suffered l r c (.error f) d) (own : r.earner? = some v) (other : ∀ s, f ≠ .store s) :
    d = c := by
  cases h with
  | served h =>
    cases h with
    | refused => rfl
    | short => cases own
  | torn s | unlasting s => exact absurd rfl (other s)

end

/-! ## Claims -/

/-- An accepted script that makes no update leaves any store as it is, log included. -/
theorem Script.commitOn_eq_self {α : Type} {b : Backend} {script : Script α} {a : α} {c : Contents}
    (run : script.runPlain b.contents = (.ok a, c)) (idle : script.updates b.contents = [])
    (accepted : ∃ a, (script.commitOn b).1 = .ok a) : (script.commitOn b).2 = b := by
  have mended : script.commitOn b.mended = (.ok a, b.mended) :=
    commitOn_of_idle b.reliable_mended run idle
  have disturbed := script.obeys_anything.commitOn_disturbed b
  have faults := faults_commitOn b script
  rw [mended] at disturbed
  generalize script.commitOn b = came at disturbed faults accepted ⊢
  cases disturbed with
  | refused => rfl
  | undisturbed contents log =>
    exact (Backend.mk.injEq ..).mpr ⟨contents, faults, log⟩
  | torn =>
    obtain ⟨a, accepted⟩ := accepted
    cases accepted

/-- What an accepted claim does, where the account has earnings `e` and a registration `r`: all that
waits is received at the address of the account, and then nothing waits any more. Nothing else
changes. Where nothing waits, nothing is written. -/
structure Paid (l : Ledger) (u : Username) (now : Seconds) (b b' : Backend) (e : Earnings)
    (r : Registration) : Prop where
  hearnings : earnings.peek b.contents u = .ok (some e)
  hregistration : registrations.peek b.contents u = .ok (some r)
  idle : e.unclaimed.units = 0 → b' = b
  received : 0 < e.unclaimed.units → ∃ bank queue h',
    banks.peek b.contents r.address = .ok bank ∧ queues.peek b.contents r.address = .ok queue ∧
      l.vesting.Received ⟨bank.getD (.empty r.address), queue.getD (.empty now)⟩ e.unclaimed now
        h' ∧
      h'.bank.address = r.address ∧
      b'.contents = earnings.put (putHolding b.contents r.address h') u
        { e with unclaimed := .zero }

section

variable {l : Ledger} {u : Username} {now : Seconds}

/-- A claim finds nothing to do where nothing waits. -/
theorem Ledger.claim_idle (l : Ledger) (now : Seconds) {c : Contents} {e : Earnings}
    {r : Registration} (hearnings : earnings.peek c u = .ok (some e))
    (hr : registrations.peek c u = .ok (some r)) (zero : e.unclaimed.units = 0) :
    let script := Message.script l now (.claimReward u)
    script.runPlain c = (.ok (.claimed e.unclaimed), c) ∧ script.updates c = [] := by
  have nothing := Coin.isZero_iff.2 zero
  intro script
  simp only [script, Message.script, claim, Script.runPlain_bind, Script.updates_bind,
    require_runPlain hearnings, addressOf_runPlain hr, nothing, if_true,
    Script.updates_of_looks (obeys_require _ _ _), Script.updates_of_looks (obeys_addressOf _ _)]
  exact ⟨rfl, rfl⟩

theorem Ledger.deliver_claim {b : Backend} {o : Outcome} (addressed : Addressed b.contents)
    (accepted : (l.deliver b (.claimReward u) now).1 = .ok o) :
    ∃ e r, o = .claimed e.unclaimed ∧ Paid l u now b (l.deliver b (.claimReward u) now).2 e r := by
  have suffered := deliver_suffered l b (.claimReward u) now
  rw [accepted] at suffered
  generalize final : (l.deliver b (.claimReward u) now).2.contents = d at suffered
  cases suffered.effect with
  | @claimNothing _ _ e r hearnings hr zero =>
    refine ⟨e, r, rfl, hearnings, hr, fun _ => ?_, fun pos => by omega⟩
    obtain ⟨run, idle⟩ := l.claim_idle now hearnings hr zero
    exact Script.commitOn_eq_self run idle ⟨_, accepted⟩
  | @claimReward _ _ d e r hearnings hr credit =>
    have pos := credit.credit_pos
    obtain ⟨bank, queue, h', hbank, hqueue, received, address, rfl⟩ :=
      credit.credit_received addressed
    exact ⟨e, r, rfl, hearnings, hr, fun zero => by omega,
      fun _ => ⟨bank, queue, h', hbank, hqueue, received, address, final⟩⟩

end

/-! ## Runs -/

namespace Ledger

variable {l : Ledger} {b : Backend}

/-- After any run the earnings of an account are the sums over what was accepted. -/
theorem runAmid_accounted {u : Username} {t : Tally} (unearned : Unearned b.contents)
    (accounted : Accounted b.contents u t) (occasions : List Occasion) :
    Accounted (l.runAmid b occasions).2.contents u
      (t.plus (tallyOf u (l.runAmid b occasions).1)) := by
  induction occasions generalizing b t with
  | nil => exact accounted
  | cons o rest ih =>
    have suffered := serve_suffered l { b with faults := o.faults } o.request
    have later := ih (suffered.unearned unearned) (suffered.accounted unearned accounted)
    rwa [Tally.plus_assoc] at later

theorem accounted_runAmid_empty (l : Ledger) (occasions : List Occasion) (u : Username) :
    Accounted (l.runAmid .empty occasions).2.contents u
      (tallyOf u (l.runAmid .empty occasions).1) := by
  have accounted := runAmid_accounted (l := l) (b := .empty) unearned_empty
    (.unopened (u := u) rfl rfl) occasions
  rwa [Tally.zero_plus] at accounted

/-- If the store never fails, an account has all its records after a run. -/
theorem runAmid_complete (complete : Complete l b.contents) {occasions : List Occasion}
    (reliable : ∀ o ∈ occasions, o.faults = []) :
    Complete l (l.runAmid b occasions).2.contents := by
  induction occasions generalizing b with
  | nil => exact complete
  | cons o rest ih =>
    have never : Backend.Reliable { b with faults := o.faults } := by
      intro access
      rw [Backend.fault?, reliable o (by simp)]
      rfl
    obtain ⟨moves, steps, -⟩ := (serve_served (l := l) never o.request).1.steps
    exact ih (steps.preserves (fun step => step.complete) complete)
      fun o ho => reliable o (by simp [ho])

/-- After any run from an empty store, which may refuse any access at any time, the earnings of an
account are the sums over the accruals and claims that were accepted. Where there are none yet,
nothing was accepted, and a registered account has earnings unless the store has failed. A claim
that is accepted then takes all that waits, neither more nor less, and a message about earnings that
fails leaves the earnings of all accounts alone. -/
theorem runAmid_earnings (l : Ledger) (occasions : List Occasion) (u : Username) :
    let b := (l.runAmid .empty occasions).2
    let t := tallyOf u (l.runAmid .empty occasions).1
    (earnings.peek b.contents u = .ok none ∧ t = .zero ∨
      ∃ e, earnings.peek b.contents u = .ok (some e) ∧ e.total.units = t.income + t.friction ∧
        e.friction.units = t.friction ∧ e.unclaimed.units + t.claimed = t.reward) ∧
    ((∀ o ∈ occasions, o.faults = []) → ∀ r, registrations.peek b.contents u = .ok (some r) →
      earnings.peek b.contents u ≠ .ok none) ∧
    (∀ faults now o, (l.deliver { b with faults } (.claimReward u) now).1 = .ok o →
      ∃ e r, o = .claimed e.unclaimed ∧
        Paid l u now { b with faults } (l.deliver { b with faults } (.claimReward u) now).2 e r) ∧
    ∀ faults m now f, m.earner? = some u → (l.deliver { b with faults } m now).1 = .error f →
      let d := (l.deliver { b with faults } m now).2.contents
      (∀ v, earnings.peek d v = earnings.peek b.contents v) ∧
        ((∀ s, f ≠ .store s) → d = b.contents) := by
  intro b t
  have accounted : Accounted b.contents u t := l.accounted_runAmid_empty occasions u
  have addressed : Addressed b.contents :=
    runAmid_preserves (fun suffered => suffered.addressed) addressed_empty occasions
  have complete (reliable : ∀ o ∈ occasions, o.faults = []) : Complete l b.contents :=
    runAmid_complete (complete_empty l) reliable
  clear_value b t
  refine ⟨?_, fun reliable r hr => ?_, fun faults now o accepted => ?_,
    fun faults m now f own failed => ?_⟩
  · cases accounted with
    | unopened absent zero => exact .inl ⟨absent, zero⟩
    | opened hearnings total direct friction unclaimed =>
      exact .inr ⟨_, hearnings, total, friction, unclaimed⟩
  · cases (complete reliable).standing u with
    | nobody hregistration => exact absurd (hr.symm.trans hregistration) nofun
    | account _ _ hearnings => exact fun absent => absurd (hearnings.symm.trans absent) nofun
  · exact deliver_claim (b := { b with faults }) addressed accepted
  · have suffered := deliver_suffered l { b with faults } m now
    rw [failed] at suffered
    exact ⟨fun v => suffered.earnings_of_failed own v, suffered.contents_of_failed own⟩

/-- An account earns 5 with a reward of 3, and 2 from friction. A claim that the store interrupts
leaves the 3 to be claimed, and the next claim takes them. -/
theorem runAmid_earnings_claimed :
    let l : Ledger := ⟨.standard, by decide⟩
    let alice : Username := ⟨"alice", by decide⟩
    let home : Address := ⟨"34750f98bd59fcfc946da45aaabe933be154a4b5", by decide⟩
    let digits := "8a88e3dd7409f195fd52db2d3cba5d72ca6709bf1d94121bf3748801b40f6f5c"
    let plain (m : Message) : Occasion := ⟨.deliver m .zero, []⟩
    let occasions := [plain (.deposit home ⟨300000, by decide⟩),
      plain (.createAccount alice digits),
      plain (.accrueReward alice ⟨5, by decide⟩ ⟨3, by decide⟩),
      plain (.accrueFrictionIncome alice ⟨2, by decide⟩),
      ⟨.deliver (.claimReward alice) .zero, [(.set (earnings.key alice), "refused")]⟩]
    let b := (l.runAmid .empty occasions).2
    let claimed := l.deliver { b with faults := [] } (.claimReward alice) .zero
    claimed.1 = .ok (.claimed ⟨3, by decide⟩) ∧
      ∃ e r, e.total.units = 7 ∧ e.friction.units = 2 ∧ e.unclaimed.units = 3 ∧
        Paid l alice .zero { b with faults := [] } claimed.2 e r := by
  intro l alice home digits plain occasions b claimed
  obtain ⟨sums, accepted⟩ : tallyOf alice (l.runAmid .empty occasions).1 = ⟨5, 3, 2, 0⟩ ∧
      claimed.1 = .ok (.claimed ⟨3, by decide⟩) := by decide +kernel
  have earned := l.runAmid_earnings occasions alice
  extract_lets t at earned
  change t = _ at sums
  clear_value b t -- the requests are not to be served again
  obtain ⟨accounted, -, claims, -⟩ := earned
  obtain ⟨e, r, answer, paid⟩ := claims [] .zero _ accepted
  refine ⟨accepted, e, r, ?_⟩
  rcases accounted with ⟨absent, -⟩ | ⟨e', hearnings, total, friction, unclaimed⟩
  · exact absurd (paid.hearnings.symm.trans absent) nofun
  · cases paid.hearnings.symm.trans hearnings
    rw [sums] at total friction unclaimed
    exact ⟨total, friction, unclaimed, paid⟩

/-- After any run the parts of the total of an account add up exactly if as much income came in as
rewards did. -/
theorem runAmid_breakdown_iff (l : Ledger) (occasions : List Occasion) {u : Username} {e : Earnings}
    (hearnings : earnings.peek (l.runAmid .empty occasions).2.contents u = .ok (some e)) :
    let t := tallyOf u (l.runAmid .empty occasions).1
    e.total.units = t.income + t.friction ∧ e.direct.units = t.reward ∧
      e.friction.units = t.friction ∧
      (e.total.units = e.direct.units + e.friction.units ↔ t.income = t.reward) := by
  intro t
  have accounted : Accounted _ u t := l.accounted_runAmid_empty occasions u
  obtain ⟨total, direct, friction, -⟩ := accounted.sums hearnings
  exact ⟨total, direct, friction, by omega⟩

/-- The parts add up where the rewards come to the income, accrual by accrual or not. -/
theorem runAmid_breakdown_iff_even :
    let l : Ledger := ⟨.standard, by decide⟩
    let alice : Username := ⟨"alice", by decide⟩
    let home : Address := ⟨"34750f98bd59fcfc946da45aaabe933be154a4b5", by decide⟩
    let digits := "8a88e3dd7409f195fd52db2d3cba5d72ca6709bf1d94121bf3748801b40f6f5c"
    let plain (m : Message) : Occasion := ⟨.deliver m .zero, []⟩
    let occasions := [plain (.deposit home ⟨300000, by decide⟩),
      plain (.createAccount alice digits),
      plain (.accrueReward alice ⟨200, by decide⟩ ⟨300, by decide⟩),
      plain (.accrueReward alice ⟨300, by decide⟩ ⟨200, by decide⟩)]
    let b := (l.runAmid .empty occasions).2
    ∃ e, earnings.peek b.contents alice = .ok (some e) ∧
      e.total.units = e.direct.units + e.friction.units := by
  intro l alice home digits plain occasions b
  obtain ⟨hearnings, sums⟩ : earnings.peek b.contents alice =
        .ok (some ⟨⟨500, by decide⟩, ⟨500, by decide⟩, .zero, ⟨500, by decide⟩⟩) ∧
      tallyOf alice (l.runAmid .empty occasions).1 = ⟨500, 500, 0, 0⟩ := by decide +kernel
  have parts := l.runAmid_breakdown_iff occasions hearnings
  extract_lets t at parts
  change t = _ at sums
  rw [sums] at parts
  exact ⟨_, hearnings, parts.2.2.2.2 rfl⟩

/-- Income of 5 comes in with a reward of 3. The total is then 5, but its parts are 3 and 0. -/
theorem accrueReward_breaks_breakdown :
    let l : Ledger := ⟨.standard, by decide⟩
    let alice : Username := ⟨"alice", by decide⟩
    let home : Address := ⟨"34750f98bd59fcfc946da45aaabe933be154a4b5", by decide⟩
    let digits := "8a88e3dd7409f195fd52db2d3cba5d72ca6709bf1d94121bf3748801b40f6f5c"
    let plain (m : Message) : Occasion := ⟨.deliver m .zero, []⟩
    let occasions := [plain (.deposit home ⟨300000, by decide⟩),
      plain (.createAccount alice digits),
      plain (.accrueReward alice ⟨5, by decide⟩ ⟨3, by decide⟩)]
    let run := l.runAmid .empty occasions
    (∀ entry ∈ run.1, entry.2.isOk) ∧ ∃ e, earnings.peek run.2.contents alice = .ok (some e) ∧
      e.total.units ≠ e.direct.units + e.friction.units := by
  intro l alice home digits plain occasions run
  obtain ⟨accepted, hearnings⟩ : run.1.all (fun entry => entry.2.isOk) = true ∧
      earnings.peek run.2.contents alice =
        .ok (some ⟨⟨5, by decide⟩, ⟨3, by decide⟩, .zero, ⟨3, by decide⟩⟩) := by decide +kernel
  exact ⟨List.all_eq_true.1 accepted, _, hearnings, by decide⟩

end Ledger

end StakeLedger

import StakeLedger.Proofs.Ledger.Touched
import StakeLedger.Proofs.Ledger.Usage

/-!
# The clock of an account

The usage of an account keeps the time at which capacity was last charged, from which on it
recovers. Opening the account starts this clock, and from then on nothing but a check of capacity
that is accepted moves it, to the time of the check.

That time can be an earlier one. Nothing recovers before the clock, but what is left may pay for a
check all the same, since only coin that moves counts the queue of an address up, and the queue is
all that refuses an early time. A time that is out of reach of the clock is even taken for one long
after it, as the difference of the two comes round. The clock is then set back, and the seconds up
to where it stood recover once more. Requests that come in the order of their times never do this.

`Request.SetsBack` says which requests do, and `Ledger.serve_clock_lt_iff` that no others do.
-/

namespace StakeLedger

open Table

/-- When capacity was last charged, by the records of an account. -/
def clockOf (c : Contents) (u : Username) : Except Failure (Option Seconds) :=
  (usages.peek c u).map (Option.map Usage.lastActive)

/-- Nothing is charged: the clock of an account stays, or starts at `now` as it is opened. -/
abbrev ClockKept (now : Seconds) (c d : Contents) (u : Username) : Prop :=
  Persists now (clockOf c u) (clockOf d u)

section

variable {l : Ledger} {now : Seconds} {c d : Contents} {u : Username}

theorem clockOf_of_peek {usage : Usage} (h : usages.peek c u = .ok (some usage)) :
    clockOf c u = .ok (some usage.lastActive) := by
  rw [clockOf, h]
  rfl

theorem UsageKept.clock (kept : UsageKept now c d u) : ClockKept now c d u := by
  cases kept with
  | same same => exact .same (congrArg _ same)
  | opened absent present => exact .opened (congrArg _ absent) (clockOf_of_peek present)

/-- A check of capacity that is accepted moves the clock to its time. -/
theorem Served.clock_accepted {ratio : Ratio} {o : Outcome}
    (h : Served l (.deliver (.checkCapacity u ratio) now) c (.ok o) d) (complete : Complete l c) :
    clockOf d u = .ok (some now) := by
  cases h.metered complete u with
  | kept _ idle => exact absurd rfl (idle rfl)
  | paid _ after => exact clockOf_of_peek after

/-- No other request moves a clock. -/
theorem Served.clock {r : Request} {answer : Except Failure Outcome} (h : Served l r c answer d)
    (complete : Complete l c) (u : Username) :
    ClockKept r.time c d u ∨
      ∃ ratio now o, r = .deliver (.checkCapacity u ratio) now ∧ answer = .ok o := by
  cases h.metered complete u with
  | kept kept => exact .inl kept.clock
  | paid => exact .inr ⟨_, _, _, rfl, rfl⟩
  | short before after | numbered before _ after =>
    exact .inl (.same (by rw [clockOf_of_peek before, clockOf_of_peek after]))

/-! ## Checks that are accepted -/

/-- A charge is paid exactly if the capacity by its time is told, its cost has a value, and the one
covers the other. -/
theorem Throttle.charge_ok_iff {t : Throttle} {account : Username} {usage : Usage} {ceiling : Coin}
    {ratio : Ratio} :
    (∃ left, (t.charge account usage ceiling ratio now).2 = .ok left) ↔
      ∃ available cost, t.recovered usage ceiling now = .ok available ∧
        t.cost ratio = .ok cost ∧ cost.units ≤ available.units := by
  unfold charge
  cases t.recovered usage ceiling now with
  | error f => simp
  | ok available =>
    cases t.cost ratio with
    | error f => simp
    | ok cost =>
      dsimp only
      unfold Coin.minus?
      split_ifs with enough <;> simpa using enough

namespace Ledger

/-- A check is accepted exactly if the queue at the address takes the time and the capacity by then,
up to the stake by then, covers the cost. -/
theorem charge_ok_iff {reg : Registration} {usage : Usage} {held : Holding} {ratio : Ratio}
    (hr : registrations.peek c u = .ok (some reg))
    (husage : usages.peek c u = .ok (some usage))
    (kept : Kept l.vesting.window c reg.address (some held)) :
    (∃ left, ((l.charge u ratio now).runPlain c).1 = .ok left) ↔
      held.queue.lastUpdate.count ≤ now.count ∧
        ∃ stake available cost, l.vesting.stakeAt held.bank held.queue now = .ok stake ∧
          l.throttle.recovered usage stake now = .ok available ∧
          l.throttle.cost ratio = .ok cost ∧ cost.units ≤ available.units := by
  have hstake : (l.stakeOf u now).runPlain c =
      (l.vesting.stakeAt held.bank held.queue now, c) := by
    rw [stakeOf, Script.runPlain_bind, addressOf_runPlain hr]
    exact stakeAt_runPlain kept.peek_eq.1 kept.peek_eq.2
  by_cases old : now.count < held.queue.lastUpdate.count
  · -- The queue refuses the time, whatever is left.
    rw [Holding.Sound.stakeAt_of_early old] at hstake
    simp only [charge, Script.runPlain_bind, require_runPlain husage, hstake, reduceCtorEq,
      exists_false, false_iff]
    omega
  · have inTime : held.queue.lastUpdate.count ≤ now.count := by omega
    obtain ⟨-, ceiling, -, stake, -⟩ := kept.sound.stakeAt_eq_ok l.window_pos inTime
    have paid : (∃ left, (l.throttle.charge u usage ceiling ratio now).2 = .ok left) ↔ _ :=
      Throttle.charge_ok_iff
    simp only [charge, Script.runPlain_bind, require_runPlain husage, hstake, stake, save_runPlain,
      Script.ofExcept_runPlain, paid, inTime, true_and, Except.ok.injEq, exists_and_left,
      exists_eq_left']

/-- A check of capacity is accepted exactly if its ratio has a value and its charge is paid. -/
theorem deliver_checkCapacity_iff {b : Backend} (reliable : b.Reliable) (ratio : Ratio) :
    (∃ o, (l.deliver b (.checkCapacity u ratio) now).1 = .ok o) ↔
      ratio.den.val ≠ 0 ∧ ∃ left, ((l.charge u ratio now).runPlain b.contents).1 = .ok left := by
  by_cases none : ratio.den.val = 0
  · simp [deliver, Message.check, none]
  · have check : (Message.checkCapacity u ratio).check = .ok () := if_neg none
    have answer := (Script.commitOn_eq_runPlain reliable
      ((Message.checkCapacity u ratio).script l now)).1
    rw [deliver, check]
    dsimp only
    rw [answer, Message.script, Script.runPlain_bind]
    rcases (l.charge u ratio now).runPlain b.contents with ⟨_ | left, d⟩ <;> simp [none]

end Ledger

/-! ## Requests that set a clock back -/

/-- The request is a check of capacity at a time before the clock that the queue at the address
takes. Nothing has recovered by then, and what is left pays for it; or the time is so early that it
is taken for a late one, and what has recovered by that reckoning pays for it. -/
inductive Request.SetsBack (l : Ledger) (u : Username) (held : Holding) (usage : Usage) :
    Request → Prop
  | near {ratio : Ratio} {now : Seconds} {cost : Coin} (valued : ratio.den.val ≠ 0)
    (inTime : held.queue.lastUpdate.count ≤ now.count) (early : now.count < usage.lastActive.count)
    (reach : now.InReach usage.lastActive) (hcost : l.throttle.cost ratio = .ok cost)
    (enough : cost.units ≤ usage.capacity.units) :
    SetsBack l u held usage (.deliver (.checkCapacity u ratio) now)
  | far {ratio : Ratio} {now : Seconds} {stake available cost : Coin} (valued : ratio.den.val ≠ 0)
    (inTime : held.queue.lastUpdate.count ≤ now.count)
    (far : now.count + 0x8000000000000000 < usage.lastActive.count)
    (hstake : l.vesting.stakeAt held.bank held.queue now = .ok stake)
    (recovers : l.throttle.recovered usage stake now = .ok available)
    (hcost : l.throttle.cost ratio = .ok cost) (enough : cost.units ≤ available.units) :
    SetsBack l u held usage (.deliver (.checkCapacity u ratio) now)

theorem Request.SetsBack.exists_early {r : Request} {held : Holding} {usage : Usage}
    (h : r.SetsBack l u held usage) :
    ∃ ratio now, r = .deliver (.checkCapacity u ratio) now ∧
      now.count < usage.lastActive.count := by
  cases h with
  | near _ _ early => exact ⟨_, _, rfl, early⟩
  | far _ _ far => exact ⟨_, _, rfl, by omega⟩

/-- A check at a time before the clock is accepted exactly if it sets the clock back. -/
theorem Ledger.deliver_ok_iff_setsBack {b : Backend} (reliable : b.Reliable) {reg : Registration}
    {usage : Usage} {held : Holding} {ratio : Ratio}
    (hr : registrations.peek b.contents u = .ok (some reg))
    (husage : usages.peek b.contents u = .ok (some usage))
    (kept : Kept l.vesting.window b.contents reg.address (some held))
    (early : now.count < usage.lastActive.count) :
    (∃ o, (l.deliver b (.checkCapacity u ratio) now).1 = .ok o) ↔
      Request.SetsBack l u held usage (.deliver (.checkCapacity u ratio) now) := by
  rw [deliver_checkCapacity_iff reliable, charge_ok_iff hr husage kept]
  have none (reach : now.InReach usage.lastActive) (stake : Coin) :
      l.throttle.recovered usage stake now = .ok usage.capacity := by
    refine Throttle.recovered_of_none l.period_pos stake ?_
    rw [Seconds.since_eq reach]
    omega
  constructor
  · rintro ⟨valued, inTime, stake, available, cost, hstake, recovers, hcost, enough⟩
    by_cases reach : now.InReach usage.lastActive
    · cases (none reach stake).symm.trans recovers
      exact .near valued inTime early reach hcost enough
    · refine .far valued inTime ?_ hstake recovers hcost enough
      unfold Seconds.InReach at reach
      omega
  · intro back
    cases back with
    | near valued inTime _ reach hcost enough =>
      obtain ⟨-, stake, -, hstake, -⟩ := kept.sound.stakeAt_eq_ok l.window_pos inTime
      exact ⟨valued, inTime, stake, _, _, hstake, none reach stake, hcost, enough⟩
    | far valued inTime _ hstake recovers hcost enough =>
      exact ⟨valued, inTime, _, _, _, hstake, recovers, hcost, enough⟩

theorem exists_usage_of_clockOf {last : Seconds} (h : clockOf c u = .ok (some last)) :
    ∃ usage, usages.peek c u = .ok (some usage) ∧ usage.lastActive = last := by
  unfold clockOf at h
  cases hpeek : usages.peek c u with
  | error f =>
    rw [hpeek] at h
    cases h
  | ok usage =>
    cases usage with
    | none =>
      rw [hpeek] at h
      cases h
    | some usage =>
      rw [hpeek] at h
      cases h
      exact ⟨usage, rfl, rfl⟩

/-- Where all requests come by some time, no clock stands later than that. -/
theorem Ledger.run_clock_le {b : Backend} (reliable : b.Reliable) (complete : Complete l b.contents)
    {t : Int} (before : ∀ last, clockOf b.contents u = .ok (some last) → last.count ≤ t)
    {requests : List Request} (times : ∀ r ∈ requests, r.time.count ≤ t) {last : Seconds}
    (hlast : clockOf (l.run b requests).2.contents u = .ok (some last)) : last.count ≤ t := by
  induction requests generalizing b with
  | nil => exact before last hlast
  | cons r rest ih =>
    rw [List.forall_mem_cons] at times
    obtain ⟨served, still⟩ := serve_served (l := l) reliable r
    obtain ⟨moves, steps, -⟩ := served.steps
    refine ih still (steps.preserves (fun step => step.complete) complete) ?_ times.2 hlast
    intro mid hmid
    rcases served.clock complete u with kept | ⟨ratio, now, o, rfl, answer⟩
    · cases kept with
      | same same => exact before mid (same.symm.trans hmid)
      | opened _ after =>
        cases after.symm.trans hmid
        exact times.1
    · rw [answer] at served
      cases (served.clock_accepted complete).symm.trans hmid
      exact times.1

end

namespace Ledger

/-- When a clock runs backwards. After any run from an empty store, a registered account has a
clock, and it keeps one whatever is asked for next. The clock is set back exactly by a check of
capacity at a time before it, if the queue at the address takes that time and the capacity that is
left can pay, or, at a time out of reach of the clock, the capacity that seems to have recovered by
it. A request that does not come before one of the requests that were served never sets it back. -/
theorem serve_clock_lt_iff (l : Ledger) (requests : List Request) (r : Request) {u : Username}
    {reg : Registration}
    (registered : registrations.peek (l.run .empty requests).2.contents u = .ok (some reg)) :
    let b := (l.run .empty requests).2
    ∃ bank queue usage usage', banks.peek b.contents reg.address = .ok (some bank) ∧
      queues.peek b.contents reg.address = .ok (some queue) ∧
      usages.peek b.contents u = .ok (some usage) ∧
      usages.peek (l.serve b r).2.contents u = .ok (some usage') ∧
      (usage'.lastActive.count < usage.lastActive.count ↔ r.SetsBack l u ⟨bank, queue⟩ usage) ∧
      ((∀ earlier ∈ requests, earlier.time.count ≤ r.time.count) →
        usage.lastActive.count ≤ usage'.lastActive.count) := by
  intro b
  have reliable : b.Reliable := run_reliable Backend.reliable_empty requests
  have complete : Complete l b.contents :=
    run_complete Backend.reliable_empty (complete_empty l) requests
  obtain ⟨served, -⟩ := serve_served (l := l) reliable r
  cases complete.standing u with
  | nobody hregistration => exact absurd (registered.symm.trans hregistration) nofun
  | @account _ usage e held hregistration husage hearnings kept =>
    cases registered.symm.trans hregistration
    have clock := clockOf_of_peek husage
    rcases served.clock complete u with stays | ⟨ratio, now, o, rfl, answer⟩
    · cases stays with
      | opened before => exact absurd (clock.symm.trans before) nofun
      | same same =>
        obtain ⟨usage', husage', last⟩ := exists_usage_of_clockOf (same.trans clock)
        have stays : usage.lastActive.count ≤ usage'.lastActive.count := by rw [last]
        refine ⟨_, _, usage, usage', kept.peek_eq.1, kept.peek_eq.2, husage, husage', ?_,
          fun _ => stays⟩
        rw [last]
        refine iff_of_false (Int.lt_irrefl _) fun back => ?_
        obtain ⟨ratio, now, rfl, early⟩ := back.exists_early
        obtain ⟨o, answer⟩ := (deliver_ok_iff_setsBack reliable registered husage kept early).2 back
        rw [serve, answer] at served
        cases (served.clock_accepted complete).symm.trans (same.trans clock)
        exact Int.lt_irrefl _ early
    · rw [answer] at served
      obtain ⟨usage', husage', last⟩ := exists_usage_of_clockOf (served.clock_accepted complete)
      refine ⟨_, _, usage, usage', kept.peek_eq.1, kept.peek_eq.2, husage, husage', ?_,
        fun ordered => ?_⟩
      · rw [last]
        constructor
        · intro early
          exact (deliver_ok_iff_setsBack reliable registered husage kept early).1 ⟨o, answer⟩
        · intro back
          obtain ⟨_, _, ⟨⟩, early⟩ := back.exists_early
          exact early
      · rw [last]
        exact run_clock_le Backend.reliable_empty (complete_empty l) (fun _ h => by cases h) ordered
          clock

/-- An account checks its capacity after two weeks, and once more at the time at which it was
opened: what is left pays for that, and the clock is set back. -/
theorem serve_clock_lt_iff_opened :
    let l : Ledger := ⟨.standard, by decide⟩
    let alice : Username := ⟨"alice", by decide⟩
    let home : Address := ⟨"34750f98bd59fcfc946da45aaabe933be154a4b5", by decide⟩
    let digits := "8a88e3dd7409f195fd52db2d3cba5d72ca6709bf1d94121bf3748801b40f6f5c"
    let check (now : Seconds) : Request :=
      .deliver (.checkCapacity alice ⟨⟨1, by decide⟩, ⟨1, by decide⟩⟩) now
    let requests : List Request := [.deliver (.deposit home ⟨300000, by decide⟩) .zero,
      .deliver (.createAccount alice digits) .zero, check ⟨1209600, by decide, by decide⟩]
    let b := (l.run .empty requests).2
    registrations.peek b.contents alice = .ok (some ⟨alice, .zero, home, digits⟩) ∧
      ∃ usage usage', usages.peek b.contents alice = .ok (some usage) ∧
        usages.peek (l.serve b (check .zero)).2.contents alice = .ok (some usage') ∧
        usage'.lastActive.count < usage.lastActive.count := by
  intro l alice home digits check requests b
  obtain ⟨registered, inTime, left⟩ :
      registrations.peek b.contents alice = .ok (some ⟨alice, .zero, home, digits⟩) ∧
      (queues.peek b.contents home).map (Option.map (·.lastUpdate)) = .ok (some .zero) ∧
      usages.peek b.contents alice =
        .ok (some ⟨.zero64, ⟨1209600, by decide, by decide⟩, ⟨200000, by decide⟩⟩) := by
    decide +kernel
  have hcost : l.throttle.cost ⟨⟨1, by decide⟩, ⟨1, by decide⟩⟩ = .ok ⟨100000, by decide⟩ := by
    decide +kernel
  have clock := serve_clock_lt_iff l requests (check .zero) registered
  extract_lets at clock
  clear_value b -- the requests are not to be served again
  obtain ⟨bank, queue, usage, usage', -, hqueue, husage, husage', back, -⟩ := clock
  refine ⟨registered, usage, usage', husage, husage', back.2 ?_⟩
  rw [hqueue] at inTime
  cases husage.symm.trans left
  have last : queue.lastUpdate = .zero := Option.some.inj (Except.ok.inj inTime)
  exact .near Nat.one_ne_zero (Int.le_of_eq (congrArg _ last)) (by decide) (by decide) hcost
    (by decide)

/-- The same seconds recover twice. A check after two weeks leaves 200000, and one at the time at
which the account was opened 100000. That one sets the clock back by the two weeks, so another check
after two weeks finds everything recovered and leaves 200000 again. -/
theorem checkCapacity_rewinds_clock :
    let l : Ledger := ⟨.standard, by decide⟩
    let alice : Username := ⟨"alice", by decide⟩
    let home : Address := ⟨"34750f98bd59fcfc946da45aaabe933be154a4b5", by decide⟩
    let digits := "8a88e3dd7409f195fd52db2d3cba5d72ca6709bf1d94121bf3748801b40f6f5c"
    let late : Seconds := ⟨1209600, by decide, by decide⟩
    let check (now : Seconds) : Request :=
      .deliver (.checkCapacity alice ⟨⟨1, by decide⟩, ⟨1, by decide⟩⟩) now
    let left (n : Nat) (h : n < 0x10000000000000000) : Except Failure Outcome :=
      .ok (.capacityRemaining ⟨n, h⟩)
    let opened := (l.run .empty [.deliver (.deposit home ⟨300000, by decide⟩) .zero,
      .deliver (.createAccount alice digits) .zero]).2
    (l.run opened [check late, check .zero, check late]).1.map Prod.snd =
        [left 200000 (by decide), left 100000 (by decide), left 200000 (by decide)] ∧
      clockOf (l.run opened [check late]).2.contents alice = .ok (some late) ∧
      clockOf (l.run opened [check late, check .zero]).2.contents alice = .ok (some .zero) := by
  decide +kernel

end Ledger

end StakeLedger

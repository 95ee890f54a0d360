import Mathlib.Algebra.Ring.Nat
import Mathlib.Tactic.SplitIfs
import StakeLedger.Throttle

/-!
# The budget of an account

An account can spend what capacity it had and what recovered since, however its charges follow one
another. Time that has been paid with does not count twice: splitting an interval never gains
capacity, since the growth in every part of it is rounded down.

A charge that is refused for want of capacity records what had recovered but leaves the clock, so
the same seconds count again for the next one. Only a run without such refusals is bounded by the
time that passed.

All that can come of a charge is `Throttle.ChargeOutcome`, in terms of the seconds that count from
the clock to its time. These are the seconds that passed as long as the two are within reach; a
charge that comes later than that finds nothing recovered, and only one dated further back than that
finds more than it should. `Throttle.chargeAll_budget` is the account of a run of charges.
-/

namespace StakeLedger

/-! ## Charges one after another -/

/-- A charge that an account asks for. -/
structure Ask where
  account : Username
  /-- The stake of the account at that time. -/
  ceiling : Coin
  ratio : Ratio
  now : Seconds

/-- A charge with the usage that it found and its answer. -/
structure Charged where
  ask : Ask
  before : Usage
  answer : Except Failure Coin

namespace Throttle

/-- Charges one after another, each noted down with its answer, and the usage after all of them. -/
def chargeAll (t : Throttle) (usage : Usage) : List Ask → List Charged × Usage
  | [] => ([], usage)
  | ask :: rest =>
    let (after, answer) := t.charge ask.account usage ask.ceiling ask.ratio ask.now
    let (journal, last) := t.chargeAll after rest
    (⟨ask, usage, answer⟩ :: journal, last)

/-- What recovers in a number of seconds under a ceiling, in proportion to the time, rounded down.
-/
def growth (t : Throttle) (ceiling elapsed : Nat) : Nat := ceiling * elapsed / t.period.count.toNat

/-- The capacity that a usage has grown to: it stops at the ceiling, and stays where it is above. -/
def restored (t : Throttle) (usage : Usage) (ceiling : Coin) (elapsed : Nat) : Nat :=
  max usage.capacity.units
    (min ceiling.units (usage.capacity.units + t.growth ceiling.units elapsed))

end Throttle

namespace Charged

/-- The cost of a charge, if it was accepted. -/
def spent (t : Throttle) (c : Charged) : Nat :=
  match c.answer, t.cost c.ask.ratio with
  | .ok _, .ok cost => cost.units
  | _, _ => 0

/-- The seconds that passed from the clock that a charge found to its time. -/
def elapsed (c : Charged) : Nat := (c.ask.now.count - c.before.lastActive.count).toNat

/-- The growth since the clock that a charge found. A charge that was neither accepted nor refused
for want of capacity left no trace, and nothing recovered by it. -/
def recovery (t : Throttle) (c : Charged) : Nat :=
  match c.answer with
  | .ok _ | .error (.capacityShort ..) => t.growth c.ask.ceiling.units c.elapsed
  | .error _ => 0

/-- Whether a charge was refused for want of capacity. -/
def isShort (c : Charged) : Bool :=
  match c.answer with
  | .error (.capacityShort ..) => true
  | _ => false

end Charged

namespace Throttle

variable {t : Throttle}

/-! ## Growth -/

/-- Splitting an interval never gains capacity. -/
theorem growth_add_le (ceiling first second : Nat) :
    t.growth ceiling first + t.growth ceiling second ≤ t.growth ceiling (first + second) := by
  rw [growth, growth, growth, Nat.mul_add]
  exact Nat.div_add_div_le_add_div

theorem growth_mono {ceiling most first second : Nat} (high : ceiling ≤ most)
    (long : first ≤ second) : t.growth ceiling first ≤ t.growth most second :=
  Nat.div_le_div_right (Nat.mul_le_mul high long)

theorem growth_zero (ceiling : Nat) : t.growth ceiling 0 = 0 := by
  rw [growth, Nat.mul_zero, Nat.zero_div]

/-- When no time has passed the capacity is as recorded. -/
theorem restored_zero (usage : Usage) (ceiling : Coin) :
    t.restored usage ceiling 0 = usage.capacity.units := by
  rw [restored, growth_zero]
  omega

/-- In a whole period everything up to the ceiling recovers. -/
theorem le_growth (pos : 0 < t.period.count) {elapsed : Nat} (whole : t.period.count ≤ elapsed)
    (ceiling : Nat) : ceiling ≤ t.growth ceiling elapsed := by
  rw [growth, Nat.le_div_iff_mul_le (by omega)]
  exact Nat.mul_le_mul_left _ (by omega)

/-- In less than a period no more than the ceiling recovers. -/
theorem growth_le {elapsed : Nat} (part : (elapsed : Int) < t.period.count) (ceiling : Nat) :
    t.growth ceiling elapsed ≤ ceiling := by
  refine Nat.div_le_of_le_mul ?_
  rw [Nat.mul_comm]
  exact Nat.mul_le_mul_right _ (by omega)

/-! ## One charge -/

/-- The capacity at a time is what it has grown to, or the sum on the way there left the range. -/
theorem recovered_cases (pos : 0 < t.period.count) (usage : Usage) (ceiling : Coin)
    (now : Seconds) :
    (∃ available, t.recovered usage ceiling now = .ok available ∧
      available.units = t.restored usage ceiling (now.since usage.lastActive) ∧
      (ceiling.units ≤ usage.capacity.units ∨ t.period.count ≤ now.since usage.lastActive ∨
        usage.capacity.units + t.growth ceiling.units (now.since usage.lastActive) <
          0x10000000000000000)) ∨
    t.recovered usage ceiling now = .error (.overflow "recover capacity") ∧
      usage.capacity.units < ceiling.units ∧ (now.since usage.lastActive : Int) < t.period.count ∧
      0x10000000000000000 ≤
        usage.capacity.units + t.growth ceiling.units (now.since usage.lastActive) := by
  unfold recovered restored
  generalize now.since usage.lastActive = elapsed
  by_cases full : ceiling.units ≤ usage.capacity.units
  · exact .inl ⟨usage.capacity, if_pos full, by omega, .inl full⟩
  rw [if_neg full]
  dsimp only
  by_cases whole : t.period.count ≤ elapsed
  · have all := le_growth pos whole ceiling.units
    exact .inl ⟨ceiling, if_pos whole, by omega, .inr (.inl whole)⟩
  rw [if_neg whole, ← growth]
  have part := growth_le (Int.lt_of_not_ge whole) ceiling.units
  have ceilingLt := ceiling.units_lt
  obtain ⟨increase, hincrease⟩ : ∃ increase : Coin,
      increase.units = t.growth ceiling.units elapsed :=
    ⟨⟨t.growth ceiling.units elapsed, by omega⟩, rfl⟩
  rw [Coin.ofNat?_eq_some_iff.2 hincrease]
  dsimp only
  split
  · rename_i large
    have large := Coin.ofNat?_eq_none_iff.1 large
    exact .inr ⟨rfl, by omega, Int.lt_of_not_ge whole, by omega⟩
  · rename_i capacity sum
    have sum := Coin.plus?_eq_some_iff.1 sum
    have capacityLt := capacity.units_lt
    refine .inl ⟨_, rfl, ?_, .inr (.inr (by omega))⟩
    unfold Coin.least
    split_ifs <;> omega

/-- When no time has passed the capacity is as recorded, and in range. -/
theorem recovered_of_none (pos : 0 < t.period.count) {usage : Usage} (ceiling : Coin)
    {now : Seconds} (none : now.since usage.lastActive = 0) :
    t.recovered usage ceiling now = .ok usage.capacity := by
  have capacityLt := usage.capacity.units_lt
  have cases := recovered_cases pos usage ceiling now
  rw [none, restored_zero, growth_zero] at cases
  rcases cases with ⟨available, recovers, same, -⟩ | ⟨-, -, -, large⟩
  · rw [recovers, Coin.ext same]
  · omega

/-- All that can come of a charge. -/
inductive ChargeOutcome (t : Throttle) (ask : Ask) (before : Usage) :
    Usage × Except Failure Coin → Prop
  | paid {cost left : Coin} (hcost : t.cost ask.ratio = .ok cost)
    (sum : left.units + cost.units =
      t.restored before ask.ceiling (ask.now.since before.lastActive)) :
    ChargeOutcome t ask before
      ({ before with capacity := left, lastActive := ask.now }, .ok left)
  | short {cost available : Coin} (hcost : t.cost ask.ratio = .ok cost)
    (grown : available.units = t.restored before ask.ceiling (ask.now.since before.lastActive))
    (short : available.units < cost.units) :
    ChargeOutcome t ask before
      ({ before with capacity := available }, .error (.capacityShort ask.account cost available))
  | unpriced {f : Failure} (hcost : t.cost ask.ratio = .error f) (drops : f.keepsUpdates = false) :
    ChargeOutcome t ask before (before, .error f)
  | tooLarge (part : (ask.now.since before.lastActive : Int) < t.period.count)
    (large : 0x10000000000000000 ≤
      before.capacity.units +
        t.growth ask.ceiling.units (ask.now.since before.lastActive)) :
    ChargeOutcome t ask before (before, .error (.overflow "recover capacity"))

/-- A message has no price if its ratio has no value, or if the price leaves the range. -/
theorem cost_error {ratio : Ratio} {f : Failure} (h : t.cost ratio = .error f) :
    ratio.den.val = 0 ∧ f = .invalidAmount "ratio" (.ofWord ratio.num) ∨
      f = .overflow "ratio" := by
  unfold cost Ratio.shareOf at h
  split at h
  · rename_i invalid
    cases h
    exact .inl ⟨invalid, rfl⟩
  · split at h <;> cases h
    exact .inr rfl

theorem cost_plain {ratio : Ratio} {f : Failure} (h : t.cost ratio = .error f) : f.Plain := by
  rcases cost_error h with ⟨-, rfl⟩ | rfl <;> trivial

theorem charge_cases (pos : 0 < t.period.count) (ask : Ask) (before : Usage) :
    ChargeOutcome t ask before (t.charge ask.account before ask.ceiling ask.ratio ask.now) := by
  unfold charge
  rcases recovered_cases pos before ask.ceiling ask.now with
    ⟨available, recovers, grown, -⟩ | ⟨fails, -, part, large⟩
  · rw [recovers]
    dsimp only
    split
    · rename_i f hcost
      exact .unpriced hcost (cost_plain hcost).keepsUpdates
    · rename_i cost hcost
      split
      · rename_i left hleft
        exact .paid hcost ((Coin.minus?_eq_some_iff.1 hleft).trans grown)
      · rename_i none
        refine .short hcost grown ?_
        unfold Coin.minus? at none
        split_ifs at none with enough
        omega
  · rw [fails]
    exact .tooLarge part large

namespace ChargeOutcome

variable {ask : Ask} {before after : Usage} {answer : Except Failure Coin}

/-- What a charge leaves and takes was there before, or has grown in the time that passed. -/
theorem spent_add_capacity_le (h : ChargeOutcome t ask before (after, answer))
    (lower : before.lastActive.count ≤ ask.now.count + 0x8000000000000000) :
    Charged.spent t ⟨ask, before, answer⟩ + after.capacity.units ≤
      before.capacity.units + Charged.recovery t ⟨ask, before, answer⟩ := by
  have passed := growth_mono (t := t) (le_refl ask.ceiling.units) (Seconds.since_le lower)
  cases h with
  | paid hcost sum =>
    simp only [Charged.spent, Charged.recovery, Charged.elapsed, hcost, restored] at *
    omega
  | short hcost grown short =>
    simp only [Charged.spent, Charged.recovery, Charged.elapsed, restored] at *
    omega
  | unpriced | tooLarge => simp [Charged.spent]

theorem capacity_le (h : ChargeOutcome t ask before (after, answer)) :
    after.capacity.units ≤ max before.capacity.units ask.ceiling.units := by
  cases h with
  | paid hcost sum =>
    simp only [restored] at *
    omega
  | short hcost grown short =>
    simp only [restored] at *
    omega
  | unpriced | tooLarge => exact Nat.le_max_left _ _

theorem sequence_eq (h : ChargeOutcome t ask before (after, answer)) :
    after.sequence = before.sequence := by
  cases h <;> rfl

/-- A charge refused for want of capacity raises the recorded capacity or leaves it, and changes
nothing else. -/
theorem of_short (h : ChargeOutcome t ask before (after, answer)) {account : Username}
    {cost available : Coin} (short : answer = .error (.capacityShort account cost available)) :
    after = { before with capacity := available } ∧
      before.capacity.units ≤ available.units := by
  cases h with
  | paid => cases short
  | short hcost grown =>
    cases short
    refine ⟨rfl, ?_⟩
    rw [grown]
    exact Nat.le_max_left _ _
  | unpriced hcost drops =>
    cases short
    cases drops
  | tooLarge => cases short

/-- A charge that fails in another way leaves the usage as it was. -/
theorem of_other (h : ChargeOutcome t ask before (after, answer)) {f : Failure}
    (failed : answer = .error f)
    (other : ∀ account cost available, f ≠ .capacityShort account cost available) :
    after = before := by
  cases h with
  | paid => cases failed
  | short =>
    cases failed
    exact absurd rfl (other _ _ _)
  | unpriced | tooLarge => rfl

end ChargeOutcome

/-! ## Runs of charges -/

theorem chargeAll_asks (t : Throttle) (usage : Usage) (asks : List Ask) :
    (t.chargeAll usage asks).1.map Charged.ask = asks := by
  induction asks generalizing usage with
  | nil => rfl
  | cons ask rest ih => simp [chargeAll, ih]

/-- The first of several charges comes to one of its outcomes, and the others go on from there. -/
theorem chargeAll_cons (pos : 0 < t.period.count) (usage : Usage) (ask : Ask) (rest : List Ask) :
    ∃ after answer, ChargeOutcome t ask usage (after, answer) ∧
      t.chargeAll usage (ask :: rest) =
        (⟨ask, usage, answer⟩ :: (t.chargeAll after rest).1, (t.chargeAll after rest).2) :=
  ⟨_, _, charge_cases pos ask usage, rfl⟩

/-- What charges leave and take together was there before, or has grown before one of them. -/
theorem chargeAll_spent_le (pos : 0 < t.period.count) {usage : Usage} {asks : List Ask}
    (lower : ∀ c ∈ (t.chargeAll usage asks).1,
      c.before.lastActive.count ≤ c.ask.now.count + 0x8000000000000000) :
    ((t.chargeAll usage asks).1.map (Charged.spent t)).sum +
        (t.chargeAll usage asks).2.capacity.units ≤
      usage.capacity.units + ((t.chargeAll usage asks).1.map (Charged.recovery t)).sum := by
  induction asks generalizing usage with
  | nil => simp [chargeAll]
  | cons ask rest ih =>
    obtain ⟨after, answer, outcome, run⟩ := chargeAll_cons pos usage ask rest
    rw [run, List.forall_mem_cons] at lower
    have first := outcome.spent_add_capacity_le lower.1
    have later := ih lower.2
    simp only [run, List.map_cons, List.sum_cons]
    omega

/-- No run of charges raises the capacity above its start and all ceilings. -/
theorem chargeAll_capacity_le (pos : 0 < t.period.count) (usage : Usage) (asks : List Ask) :
    (t.chargeAll usage asks).2.capacity.units ≤
      max usage.capacity.units ((asks.map (·.ceiling.units)).foldr max 0) := by
  induction asks generalizing usage with
  | nil => simp [chargeAll]
  | cons ask rest ih =>
    obtain ⟨after, answer, outcome, run⟩ := chargeAll_cons pos usage ask rest
    have first := outcome.capacity_le
    have later := ih after
    simp only [run, List.map_cons, List.foldr_cons]
    omega

theorem chargeAll_sequence (pos : 0 < t.period.count) (usage : Usage) (asks : List Ask) :
    (t.chargeAll usage asks).2.sequence = usage.sequence := by
  induction asks generalizing usage with
  | nil => rfl
  | cons ask rest ih =>
    obtain ⟨after, answer, outcome, run⟩ := chargeAll_cons pos usage ask rest
    rw [run]
    exact (ih after).trans outcome.sequence_eq

/-- What the charges of a journal took up to a time. -/
def spentBy (t : Throttle) (time : Seconds) (journal : List Charged) : Nat :=
  ((journal.filter (·.ask.now.count ≤ time.count)).map (Charged.spent t)).sum

theorem spentBy_cons (time : Seconds) (c : Charged) (journal : List Charged) :
    t.spentBy time (c :: journal) =
      (if c.ask.now.count ≤ time.count then c.spent t else 0) + t.spentBy time journal := by
  by_cases early : c.ask.now.count ≤ time.count <;> simp [spentBy, early]

/-- Charges that all come after a time have taken nothing by then. -/
theorem spentBy_of_late {asks : List Ask} {time : Seconds}
    (late : ∀ ask ∈ asks, time.count < ask.now.count) (usage : Usage) :
    t.spentBy time (t.chargeAll usage asks).1 = 0 := by
  have none : (t.chargeAll usage asks).1.filter (·.ask.now.count ≤ time.count) = [] := by
    rw [List.filter_eq_nil_iff]
    intro c hc
    have asked : c.ask ∈ asks := by
      rw [← t.chargeAll_asks usage asks]
      exact List.mem_map_of_mem hc
    simpa using late c.ask asked
  rw [spentBy, none]
  rfl

/-- Where no charge is refused for want of capacity and time does not run back, what has been spent
by a time was there at the start or has grown in the time that passed. -/
theorem spentBy_le (pos : 0 < t.period.count) {usage : Usage} {asks : List Ask} {most : Nat}
    (enough : ∀ c ∈ (t.chargeAll usage asks).1, c.isShort = false)
    (ordered : (usage.lastActive.count :: asks.map (·.now.count)).Pairwise (· ≤ ·))
    (bounded : ∀ ask ∈ asks, ask.ceiling.units ≤ most) (time : Seconds) :
    t.spentBy time (t.chargeAll usage asks).1 ≤
      usage.capacity.units + t.growth most (time.count - usage.lastActive.count).toNat := by
  induction asks generalizing usage with
  | nil => simp [chargeAll, spentBy]
  | cons ask rest ih =>
    obtain ⟨after, answer, outcome, run⟩ := chargeAll_cons pos usage ask rest
    simp only [run] at enough ⊢
    rw [spentBy_cons]
    rw [List.forall_mem_cons] at enough bounded
    rw [List.map_cons, List.pairwise_cons, List.pairwise_cons] at ordered
    obtain ⟨fromStart, fromNow, ordered⟩ := ordered
    have start : usage.lastActive.count ≤ ask.now.count := fromStart _ (List.mem_cons_self ..)
    have fromStart' : (usage.lastActive.count :: rest.map (·.now.count)).Pairwise (· ≤ ·) :=
      List.pairwise_cons.2 ⟨fun s hs => fromStart s (List.mem_cons_of_mem _ hs), ordered⟩
    have first := outcome.spent_add_capacity_le (by omega)
    cases outcome with
    | short => cases enough.1
    | unpriced | tooLarge =>
      -- The usage is as before, and the interval with it.
      have later := ih enough.2 fromStart' bounded.2
      simpa [Charged.spent] using later
    | @paid cost left hcost sum =>
      have later := ih enough.2 (List.pairwise_cons.2 ⟨fromNow, ordered⟩) bounded.2
      by_cases early : ask.now.count ≤ time.count
      · -- The interval is split where the charge was paid.
        have split : (time.count - usage.lastActive.count).toNat =
            (ask.now.count - usage.lastActive.count).toNat +
              (time.count - ask.now.count).toNat := by
          omega
        have whole := growth_add_le (t := t) most (ask.now.count - usage.lastActive.count).toNat
          (time.count - ask.now.count).toNat
        have grown := growth_mono (t := t) bounded.1
          (le_refl (ask.now.count - usage.lastActive.count).toNat)
        simp only [Charged.recovery, Charged.elapsed] at first
        rw [if_pos early, split]
        dsimp only at later first
        omega
      · have late : ∀ a ∈ rest, time.count < a.now.count := by
          intro a ha
          exact Int.lt_of_lt_of_le (Int.lt_of_not_ge early) (fromNow _ (List.mem_map_of_mem ha))
        rw [if_neg early, spentBy_of_late late]
        exact Nat.zero_le _

/-- The budget of an account that makes any number of charges, at any times, with any ceilings and
ratios. Unless one of them is dated so far before the clock it finds that the difference leaves the
range, what the account spends and what it is left with were there at the start or recovered before
one of the charges that were accepted or refused for want of capacity. In any case its capacity
stays under its start and all ceilings. A charge never changes the sequence number; refused for want
of capacity it may raise the recorded capacity, and failing in another way it changes nothing.

So where no charge is refused for want of capacity and time does not run back, all that is spent by
a time was there at the start, or is the growth under the highest ceiling from the start to that
time. -/
theorem chargeAll_budget (t : Throttle) (pos : 0 < t.period.count) (usage : Usage)
    (asks : List Ask) :
    let journal := (t.chargeAll usage asks).1
    let last := (t.chargeAll usage asks).2
    ((∀ c ∈ journal, -0x8000000000000000 ≤ c.ask.now.count - c.before.lastActive.count) →
        (journal.map (Charged.spent t)).sum + last.capacity.units ≤
          usage.capacity.units + (journal.map (Charged.recovery t)).sum) ∧
      last.capacity.units ≤
        max usage.capacity.units ((asks.map (·.ceiling.units)).foldr max 0) ∧
      last.sequence = usage.sequence ∧
      (∀ (ask : Ask) (before after : Usage) (f : Failure),
        t.charge ask.account before ask.ceiling ask.ratio ask.now = (after, .error f) →
        ((∀ account cost available, f ≠ .capacityShort account cost available) → after = before) ∧
        ∀ account cost available, f = .capacityShort account cost available →
          after = { before with capacity := available } ∧
            before.capacity.units ≤ available.units) ∧
      (∀ most : Nat, (∀ c ∈ journal, c.isShort = false) →
        (usage.lastActive.count :: asks.map (·.now.count)).Pairwise (· ≤ ·) →
        (∀ ask ∈ asks, ask.ceiling.units ≤ most) → ∀ time : Seconds,
        t.spentBy time journal ≤
          usage.capacity.units + t.growth most (time.count - usage.lastActive.count).toNat) := by
  intro journal last
  refine ⟨fun lower => ?_, chargeAll_capacity_le pos usage asks,
    chargeAll_sequence pos usage asks, ?_, ?_⟩
  · refine chargeAll_spent_le pos fun c hc => ?_
    have lower := lower c hc
    omega
  · intro ask before after f run
    have outcome := charge_cases pos ask before
    rw [run] at outcome
    refine ⟨fun other => outcome.of_other rfl other, ?_⟩
    intro account cost available short
    exact outcome.of_short (congrArg Except.error short)
  · intro most enough ordered bounded time
    exact spentBy_le pos enough ordered bounded time

/-- An account with a stake of one coin sends three whole messages. Two are refused while capacity
creeps up, and the third is paid. Had it sent tenths, all would have been paid, out of half the
stake by half the period. -/
theorem chargeAll_budget_creeping :
    let t : Throttle := ⟨⟨1000, by decide, by decide⟩, ⟨100000, by decide⟩⟩
    let usage := Usage.fresh .zero
    let ask (den : Word64) (now : Seconds) : Ask :=
      ⟨⟨"payer", by decide⟩, ⟨100000, by decide⟩, ⟨⟨1, by decide⟩, den⟩, now⟩
    let times : List Seconds :=
      [⟨250, by decide, by decide⟩, ⟨500, by decide, by decide⟩, ⟨750, by decide, by decide⟩]
    let wholes := times.map (ask ⟨1, by decide⟩)
    let tenths := times.map (ask ⟨10, by decide⟩)
    0 < t.period.count ∧
      ((t.chargeAll usage wholes).1.map (Charged.spent t)).sum = 100000 ∧
      ((t.chargeAll usage wholes).1.map (Charged.spent t)).sum +
          (t.chargeAll usage wholes).2.capacity.units ≤
        0 + ((t.chargeAll usage wholes).1.map (Charged.recovery t)).sum ∧
      t.spentBy ⟨500, by decide, by decide⟩ (t.chargeAll usage tenths).1 = 20000 ∧
      t.spentBy ⟨500, by decide, by decide⟩ (t.chargeAll usage tenths).1 ≤ 0 + 50000 := by
  intro t usage ask times wholes tenths
  have pos : 0 < t.period.count := by decide
  obtain ⟨-, -, -, -, budget⟩ := chargeAll_budget t pos usage tenths
  have half := budget 100000 (by decide) (by decide) (by decide) ⟨500, by decide, by decide⟩
  exact ⟨pos, by decide, (chargeAll_budget t pos usage wholes).1 (by decide), by decide,
    Nat.le_trans half (by decide)⟩

end Throttle

end StakeLedger

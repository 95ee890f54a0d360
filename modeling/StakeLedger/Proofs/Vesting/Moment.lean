import StakeLedger.Proofs.Vesting.Advance

/-!
# Operations at one moment

Between operations at one moment no time passes, so nothing matures and no coin-seconds come in.
What they leave depends on the coin alone that they move. Payments add up, however their amounts
fall on the deposits: it does not matter whether the first one ends inside a deposit, between two of
them, or where the stake begins. And coin that comes in and goes out again was never there, since
the newest deposit is the one that pays, and it has no coin-seconds to lose.

None of this needs a sound holding. What counts is that a holding which was brought up to date has
nothing more to settle, and that the operations keep it so.
-/

namespace StakeLedger

open Vesting

/-! ## Taking from deposits -/

theorem coinSeconds_add {a b sum : Coin} (add : sum.units = a.units + b.units)
    (start now : Seconds) :
    coinSeconds sum start now = coinSeconds a start now + coinSeconds b start now := by
  simp only [coinSeconds, add, Nat.add_mul]

/-- No time passes within a moment. -/
theorem coinSeconds_self (coin : Coin) (now : Seconds) : coinSeconds coin now now = 0 := by
  simp [coinSeconds]

namespace Vesting

section

variable {now : Seconds} {amount total : Coin} {progress : Word128} {d : Deposit}
  {older l : List Deposit}

/-- Where nothing is taken, everything stays. -/
theorem takeFrom_zero (none : amount.units = 0) :
    takeFrom now amount total progress l = ⟨l, total, progress, .zero⟩ := by
  cases l with
  | nil => rw [takeFrom, show amount = .zero from Coin.ext none]
  | cons d older => rw [takeFrom, if_pos (Coin.isZero_iff.2 none)]

/-- A deposit that the amount uses up. -/
theorem takeFrom_all (some : 0 < amount.units) (covers : d.coin.units ≤ amount.units) :
    takeFrom now amount total progress (d :: older) =
      takeFrom now (amount.monus d.coin) (total.monus d.coin)
        (progress.less (coinSeconds d.coin d.start now)) older := by
  rw [takeFrom, if_neg (by rw [Coin.isZero_iff]; omega), if_pos covers]

/-- A deposit that covers the amount, and more. -/
theorem takeFrom_part (some : 0 < amount.units) (covered : amount.units < d.coin.units) :
    takeFrom now amount total progress (d :: older) =
      ⟨{ d with coin := d.coin.monus amount } :: older, total.monus amount,
        progress.less (coinSeconds amount d.start now), .zero⟩ := by
  rw [takeFrom, if_neg (by rw [Coin.isZero_iff]; omega), if_neg (by omega)]

end

/-- The deposits that stay keep the time by which they mature. -/
theorem takeFrom_finish (now : Seconds) (amount total : Coin) (progress : Word128)
    (l : List Deposit) :
    (takeFrom now amount total progress l).newestFirst.map (·.finish) <:+ l.map (·.finish) := by
  fun_induction takeFrom now amount total progress l with
  | case1 | case2 | case4 => exact List.suffix_refl _
  | case3 amount total progress d older some covers ih => exact ih.trans (List.suffix_cons _ _)

/-- To take two amounts, one after the other, is to take their sum. -/
theorem takeFrom_takeFrom {a b sum : Coin} (add : sum.units = a.units + b.units) (now : Seconds)
    (total : Coin) (progress : Word128) (l : List Deposit) :
    let first := takeFrom now a total progress l
    let second := takeFrom now b first.total first.progress first.newestFirst
    let both := takeFrom now sum total progress l
    both.newestFirst = second.newestFirst ∧ both.total = second.total ∧
      both.progress = second.progress ∧
      both.uncovered.units = first.uncovered.units + second.uncovered.units := by
  fun_induction takeFrom now a total progress l generalizing sum with
  | case1 a total progress => simpa [takeFrom] using add
  | case2 a total progress d older zero =>
    have same : sum = b := Coin.ext (by rw [add, Coin.isZero_iff.1 zero, Nat.zero_add])
    simp [same]
  | case3 a total progress d older some covers ih =>
    rw [Coin.isZero_iff] at some
    rw [takeFrom_all (show 0 < sum.units by omega) (by omega)]
    exact ih (by simp only [Coin.units_monus]; omega)
  | case4 a total progress d older some covers =>
    rw [Coin.isZero_iff] at some
    dsimp only
    rcases Nat.eq_zero_or_pos b.units with none | pos
    · have same : sum = a := Coin.ext (by omega)
      rw [takeFrom_zero none, same, takeFrom_part (by omega) (by omega)]
      exact ⟨rfl, rfl, rfl, rfl⟩
    by_cases all : d.coin.units ≤ sum.units
    · -- What the first amount leaves of the deposit goes to the second one.
      have parts : d.coin.units = a.units + (d.coin.monus a).units := by
        rw [Coin.units_monus]
        omega
      have left : b.monus (d.coin.monus a) = sum.monus d.coin :=
        Coin.ext (by simp only [Coin.units_monus]; omega)
      rw [takeFrom_all (by omega) all, takeFrom_all pos (by rw [Coin.units_monus]; omega), left,
        Coin.monus_monus parts, Word.less_less, ← coinSeconds_add parts]
      simp
    · rw [takeFrom_part (by omega) (by omega), takeFrom_part pos (by rw [Coin.units_monus]; omega),
        Coin.monus_monus add, Coin.monus_monus add, Word.less_less, ← coinSeconds_add add]
      exact ⟨rfl, rfl, rfl, rfl⟩

end Vesting

/-! ## Paying out -/

namespace Vesting.Taken

variable {t : Taken} {last : Seconds}

theorem queue_of_nil (none : t.newestFirst = []) : t.queue last = .empty last :=
  if_pos (List.isEmpty_iff.2 none)

theorem queue_of_ne_nil (some : t.newestFirst ≠ []) :
    t.queue last = ⟨last, t.total, t.progress, t.newestFirst.reverse⟩ :=
  if_neg (List.isEmpty_iff.not.2 some)

@[simp] theorem lastUpdate_queue : (t.queue last).lastUpdate = last := by
  unfold queue
  split_ifs <;> rfl

@[simp] theorem deposits_queue : (t.queue last).deposits = t.newestFirst.reverse := by
  unfold queue
  split_ifs with none
  · rw [List.isEmpty_iff.1 none]
    rfl
  · rfl

end Vesting.Taken

namespace Holding

/-- What is taken out of the deposits for an amount. -/
def taken (h : Holding) (amount : Coin) : Taken :=
  takeFrom h.queue.lastUpdate amount h.queue.total h.queue.progress h.queue.deposits.reverse

/-- What is left of a holding without an amount, at the time that it is counted to. -/
def paid (h : Holding) (amount : Coin) : Holding where
  bank := { h.bank with
    balance := h.bank.balance.monus amount
    stake := h.bank.stake.monus (h.taken amount).uncovered }
  queue := (h.taken amount).queue h.queue.lastUpdate

/-- The second of two amounts is taken from what the first one leaves. If that is nothing, it does
not matter that the figures of the queue have been cleared. -/
theorem taken_paid (h : Holding) (a b : Coin) :
    let first := h.taken a
    let second := takeFrom h.queue.lastUpdate b first.total first.progress first.newestFirst
    ((h.paid a).taken b).queue h.queue.lastUpdate = second.queue h.queue.lastUpdate ∧
      ((h.paid a).taken b).uncovered = second.uncovered := by
  dsimp only
  rw [taken, show (h.paid a).queue = (h.taken a).queue h.queue.lastUpdate from rfl]
  by_cases none : (h.taken a).newestFirst = []
  · rw [Taken.queue_of_nil none, none]
    exact ⟨rfl, rfl⟩
  · rw [Taken.queue_of_ne_nil none, List.reverse_reverse]
    exact ⟨rfl, rfl⟩

/-- To pay out two amounts is to pay out their sum. -/
theorem paid_paid {a b sum : Coin} (add : sum.units = a.units + b.units) (h : Holding) :
    (h.paid a).paid b = h.paid sum := by
  obtain ⟨deposits, total, progress, uncovered⟩ := takeFrom_takeFrom add h.queue.lastUpdate
    h.queue.total h.queue.progress h.queue.deposits.reverse
  obtain ⟨second, left⟩ := h.taken_paid a b
  have balance := Coin.monus_monus add h.bank.balance
  have stake : (h.bank.stake.monus (h.taken a).uncovered).monus ((h.paid a).taken b).uncovered =
      h.bank.stake.monus (h.taken sum).uncovered :=
    Coin.monus_monus (by rw [left]; exact uncovered) h.bank.stake
  have queue : ((h.paid a).taken b).queue h.queue.lastUpdate =
      (h.taken sum).queue h.queue.lastUpdate := by
    rw [second, Taken.queue, Taken.queue, taken, taken, deposits, total, progress]
  rw [paid.eq_1 h sum, ← balance, ← stake, ← queue]
  simp [paid]

namespace UpToDate

variable {h : Holding} {now : Seconds} {amount : Coin}

/-- A payment that the balance covers. -/
theorem withdraw_eq (current : h.UpToDate now) (some : 0 < amount.units)
    (enough : amount.units ≤ h.bank.balance.units) :
    withdraw h amount now = ⟨h.paid amount, none⟩ := by
  have last := current.lastUpdate_eq
  subst last
  rw [withdraw, if_neg (by rw [Coin.isZero_iff]; omega), current.advance_eq]
  simp only [Coin.minus?_of_le enough]
  rfl

/-- A payment that the balance does not cover is refused, and nothing changes. -/
theorem withdraw_short (current : h.UpToDate now) (short : h.bank.balance.units < amount.units) :
    withdraw h amount now =
      ⟨h, some (.insufficientBalance "minus coin" h.bank.address amount h.bank.balance)⟩ := by
  have refused : h.bank.balance.minus? amount = none := if_neg (Nat.not_le.2 short)
  rw [withdraw, if_neg (by rw [Coin.isZero_iff]; omega), current.advance_eq]
  simp only [refused]

/-- What is left is still up to date: the oldest deposit that stays matures when the oldest one did
before. -/
theorem paid (current : h.UpToDate now) (amount : Coin) : (h.paid amount).UpToDate now := by
  have last := current.lastUpdate_eq
  have queue : (h.paid amount).queue = (h.taken amount).queue now := by rw [← last]; rfl
  refine ⟨by rw [queue, Taken.lastUpdate_queue], fun d hd => ?_, fun none => ?_⟩
  · have front := List.reverse_prefix.2 (takeFrom_finish h.queue.lastUpdate amount h.queue.total
      h.queue.progress h.queue.deposits.reverse)
    rw [List.map_reverse, List.reverse_reverse, ← List.map_reverse] at front
    rw [queue, Taken.deposits_queue] at hd
    obtain ⟨newer, first⟩ := List.head?_eq_some_iff.1 hd
    obtain ⟨gone, split⟩ := front
    rw [← taken, first, List.map_cons, List.cons_append] at split
    obtain ⟨e, rest, hdeposits, same, -⟩ := List.map_eq_cons_iff.1 split.symm
    exact same ▸ current.unripe e (by rw [hdeposits]; rfl)
  · rw [queue, Taken.deposits_queue, List.reverse_eq_nil_iff] at none
    rw [queue, Taken.queue_of_nil none]

end UpToDate

end Holding

/-! ## Payments add up -/

/-- Payments at one moment add up. Take a holding that uses of a fresh one led to, a time that does
not run back, and two amounts. If the balance covers both, they are paid out one after the other,
and what is left is in every part what it is when their sum is paid out at once. If it covers the
first one only, the second one and the sum are refused, each for what it asks and what there is: the
second one then changes nothing, and the sum only brings the holding up to date. -/
theorem Vesting.withdraw_adds_up (v : Vesting) (pos : 0 < v.window.count) {h : Holding}
    (reached : v.Reached h) {now : Seconds} (inTime : h.queue.lastUpdate.count ≤ now.count)
    {a b sum : Coin} (ha : 0 < a.units) (hb : 0 < b.units) (hsum : a.plus? b = some sum) :
    (sum.units ≤ h.bank.balance.units →
      ∃ first both, withdraw h a now = ⟨first, none⟩ ∧ withdraw first b now = ⟨both, none⟩ ∧
        withdraw h sum now = ⟨both, none⟩) ∧
    (a.units ≤ h.bank.balance.units → h.bank.balance.units < sum.units →
      ∃ first current, withdraw h a now = ⟨first, none⟩ ∧ advance h now = .ok current ∧
        first.bank.balance.units + a.units = h.bank.balance.units ∧
        withdraw first b now = ⟨first,
          some (.insufficientBalance "minus coin" h.bank.address b first.bank.balance)⟩ ∧
        withdraw h sum now = ⟨current,
          some (.insufficientBalance "minus coin" h.bank.address sum h.bank.balance)⟩) := by
  obtain ⟨current, run, -⟩ := (reached.sound pos).advance_eq_ok inTime
  have upToDate := Holding.UpToDate.of_advance run
  have add := Coin.plus?_eq_some_iff.1 hsum
  obtain ⟨address, -, balance, -⟩ := advance_keeps h run
  rw [← withdraw_of_advance ha run, ← withdraw_of_advance (by omega) run, ← address, ← balance]
  refine ⟨fun enough => ?_, fun enough short => ?_⟩
  · refine ⟨current.paid a, current.paid sum, upToDate.withdraw_eq ha (by omega), ?_,
      upToDate.withdraw_eq (by omega) enough⟩
    rw [← Holding.paid_paid add]
    exact (upToDate.paid a).withdraw_eq hb (by simp only [Holding.paid, Coin.units_monus]; omega)
  · refine ⟨current.paid a, current, upToDate.withdraw_eq ha enough, run, ?_, ?_,
      upToDate.withdraw_short short⟩
    · exact Nat.sub_add_cancel enough
    · exact (upToDate.paid a).withdraw_short (by simp only [Holding.paid, Coin.units_monus]; omega)

/-- Over a window of one week, 6, 5 and 3 come in half a week apart. At the end of the first week
the 6 are stake, and a minute later 4 are paid out and then 6: first all of the 3 and one of the 5,
then the other four and two of the stake. The 10 at once leave the same. After the 4, another 11 are
refused, and so are 15 at once. -/
theorem Vesting.withdraw_adds_up_week :
    let v : Vesting := ⟨⟨604800, by decide, by decide⟩⟩
    let half : Seconds := ⟨302400, by decide, by decide⟩
    let full : Seconds := ⟨604800, by decide, by decide⟩
    let now : Seconds := ⟨604860, by decide, by decide⟩
    let x : Address := ⟨"x", by decide⟩
    let h := v.performAll ⟨.empty x, .empty .zero⟩
      [.add ⟨6, by decide⟩ .zero, .add ⟨5, by decide⟩ half, .add ⟨3, by decide⟩ full]
    let four : Coin := ⟨4, by decide⟩
    let six : Coin := ⟨6, by decide⟩
    let ten : Coin := ⟨10, by decide⟩
    let eleven : Coin := ⟨11, by decide⟩
    let fifteen : Coin := ⟨15, by decide⟩
    let first := (withdraw h four now).after
    let both := (withdraw first six now).after
    0 < v.window.count ∧ v.Reached h ∧ h.queue.lastUpdate.count ≤ now.count ∧ 0 < four.units ∧
      (0 < six.units ∧ four.plus? six = some ten ∧ ten.units ≤ h.bank.balance.units ∧
        withdraw h four now = ⟨first, none⟩ ∧ withdraw first six now = ⟨both, none⟩ ∧
        withdraw h ten now = ⟨both, none⟩ ∧
        first.queue.deposits = [⟨half, ⟨907200, by decide, by decide⟩, four⟩] ∧
        both.queue = .empty now ∧ both.bank.stake = four) ∧
      (0 < eleven.units ∧ four.plus? eleven = some fifteen ∧ four.units ≤ h.bank.balance.units ∧
        h.bank.balance.units < fifteen.units ∧
        withdraw first eleven now =
          ⟨first, some (.insufficientBalance "minus coin" x eleven ten)⟩ ∧
        (withdraw h fifteen now).failure =
          some (.insufficientBalance "minus coin" x fifteen ⟨14, by decide⟩)) := by
  intro v half full now x h four six ten eleven fifteen first both
  have pos : 0 < v.window.count := by decide
  have reached : v.Reached h := .used (.used (.used (.fresh _ _) _) _) _
  have inTime : h.queue.lastUpdate.count ≤ now.count := by decide
  have some_four : 0 < four.units := by decide
  have sum_ten : four.plus? six = some ten := by decide
  have sum_fifteen : four.plus? eleven = some fifteen := by decide
  have enough : ten.units ≤ h.bank.balance.units := by decide
  have covered : four.units ≤ h.bank.balance.units := by decide
  have short : h.bank.balance.units < fifteen.units := by decide
  have address : h.bank.address = x := by decide
  have balance : h.bank.balance = ⟨14, by decide⟩ := by decide
  have left : first.bank.balance = ten := by decide
  have one : first.queue.deposits = [⟨half, ⟨907200, by decide, by decide⟩, four⟩] := by decide
  have empty : both.queue = .empty now := by decide
  have stake : both.bank.stake = four := by decide
  obtain ⟨accepted, -⟩ := withdraw_adds_up v pos reached inTime some_four (by decide) sum_ten
  obtain ⟨-, refused⟩ := withdraw_adds_up v pos reached inTime some_four (by decide) sum_fifteen
  obtain ⟨first', both', four_paid, six_paid, ten_paid⟩ := accepted enough
  obtain ⟨first'', current, four_paid', -, -, eleven_refused, fifteen_refused⟩ :=
    refused covered short
  have same : first = first' := congrArg Attempt.after four_paid
  subst same
  have same : both = both' := congrArg Attempt.after six_paid
  subst same
  have same : first = first'' := congrArg Attempt.after four_paid'
  subst same
  rw [address, left] at eleven_refused
  rw [address, balance] at fifteen_refused
  exact ⟨pos, reached, inTime, some_four,
    ⟨by decide, sum_ten, enough, four_paid, six_paid, ten_paid, one, empty, stake⟩,
    by decide, sum_fifteen, covered, short, eleven_refused,
    congrArg Attempt.failure fifteen_refused⟩

/-! ## Coin that goes out again -/

namespace Holding

/-- A holding with one deposit more, and the balance and the total that go with it. -/
def joined (h : Holding) (balance total : Coin) (d : Deposit) : Holding :=
  ⟨{ h.bank with balance }, { h.queue with total, deposits := h.queue.deposits ++ [d] }⟩

variable {h : Holding} {balance total amount : Coin} {d : Deposit} {now : Seconds}

theorem UpToDate.joined (current : h.UpToDate now) (unripe : now.count < d.finish.count) :
    (h.joined balance total d).UpToDate now := by
  refine ⟨current.lastUpdate_eq, fun e he => ?_, fun none => ?_⟩
  · simp only [Holding.joined, List.head?_append, List.head?_cons, Option.mem_def] at he
    rcases Option.or_eq_some_iff.1 he with old | ⟨-, new⟩
    · exact current.unripe e old
    · rwa [← Option.some.inj new]
  · exact absurd none (by simp [Holding.joined])

/-- What is taken for an amount begins with the new deposit. -/
theorem taken_joined (h : Holding) (balance total amount : Coin) (d : Deposit) :
    (h.joined balance total d).taken amount =
      takeFrom h.queue.lastUpdate amount total h.queue.progress
        (d :: h.queue.deposits.reverse) := by
  simp [taken, joined]

/-- An amount that a new deposit covers comes out of that deposit. No time has passed, so there are
no coin-seconds to lose. -/
theorem paid_joined_part (fresh : d.start = h.queue.lastUpdate) (some : 0 < amount.units)
    (covered : amount.units < d.coin.units) :
    (h.joined balance total d).paid amount =
      h.joined (balance.monus amount) (total.monus amount)
        { d with coin := d.coin.monus amount } := by
  rw [paid, taken_joined, takeFrom_part some covered, fresh, coinSeconds_self, Word.less_zero,
    Taken.queue_of_ne_nil (List.cons_ne_nil _ _)]
  simp [joined]

/-- A new deposit that is paid out again was never there. -/
theorem paid_joined_all (current : h.UpToDate now) (fresh : d.start = h.queue.lastUpdate)
    (some : 0 < d.coin.units) (hbalance : balance.monus d.coin = h.bank.balance)
    (htotal : total.monus d.coin = h.queue.total) :
    (h.joined balance total d).paid d.coin = h := by
  have nothing : (d.coin.monus d.coin).units = 0 := Nat.sub_self _
  rw [paid, taken_joined, takeFrom_all some le_rfl, takeFrom_zero nothing, fresh, coinSeconds_self,
    Word.less_zero, htotal]
  have queue : (⟨h.queue.deposits.reverse, h.queue.total, h.queue.progress, .zero⟩ : Taken).queue
      h.queue.lastUpdate = h.queue := by
    by_cases none : h.queue.deposits = []
    · rw [Taken.queue_of_nil (by rw [none]; rfl), current.bare none]
      rfl
    · rw [Taken.queue_of_ne_nil (by simpa using none), List.reverse_reverse]
  simp [joined, queue, hbalance]

end Holding

/-- When a deposit at a holding of any kind is accepted, and what comes of it. -/
theorem Vesting.add_eq_iff {v : Vesting} {h h' : Holding} {amount : Coin} {now : Seconds} :
    v.add h amount now = ⟨h', none⟩ ↔
      0 < amount.units ∧ ∃ current balance total finish, advance h now = .ok current ∧
        current.bank.balance.plus? amount = some balance ∧
        current.queue.total.plus? amount = some total ∧ now.plus? v.window = some finish ∧
        h' = current.joined balance total ⟨now, finish, amount⟩ := by
  unfold add
  rcases Nat.eq_zero_or_pos amount.units with none | pos
  · rw [if_pos (Coin.isZero_iff.2 none)]
    simp [none]
  rw [if_neg (by rw [Coin.isZero_iff]; omega)]
  cases run : advance h now with
  | error f => simp
  | ok current =>
    dsimp only
    constructor
    · intro accepted
      split at accepted
      · rename_i balance total finish hbalance htotal hfinish
        cases accepted
        exact ⟨pos, current, balance, total, finish, rfl, hbalance, htotal, hfinish, rfl⟩
      · cases accepted
    · rintro ⟨-, _, balance, total, finish, same, hbalance, htotal, hfinish, rfl⟩
      cases same
      simp only [hbalance, htotal, hfinish]
      rfl

/-- A payment takes back what came in at that moment. Take a holding of any kind that accepts an
amount, and pay out a part of it at the same time. The payment is accepted, and what is left is in
every part what it is when only the rest comes in: no older deposit and no stake is touched. When
all of the amount is paid out, what is left is the holding brought up to date. -/
theorem Vesting.withdraw_undoes_add (v : Vesting) (pos : 0 < v.window.count) (h : Holding)
    {a b : Coin} (hb : 0 < b.units) (part : b.units ≤ a.units) {now : Seconds}
    (accepted : (v.add h a now).failure = none) :
    let received := (v.add h a now).after
    ∃ current, advance h now = .ok current ∧
      (b.units < a.units → ∃ left, withdraw received b now = ⟨left, none⟩ ∧
        v.add h (a.monus b) now = ⟨left, none⟩ ∧ left.bank.stake = current.bank.stake ∧
        ∃ finish, left.queue.deposits = current.queue.deposits ++ [⟨now, finish, a.monus b⟩]) ∧
      (b = a → withdraw received b now = ⟨current, none⟩) := by
  intro received
  obtain ⟨some, current, balance, total, finish, run, hbalance, htotal, hfinish, hreceived⟩ :=
    add_eq_iff.1 (show v.add h a now = ⟨received, none⟩ by rw [← accepted])
  have upToDate := Holding.UpToDate.of_advance run
  have fresh := upToDate.lastUpdate_eq.symm
  have finish_eq := Seconds.ofInt?_eq_some_iff.1 hfinish
  have joined : (current.joined balance total ⟨now, finish, a⟩).UpToDate now :=
    upToDate.joined (by dsimp only; omega)
  have enough : b.units ≤ balance.units := by
    have := Coin.plus?_eq_some_iff.1 hbalance
    omega
  rw [hreceived, joined.withdraw_eq hb enough]
  refine ⟨current, run, fun less => ?_, fun all => ?_⟩
  · rw [Holding.paid_joined_part fresh hb less]
    exact ⟨_, rfl, add_eq_iff.2 ⟨Nat.sub_pos_of_lt less, current, balance.monus b, total.monus b,
      finish, run, Coin.plus?_monus hbalance part, Coin.plus?_monus htotal part, hfinish, rfl⟩, rfl,
      finish, rfl⟩
  · subst all
    rw [Holding.paid_joined_all upToDate fresh hb (Coin.monus_of_plus? hbalance)
      (Coin.monus_of_plus? htotal)]

/-- Over a window of one week, 5 and 3 come in at once. When the week is over another 4 come in, and
by that time the 8 have matured. If one is paid out at that moment, 3 have come in. If all of the 4
are paid out, nothing is pending and the stake is 8, as if the holding had only been brought up to
date. -/
theorem Vesting.withdraw_undoes_add_week :
    let v : Vesting := ⟨⟨604800, by decide, by decide⟩⟩
    let now : Seconds := ⟨604800, by decide, by decide⟩
    let h := v.performAll ⟨.empty ⟨"x", by decide⟩, .empty .zero⟩
      [.add ⟨5, by decide⟩ .zero, .add ⟨3, by decide⟩ .zero]
    let one : Coin := ⟨1, by decide⟩
    let four : Coin := ⟨4, by decide⟩
    let received := (v.add h four now).after
    let current := (v.perform h (.advance now)).after
    0 < v.window.count ∧ 0 < one.units ∧ one.units < four.units ∧
      (v.add h four now).failure = none ∧ advance h now = .ok current ∧
      withdraw received one now = v.add h ⟨3, by decide⟩ now ∧
      withdraw received four now = ⟨current, none⟩ ∧
      current.queue = .empty now ∧ current.bank.stake.units = 8 := by
  intro v now h one four received current
  have pos : 0 < v.window.count := by decide
  have some_one : 0 < one.units := by decide
  have less : one.units < four.units := by decide
  have accepted : (v.add h four now).failure = none := by decide
  have run : advance h now = .ok current := by decide
  have empty : current.queue = .empty now := by decide
  have stake : current.bank.stake.units = 8 := by decide
  obtain ⟨_, -, part, -⟩ := withdraw_undoes_add v pos h some_one less.le accepted
  obtain ⟨current', run', -, all⟩ := withdraw_undoes_add v pos h (by decide) le_rfl accepted
  obtain ⟨left, paid, added, -⟩ := part less
  have same : current = current' := Except.ok.inj (run.symm.trans run')
  subst same
  exact ⟨pos, some_one, less, accepted, run, paid.trans added.symm, all rfl, empty, stake⟩

end StakeLedger

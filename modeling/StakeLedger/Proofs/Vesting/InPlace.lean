import StakeLedger.Proofs.Vesting.Moment
import StakeLedger.Proofs.Vesting.Refused

/-!
# Operations in place

A holding is not computed anew from the old one. The operations work on the records of a bank and a
queue, one part after another, and they can fail on the way; nothing is put back then. Here they are
written as such programs. Each one comes to what the operation says it does, so a failure finds the
holding in one of two states: as it was, or brought up to date and not changed any further. This
takes nothing for granted about the holding: its deposits may be in any order, and its figures
wrong.
-/

namespace StakeLedger

open Vesting

/-- A program that works on a holding in place. A failure ends it, and what it has changed by then
stays changed. -/
abbrev InPlace := EStateM Failure Holding

namespace InPlace

/-! ## The programs -/

/-- What is left of a holding after a program, and what went wrong. -/
def attempt (p : InPlace Unit) (h : Holding) : Attempt :=
  match p.run h with
  | .ok _ after => ⟨after, none⟩
  | .error f after => ⟨after, some f⟩

def changeBank (f : Bank → Bank) : InPlace Unit := modify fun h => { h with bank := f h.bank }

def changeQueue (f : PendingQueue → PendingQueue) : InPlace Unit :=
  modify fun h => { h with queue := f h.queue }

/-- How many deposits at the old end of a queue have matured, their coin, and the progress of the
rest. -/
structure Tally where
  count : Nat
  coin : Coin
  progress : Word128

/-- Counts the deposits that have matured by `now`, up to the first that is still pending. -/
def tally (last now : Seconds) (t : Tally) : List Deposit → Except Failure Tally
  | [] => .ok t
  | d :: rest =>
    if now.count < d.finish.count then .ok t
    else
      let progress := t.progress.less (coinSeconds d.coin d.start last)
      match t.coin.plus? d.coin with
      | none => .error (.overflow "settle stake")
      | some coin => tally last now ⟨t.count + 1, coin, progress⟩ rest

/-- Finds what has matured by `now`, and the progress of the rest. -/
def settle (h : Holding) (now : Seconds) : Except Failure Tally :=
  if now.count < h.queue.lastUpdate.count then
    .error (.timeRunsBack "settle stake" h.bank.address h.queue.lastUpdate now)
  else do
    let t ← tally h.queue.lastUpdate now ⟨0, .zero, h.queue.progress⟩ h.queue.deposits
    if t.count = h.queue.deposits.length then return { t with progress := .zero128 }
    else
      let gained := coinSeconds (h.queue.total.monus t.coin) h.queue.lastUpdate now
      match Word.ofNat? (t.progress.val + gained) with
      | none => .error (.overflow "settle stake")
      | some progress => return { t with progress }

/-- Moves what has matured by `now` out of the queue. Nothing here can fail. -/
def retire (t : Tally) (stake : Coin) (now : Seconds) : InPlace Unit := do
  changeQueue fun q => { q with deposits := q.deposits.drop t.count }
  changeQueue fun q => { q with total := q.total.monus t.coin }
  if (← get).queue.deposits.isEmpty then
    changeQueue fun q => { q with total := .zero }
  changeQueue fun q => { q with progress := t.progress }
  changeQueue fun q => { q with lastUpdate := now }
  changeBank fun b => { b with stake }

/-- Brings the holding up to `now`. -/
def advance (now : Seconds) : InPlace Unit := do
  let h ← get
  let t ← ofExcept (settle h now)
  let stake ← (h.bank.stake.plus? t.coin).getDM (throw (.overflow "advance stake"))
  retire t stake now

/-- Tells the stake at `now`. -/
def stakeAt (v : Vesting) (now : Seconds) : InPlace Coin := do
  let h ← get
  let t ← ofExcept (settle h now)
  if v.divisor = 0 then throw .emptyWindow
  let vested ← (Coin.ofNat? (t.progress.val / v.divisor)).getDM (throw (.overflow "get stake"))
  let matured ← (h.bank.stake.plus? t.coin).getDM (throw (.overflow "get stake"))
  (matured.plus? vested).getDM (throw (.overflow "get stake"))

/-- Receives `amount` at `now`. -/
def add (v : Vesting) (amount : Coin) (now : Seconds) : InPlace Unit := do
  if amount.isZero then throw (.invalidAmount "add coin" amount)
  advance now
  let h ← get
  let balance ← (h.bank.balance.plus? amount).getDM (throw (.overflow "add coin"))
  let total ← (h.queue.total.plus? amount).getDM (throw (.overflow "add coin"))
  let finish ← (now.plus? v.window).getDM (throw (.overflow "add coin"))
  changeBank fun b => { b with balance }
  changeQueue fun q => { q with total }
  changeQueue fun q => { q with deposits := q.deposits ++ [⟨now, finish, amount⟩] }

/-- Takes `amount` out of the deposits at the end of a queue, and tells what they did not cover. -/
def drain (now : Seconds) (amount : Coin) (q : PendingQueue) : Coin × PendingQueue :=
  if amount.isZero then (amount, q)
  else
    match _last : q.deposits.getLast? with
    | none => (amount, q)
    | some newest =>
      if newest.coin.units ≤ amount.units then
        drain now (amount.monus newest.coin) { q with
          progress := q.progress.less (coinSeconds newest.coin newest.start now)
          total := q.total.monus newest.coin
          deposits := q.deposits.dropLast }
      else
        (.zero, { q with
          progress := q.progress.less (coinSeconds amount newest.start now)
          total := q.total.monus amount
          deposits := q.deposits.dropLast ++ [{ newest with coin := newest.coin.monus amount }] })
termination_by q.deposits.length
decreasing_by
  obtain ⟨older, same⟩ := List.getLast?_eq_some_iff.1 _last
  simp [same]

/-- Pays `amount` out of the pending deposits, and out of the stake what they do not cover. Nothing
here can fail. -/
def pay (balance amount : Coin) (now : Seconds) : InPlace Unit := do
  changeBank fun b => { b with balance }
  let uncovered ← modifyGet fun h =>
    ((drain now amount h.queue).1, { h with queue := (drain now amount h.queue).2 })
  if (← get).queue.deposits.isEmpty then
    changeQueue fun q => { q with total := .zero }
    changeQueue fun q => { q with progress := .zero128 }
  unless uncovered.isZero do
    changeBank fun b => { b with stake := b.stake.monus uncovered }

/-- Pays out `amount` at `now`. -/
def withdraw (amount : Coin) (now : Seconds) : InPlace Unit := do
  if amount.isZero then throw (.invalidAmount "minus coin" amount)
  advance now
  let h ← get
  let balance ← (h.bank.balance.minus? amount).getDM
    (throw (.insufficientBalance "minus coin" h.bank.address amount h.bank.balance))
  pay balance amount now

def perform (v : Vesting) : Use → InPlace Unit
  | .add amount now => add v amount now
  | .withdraw amount now => withdraw amount now
  | .advance now => advance now

/-! ## What the programs do -/

section Run

variable (h : Holding) (now : Seconds)

@[simp] theorem run_changeBank (f : Bank → Bank) :
    (changeBank f).run h = .ok () { h with bank := f h.bank } := rfl

@[simp] theorem run_changeQueue (f : PendingQueue → PendingQueue) :
    (changeQueue f).run h = .ok () { h with queue := f h.queue } := rfl

@[simp] theorem run_ofExcept {α : Type} (e : Except Failure α) :
    (ofExcept e : InPlace α).run h =
      match e with
      | .ok a => .ok a h
      | .error f => .error f h := by
  cases e <;> rfl

@[simp] theorem run_getDM {α : Type} (x : Option α) (f : Failure) :
    (x.getDM (throw f) : InPlace α).run h =
      match x with
      | some a => .ok a h
      | none => .error f h := by
  cases x <;> rfl

@[simp] theorem run_ite {α : Type} (c : Prop) [Decidable c] (p q : InPlace α) :
    (if c then p else q).run h = if c then p.run h else q.run h :=
  apply_ite (·.run h) c p q

theorem run_retire (t : Tally) (stake : Coin) :
    (retire t stake now).run h = .ok () ⟨{ h.bank with stake },
      ⟨now, if (h.queue.deposits.drop t.count).isEmpty then .zero else h.queue.total.monus t.coin,
        t.progress, h.queue.deposits.drop t.count⟩⟩ := by
  simp only [retire, EStateM.run_bind, EStateM.run_get, run_changeQueue, run_changeBank, run_ite]
  split <;> rfl

/-- The count is that of the deposits before the first that is pending, and it fails if their coin
together is too much. -/
theorem tally_eq (last : Seconds) (t : Tally) (l : List Deposit) :
    tally last now t l =
      match Coin.ofNat? (t.coin.units + coinOf (l.takeWhile (isMature now))) with
      | none => .error (.overflow "settle stake")
      | some coin => .ok ⟨t.count + (l.takeWhile (isMature now)).length, coin,
          (l.takeWhile (isMature now)).foldl
            (fun left d => left.less (coinSeconds d.coin d.start last)) t.progress⟩ := by
  induction l generalizing t with
  | nil => simp [tally, coinOf]
  | cons d rest ih =>
    rw [tally]
    by_cases pending : now.count < d.finish.count
    · have unripe : ¬isMature now d := by simpa [isMature] using pending
      rw [if_pos pending, List.takeWhile_cons_of_neg unripe]
      simp [coinOf]
    · have ripe : isMature now d := by simpa [isMature] using pending
      rw [if_neg pending, List.takeWhile_cons_of_pos ripe, coinOf, ← Nat.add_assoc]
      cases sum : t.coin.plus? d.coin with
      | none => rw [Coin.ofNat?_eq_none_of_le sum (Nat.le_add_right _ _)]
      | some coin =>
        rw [← Coin.plus?_eq_some_iff.1 sum, List.length_cons, List.foldl_cons]
        dsimp only
        rw [ih]
        simp only [Nat.add_assoc, Nat.add_comm 1]

theorem settle_eq : settle h now =
    (settled h.bank h.queue now).map fun s => ⟨s.matured.length, s.coin, s.progress⟩ := by
  rw [settle, settled]
  by_cases early : now.count < h.queue.lastUpdate.count
  · rw [if_pos early, if_pos early]
    rfl
  rw [if_neg early, if_neg early, tally_eq, Coin.units_zero, Nat.zero_add, Nat.zero_add]
  dsimp only
  cases Coin.ofNat? (coinOf (h.queue.deposits.takeWhile (isMature now))) with
  | none => rfl
  | some coin =>
    have all : (h.queue.deposits.takeWhile (isMature now)).length = h.queue.deposits.length ↔
        (h.queue.deposits.dropWhile (isMature now)).isEmpty := by
      have parts := congrArg List.length
        (List.takeWhile_append_dropWhile (p := isMature now) (l := h.queue.deposits))
      rw [List.length_append] at parts
      rw [List.isEmpty_iff, ← List.length_eq_zero_iff]
      omega
    dsimp only [bind, Except.bind]
    simp only [all]
    split_ifs
    · rfl
    · generalize Word.ofNat? _ = found
      cases found <;> rfl

/-- Bringing a holding up to date fails before the first change. -/
theorem run_advance :
    (advance now).run h =
      match Vesting.advance h now with
      | .ok h' => .ok () h'
      | .error f => .error f h := by
  simp only [advance, Vesting.advance, EStateM.run_bind, EStateM.run_get, run_ofExcept, run_getDM,
    run_retire, settle_eq]
  cases settle : settled h.bank h.queue now with
  | error f => rfl
  | ok s =>
    dsimp only [bind, Except.bind, Except.map]
    cases h.bank.stake.plus? s.coin with
    | none => rfl
    | some stake =>
      obtain ⟨-, matured, pending, -⟩ := settled_eq_ok_iff.1 settle
      have left : h.queue.deposits.drop s.matured.length = s.pending :=
        calc h.queue.deposits.drop s.matured.length
            = (s.matured ++ s.pending).drop s.matured.length := by
              rw [matured, pending, List.takeWhile_append_dropWhile]
          _ = s.pending := List.drop_left
      simp only [left]
      rfl

/-- Telling the stake changes nothing. -/
theorem run_stakeAt (v : Vesting) :
    (stakeAt v now).run h =
      match v.stakeAt h.bank h.queue now with
      | .ok stake => .ok stake h
      | .error f => .error f h := by
  simp only [stakeAt, Vesting.stakeAt, EStateM.run_bind, EStateM.run_get, run_ofExcept, run_getDM,
    run_ite, EStateM.run_throw, settle_eq]
  cases settle : settled h.bank h.queue now with
  | error f => rfl
  | ok s =>
    dsimp only [bind, Except.bind, Except.map]
    split_ifs
    · rfl
    cases hvested : Coin.ofNat? (s.progress.val / v.divisor) with
    | none => rw [Coin.ofNat?_eq_none_of_le hvested (Nat.le_add_left _ _)]
    | some vested =>
      rw [← Coin.ofNat?_eq_some_iff.1 hvested]
      cases hmatured : h.bank.stake.plus? s.coin with
      | none => rw [Coin.ofNat?_eq_none_of_le hmatured (Nat.le_add_right _ _)]
      | some matured =>
        rw [← Coin.plus?_eq_some_iff.1 hmatured]
        dsimp only
        rw [← Coin.plus?]
        cases matured.plus? vested <;> rfl

/-- The loop takes what is taken out of the deposits listed newest first. -/
theorem drain_eq (amount : Coin) (q : PendingQueue) :
    let t := takeFrom now amount q.total q.progress q.deposits.reverse
    drain now amount q = (t.uncovered,
      { q with total := t.total, progress := t.progress, deposits := t.newestFirst.reverse }) := by
  fun_induction drain now amount q with
  | case1 amount q none =>
    rw [Coin.isZero_iff] at none
    rw [takeFrom_zero none, show amount = .zero from Coin.ext none]
    simp
  | case2 amount q some last =>
    obtain ⟨lastUpdate, total, progress, deposits⟩ := q
    have none : deposits = [] := List.getLast?_eq_none_iff.1 last
    subst none
    rfl
  | case3 amount q some newest last covers ih =>
    rw [Coin.isZero_iff] at some
    obtain ⟨older, deposits⟩ := List.getLast?_eq_some_iff.1 last
    rw [ih, deposits, List.reverse_concat, takeFrom_all (by omega) covers, List.dropLast_concat]
  | case4 amount q some newest last covered =>
    rw [Coin.isZero_iff] at some
    obtain ⟨older, deposits⟩ := List.getLast?_eq_some_iff.1 last
    rw [deposits, List.reverse_concat, takeFrom_part (by omega) (by omega)]
    simp

theorem run_pay (balance amount : Coin) :
    let t := takeFrom now amount h.queue.total h.queue.progress h.queue.deposits.reverse
    (pay balance amount now).run h =
      .ok () ⟨{ h.bank with balance, stake := h.bank.stake.monus t.uncovered },
        t.queue h.queue.lastUpdate⟩ := by
  simp only [pay, EStateM.run_bind, EStateM.run_get, EStateM.run_modifyGet, EStateM.run_pure,
    run_changeBank, run_changeQueue, run_ite, drain_eq]
  generalize takeFrom now amount h.queue.total h.queue.progress h.queue.deposits.reverse = t
  have whole (covered : t.uncovered.isZero) : h.bank.stake.monus t.uncovered = h.bank.stake := by
    rw [show t.uncovered = .zero from Coin.ext (Coin.isZero_iff.1 covered), Coin.monus_zero]
  rw [Taken.queue, List.isEmpty_reverse]
  split_ifs with none covered covered
  · rw [whole covered, List.isEmpty_iff.1 none]
    rfl
  · rw [List.isEmpty_iff.1 none]
    rfl
  · rw [whole covered]
  · rfl

theorem attempt_advance :
    (advance now).attempt h = .ofExcept h (Vesting.advance h now) := by
  rw [attempt, run_advance]
  cases Vesting.advance h now <;> rfl

theorem attempt_add (v : Vesting) (amount : Coin) :
    (add v amount now).attempt h = v.add h amount now := by
  simp only [attempt, add, Vesting.add, EStateM.run_bind, EStateM.run_get, EStateM.run_throw,
    run_advance, run_ite, run_getDM, run_changeBank, run_changeQueue]
  by_cases none : amount.isZero
  · rw [if_pos none, if_pos none]
  rw [if_neg none, if_neg none]
  cases Vesting.advance h now with
  | error f => rfl
  | ok current =>
    dsimp only
    cases current.bank.balance.plus? amount <;> cases current.queue.total.plus? amount <;>
      cases now.plus? v.window <;> rfl

theorem attempt_withdraw (amount : Coin) :
    (withdraw amount now).attempt h = Vesting.withdraw h amount now := by
  simp only [attempt, withdraw, Vesting.withdraw, EStateM.run_bind, EStateM.run_get,
    EStateM.run_throw, run_advance, run_ite, run_getDM, run_pay]
  by_cases none : amount.isZero
  · rw [if_pos none, if_pos none]
  rw [if_neg none, if_neg none]
  cases Vesting.advance h now with
  | error f => rfl
  | ok current =>
    dsimp only
    cases current.bank.balance.minus? amount <;> rfl

/-- Whatever is asked of a holding, the program does to it what the operation says. -/
theorem attempt_perform (v : Vesting) (use : Use) :
    (perform v use).attempt h = v.perform h use := by
  cases use with
  | add amount now => exact attempt_add h now v amount
  | withdraw amount now => exact attempt_withdraw h now amount
  | advance now => exact attempt_advance h now

end Run

end InPlace

/-- No operation is ever half applied. Take a window that has a length and a holding of any kind,
and let a program work on it in place. It does what the operation says. If it fails, the holding is
as it was, because no coin was to move or because the holding could not be brought up to date. Or
else that was done and nothing more, because the balance does not cover a payment, or because a sum
with what came in is out of range. A holding that cannot be brought up to date, or whose stake
cannot be told, stays as it was. -/
theorem InPlace.never_half_applied (v : Vesting) (pos : 0 < v.window.count) (h : Holding) :
    (∀ use, (perform v use).attempt h = v.perform h use ∧
      ∀ after f, (perform v use).attempt h = ⟨after, some f⟩ →
        after = h ∧ h.Early use f ∨
          (advance use.time).attempt h = ⟨after, none⟩ ∧ after.Late v use f) ∧
    (∀ now after f, (advance now).run h = .error f after →
      after = h ∧ h.Early (.advance now) f) ∧
    ∀ now, (∀ stake after, (stakeAt v now).run h = .ok stake after ↔
        v.stakeAt h.bank h.queue now = .ok stake ∧ after = h) ∧
      ∀ after f, (stakeAt v now).run h = .error f after →
        after = h ∧ (h.Unsettled now f ∨ f = .overflow "get stake") := by
  refine ⟨fun use => ⟨attempt_perform h v use, fun after f failed => ?_⟩,
    fun now after f failed => ?_, fun now => ⟨fun stake after => ?_, fun after f failed => ?_⟩⟩
  · rw [attempt_perform] at failed
    rcases Holding.perform_failed failed with early | ⟨run, late⟩
    · exact .inl early
    · exact .inr ⟨by rw [attempt_advance, run]; rfl, late⟩
  · rw [run_advance] at failed
    cases run : Vesting.advance h now with
    | ok current =>
      rw [run] at failed
      cases failed
    | error cause =>
      rw [run] at failed
      cases failed
      exact ⟨rfl, Holding.stale_of_error (.advance now) run⟩
  · rw [run_stakeAt]
    cases v.stakeAt h.bank h.queue now <;> simp [eq_comm]
  · have divides : v.divisor ≠ 0 := by
      rw [divisor_eq pos]
      omega
    rw [run_stakeAt] at failed
    cases told : v.stakeAt h.bank h.queue now with
    | ok stake =>
      rw [told] at failed
      cases failed
    | error cause =>
      rw [told] at failed
      cases failed
      have failed := Holding.stakeAt_failed told
      exact ⟨rfl, failed.imp_right (·.resolve_left fun zero => divides zero.1)⟩

/-- The deposits of a holding stand in no order, one of them is of no coin, and its figures are
wrong. It has no balance, so a payment at time 0 is refused. But the 4 at the front have matured by
then, and they are stake from then on. Before that time a payment leaves the holding as it is. With
as much stake as there can be the 4 find no room, and a deposit leaves the holding as it is. -/
theorem InPlace.never_half_applied_odd :
    let v : Vesting := ⟨⟨604800, by decide, by decide⟩⟩
    let x : Address := ⟨"x", by decide⟩
    let second : Seconds := ⟨10, by decide, by decide⟩
    let before : Seconds := ⟨-1, by decide, by decide⟩
    let one : Coin := ⟨1, by decide⟩
    let queue : PendingQueue := ⟨.zero, ⟨2, by decide⟩, ⟨7, by decide⟩,
      [⟨second, .zero, ⟨4, by decide⟩⟩, ⟨.zero, second, .zero⟩, ⟨second, .zero, one⟩]⟩
    let odd : Holding := ⟨.empty x, queue⟩
    let full : Holding := ⟨{ Bank.empty x with stake := ⟨2 ^ 64 - 1, by decide⟩ }, queue⟩
    0 < v.window.count ∧
      (∃ after, (withdraw one .zero).attempt odd =
          ⟨after, some (.insufficientBalance "minus coin" x one .zero)⟩ ∧
        (advance .zero).attempt odd = ⟨after, none⟩ ∧ after.bank.stake.units = 4 ∧
        after.queue.deposits = queue.deposits.tail) ∧
      (withdraw one before).attempt odd =
        ⟨odd, some (.timeRunsBack "settle stake" x .zero before)⟩ ∧
      (add v one .zero).attempt full = ⟨full, some (.overflow "advance stake")⟩ := by
  intro v x second before one queue odd full
  have pos : 0 < v.window.count := by decide
  obtain ⟨uses, -⟩ := never_half_applied v pos odd
  obtain ⟨same, outcome⟩ := uses (.withdraw one .zero)
  have short : v.perform odd (.withdraw one .zero) = ⟨(v.perform odd (.advance .zero)).after,
      some (.insufficientBalance "minus coin" x one .zero)⟩ := by decide
  have changed : (v.perform odd (.advance .zero)).after ≠ odd := by decide
  have current := (outcome _ _ (same.trans short)).resolve_left fun early => changed early.1
  have early := (uses (.withdraw one before)).1
  have tooLarge := ((never_half_applied v pos full).1 (.add one .zero)).1
  exact ⟨pos, ⟨_, same.trans short, current.1, by decide, by decide⟩, early.trans (by decide),
    tooLarge.trans (by decide)⟩

end StakeLedger

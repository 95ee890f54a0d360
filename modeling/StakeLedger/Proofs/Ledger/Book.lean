import Mathlib.Data.Option.Basic
import Mathlib.Logic.Function.Basic
import StakeLedger.Proofs.Ledger.Holdings
import StakeLedger.Proofs.Vesting.History

/-!
# The book of full histories

Coin comes in and goes out at addresses, time goes on, and stake is asked for. A ledger that does
all this on a store answers as if it kept the full history of every address, and each balance is the
coin of that history. `Tracks` relates the records to the histories that they stand for, and every
call keeps it.
-/

namespace StakeLedger

open Table

/-- An operation on the holding of an address. -/
inductive Call where
  | deposit (address : Address) (amount : Coin) (now : Seconds)
  | withdraw (address : Address) (amount : Coin) (now : Seconds)
  | advance (address : Address) (now : Seconds)
  | stake (address : Address) (now : Seconds)

/-- What a call does to a store. Only a question for the stake has an answer. -/
def Call.script (l : Ledger) : Call → Script (Option Coin)
  | deposit a x now => do
    l.deposit a x now
    return none
  | withdraw a x now => do
    Ledger.withdrawFrom a x now
    return none
  | advance a now => do
    Ledger.advance a now
    return none
  | stake a now => do
    return some (← l.stakeAt a now)

/-- Calls straight on a store, one after another, with their answers. -/
def Ledger.answer (l : Ledger) (b : Backend) :
    List Call → List (Except Failure (Option Coin)) × Backend
  | [] => ([], b)
  | call :: rest =>
    let (answer, b) := (call.script l).runOn b
    let (answers, b) := l.answer b rest
    (answer :: answers, b)

/-- A history for each address that has received coin. -/
abbrev Book := Address → Option History

namespace Book

def empty : Book := fun _ => none

/-- The book with the history of an address changed, and no answer, or a refusal. -/
def change (book : Book) (a : Address) : Option History → Option (Option Nat) × Book
  | none => (none, book)
  | some history => (some none, Function.update book a (some history))

/-- The answer to a call, if it is not refused, and the book afterwards. -/
def serve (window : Int) (book : Book) : Call → Option (Option Nat) × Book
  | .deposit a x now =>
    book.change a (((book a).getD ⟨[], now.count⟩).deposit window x.units now.count)
  | .withdraw a x now => book.change a ((book a).bind fun h => h.withdraw x.units now.count)
  | .advance a now => book.change a ((book a).bind fun h => h.advance now.count)
  | .stake a now =>
    match book a with
    | none => (some (some 0), book)
    | some h => ((h.stake window now.count).map some, book)

/-- Calls one after another, with their answers. -/
def answer (window : Int) (book : Book) : List Call → List (Option (Option Nat)) × Book
  | [] => ([], book)
  | call :: rest =>
    let (answer, book) := book.serve window call
    let (answers, book) := book.answer window rest
    (answer :: answers, book)

end Book

/-- The records stand for the histories of a book: for each address a holding is kept that
represents its history, or there is neither. -/
def Tracks (window : Seconds) (c : Contents) (book : Book) : Prop :=
  ∀ a, ∃ kept, Kept window c a kept ∧ Option.Rel (Holding.Represents window) kept (book a)

theorem tracks_empty (window : Seconds) : Tracks window .empty .empty :=
  fun _ => ⟨none, .nothing rfl rfl, .none⟩

namespace Tracks

variable {window : Seconds} {c : Contents} {book : Book}

theorem putHolding (t : Tracks window c book) {a : Address} {h : Holding} {history : History}
    (address : h.bank.address = a) (r : h.Represents window history) :
    Tracks window (putHolding c a h) (Function.update book a (some history)) := by
  intro b
  by_cases same : b = a
  · subst same
    rw [Function.update_self]
    exact ⟨_, Kept.putHolding_self address r.sound, .some r⟩
  · rw [Function.update_of_ne same]
    obtain ⟨kept, k, related⟩ := t b
    exact ⟨kept, k.putHolding_of_ne same address, related⟩

/-- What an operation makes of a holding is recorded, as the history is in the book. -/
theorem change (t : Tracks window c book) {a : Address} {script : Script Unit}
    {result : Except Failure Holding} {history : Option History}
    (run : script.runPlain c = recorded c a result)
    (alike : Alike (fun h history => h.Represents window history ∧ h.bank.address = a) result
      history) :
    ((script >>= fun _ => pure none).runPlain c).1.toOption.map (Option.map Coin.units) =
        (book.change a history).1 ∧
      Tracks window ((script >>= fun _ => (pure none : Script (Option Coin))).runPlain c).2
        (book.change a history).2 := by
  rw [Script.runPlain_bind, run]
  cases alike with
  | both both => exact ⟨rfl, t.putHolding both.2 both.1⟩
  | neither f => exact ⟨rfl, t⟩

/-- What counts for an address before coin comes in there represents what counts in the book. -/
theorem represents_heldAt {kept : Option Holding} {history : Option History}
    (related : Option.Rel (Holding.Represents window) kept history) (a : Address) (now : Seconds) :
    (heldAt a now kept).Represents window (history.getD ⟨[], now.count⟩) := by
  cases related with
  | none => exact Holding.represents_fresh window a now
  | some r => exact r

/-- A call is answered as by the book, and the records go on standing for it. -/
theorem serve {l : Ledger} (t : Tracks l.vesting.window c book) (call : Call) :
    ((call.script l).runPlain c).1.toOption.map (Option.map Coin.units) =
        (book.serve l.vesting.window.count call).1 ∧
      Tracks l.vesting.window ((call.script l).runPlain c).2
        (book.serve l.vesting.window.count call).2 := by
  cases call with
  | deposit a x now =>
    obtain ⟨kept, k, related⟩ := t a
    have alike := (represents_heldAt related a now).add l.window_pos x now
    rw [(k.heldAt_sound now).2, ← heldAt_eq] at alike
    exact t.change (Ledger.deposit_runPlain k.peek_eq.1 k.peek_eq.2) alike
  | withdraw a x now =>
    obtain ⟨kept, k, related⟩ := t a
    simp only [Book.serve]
    generalize book a = history at related
    cases related with
    | none =>
      refine t.change (a := a) ?_ (.neither (.recordNotFound "withdraw" "bank" a.text))
      rw [Ledger.withdrawFrom, Script.runPlain_bind,
        Ledger.requireHolding_runPlain_of_none k.peek_eq.1]
      rfl
    | some r =>
      have alike := r.withdraw x now
      rw [k.address_eq] at alike
      exact t.change (Ledger.withdrawFrom_runPlain k.peek_eq.1 k.peek_eq.2) alike
  | advance a now =>
    obtain ⟨kept, k, related⟩ := t a
    simp only [Book.serve]
    generalize book a = history at related
    cases related with
    | none =>
      refine t.change (a := a) ?_ (.neither (.recordNotFound "advance stake" "bank" a.text))
      rw [Ledger.advance, Script.runPlain_bind,
        Ledger.requireHolding_runPlain_of_none k.peek_eq.1]
      rfl
    | some r =>
      have alike := r.advance now
      rw [k.address_eq] at alike
      exact t.change (Ledger.advance_runPlain k.peek_eq.1 k.peek_eq.2) alike
  | stake a now =>
    obtain ⟨kept, k, related⟩ := t a
    simp only [Book.serve]
    generalize book a = history at related
    simp only [Call.script, Script.runPlain_bind]
    cases related with
    | none =>
      rw [Ledger.stakeAt_runPlain_of_none k.peek_eq.1]
      exact ⟨rfl, t⟩
    | @some held history r =>
      rw [Ledger.stakeAt_runPlain k.peek_eq.1 k.peek_eq.2]
      have alike := r.stakeAt l.window_pos now
      dsimp only
      generalize history.stake l.vesting.window.count now.count = share at alike
      generalize l.vesting.stakeAt held.bank held.queue now = answer at alike
      cases alike with
      | both same => exact ⟨by simp [Except.toOption, same], t⟩
      | neither f => exact ⟨rfl, t⟩

/-- Calls one after another are answered as by the book. -/
theorem answer {l : Ledger} {b : Backend} (reliable : b.Reliable)
    (t : Tracks l.vesting.window b.contents book) (calls : List Call) :
    ((l.answer b calls).1.map fun answer => answer.toOption.map (Option.map Coin.units)) =
        (book.answer l.vesting.window.count calls).1 ∧
      Tracks l.vesting.window (l.answer b calls).2.contents
        (book.answer l.vesting.window.count calls).2 := by
  induction calls generalizing b book with
  | nil => exact ⟨rfl, t⟩
  | cons call rest ih =>
    obtain ⟨log, run⟩ := Script.runOn_eq_runPlain reliable (call.script l)
    obtain ⟨same, still⟩ := t.serve call
    have after : Backend.Reliable ⟨((call.script l).runPlain b.contents).2, b.faults, log⟩ :=
      reliable.of_faults rfl
    obtain ⟨later, last⟩ := ih after still
    simp only [Ledger.answer, Book.answer, run, List.map_cons]
    exact ⟨congrArg₂ List.cons same later, last⟩

end Tracks

/-- A ledger that keeps one running sum for the pending deposits of an address answers as if it
forgot nothing. Whatever calls are made on an empty store, for any addresses, in any order and at
any times, each succeeds exactly if it does on the book of full histories, a question for the stake
has the same answer, and the balance of each address is the coin of its history. -/
theorem Ledger.answer_eq_book (l : Ledger) (calls : List Call) :
    let expected := Book.answer l.parameters.vestingWindow.count .empty calls
    ((l.answer .empty calls).1.map fun answer => answer.toOption.map (Option.map Coin.units)) =
        expected.1 ∧
      ∀ a, ∃ bank, banks.peek (l.answer .empty calls).2.contents a = .ok bank ∧
        (bank.map fun b => b.balance.units) = (expected.2 a).map History.sum := by
  intro expected
  obtain ⟨same, t⟩ := (tracks_empty l.vesting.window).answer Backend.reliable_empty calls
  refine ⟨same, ?_⟩
  intro a
  obtain ⟨kept, k, related⟩ := t a
  refine ⟨_, k.peek_eq.1, ?_⟩
  change _ = ((Book.answer l.vesting.window.count .empty calls).2 a).map History.sum
  generalize (Book.answer l.vesting.window.count .empty calls).2 a = history at related ⊢
  cases related with
  | none => rfl
  | some r => exact congrArg some r.sum_eq.symm

end StakeLedger

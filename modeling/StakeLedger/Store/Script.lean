import StakeLedger.Store.Backend
/-!
# Scripts

What the ledger does to a store is written as a script: it reads keys, sets keys, and ends with an
answer or a failure. A script does not know what it runs on. It can run straight on a backing store,
where everything set before a failure stays, or in front of one, with all updates held in a buffer.
-/

namespace StakeLedger

/-- Reads and updates of a store that end with an answer or a failure. -/
inductive Script (α : Type) where
  | done (answer : α)
  | fail (failure : Failure)
  /-- The value under a key is read and decides how to go on. -/
  | read (key : Bytes) (next : Option Bytes → Script α)
  | write (key value : Bytes) (next : Script α)

namespace Script

variable {α β : Type}

/-- One script after another, which depends on the answer of the first. -/
def bind (script : Script α) (next : α → Script β) : Script β :=
  match script with
  | done answer => next answer
  | fail failure => fail failure
  | read key rest => read key fun value => (rest value).bind next
  | write key value rest => write key value (rest.bind next)

instance : Monad Script where
  pure := done
  bind := bind

/-- A computed answer, or the failure to compute it. -/
def ofExcept : Except Failure α → Script α
  | .ok answer => done answer
  | .error failure => fail failure

/-- The script on a backing store: its answer and the store afterwards. A failing access ends it. -/
def runOn : Script α → Backend → Except Failure α × Backend
  | done answer, b => (.ok answer, b)
  | fail failure, b => (.error failure, b)
  | read key next, b =>
    match b.get key with
    | .error f => (.error (.store f), b)
    | .ok value => (next value).runOn b
  | write key value next, b =>
    match b.set key value with
    | .error f => (.error (.store f), b)
    | .ok b => next.runOn b

/-- The value of a key in a buffer or else in the store behind it. -/
def getThrough (base : Backend) (buffer : Contents) (key : Bytes) :
    Except StoreFailure (Option Bytes) :=
  match buffer.get? key with
  | some value => .ok (some value)
  | none => base.get key

/-- The script in front of a backing store: its answer, and the buffer afterwards. -/
def runBuffered (base : Backend) : Script α → Contents → Except Failure α × Contents
  | done answer, buffer => (.ok answer, buffer)
  | fail failure, buffer => (.error failure, buffer)
  | read key next, buffer =>
    match getThrough base buffer key with
    | .error f => (.error (.store f), buffer)
    | .ok value => (next value).runBuffered base buffer
  | write key value next, buffer => next.runBuffered base (buffer.insert key value)

@[simp] theorem done_bind (answer : α) (next : α → Script β) :
    (done answer >>= next) = next answer := rfl

@[simp] theorem fail_bind (failure : Failure) (next : α → Script β) :
    (fail failure >>= next) = fail failure := rfl

@[simp] theorem read_bind (key : Bytes) (rest : Option Bytes → Script α) (next : α → Script β) :
    (read key rest >>= next) = read key fun value => rest value >>= next := rfl

@[simp] theorem write_bind (key value : Bytes) (rest : Script α) (next : α → Script β) :
    (write key value rest >>= next) = write key value (rest >>= next) := rfl

theorem bind_done (script : Script α) : (script >>= done) = script := by
  induction script with
  | done | fail => rfl
  | read key rest ih => simp [ih]
  | write key value rest ih => simp [ih]

theorem bind_assoc {γ : Type} (script : Script α) (next : α → Script β) (last : β → Script γ) :
    (script >>= next) >>= last = script >>= fun a => next a >>= last := by
  induction script with
  | done | fail => rfl
  | read key rest ih => simp [ih]
  | write key value rest ih => simp [ih]

instance : LawfulMonad Script :=
  LawfulMonad.mk' Script (fun script => bind_done script) (fun _ _ => rfl)
    (fun script next last => bind_assoc script next last)

/-- A script that goes on after another finds the buffer that the first one left. -/
theorem runBuffered_bind (base : Backend) (script : Script α) (next : α → Script β)
    (buffer : Contents) :
    (script >>= next).runBuffered base buffer =
      match script.runBuffered base buffer with
      | (.ok answer, buffer) => (next answer).runBuffered base buffer
      | (.error failure, buffer) => (.error failure, buffer) := by
  induction script generalizing buffer with
  | done | fail => rfl
  | read key rest ih =>
    simp only [read_bind, runBuffered]
    split
    · rfl
    · exact ih _ _
  | write key value rest ih => exact ih _

end Script

end StakeLedger

import StakeLedger.Proofs.Ledger.Run
import StakeLedger.Proofs.Store.Torn

/-!
# Requests that the store interrupts

If the store refuses an update of a request, the request fails, but the updates before it have been
made and stay. A genesis that the store refuses to make last has been written whole. So only where
nothing changes before the access that fails, a request that ends with a failure of the store leaves
no trace.
-/

namespace StakeLedger

/-- Nothing changes from one contents to others before an access to the store: no key that an update
comes after, and nothing at all where everything is to be made to last. Reading comes before any
change. -/
def Access.Spares (c d : Contents) : Access → Prop
  | .get _ => True
  | .set key => ∀ k, precedes k key = true → d.get? k = c.get? k
  | .flush => d = c

theorem Access.spares_refl (c : Contents) (access : Access) : access.Spares c c := by
  cases access with
  | get => trivial
  | set => exact fun _ _ => rfl
  | flush => rfl

namespace Ledger

variable {l : Ledger} {b : Backend} {f : StoreFailure}

theorem contents_commit (b : Backend) : (commit b).2.contents = b.contents := by
  unfold commit Backend.flush
  cases b.fault? .flush <;> rfl

theorem contents_start (l : Ledger) (b : Backend) (g : Genesis) :
    (l.start b g).2.contents = ((g.script l).commitOn b).2.contents := by
  unfold start
  rcases (g.script l).commitOn b with ⟨answer, b'⟩
  cases answer with
  | ok => exact contents_commit b'
  | error => rfl

/-- A genesis fails as its script does, or because it cannot be made to last. -/
theorem start_eq_error {g : Genesis} {cause : Failure} (failed : (l.start b g).1 = .error cause) :
    ((g.script l).commitOn b).1 = .error cause ∨
      ((g.script l).commitOn b).1 = .ok () ∧ ∃ f, b.fault? .flush = some f ∧ cause = .store f := by
  have faults := Script.faults_commitOn b (g.script l)
  unfold start at failed
  generalize (g.script l).commitOn b = committed at faults failed ⊢
  obtain ⟨answer, b'⟩ := committed
  cases answer with
  | error => exact .inl failed
  | ok =>
    refine .inr ⟨rfl, ?_⟩
    have same : b'.fault? .flush = b.fault? .flush := by
      rw [Backend.fault?, faults, Backend.fault?]
    simp only [commit, Backend.flush, same] at failed
    cases refused : b.fault? .flush with
    | none => simp [refused] at failed
    | some f =>
      rw [refused] at failed
      cases failed
      exact ⟨f, rfl, rfl⟩

theorem start_of_serve {g : Genesis} {cause : Failure}
    (failed : (l.serve b (.start g)).1 = .error cause) : (l.start b g).1 = .error cause := by
  simp only [serve] at failed
  cases answer : (l.start b g).1 with
  | ok => simp [answer, Except.map] at failed
  | error cause => simpa [answer, Except.map] using failed

/-- A request that ends with a failure of the store, which could be read, left it as it was before
anything was written, or up to the update that was refused, or, where it could not be made to last,
as an accepted request leaves it. -/
theorem serve_interrupted (readable : b.Readable) {r : Request}
    (failed : (l.serve b r).1 = .error (.store f)) :
    (l.serve b r).2.contents = b.contents ∧ (l.serve b.mended r).2.contents = b.contents ∨
      (∃ key, b.fault? (.set key) = some f ∧
        b.contents.Torn (l.serve b.mended r).2.contents key (l.serve b r).2.contents) ∨
      b.fault? .flush = some f ∧ (l.serve b r).2.contents = (l.serve b.mended r).2.contents := by
  cases r with
  | deliver m now =>
    simp only [serve, deliver] at failed ⊢
    split at failed
    · exact .inl ⟨rfl, rfl⟩
    · rcases Script.commitOn_interrupted readable failed with alone | torn
      · exact .inl alone
      · exact .inr (.inl torn)
  | start g =>
    simp only [serve, contents_start]
    rcases start_eq_error (start_of_serve failed) with early | ⟨written, f', refused, same⟩
    · rcases Script.commitOn_interrupted readable early with alone | torn
      · exact .inl alone
      · exact .inr (.inl torn)
    · cases same
      rcases (g.script l).commitOn_readable readable with ⟨-, contents⟩ | ⟨_, _, _, answer, _⟩
      · exact .inr (.inr ⟨refused, contents⟩)
      · rw [written] at answer
        cases answer

/-! ## One access that fails -/

/-- On a store that takes all updates and can be made to last, a request that ends with a failure of
the store leaves no trace. -/
theorem contents_serve_of_settable (settable : b.Settable) (lasting : b.fault? .flush = none)
    {r : Request} (failed : (l.serve b r).1 = .error (.store f)) :
    (l.serve b r).2.contents = b.contents := by
  cases r with
  | deliver m now =>
    simp only [serve, deliver] at failed ⊢
    split at failed
    · rfl
    · rw [Script.commitOn_storeFailure settable failed]
  | start g =>
    simp only [serve, contents_start]
    rcases start_eq_error (start_of_serve failed) with early | ⟨-, f', refused, -⟩
    · rw [Script.commitOn_storeFailure settable early]
    · rw [lasting] at refused
      cases refused

theorem fault?_single (c : Contents) (access other : Access) (reason : String) (log : List Event) :
    Backend.fault? ⟨c, [(access, reason)], log⟩ other =
      if other = access then some (.backend reason) else none := by
  by_cases same : other = access
  · simp [Backend.fault?, same]
  · have apart : (other == access) = false := by simpa using same
    simp [Backend.fault?, List.lookup_cons, same, apart]

/-- A request that fails because of the one access that its store refuses leaves no trace exactly if
it would have changed nothing before that access. So it leaves none if a reading is refused. If an
update is refused, all changes at keys before it stay, and a genesis that cannot be made to last
stays whole. -/
theorem serve_traceless_iff (l : Ledger) (c : Contents) (log : List Event) (access : Access)
    (reason : String) (r : Request) {f : StoreFailure} :
    let b : Backend := ⟨c, [(access, reason)], log⟩
    (l.serve b r).1 = .error (.store f) →
      ((l.serve b r).2.contents = c ↔ access.Spares c (l.serve b.mended r).2.contents) := by
  intro b failed
  have fault (other : Access) : b.fault? other =
      if other = access then some (.backend reason) else none := fault?_single _ _ _ _ _
  cases access with
  | get key =>
    have alone := contents_serve_of_settable (fun _ => by simp [fault]) (by simp [fault]) failed
    exact iff_of_true alone trivial
  | set key =>
    rcases serve_interrupted (fun _ => by simp [fault]) failed with
      alone | ⟨k, stop, torn⟩ | ⟨stop, -⟩
    · rw [alone.2]
      exact iff_of_true alone.1 (Access.spares_refl c _)
    · obtain ⟨rfl, -⟩ : k = key ∧ StoreFailure.backend reason = f := by simpa [fault] using stop
      exact torn.eq_iff
    · simp [fault] at stop
  | flush =>
    rcases serve_interrupted (fun _ => by simp [fault]) failed with
      alone | ⟨k, stop, -⟩ | ⟨-, whole⟩
    · rw [alone.2]
      exact iff_of_true alone.1 (Access.spares_refl c _)
    · simp [fault] at stop
    · rw [whole]
      exact Iff.rfl

/-- A deposit whose first update is refused leaves no trace. -/
theorem serve_traceless_iff_bank :
    let l : Ledger := ⟨.standard, by decide⟩
    let x : Address := ⟨"x", by decide⟩
    let b : Backend := ⟨.empty, [(.set (Table.banks.key x), "full")], []⟩
    let r : Request := .deliver (.deposit x ⟨5, by decide⟩) .zero
    (l.serve b r).1 = .error (.store (.backend "full")) ∧
      (Access.set (Table.banks.key x)).Spares .empty (l.serve b.mended r).2.contents := by
  intro l x b r
  have failed : (l.serve b r).1 = .error (.store (.backend "full")) := rfl
  exact ⟨failed, (serve_traceless_iff l .empty [] _ "full" r failed).1 rfl⟩

/-- A deposit whose second update is refused leaves its bank behind, without a queue. -/
theorem serve_leaves_bank :
    let l : Ledger := ⟨.standard, by decide⟩
    let x : Address := ⟨"x", by decide⟩
    let b : Backend := ⟨(l.run .empty []).2.contents, [(.set (Table.queues.key x), "full")], []⟩
    let r : Request := .deliver (.deposit x ⟨5, by decide⟩) .zero
    (l.serve b r).1 = .error (.store (.backend "full")) ∧
      (l.serve b r).2.contents ≠ b.contents := by
  decide +kernel

end Ledger

end StakeLedger

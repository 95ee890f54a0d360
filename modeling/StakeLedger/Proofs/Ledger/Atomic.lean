import StakeLedger.Proofs.Ledger.Failures
import StakeLedger.Proofs.Store.Records

/-!
# A refused message

Of all failures only a want of capacity lets the updates behind it reach the backing store. No other
message than a check of capacity ends with it, and there it stands behind a single update. So a
refused message leaves the backing store alone, or it sets one record of usage.
-/

namespace StakeLedger

/-- No message but a check of capacity keeps updates when it fails. -/
theorem Message.discards_script (l : Ledger) (now : Seconds) {m : Message}
    (other : ∀ account ratio, m ≠ .checkCapacity account ratio) : (m.script l now).Discards := by
  refine (m.obeys_script l now).mono_fail fun f refused => ?_
  cases refused with
  | fair h => exact h.drops
  | short check => exact absurd check (other _ _)

/-- A record that is there when it is required is one that can be read. -/
theorem Table.require_runBuffered_eq_ok {ν ρ : Type} {t : Table ν ρ} {during : Activity} {name : ν}
    {b : Backend} {buffer after : Contents} {record : ρ}
    (run : (t.require during name).runBuffered b buffer = (.ok record, after)) :
    after = buffer ∧ ∃ bytes, Script.getThrough b buffer (t.key name) = .ok (some bytes) ∧
      t.codec.decode bytes = .ok record := by
  simp only [require, load, Script.read_bind, Script.runBuffered] at run
  split at run
  · cases run
  · rename_i found seen
    cases found with
    | none => cases run
    | some bytes =>
      simp only [parse] at run
      split at run
      · rename_i r hr
        cases run
        exact ⟨rfl, bytes, seen, hr⟩
      · cases run

namespace Ledger

open Table

/-- A charge whose failure keeps updates was refused for want of capacity, and the buffer then holds
one update more. -/
theorem charge_error_keeps {l : Ledger} {account : Username} {ratio : Ratio} {now : Seconds}
    {b : Backend} {buffer after : Contents} {f : Failure} (keeps : f.keepsUpdates = true)
    (run : (l.charge account ratio now).runBuffered b buffer = (.error f, after)) :
    ∃ bytes usage cost available,
      Script.getThrough b buffer (usages.key account) = .ok (some bytes) ∧
      usages.codec.decode bytes = .ok usage ∧ f = .capacityShort account cost available ∧
      after = usages.put buffer account { usage with capacity := available } := by
  have drops {P : Prop} (h : f.Drops) : P := by
    rw [Failure.Drops, keeps] at h
    cases h
  rw [charge, Script.bind_runBuffered_eq_error] at run
  rcases run with early | ⟨usage, mid, hrequire, run⟩
  · have looks : (usages.require "check capacity" account).Looks := obeys_require _ _ _
    exact drops (looks.runBuffered_error (fun _ => ⟨rfl, id⟩) early).drops
  obtain ⟨rfl, bytes, seen, reads⟩ := require_runBuffered_eq_ok hrequire
  rw [Script.bind_runBuffered_eq_error] at run
  rcases run with early | ⟨ceiling, mid', hstake, run⟩
  · have looks : (l.stakeOf account now).Looks := l.obeys_stakeOf account now
    exact drops (looks.runBuffered_error (fun _ => ⟨rfl, id⟩) early).drops
  have same := (l.obeys_stakeOf account now).runBuffered_of_looks b mid
  rw [hstake] at same
  subst same
  generalize hcharge : l.throttle.charge account usage ceiling ratio now = charged at run
  obtain ⟨usage', answer⟩ := charged
  cases answer with
  | ok left => cases run
  | error cause =>
    have failed : (Except.error cause, usages.put mid' account usage') =
      ((Except.error f : Except Failure Coin), after) := run
    cases failed
    rcases Throttle.charge_error hcharge with plain | ⟨cost, available, hcause, rfl⟩
    · exact drops plain.keepsUpdates
    · exact ⟨bytes, usage, cost, available, seen, reads, hcause, rfl⟩

/-- A refused message leaves a backing store that takes all updates as it was, or it was a check of
capacity and has set one record of usage. -/
theorem deliver_error {l : Ledger} {b b' : Backend} (settable : b.Settable) {m : Message}
    {now : Seconds} {f : Failure} (run : l.deliver b m now = (.error f, b')) :
    f.Drops ∧ b' = b ∨
      ∃ account ratio bytes usage cost available, m = .checkCapacity account ratio ∧
        f = .capacityShort account cost available ∧
        b.get (usages.key account) = .ok (some bytes) ∧ usages.codec.decode bytes = .ok usage ∧
        b' = b.received
          [(usages.key account, usages.codec.write { usage with capacity := available })] := by
  unfold deliver at run
  split at run
  · rename_i refused
    cases run
    exact .inl ⟨(m.check_plain refused).keepsUpdates, rfl⟩
  -- Of all scripts only that of a check of capacity can fail and keep what it has set.
  by_cases check : ∃ account ratio, m = .checkCapacity account ratio
  · obtain ⟨account, ratio, rfl⟩ := check
    obtain ⟨buffer, hrun, rfl⟩ := Script.commitOn_error settable run
    by_cases keeps : f.keepsUpdates = true
    · rw [Message.script, Script.bind_runBuffered_eq_error] at hrun
      rcases hrun with failed | ⟨left, mid, -, done⟩
      · obtain ⟨bytes, usage, cost, available, seen, reads, rfl, rfl⟩ :=
          charge_error_keeps keeps failed
        exact .inr ⟨account, ratio, bytes, usage, cost, available, rfl, rfl, seen, reads, rfl⟩
      · cases done
    · exact .inl ⟨by simpa using keeps, if_neg keeps⟩
  · have discards := m.discards_script l now fun account ratio h => check ⟨account, ratio, h⟩
    exact .inl (discards.commitOn_error settable run)

/-- A message is refused as a whole: a failure that does not stand for a want of capacity leaves the
backing store byte for byte as it was, and nothing has reached it. A want of capacity sets the usage
of the account that was to be charged, and changes no more of that record than its capacity. -/
theorem deliver_atomic (l : Ledger) {b b' : Backend} (settable : b.Settable) (m : Message)
    (now : Seconds) {f : Failure} (run : l.deliver b m now = (.error f, b')) :
    ((∀ account cost available, f ≠ .capacityShort account cost available) → b' = b) ∧
    ∀ account cost available, f = .capacityShort account cost available →
      ∃ ratio old usage, m = .checkCapacity account ratio ∧
        b.contents.get? (usages.key account) = some old ∧ usages.codec.decode old = .ok usage ∧
        ∃ new, usages.codec.decode new = .ok { usage with capacity := available } ∧
          b'.contents = b.contents.insert (usages.key account) new ∧
          (∀ key ≠ usages.key account, b'.contents.get? key = b.contents.get? key) ∧
          b'.log = b.log ++ [.wrote (usages.key account) new] := by
  rcases deliver_error settable run with ⟨drops, rfl⟩ | ⟨u, ratio, old, usage, c, x, rfl, rfl, rest⟩
  · refine ⟨fun _ => rfl, ?_⟩
    intro account cost available short
    rw [short] at drops
    cases drops
  · obtain ⟨seen, reads, rfl⟩ := rest
    refine ⟨fun other => absurd rfl (other u c x), ?_⟩
    intro account cost available short
    cases short
    have found : b.contents.get? (usages.key u) = some old := by
      rw [Backend.get] at seen
      split at seen
      · cases seen
      · exact Except.ok.inj seen
    have again := Codec.reads_usage { usage with capacity := x }
    refine ⟨ratio, old, usage, rfl, found, reads, _, again.decode, rfl, fun key other => ?_, rfl⟩
    exact (Contents.get?_insert _ _ _ _).trans (if_neg other)

/-- A withdrawal where the registration of the account cannot be read. -/
theorem deliver_atomic_unreadable :
    let l : Ledger := ⟨.standard, by decide⟩
    let alice : Username := ⟨"alice", by decide⟩
    let b : Backend :=
      ⟨Contents.empty.insert [1] [2, 3], [(.get (registrations.key alice), "down")], []⟩
    b.Settable ∧ ∃ b', l.deliver b (.withdraw alice ⟨5, by decide⟩) .zero =
      (.error (.store (.backend "down")), b') ∧ b' = b := by
  intro l alice b
  have settable : b.Settable := fun _ => rfl
  have run : l.deliver b (.withdraw alice ⟨5, by decide⟩) .zero =
    (.error (.store (.backend "down")), b) := rfl
  exact ⟨settable, b, run, (deliver_atomic l settable _ _ run).1 (by simp)⟩

end Ledger

end StakeLedger

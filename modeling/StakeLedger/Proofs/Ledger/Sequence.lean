import StakeLedger.Proofs.Ledger.Usage

/-!
# Sequence numbers

An account can have its messages numbered, one after another. The numbers it gets are 1, 2, 3 and so
on: none is left out and none is given twice, whatever else is asked for in between. The record that
counts them is set by checks of capacity as well, accepted or refused, and starts anew for an
account that is opened, but no check touches the count, and nobody opens an account twice.
-/

namespace StakeLedger

open Table

/-- The answer to a request for the next number of an account, if it was accepted. -/
def Request.numbering? (u : Username) : Request → Except Failure Outcome → Option Outcome
  | .deliver (.increaseSequence v) _, .ok o => if v = u then some o else none
  | _, _ => none

/-- The answers to the accepted requests of a journal for the next number of an account, in order.
-/
def numberingsOf (u : Username) (journal : List (Request × Except Failure Outcome)) :
    List Outcome :=
  journal.filterMap fun (r, answer) => r.numbering? u answer

/-- How often an account has been given a number, by its records. One without records never was. -/
inductive Numbered (c : Contents) (u : Username) (count : Nat) : Prop
  | unopened (absent : usages.peek c u = .ok none) (never : count = 0)
  | opened {usage : Usage} (husage : usages.peek c u = .ok (some usage))
    (sequence : usage.sequence.val = count)

section

variable {l : Ledger} {c d : Contents} {u : Username} {count : Nat}

/-- Usages that are there tell the count. -/
theorem Numbered.sequence_eq (numbered : Numbered c u count) {usage : Usage}
    (husage : usages.peek c u = .ok (some usage)) : usage.sequence.val = count := by
  cases numbered with
  | unopened absent => cases absent.symm.trans husage
  | opened hold sequence =>
    cases hold.symm.trans husage
    exact sequence

theorem Numbered.of_kept {now : Seconds} (numbered : Numbered c u count)
    (kept : UsageKept now c d u) : Numbered d u count := by
  cases numbered with
  | unopened absent never =>
    cases kept with
    | same same => exact .unopened (same.trans absent) never
    | opened _ present => exact .opened present never.symm
  | opened husage sequence =>
    cases kept with
    | same same => exact .opened (same.trans husage) sequence
    | opened absent => cases husage.symm.trans absent

/-- A refused request gives no number, and neither does one about something else. -/
theorem Request.numbering?_of_idle {r : Request} {answer : Except Failure Outcome}
    (idle : r.user? = some u → ¬answer.isOk) : r.numbering? u answer = none := by
  unfold numbering?
  split
  · rename_i v _ o
    refine if_neg ?_
    rintro rfl
    exact idle rfl rfl
  · rfl

/-- A request either gives the next number of an account, which is counted, or leaves the count as
it was. -/
theorem Served.numbered {r : Request} {answer : Except Failure Outcome}
    (h : Served l r c answer d) (complete : Complete l c) (numbered : Numbered c u count) :
    r.numbering? u answer = none ∧ Numbered d u count ∨
      ∃ n : Word64, r.numbering? u answer = some (.sequence n) ∧ n.val = count + 1 ∧
        Numbered d u (count + 1) := by
  cases h.metered complete u with
  | kept kept idle => exact .inl ⟨r.numbering?_of_idle idle, numbered.of_kept kept⟩
  | paid before after | short before after =>
    have count_eq := numbered.sequence_eq before
    exact .inl ⟨rfl, .opened after count_eq⟩
  | @numbered now usage n before next after =>
    have count_eq := numbered.sequence_eq before
    exact .inr ⟨n, if_pos rfl, count_eq ▸ next, .opened after (count_eq ▸ next)⟩

/-- The sequence number of an account stays, unless a request for the next one is accepted. -/
theorem Served.sequence {r : Request} {answer : Except Failure Outcome}
    (h : Served l r c answer d) (complete : Complete l c) {usage : Usage}
    (husage : usages.peek c u = .ok (some usage)) (idle : r.numbering? u answer = none) :
    ∃ usage', usages.peek d u = .ok (some usage') ∧ usage'.sequence = usage.sequence := by
  cases h.metered complete u with
  | kept kept =>
    cases kept with
    | same same => exact ⟨usage, same.trans husage, rfl⟩
    | opened absent => cases husage.symm.trans absent
  | paid before after | short before after =>
    cases husage.symm.trans before
    exact ⟨_, after, rfl⟩
  | numbered => cases (if_pos rfl).symm.trans idle

end

namespace Ledger

variable {l : Ledger} {b : Backend} {u : Username}

/-- In any run the numbers that an account gets go on from its count, and are counted. -/
theorem run_numbered_from (reliable : b.Reliable) (complete : Complete l b.contents) {count : Nat}
    (numbered : Numbered b.contents u count) (requests : List Request) :
    Numbered (l.run b requests).2.contents u
        (count + (numberingsOf u (l.run b requests).1).length) ∧
      ∀ k o, (numberingsOf u (l.run b requests).1)[k]? = some o →
        ∃ n : Word64, o = .sequence n ∧ n.val = count + k + 1 := by
  induction requests generalizing b count with
  | nil => exact ⟨numbered, nofun⟩
  | cons r rest ih =>
    obtain ⟨served, still⟩ := serve_served (l := l) reliable r
    obtain ⟨moves, steps, -⟩ := served.steps
    have after : Complete l (l.serve b r).2.contents :=
      steps.preserves (fun step => step.complete) complete
    rcases served.numbered complete numbered with ⟨none, same⟩ | ⟨n, given, next, more⟩
    · have later := ih still after same
      simpa only [run, numberingsOf, List.filterMap_cons, none] using later
    · obtain ⟨counted, numbers⟩ := ih still after more
      simp only [run, numberingsOf, List.filterMap_cons, given, List.length_cons]
      refine ⟨?_, fun k o hk => ?_⟩
      · rwa [Nat.add_assoc, Nat.add_comm 1] at counted
      · cases k with
        | zero =>
          cases hk
          exact ⟨n, rfl, next⟩
        | succ k =>
          obtain ⟨m, hm, value⟩ := numbers k o hk
          exact ⟨m, hm, by omega⟩

/-- An account is given its next number as long as that is in range. -/
theorem deliver_increaseSequence (reliable : b.Reliable) {usage : Usage}
    (husage : usages.peek b.contents u = .ok (some usage)) {n : Word64}
    (next : n.val = usage.sequence.val + 1) (now : Seconds) :
    (l.deliver b (.increaseSequence u) now).1 = .ok (.sequence n) := by
  have answer := (Script.commitOn_eq_runPlain reliable
    ((Message.increaseSequence u).script l now)).1
  refine answer.trans ?_
  simp only [Message.script, nextSequence, Script.runPlain_bind, require_runPlain husage,
    Word.ofNat?_eq_some_iff.2 next, save_runPlain]
  rfl

/-- Sequence numbers have no gaps and are never used again. In any run from an empty store, whatever
else is asked for and however it is answered, the answers to the accepted requests of an account for
a number are 1, 2, 3 and so on. The number that is stored for a registered account is how many there
were. A further request leaves it, unless it is accepted as one for the next number of that account,
and such a one is accepted as long as the next number is in range. -/
theorem run_numbered (l : Ledger) (requests : List Request) (u : Username) :
    let b := (l.run .empty requests).2
    let given := numberingsOf u (l.run .empty requests).1
    (∀ k o, given[k]? = some o → ∃ n : Word64, o = .sequence n ∧ n.val = k + 1) ∧
    (registrations.peek b.contents u = .ok none ∧ given = [] ∨
      ∃ reg usage, registrations.peek b.contents u = .ok (some reg) ∧
        usages.peek b.contents u = .ok (some usage) ∧ usage.sequence.val = given.length ∧
        (∀ r, r.numbering? u (l.serve b r).1 = none →
          ∃ usage', usages.peek (l.serve b r).2.contents u = .ok (some usage') ∧
            usage'.sequence = usage.sequence) ∧
        ∀ now, given.length + 1 < 2 ^ 64 →
          ∃ n : Word64, (l.deliver b (.increaseSequence u) now).1 = .ok (.sequence n) ∧
            n.val = given.length + 1) := by
  intro b given
  obtain ⟨numbered, numbers⟩ := l.run_numbered_from Backend.reliable_empty (complete_empty l)
    (.unopened (u := u) rfl rfl) requests
  have reliable : b.Reliable := run_reliable Backend.reliable_empty requests
  have complete : Complete l b.contents :=
    run_complete Backend.reliable_empty (complete_empty l) requests
  rw [Nat.zero_add] at numbered
  refine ⟨fun k o hk => ?_, ?_⟩
  · simpa only [Nat.zero_add] using numbers k o hk
  cases complete.standing u with
  | nobody hregistration husage =>
    cases numbered with
    | unopened absent never => exact .inl ⟨hregistration, List.length_eq_zero_iff.1 never⟩
    | opened present => cases husage.symm.trans present
  | @account reg usage _ _ hregistration husage =>
    have sequence := numbered.sequence_eq husage
    refine .inr ⟨reg, usage, hregistration, husage, sequence, fun r idle => ?_, fun now room => ?_⟩
    · exact (serve_served (l := l) reliable r).1.sequence complete husage idle
    · let n : Word64 := ⟨given.length + 1, room⟩
      have next : n.val = usage.sequence.val + 1 := by rw [sequence]
      exact ⟨n, deliver_increaseSequence reliable husage next now, rfl⟩

/-- Two numbers are given, with a refused check of capacity and a second opening of the account in
between. Another opening leaves the count at two, and the number after that is three. -/
theorem run_numbered_thrice :
    let l : Ledger := ⟨.standard, by decide⟩
    let alice : Username := ⟨"alice", by decide⟩
    let home : Address := ⟨"34750f98bd59fcfc946da45aaabe933be154a4b5", by decide⟩
    let digits := "8a88e3dd7409f195fd52db2d3cba5d72ca6709bf1d94121bf3748801b40f6f5c"
    let tell (m : Message) : Request := .deliver m .zero
    let opening := tell (.createAccount alice digits)
    let next := tell (.increaseSequence alice)
    let requests : List Request := [tell (.deposit home ⟨300000, by decide⟩), opening, next,
      tell (.checkCapacity alice ⟨⟨1, by decide⟩, ⟨1, by decide⟩⟩), opening, next]
    let b := (l.run .empty requests).2
    numberingsOf alice (l.run .empty requests).1 =
        [.sequence ⟨1, by decide⟩, .sequence ⟨2, by decide⟩] ∧
      opening.numbering? alice (l.serve b opening).1 = none ∧
      ∃ usage usage', usages.peek b.contents alice = .ok (some usage) ∧ usage.sequence.val = 2 ∧
        usages.peek (l.serve b opening).2.contents alice = .ok (some usage') ∧
        usage'.sequence = usage.sequence ∧
        (l.deliver b (.increaseSequence alice) .zero).1 = .ok (.sequence ⟨3, by decide⟩) := by
  intro l alice home digits tell opening next requests b
  have two : numberingsOf alice (l.run .empty requests).1 =
      [.sequence ⟨1, by decide⟩, .sequence ⟨2, by decide⟩] := by
    decide +kernel
  have numbers := run_numbered l requests alice
  extract_lets given at numbers
  clear_value b -- the requests are not to be served again
  have idle : opening.numbering? alice (l.serve b opening).1 = none := rfl
  change given = _ at two
  rw [two] at numbers
  obtain ⟨-, ⟨-, none⟩ | ⟨reg, usage, -, husage, sequence, stays, goesOn⟩⟩ := numbers
  · cases none
  obtain ⟨usage', husage', same⟩ := stays opening idle
  obtain ⟨n, answer, three⟩ := goesOn .zero (by decide)
  refine ⟨two, idle, usage, usage', husage, sequence, husage', same, answer.trans ?_⟩
  exact congrArg (fun n => Except.ok (Outcome.sequence n)) (Word.ext three)

end Ledger

end StakeLedger

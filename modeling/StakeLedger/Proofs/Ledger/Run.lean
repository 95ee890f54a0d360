import StakeLedger.Proofs.Ledger.Effect

/-!
# Runs of a ledger

A ledger serves requests one after another, each a genesis or a message, at any times and in any
order. On a store that does not fail, what a request does to the records is its effect, so a
property of the records that every change preserves holds after every run. That is
`Ledger.run_preserves`.
-/

namespace StakeLedger

/-- What a ledger can be asked for. -/
inductive Request where
  | start (genesis : Genesis)
  | deliver (message : Message) (now : Seconds)

def Request.time : Request → Seconds
  | start g => g.time
  | deliver _ now => now

/-- The coin that comes in with a request that is accepted. -/
def Request.gain (l : Ledger) : Request → Int
  | start g => g.gain l
  | deliver m _ => m.gain

namespace Ledger

def serve (l : Ledger) (b : Backend) : Request → Except Failure Outcome × Backend
  | .start g => ((l.start b g).1.map fun _ => .done, (l.start b g).2)
  | .deliver m now => l.deliver b m now

/-- Serves requests in order. Each is noted down with its answer. -/
def run (l : Ledger) (b : Backend) :
    List Request → List (Request × Except Failure Outcome) × Backend
  | [] => ([], b)
  | r :: rest =>
    let (answer, b) := l.serve b r
    let (journal, b) := l.run b rest
    ((r, answer) :: journal, b)

end Ledger

open Table in
/-- What serving a request can do to the records, and how it can be answered. -/
inductive Served (l : Ledger) : Request → Contents → Except Failure Outcome → Contents → Prop
  | started {g : Genesis} {c c' : Contents} (h : Genesis.Effect l g.time g.accounts c c') :
    Served l (.start g) c (.ok .done) c'
  | delivered {m : Message} {now : Seconds} {c c' : Contents} {o : Outcome}
    (check : m.check = .ok ()) (h : m.Effect l now c o c') :
    Served l (.deliver m now) c (.ok o) c'
  | refused (r : Request) {f : Failure} (drops : f.Drops) (c : Contents) :
    Served l r c (.error f) c
  | short {u : Username} {ratio : Ratio} {now : Seconds} {c : Contents} {usage : Usage}
    {cost available : Coin} (husage : usages.peek c u = .ok (some usage)) :
    Served l (.deliver (.checkCapacity u ratio) now) c (.error (.capacityShort u cost available))
      (usages.put c u { usage with capacity := available })

namespace Ledger

variable {l : Ledger} {b : Backend}

/-- A message that is accepted has passed its check, and leaves what its script leaves. -/
theorem deliver_ok (reliable : b.Reliable) {b' : Backend} {m : Message} {now : Seconds}
    {o : Outcome} (run : l.deliver b m now = (.ok o, b')) :
    m.check = .ok () ∧ (m.script l now).runPlain b.contents = (.ok o, b'.contents) ∧
      b'.Reliable := by
  unfold deliver at run
  split at run
  · cases run
  · rename_i check
    exact ⟨check, Script.commitOn_ok reliable run⟩

theorem deliver_served (reliable : b.Reliable) (m : Message) (now : Seconds) :
    Served l (.deliver m now) b.contents (l.deliver b m now).1 (l.deliver b m now).2.contents ∧
      (l.deliver b m now).2.Reliable := by
  rcases hrun : l.deliver b m now with ⟨answer, b'⟩
  cases answer with
  | error f =>
    rcases deliver_error reliable.settable hrun with ⟨drops, rfl⟩ | short
    · exact ⟨.refused _ drops _, reliable⟩
    · obtain ⟨u, ratio, old, usage, cost, available, rfl, rfl, seen, reads, rfl⟩ := short
      rw [Backend.get_of_reliable reliable, Except.ok.injEq] at seen
      exact ⟨.short (Table.peek_of_decode seen reads), reliable⟩
  | ok o =>
    obtain ⟨check, accepted, still⟩ := deliver_ok reliable hrun
    exact ⟨.delivered check (m.effect_of_script accepted), still⟩

theorem start_served (reliable : b.Reliable) (g : Genesis) :
    Served l (.start g) b.contents ((l.start b g).1.map fun _ => .done) (l.start b g).2.contents ∧
      (l.start b g).2.Reliable := by
  unfold start
  rcases hrun : (g.script l).commitOn b with ⟨answer, b'⟩
  cases answer with
  | error f =>
    obtain ⟨drops, rfl⟩ := (g.discards_script l).commitOn_error reliable.settable hrun
    exact ⟨.refused _ drops _, reliable⟩
  | ok o =>
    obtain ⟨accepted, still⟩ := Script.commitOn_ok reliable hrun
    simp only [commit, Backend.flush_of_reliable still]
    exact ⟨.started (Genesis.effect_of_script accepted), still⟩

/-- On a reliable store a request does to the records what it can do, and the store stays
reliable. -/
theorem serve_served (reliable : b.Reliable) (r : Request) :
    Served l r b.contents (l.serve b r).1 (l.serve b r).2.contents ∧ (l.serve b r).2.Reliable := by
  cases r with
  | start g => exact start_served reliable g
  | deliver m now => exact deliver_served reliable m now

end Ledger

/-- A served request makes changes one after another. An accepted one brings in its coin, and one
that is refused none. -/
theorem Served.steps {l : Ledger} {r : Request} {c c' : Contents} {answer : Except Failure Outcome}
    (h : Served l r c answer c') :
    ∃ moves, Steps l r.time moves c c' ∧
      (moves.map Move.gain).sum = if answer.isOk then r.gain l else 0 := by
  cases h with
  | started h => exact h.steps
  | delivered check h => exact h.steps
  | refused r drops c => exact ⟨[], .done _, rfl⟩
  | short husage => exact ⟨_, .one (.meter husage), rfl⟩

/-- More requests are served where the first ones left the store. -/
theorem Ledger.run_append (l : Ledger) (b : Backend) (requests more : List Request) :
    (l.run b (requests ++ more)).2 = (l.run (l.run b requests).2 more).2 := by
  induction requests generalizing b with
  | nil => rfl
  | cons r rest ih => exact ih _

/-- What every change preserves holds after every run on a reliable store. -/
theorem Ledger.run_preserves {l : Ledger} {I : Contents → Prop}
    (step : ∀ {now move c d}, Step l now move c d → I c → I d) {b : Backend}
    (reliable : b.Reliable) (holds : I b.contents) (requests : List Request) :
    I (l.run b requests).2.contents ∧ (l.run b requests).2.Reliable := by
  induction requests generalizing b with
  | nil => exact ⟨holds, reliable⟩
  | cons r rest ih =>
    obtain ⟨served, still⟩ := serve_served (l := l) reliable r
    obtain ⟨moves, steps, -⟩ := served.steps
    exact ih still (steps.preserves step holds)

theorem Ledger.run_reliable {l : Ledger} {b : Backend} (reliable : b.Reliable)
    (requests : List Request) : (l.run b requests).2.Reliable :=
  (run_preserves (I := fun _ => True) (fun _ _ => trivial) reliable trivial requests).2

end StakeLedger

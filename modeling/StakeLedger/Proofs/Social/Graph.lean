import StakeLedger.Proofs.Social.Woven

/-!
# The social graph

Whom an account follows and who follows it are the two sides of one relation. It is decided by the
messages that were accepted: the last one for a pair says whether one follows the other, and the
lists are in the order in which the ties that they show last came into being.
-/

namespace StakeLedger

open Table

/-! ## Messages about two rosters -/

namespace Ledger

section

variable {during : Activity} {u v : Username} {p q : Roster → Bool}
  {edit edit' : Roster → Except Failure Roster} {c : Contents} {r s : Registration}
  {theirs own : Option Roster} {theirs' own' : Roster}
  (hr : registrations.peek c u = .ok (some r)) (hs : registrations.peek c v = .ok (some s))
  (htheirs : followers.peek c v = .ok theirs) (hown : following.peek c u = .ok own)
  (hedit : edit (theirs.getD .empty) = .ok theirs') (hedit' : edit' (own.getD .empty) = .ok own')

include hr hs htheirs hown hedit hedit'

/-- Two accounts that exist have their rosters edited. -/
theorem editRosters_runPlain :
    (editRosters during u v p q edit edit').runPlain c =
      (.ok (), following.edited (followers.edited c v (p (theirs.getD .empty)) theirs') u
        (q (own.getD .empty)) own') := by
  simp only [editRosters, Script.runPlain_bind, require_runPlain hr, require_runPlain hs,
    loadRoster_runPlain htheirs, loadRoster_runPlain hown, Script.ofExcept_runPlain, hedit, hedit']
  cases p (theirs.getD .empty) <;> cases q (own.getD .empty) <;> rfl

/-- Two rosters that both say so already are not set again. -/
theorem editRosters_idle (hp : p (theirs.getD .empty) = false) (hq : q (own.getD .empty) = false) :
    (editRosters during u v p q edit edit').updates c = [] := by
  simp only [editRosters, Script.updates_bind, require_runPlain hr, require_runPlain hs,
    loadRoster_runPlain htheirs, loadRoster_runPlain hown,
    Script.ofExcept_runPlain, hedit, hedit', Script.updates_of_looks (obeys_require _ _ _),
    Script.updates_of_looks (obeys_loadRoster _ _), hp, hq, List.nil_append]
  rfl

end

/-- The script of a message is that of its operation, with an answer. -/
theorem deliver_of_idle {l : Ledger} {b : Backend} (reliable : b.Reliable) {m : Message}
    {now : Seconds} (check : m.check = .ok ()) {script : Script Unit}
    (split : m.script l now = script >>= fun _ => pure .done) {c : Contents}
    (run : script.runPlain b.contents = (.ok (), c)) (idle : script.updates b.contents = []) :
    l.deliver b m now = (.ok .done, b) := by
  simp only [deliver, check, split]
  apply Script.commitOn_of_idle reliable
  · rw [Script.runPlain_bind, run]
    rfl
  · rw [Script.updates_bind, run, idle]
    rfl

end Ledger

/-! ## The graph in the records -/

section

variable {l : Ledger} {b : Backend} {edits : List TieEdit} {u v : Username} {t : Tie}

/-- Every roster of a table can be read. -/
theorem Shows.loadRoster {view : View} {t : Table Username Roster} {ties : List Tie}
    (shows_ : Shows view t ties b.contents) (reliable : b.Reliable) (u : Username) :
    ∃ r : Roster, (t.loadRoster u).runOn b = (.ok r, b) ∧ r.names = view.names ties u := by
  obtain ⟨found, hfound, names⟩ := shows_ u
  refine ⟨found.getD .empty, ?_, names⟩
  rw [Script.runOn_of_looks reliable (obeys_loadRoster t u), loadRoster_runPlain hfound]

theorem Enlisted.isRegistered (reliable : b.Reliable) (known : Enlisted b.contents u) :
    (Ledger.isRegistered u).runOn b = (.ok true, b) := by
  obtain ⟨r, hr⟩ := known
  rw [Script.runOn_of_looks reliable (Ledger.obeys_isRegistered u), Ledger.isRegistered,
    Script.runPlain_bind, load_runPlain, hr]
  rfl

namespace Woven

/-- Both accounts of a tie exist. -/
theorem enlisted_of_mem {c : Contents} (woven : Woven edits c) (h : t ∈ tiesAfter edits) :
    Enlisted c t.follower ∧ Enlisted c t.followee :=
  woven.enlisted _ (mem_of_latest? (mem_tiesAfter_iff.1 h))

/-- The two rosters that a tie is in can be read, and both say whether it is there. -/
theorem exists_rosters {c : Contents} (woven : Woven edits c) (u v : Username) :
    ∃ theirs own, followers.peek c v = .ok theirs ∧ following.peek c u = .ok own ∧
      (theirs.getD .empty).has u = decide (⟨u, v⟩ ∈ tiesAfter edits) ∧
      (own.getD .empty).has v = decide (⟨u, v⟩ ∈ tiesAfter edits) := by
  obtain ⟨theirs, htheirs, names⟩ := woven.incoming v
  obtain ⟨own, hown, names'⟩ := woven.outgoing u
  refine ⟨theirs, own, htheirs, hown, ?_, ?_⟩
  · simp [Roster.has, names, View.mem_followers_iff]
  · simp [Roster.has, names', View.mem_following_iff]

/-- Following an account that is followed already writes nothing. -/
theorem follow_idle (woven : Woven edits b.contents) (reliable : b.Reliable) (now : Seconds)
    (h : ⟨u, v⟩ ∈ tiesAfter edits) : l.deliver b (.follow u v) now = (.ok .done, b) := by
  obtain ⟨⟨r, hr⟩, s, hs⟩ := woven.enlisted_of_mem h
  obtain ⟨theirs, own, htheirs, hown, listed, known⟩ := woven.exists_rosters u v
  rw [decide_eq_true h] at listed known
  have joined : (theirs.getD .empty).join u = .ok (theirs.getD .empty) := if_pos listed
  have joined' : (own.getD .empty).join v = .ok (own.getD .empty) := if_pos known
  have run : ∃ c, (Ledger.follow u v).runPlain b.contents = (.ok (), c) := by
    rw [Ledger.follow_eq]
    exact ⟨_, Ledger.editRosters_runPlain hr hs htheirs hown (by exact joined) (by exact joined')⟩
  have idle : (Ledger.follow u v).updates b.contents = [] := by
    rw [Ledger.follow_eq]
    apply Ledger.editRosters_idle hr hs htheirs hown (by exact joined) (by exact joined')
    · exact congrArg not listed
    · exact congrArg not known
  obtain ⟨c, run⟩ := run
  exact Ledger.deliver_of_idle reliable rfl rfl run idle

/-- Two accounts that exist can stop following each other. -/
theorem unfollow_runPlain {c : Contents} (woven : Woven edits c) (hu : Enlisted c u)
    (hv : Enlisted c v) :
    ∃ d, (Ledger.unfollow u v).runPlain c = (.ok (), d) ∧
      (⟨u, v⟩ ∉ tiesAfter edits → (Ledger.unfollow u v).updates c = []) := by
  obtain ⟨r, hr⟩ := hu
  obtain ⟨s, hs⟩ := hv
  obtain ⟨theirs, own, htheirs, hown, listed, known⟩ := woven.exists_rosters u v
  rw [Ledger.unfollow_eq]
  refine ⟨_, Ledger.editRosters_runPlain hr hs htheirs hown rfl rfl, fun absent => ?_⟩
  rw [decide_eq_false absent] at listed known
  exact Ledger.editRosters_idle hr hs htheirs hown rfl rfl listed known

/-- Unfollowing an account that is not followed writes nothing. -/
theorem unfollow_idle (woven : Woven edits b.contents) (reliable : b.Reliable) (now : Seconds)
    (hu : Enlisted b.contents u) (hv : Enlisted b.contents v) (h : ⟨u, v⟩ ∉ tiesAfter edits) :
    l.deliver b (.unfollow u v) now = (.ok .done, b) := by
  obtain ⟨c, run, idle⟩ := woven.unfollow_runPlain hu hv
  exact Ledger.deliver_of_idle reliable rfl rfl run (idle h)

/-- What is followed and at once unfollowed leaves the ties as they were. -/
theorem undone (woven : Woven edits b.contents) (reliable : b.Reliable) {now : Seconds}
    {o : Outcome} {b' : Backend} (fresh : ⟨u, v⟩ ∉ tiesAfter edits)
    (followed : l.deliver b (.follow u v) now = (.ok o, b')) (later : Seconds) :
    ∃ edits' b'', l.deliver b' (.unfollow u v) later = (.ok .done, b'') ∧ b''.Reliable ∧
      Woven edits' b''.contents ∧ tiesAfter edits' = tiesAfter edits := by
  obtain ⟨served, still⟩ := Ledger.deliver_served (l := l) reliable (.follow u v) now
  rw [followed] at served still
  have tied := served.woven woven
  have present : ⟨u, v⟩ ∈ tiesAfter (edits ++ [.follow ⟨u, v⟩]) := by
    simp [tiesAfter_append_singleton, TieEdit.apply, fresh]
  obtain ⟨hu, hv⟩ := tied.enlisted_of_mem present
  obtain ⟨c, run, -⟩ := tied.unfollow_runPlain hu hv
  have accepted : (l.deliver b' (.unfollow u v) later).1 = .ok .done := by
    change ((Ledger.unfollow u v >>= fun _ => pure Outcome.done).commitOn b').1 = _
    rw [(Script.commitOn_eq_runPlain still _).1, Script.runPlain_bind, run]
    rfl
  obtain ⟨served', still'⟩ := Ledger.deliver_served (l := l) still (.unfollow u v) later
  have cut := served'.woven tied
  rw [accepted] at cut
  refine ⟨_, _, Prod.ext accepted rfl, still', cut, ?_⟩
  change tiesAfter (edits ++ [.follow ⟨u, v⟩] ++ [.unfollow ⟨u, v⟩]) = _
  rw [tiesAfter_append_singleton, tiesAfter_append_singleton]
  simp [TieEdit.apply, fresh, List.erase_append]

end Woven

/-- All accounts on a roster that shows ties exist. -/
theorem Woven.enlisted_of_names (woven : Woven edits b.contents) {w : Username}
    (h : w ∈ View.followers.names (tiesAfter edits) v ∨
      w ∈ View.following.names (tiesAfter edits) u) : Enlisted b.contents w := by
  rcases h with h | h
  · exact (woven.enlisted_of_mem (View.mem_followers_iff.1 h)).1
  · exact (woven.enlisted_of_mem (View.mem_following_iff.1 h)).2

end

/-! ## Runs -/

/-- After any run from an empty store, the lists of all accounts can be read, and `u` is a follower
of `v` exactly if `v` is one that `u` follows. No name is twice in a list, and all are registered.
One account follows another exactly if the last accepted message for the pair was to follow, and
each list is in the order of the messages by which its ties last came into being. A message for a
pair that repeats the last accepted one writes nothing, and what is followed and at once unfollowed
leaves both lists as they were. -/
theorem Ledger.run_social (l : Ledger) (requests : List Request) (u v : Username) :
    let b := (l.run .empty requests).2
    let edits := tieEdits (l.run .empty requests).1
    ∃ theirs own : Roster,
      (followers.loadRoster v).runOn b = (.ok theirs, b) ∧
      (following.loadRoster u).runOn b = (.ok own, b) ∧
      (u ∈ theirs.names ↔ v ∈ own.names) ∧
      theirs.names.Nodup ∧ own.names.Nodup ∧
      (∀ w, w ∈ theirs.names ∨ w ∈ own.names → (isRegistered w).runOn b = (.ok true, b)) ∧
      (u ∈ theirs.names ↔ latest? edits ⟨u, v⟩ = some (.follow ⟨u, v⟩)) ∧
      (∀ w ∈ theirs.names, ∃! n, FormedAt edits ⟨w, v⟩ n) ∧
      theirs.names.Pairwise (fun w w' =>
        ∀ m n, FormedAt edits ⟨w, v⟩ m → FormedAt edits ⟨w', v⟩ n → m < n) ∧
      (∀ w ∈ own.names, ∃! n, FormedAt edits ⟨u, w⟩ n) ∧
      own.names.Pairwise (fun w w' =>
        ∀ m n, FormedAt edits ⟨u, w⟩ m → FormedAt edits ⟨u, w'⟩ n → m < n) ∧
      (latest? edits ⟨u, v⟩ = some (.follow ⟨u, v⟩) →
        ∀ now, l.deliver b (.follow u v) now = (.ok .done, b)) ∧
      (latest? edits ⟨u, v⟩ = some (.unfollow ⟨u, v⟩) →
        ∀ now, l.deliver b (.unfollow u v) now = (.ok .done, b)) ∧
      ∀ now later o b', u ∉ theirs.names → l.deliver b (.follow u v) now = (.ok o, b') →
        ∃ b'', l.deliver b' (.unfollow u v) later = (.ok .done, b'') ∧
          (followers.loadRoster v).runOn b'' = (.ok theirs, b'') ∧
          (following.loadRoster u).runOn b'' = (.ok own, b'') := by
  intro b edits
  have woven : Woven edits b.contents := run_woven Backend.reliable_empty woven_empty requests
  have reliable : b.Reliable := run_reliable Backend.reliable_empty requests
  clear_value b edits
  obtain ⟨theirs, htheirs, names⟩ := woven.incoming.loadRoster reliable v
  obtain ⟨own, hown, names'⟩ := woven.outgoing.loadRoster reliable u
  refine ⟨theirs, own, htheirs, hown, ?_, ?_, ?_, ?_, ?_, ?_, ?_, ?_, ?_, ?_, ?_, ?_⟩
  · rw [names, names', View.mem_followers_iff, View.mem_following_iff]
  · exact names ▸ View.nodup_names (nodup_tiesAfter edits)
  · exact names' ▸ View.nodup_names (nodup_tiesAfter edits)
  · intro w hw
    rw [names, names'] at hw
    exact (woven.enlisted_of_names hw).isRegistered reliable
  · rw [names, View.mem_followers_iff, mem_tiesAfter_iff]
  · intro w hw
    exact existsUnique_formedAt (View.mem_followers_iff.1 (names ▸ hw))
  · rw [names]
    apply View.pairwise_names (pairwise_tiesAfter edits)
    rintro ⟨w, _⟩ ⟨w', _⟩ rfl owner order
    cases owner
    exact order
  · intro w hw
    exact existsUnique_formedAt (View.mem_following_iff.1 (names' ▸ hw))
  · rw [names']
    apply View.pairwise_names (pairwise_tiesAfter edits)
    rintro ⟨_, w⟩ ⟨_, w'⟩ rfl owner order
    cases owner
    exact order
  · intro made now
    exact woven.follow_idle reliable now (mem_tiesAfter_iff.2 made)
  · intro cut now
    obtain ⟨hu, hv⟩ := woven.enlisted _ (mem_of_latest? cut)
    refine woven.unfollow_idle reliable now hu hv fun there => ?_
    rw [mem_tiesAfter_iff.1 there] at cut
    cases cut
  · intro now later o b' absent followed
    rw [names, View.mem_followers_iff] at absent
    obtain ⟨edits', b'', cut, still, woven', same⟩ := woven.undone reliable absent followed later
    obtain ⟨theirs', htheirs', again⟩ := woven'.incoming.loadRoster still v
    obtain ⟨own', hown', again'⟩ := woven'.outgoing.loadRoster still u
    have theirs_eq : theirs' = theirs := Roster.ext (by rw [again, same, names])
    have own_eq : own' = own := Roster.ext (by rw [again', same, names'])
    exact ⟨b'', cut, theirs_eq ▸ htheirs', own_eq ▸ hown'⟩

end StakeLedger

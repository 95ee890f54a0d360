import StakeLedger.Proofs.Ledger.Buffered
import StakeLedger.Proofs.Ledger.Link
import StakeLedger.Proofs.Social.Ties

/-!
# Ties in the records

The two rosters of an account are kept in different tables, and an accepted message to follow or to
unfollow edits one of each. After every run from an empty store they are the two views of the ties
that these messages have made and cut.
-/

namespace StakeLedger

open Table

/-! ## Edits of ties -/

/-- The edit of ties that a message asks for. -/
def Message.tieEdit? : Message → Option TieEdit
  | follow u v => some (.follow ⟨u, v⟩)
  | unfollow u v => some (.unfollow ⟨u, v⟩)
  | deposit .. | depositToAccount .. | withdraw .. | transfer .. | checkCapacity ..
  | accrueReward .. | accrueFrictionIncome .. | claimReward _ | createAccount ..
  | increaseSequence _ => none

/-- The edit of ties that a request has made: an accepted message makes the one that it asks for. -/
def Request.tieEdit? (r : Request) (answer : Except Failure Outcome) : Option TieEdit :=
  match r, answer with
  | .deliver m _, .ok _ => m.tieEdit?
  | _, _ => none

/-- The edits of ties in a journal, in order. -/
def tieEdits (journal : List (Request × Except Failure Outcome)) : List TieEdit :=
  journal.filterMap fun entry => entry.1.tieEdit? entry.2

/-! ## Rosters and views -/

/-- An account has a registration. -/
def Enlisted (c : Contents) (u : Username) : Prop :=
  ∃ r, registrations.peek c u = .ok (some r)

/-- The rosters of a table can all be read, and list what the view shows. -/
def Shows (view : View) (t : Table Username Roster) (ties : List Tie) (c : Contents) : Prop :=
  ∀ u, ∃ found, t.peek c u = .ok found ∧ (found.getD .empty).names = view.names ties u

/-- Both tables of rosters show the ties after the edits, and all accounts concerned exist. -/
structure Woven (edits : List TieEdit) (c : Contents) : Prop where
  incoming : Shows .followers followers (tiesAfter edits) c
  outgoing : Shows .following following (tiesAfter edits) c
  enlisted : ∀ e ∈ edits, Enlisted c e.tie.follower ∧ Enlisted c e.tie.followee

theorem woven_empty : Woven [] .empty where
  incoming _ := ⟨none, rfl, rfl⟩
  outgoing _ := ⟨none, rfl, rfl⟩
  enlisted := nofun

section

variable {c d : Contents} {edits : List TieEdit} {e : TieEdit} {view : View}
  {t : Table Username Roster} {ties : List Tie} {u v : Username}

namespace Roster

variable {r r' : Roster} {name : Username}

/-- The roster that is kept once a name has joined. -/
theorem names_joined (h : r.join name = .ok r') :
    (if !r.has name then r' else r).names =
      if name ∈ r.names then r.names else r.names ++ [name] := by
  grind [join, ofNames?, has]

/-- The roster that is kept once a name has left. -/
theorem names_left (r : Roster) (name : Username) :
    (if r.has name then r.leave name else r).names = r.names.erase name := by
  split
  · rfl
  · rename_i absent
    exact (List.erase_of_not_mem (by simpa [has] using absent)).symm

end Roster

/-- A roster that is edited as the view is keeps the table in step with the ties. -/
theorem Shows.edited (shows_ : Shows view t ties c) (reads : ∀ r, t.codec.Reads r)
    (apart : ∀ {u v}, u ≠ v → t.key u ≠ t.key v) {found : Option Roster} {changes : Bool}
    {r : Roster} (hfound : t.peek c (view.owner e.tie) = .ok found)
    (names : (if changes then r else found.getD .empty).names =
      view.names (e.apply ties) (view.owner e.tie)) :
    Shows view t (e.apply ties) (t.edited c (view.owner e.tie) changes r) := by
  intro w
  by_cases own : w = view.owner e.tie
  · subst own
    cases changes with
    | false => exact ⟨found, hfound, names⟩
    | true => exact ⟨some r, peek_put_self (reads r) c _, names⟩
  · obtain ⟨found', hfound', names'⟩ := shows_ w
    refine ⟨found', (peek_edited_of_ne (apart own) c changes r).trans hfound', names'.trans ?_⟩
    rw [View.names_apply, if_neg (Ne.symm own)]

namespace Woven

/-- What leaves all rosters alone and loses no registration leaves the ties. -/
theorem frame (woven : Woven edits c) (theirs : ∀ u, followers.peek d u = followers.peek c u)
    (own : ∀ u, following.peek d u = following.peek c u)
    (kept : ∀ u, Enlisted c u → Enlisted d u) : Woven edits d where
  incoming u := by
    rw [theirs]
    exact woven.incoming u
  outgoing u := by
    rw [own]
    exact woven.outgoing u
  enlisted e he := (woven.enlisted e he).imp (kept _) (kept _)

/-- Two rosters that are edited as a tie is, each in its table, show the ties after one edit more.
-/
theorem edited (woven : Woven edits c) {theirs own : Option Roster} {p q : Bool} {r s : Roster}
    (htheirs : followers.peek c e.tie.followee = .ok theirs)
    (hown : following.peek c e.tie.follower = .ok own)
    (names : (if p then r else theirs.getD .empty).names =
      View.followers.names (e.apply (tiesAfter edits)) e.tie.followee)
    (names' : (if q then s else own.getD .empty).names =
      View.following.names (e.apply (tiesAfter edits)) e.tie.follower)
    (hu : Enlisted c e.tie.follower) (hv : Enlisted c e.tie.followee) :
    Woven (edits ++ [e])
      (following.edited (followers.edited c e.tie.followee p r) e.tie.follower q s) := by
  have kept (u : Username) (h : Enlisted c u) : Enlisted
      (following.edited (followers.edited c e.tie.followee p r) e.tie.follower q s)
      u := by
    obtain ⟨account, haccount⟩ := h
    exact ⟨account, by simpa using haccount⟩
  refine ⟨?_, ?_, fun e' he' => ?_⟩
  · have shows_ := woven.incoming.edited Codec.reads_roster (by simp) htheirs names
    rw [tiesAfter_append_singleton]
    intro u
    rw [peek_edited_of_ne (by simp)]
    exact shows_ u
  · have other : Shows .following following (tiesAfter edits)
        (followers.edited c e.tie.followee p r) := by
      intro u
      rw [peek_edited_of_ne (by simp)]
      exact woven.outgoing u
    rw [tiesAfter_append_singleton]
    exact other.edited Codec.reads_roster (by simp)
      ((peek_edited_of_ne (by simp) _ _ _).trans hown) names'
  · rcases List.mem_append.1 he' with old | last
    · exact (woven.enlisted e' old).imp (kept _) (kept _)
    · obtain rfl := List.mem_singleton.1 last
      exact ⟨kept _ hu, kept _ hv⟩

end Woven

/-! ## What changes do to ties -/

variable {l : Ledger} {now : Seconds}

theorem Step.enlisted {move : Move} (h : Step l now move c d) (known : Enlisted c u) :
    Enlisted d u := by
  obtain ⟨r, hr⟩ := known
  cases h with
  | enrol hnew hbank howner hfee =>
    rename_i new key bank
    have other : u ≠ new := by
      rintro rfl
      exact absurd (hr.symm.trans hnew) nofun
    exact ⟨r, by simpa [putAccount, other] using hr⟩
  | _ => exact ⟨r, by simpa [putHolding] using hr⟩

/-- The change sets a roster. -/
def Move.setsRoster : Move → Bool
  | followers .. | following .. => true
  | credit .. | debit .. | enrol .. | meter .. | earn .. => false

/-- A change of anything but a roster leaves the ties. -/
theorem Step.woven {move : Move} (h : Step l now move c d)
    (other : move.setsRoster = false) (woven : Woven edits c) :
    Woven edits d := by
  refine woven.frame (fun u => ?_) (fun u => ?_) fun u => h.enlisted
  all_goals cases h with
    | followers | following => cases other
    | _ => simp [putHolding, putAccount]

theorem Shows.names_eq {found : Option Roster} (shows_ : Shows view t ties c)
    (hfound : t.peek c u = .ok found) : (found.getD .empty).names = view.names ties u := by
  obtain ⟨found', hfound', names⟩ := shows_ u
  rw [hfound] at hfound'
  cases hfound'
  exact names

/-- An accepted message makes the edit of ties that it asks for, and no other. -/
theorem Message.Effect.woven {m : Message} {o : Outcome} (h : m.Effect l now c o d)
    (woven : Woven edits c) : Woven (edits ++ m.tieEdit?.toList) d := by
  cases h with
  | follow hr hs htheirs hown hjoin hjoin' =>
    rename_i u v _ _ _ _ _ _
    refine woven.edited (e := .follow ⟨u, v⟩) htheirs hown ?_ ?_ ⟨_, hr⟩ ⟨_, hs⟩
    · rw [Roster.names_joined hjoin, woven.incoming.names_eq htheirs, View.names_apply]
      exact (if_pos rfl).symm
    · rw [Roster.names_joined hjoin', woven.outgoing.names_eq hown, View.names_apply]
      exact (if_pos rfl).symm
  | unfollow hr hs htheirs hown =>
    rename_i u v _ _ _ _
    refine woven.edited (e := .unfollow ⟨u, v⟩) htheirs hown ?_ ?_ ⟨_, hr⟩ ⟨_, hs⟩
    · rw [Roster.names_left, woven.incoming.names_eq htheirs, View.names_apply]
      exact (if_pos rfl).symm
    · rw [Roster.names_left, woven.outgoing.names_eq hown, View.names_apply]
      exact (if_pos rfl).symm
  | deposit h => simpa [tieEdit?] using h.woven rfl woven
  | depositToAccount hr h => simpa [tieEdit?] using h.woven rfl woven
  | withdraw hr h => simpa [tieEdit?] using h.woven rfl woven
  | transfer hr htarget paid received =>
    simpa [tieEdit?] using received.woven rfl (paid.woven rfl woven)
  | checkCapacity husage hstake hcharge =>
    simpa [tieEdit?] using (.meter husage : Step l now _ c _).woven rfl woven
  | accrueReward hearnings haccrue =>
    simpa [tieEdit?] using (.earn hearnings : Step l now _ c _).woven rfl woven
  | accrueFrictionIncome hearnings haccrue =>
    simpa [tieEdit?] using (.earn hearnings : Step l now _ c _).woven rfl woven
  | claimNothing hearnings hr zero => simpa [tieEdit?] using woven
  | claimReward hearnings hr received =>
    simpa [tieEdit?] using
      (received.earn_of_credit hearnings).woven rfl (received.woven rfl woven)
  | createAccount hkey h => simpa [tieEdit?] using h.woven rfl woven
  | increaseSequence husage hn =>
    simpa [tieEdit?] using (.meter husage : Step l now _ c _).woven rfl woven

theorem Genesis.Effect.woven {accounts : List FirstAccount} (h : Effect l now accounts c d)
    (woven : Woven edits c) : Woven edits d := by
  induction h with
  | none c => exact woven
  | account hkey hcoin received opened later ih =>
    exact ih (opened.woven rfl (received.woven rfl woven))

/-- A served request makes the edit of ties that it has made by its answer. -/
theorem Served.woven {r : Request} {answer : Except Failure Outcome} (h : Served l r c answer d)
    (woven : Woven edits c) : Woven (edits ++ (r.tieEdit? answer).toList) d := by
  cases h with
  | started h => simpa [Request.tieEdit?] using h.woven woven
  | delivered check h => exact h.woven woven
  | refused r drops c => cases r <;> simpa [Request.tieEdit?] using woven
  | short husage =>
    simpa [Request.tieEdit?] using (.meter husage : Step l .zero _ c _).woven rfl woven

end

/-- After every run on a reliable store, both tables of rosters show the ties after the edits that
the run has made. -/
theorem Ledger.run_woven {l : Ledger} {b : Backend} {edits : List TieEdit} (reliable : b.Reliable)
    (woven : Woven edits b.contents) (requests : List Request) :
    Woven (edits ++ tieEdits (l.run b requests).1) (l.run b requests).2.contents := by
  induction requests generalizing b edits with
  | nil => simpa [run, tieEdits] using woven
  | cons r rest ih =>
    obtain ⟨served, still⟩ := serve_served (l := l) reliable r
    have split : tieEdits (l.run b (r :: rest)).1 =
        (r.tieEdit? (l.serve b r).1).toList ++ tieEdits (l.run (l.serve b r).2 rest).1 := by
      simp only [run, tieEdits, List.filterMap_cons]
      cases r.tieEdit? (l.serve b r).1 <;> rfl
    rw [split, ← List.append_assoc]
    exact ih still (served.woven woven)

end StakeLedger

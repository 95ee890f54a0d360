import Mathlib.Data.List.Induction
import StakeLedger.Record.Roster

/-!
# Ties

An account that follows another has a tie to it. Ties are made and cut one after another, and a tie
that is there already keeps its place when it is made again. Of all this only two lists per account
have to be kept: who follows it, and whom it follows.

## Main definitions

* `Tie`, `TieEdit` — who follows whom, and how that changes.
* `tiesAfter` — the ties after edits, in the order in which they came into being.
* `latest?` — the most recent edit of a tie.
* `FormedAt` — the edit by which a tie last came into being.
* `View` — the lists of an account, as two views of the ties.

## Main statements

* `mem_tiesAfter_iff` — a tie is there exactly if its most recent edit has made it.
* `existsUnique_formedAt`, `pairwise_tiesAfter` — by which edit a tie last came into being, and that
  ties stand in this order.
* `View.names_apply` — an edit changes one list of each view.
-/

namespace StakeLedger

/-- One account follows another. -/
structure Tie where
  follower : Username
  followee : Username
  deriving DecidableEq

/-- A tie is made or cut. -/
inductive TieEdit where
  | follow (tie : Tie)
  | unfollow (tie : Tie)
  deriving DecidableEq

namespace TieEdit

def tie : TieEdit → Tie
  | follow t | unfollow t => t

/-- The ties after one edit more. A tie that is there already keeps its place. -/
def apply (ties : List Tie) : TieEdit → List Tie
  | follow t => if t ∈ ties then ties else ties ++ [t]
  | unfollow t => ties.erase t

end TieEdit

/-- The ties after edits, in the order in which they came into being. -/
def tiesAfter (edits : List TieEdit) : List Tie := edits.foldl TieEdit.apply []

/-- The most recent edit of a tie. -/
def latest? (edits : List TieEdit) (t : Tie) : Option TieEdit :=
  edits.reverse.find? fun e => e.tie = t

/-- The tie last came into being by the edit number `n`: the edit makes it, it was not there before,
and it has not been cut since. -/
structure FormedAt (edits : List TieEdit) (t : Tie) (n : Nat) : Prop where
  makes : edits[n]? = some (.follow t)
  fresh : latest? (edits.take n) t ≠ some (.follow t)
  lasts : .unfollow t ∉ edits.drop (n + 1)

/-! ## Edits one after another -/

section

variable {edits : List TieEdit} {e : TieEdit} {s t : Tie} {m n : Nat}

theorem tiesAfter_append_singleton (edits : List TieEdit) (e : TieEdit) :
    tiesAfter (edits ++ [e]) = e.apply (tiesAfter edits) := by
  simp [tiesAfter]

theorem latest?_append_singleton (edits : List TieEdit) (e : TieEdit) (t : Tie) :
    latest? (edits ++ [e]) t = if e.tie = t then some e else latest? edits t := by
  grind [latest?]

theorem mem_of_latest? (h : latest? edits t = some e) : e ∈ edits := by
  simpa using List.mem_of_find?_eq_some h

theorem nodup_apply {ties : List Tie} (nodup : ties.Nodup) (e : TieEdit) :
    (e.apply ties).Nodup := by
  cases e with
  | follow t =>
    simp only [TieEdit.apply]
    grind
  | unfollow t => exact nodup.erase t

theorem nodup_tiesAfter (edits : List TieEdit) : (tiesAfter edits).Nodup := by
  induction edits using List.reverseRecOn with
  | nil => exact List.nodup_nil
  | append_singleton edits e ih =>
    rw [tiesAfter_append_singleton]
    exact nodup_apply ih e

/-- A tie is there exactly if its most recent edit has made it. -/
theorem mem_tiesAfter_iff : t ∈ tiesAfter edits ↔ latest? edits t = some (.follow t) := by
  induction edits using List.reverseRecOn with
  | nil => simp [tiesAfter, latest?]
  | append_singleton edits e ih =>
    have nodup := nodup_tiesAfter edits
    rw [tiesAfter_append_singleton, latest?_append_singleton]
    cases e with
    | follow s => grind [TieEdit.apply, TieEdit.tie]
    | unfollow s => grind [TieEdit.apply, TieEdit.tie, List.Nodup.mem_erase_iff]

/-- One edit more leaves the ties that it does not cut where they came into being, and may bring one
into being itself. -/
theorem formedAt_append_singleton :
    FormedAt (edits ++ [e]) t n ↔
      FormedAt edits t n ∧ e ≠ .unfollow t ∨
        n = edits.length ∧ e = .follow t ∧ t ∉ tiesAfter edits := by
  rw [mem_tiesAfter_iff]
  rcases Nat.lt_trichotomy n edits.length with old | rfl | beyond
  · have take : (edits ++ [e]).take n = edits.take n :=
      List.take_append_of_le_length (Nat.le_of_lt old)
    have drop : (edits ++ [e]).drop (n + 1) = edits.drop (n + 1) ++ [e] :=
      List.drop_append_of_le_length old
    have get : (edits ++ [e])[n]? = edits[n]? := List.getElem?_append_left old
    constructor
    · rintro ⟨makes, fresh, lasts⟩
      rw [get] at makes
      rw [take] at fresh
      rw [drop, List.mem_append, not_or] at lasts
      exact .inl ⟨⟨makes, fresh, lasts.1⟩, fun cut => lasts.2 (by simp [cut])⟩
    · rintro (⟨⟨makes, fresh, lasts⟩, kept⟩ | ⟨rfl, -⟩)
      · refine ⟨get.trans makes, take ▸ fresh, ?_⟩
        rw [drop, List.mem_append, List.mem_singleton]
        grind
      · exact absurd old (Nat.lt_irrefl _)
  · have take : (edits ++ [e]).take edits.length = edits := by simp
    have drop : (edits ++ [e]).drop (edits.length + 1) = [] := by simp
    constructor
    · rintro ⟨makes, fresh, -⟩
      rw [take] at fresh
      exact .inr ⟨rfl, by simpa using makes, fresh⟩
    · rintro (⟨⟨makes, -, -⟩, -⟩ | ⟨-, rfl, fresh⟩)
      · simp at makes
      · exact ⟨by simp, take.symm ▸ fresh, by simp [drop]⟩
  · have absent : (edits ++ [e])[n]? = none := by simp; omega
    have absent' : edits[n]? = none := by simp; omega
    constructor
    · rintro ⟨makes, -, -⟩
      rw [absent] at makes
      cases makes
    · rintro (⟨⟨makes, -, -⟩, -⟩ | ⟨rfl, -⟩)
      · rw [absent'] at makes
        cases makes
      · exact absurd beyond (Nat.lt_irrefl _)

/-- A tie is there exactly if it has come into being by some edit. -/
theorem mem_tiesAfter_iff_formedAt : t ∈ tiesAfter edits ↔ ∃ n, FormedAt edits t n := by
  induction edits using List.reverseRecOn with
  | nil => grind [FormedAt, tiesAfter]
  | append_singleton edits e ih =>
    simp only [formedAt_append_singleton]
    rw [tiesAfter_append_singleton]
    have nodup := nodup_tiesAfter edits
    cases e with
    | follow s => grind [TieEdit.apply]
    | unfollow s => grind [TieEdit.apply, List.Nodup.mem_erase_iff]

/-- A tie last came into being by one edit only. -/
theorem FormedAt.unique (hm : FormedAt edits t m) (hn : FormedAt edits t n) : m = n := by
  induction edits using List.reverseRecOn with
  | nil => grind [FormedAt]
  | append_singleton edits e ih =>
    have old := @mem_tiesAfter_iff_formedAt edits t
    grind [formedAt_append_singleton]

/-- Every tie that is there came into being by exactly one edit. -/
theorem existsUnique_formedAt (h : t ∈ tiesAfter edits) : ∃! n, FormedAt edits t n := by
  obtain ⟨n, hn⟩ := mem_tiesAfter_iff_formedAt.1 h
  exact ⟨n, hn, fun m hm => hm.unique hn⟩

theorem FormedAt.lt_length (h : FormedAt edits t n) : n < edits.length := by
  obtain ⟨inside, -⟩ := List.getElem?_eq_some_iff.1 h.makes
  exact inside

/-- A tie that was there before the last edit came into being before it. -/
theorem FormedAt.of_append_singleton (h : FormedAt (edits ++ [e]) t n) (old : t ∈ tiesAfter edits) :
    FormedAt edits t n := by
  rcases formedAt_append_singleton.1 h with ⟨before, -⟩ | ⟨-, -, fresh⟩
  · exact before
  · exact absurd old fresh

/-- Ties stand in the order in which they last came into being. -/
theorem pairwise_tiesAfter (edits : List TieEdit) :
    (tiesAfter edits).Pairwise fun s t =>
      ∀ m n, FormedAt edits s m → FormedAt edits t n → m < n := by
  induction edits using List.reverseRecOn with
  | nil => exact List.Pairwise.nil
  | append_singleton edits e ih =>
    rw [tiesAfter_append_singleton]
    have kept : (tiesAfter edits).Pairwise fun s t =>
        ∀ m n, FormedAt (edits ++ [e]) s m → FormedAt (edits ++ [e]) t n → m < n := by
      refine ih.imp_of_mem fun hs ht ordered m n hm hn => ?_
      exact ordered m n (hm.of_append_singleton hs) (hn.of_append_singleton ht)
    cases e with
    | unfollow s => exact kept.sublist List.erase_sublist
    | follow s =>
      rw [TieEdit.apply]
      split
      · exact kept
      · rename_i fresh
        -- The new tie comes into being by the last edit, and all others before it.
        refine List.pairwise_append.2 ⟨kept, List.pairwise_singleton _ _, fun t ht s' hs' => ?_⟩
        obtain rfl := List.mem_singleton.1 hs'
        intro m n hm hn
        have before := (hm.of_append_singleton ht).lt_length
        rcases formedAt_append_singleton.1 hn with ⟨earlier, -⟩ | ⟨rfl, -⟩
        · exact absurd (mem_tiesAfter_iff_formedAt.2 ⟨n, earlier⟩) fresh
        · exact before

end

/-! ## The lists of an account -/

/-- One of the two lists that an account has: which account of a tie has it in its list, and which
account it has there. -/
structure View where
  owner : Tie → Username
  entry : Tie → Username
  ext : ∀ {s t}, owner s = owner t → entry s = entry t → s = t

namespace View

/-- Who follows an account. -/
def followers : View where
  owner := Tie.followee
  entry := Tie.follower
  ext {s t} := by cases s; cases t; grind

/-- Whom an account follows. -/
def following : View where
  owner := Tie.follower
  entry := Tie.followee
  ext {s t} := by cases s; cases t; grind

/-- The list of an account. -/
def names (view : View) (ties : List Tie) (account : Username) : List Username :=
  (ties.filter fun t => view.owner t = account).map view.entry

variable {view : View} {ties : List Tie} {account name : Username} {t : Tie}

theorem mem_names_iff :
    name ∈ view.names ties account ↔ ∃ t ∈ ties, view.owner t = account ∧ view.entry t = name := by
  grind [names]

/-- A tie puts an entry into the list of its owner. -/
theorem entry_mem_names_iff : view.entry t ∈ view.names ties (view.owner t) ↔ t ∈ ties := by
  rw [mem_names_iff]
  constructor
  · rintro ⟨s, hs, owner, entry⟩
    exact view.ext owner entry ▸ hs
  · intro h
    exact ⟨t, h, rfl, rfl⟩

theorem mem_followers_iff {u v : Username} : u ∈ followers.names ties v ↔ ⟨u, v⟩ ∈ ties :=
  @entry_mem_names_iff followers ties ⟨u, v⟩

theorem mem_following_iff {u v : Username} : v ∈ following.names ties u ↔ ⟨u, v⟩ ∈ ties :=
  @entry_mem_names_iff following ties ⟨u, v⟩

/-- An order of ties is an order of the entries in every list. -/
theorem pairwise_names {R : Tie → Tie → Prop} {S : Username → Username → Prop}
    (h : ties.Pairwise R)
    (order : ∀ s t, view.owner s = account → view.owner t = account → R s t →
      S (view.entry s) (view.entry t)) : (view.names ties account).Pairwise S := by
  rw [names, List.pairwise_map]
  refine (h.filter _).imp_of_mem fun hs ht => ?_
  grind

theorem nodup_names (nodup : ties.Nodup) : (view.names ties account).Nodup := by
  refine pairwise_names nodup fun s t hs ht apart same => ?_
  exact apart (view.ext (hs.trans ht.symm) same)

/-- A new tie stands at the end of one list, and the others stay as they are. -/
theorem names_append_singleton :
    view.names (ties ++ [t]) account =
      if view.owner t = account then view.names ties account ++ [view.entry t]
      else view.names ties account := by
  grind [names]

/-- A tie that is cut leaves one list, and the others stay as they are. -/
theorem names_erase :
    view.names (ties.erase t) account =
      if view.owner t = account then (view.names ties account).erase (view.entry t)
      else view.names ties account := by
  induction ties with
  | nil => simp [names]
  | cons s rest ih =>
    have ext := @view.ext s t
    grind [names]

/-- An edit changes one list, or none. -/
theorem names_apply (e : TieEdit) :
    view.names (e.apply ties) account =
      if view.owner e.tie = account then
        match e with
        | .follow t =>
          if view.entry t ∈ view.names ties account then view.names ties account
          else view.names ties account ++ [view.entry t]
        | .unfollow t => (view.names ties account).erase (view.entry t)
      else view.names ties account := by
  cases e with
  | unfollow t => exact names_erase
  | follow t =>
    have mem : view.entry t ∈ view.names ties (view.owner t) ↔ t ∈ ties := entry_mem_names_iff
    simp only [TieEdit.apply, TieEdit.tie]
    by_cases owner : view.owner t = account
    · subst owner
      grind [names_append_singleton]
    · grind [names_append_singleton]

end View

end StakeLedger

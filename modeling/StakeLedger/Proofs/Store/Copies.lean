import Mathlib.Data.Finset.Card
import Mathlib.Data.Finset.Dedup
import StakeLedger.Proofs.Store.Plain
import StakeLedger.Store.Layers

/-!
# Layers as full copies

A stack of buffers keeps only what was updated at each level and finds the rest below. It can be
understood without that: as a stack of full copies, where a new level starts as a copy of the one
below it, a flush puts the top copy in the place of the one below, and to discard the updates of a
level is to copy the one below again. `Layers.copies` are the copies that layers stand for.
-/

namespace StakeLedger

/-! ## The keys of a buffer -/

namespace Contents

def keys (c : Contents) : Finset Bytes := (c.entries.map Prod.fst).toFinset

theorem nodup_keys (c : Contents) : (c.entries.map Prod.fst).Nodup := by
  rw [List.Nodup, List.pairwise_map]
  refine c.ordered.imp fun {p q} before same => ?_
  rw [same, precedes_irrefl] at before
  cases before

theorem card_keys (c : Contents) : c.keys.card = c.size := by
  rw [keys, List.toFinset_card_of_nodup c.nodup_keys, List.length_map, size]

theorem mem_keys {c : Contents} {key : Bytes} : key ∈ c.keys ↔ c.get? key ≠ none := by
  rw [keys, List.mem_toFinset, get?]
  induction c.entries with
  | nil => simp [findEntry]
  | cons entry rest ih => grind [findEntry]

@[simp] theorem keys_empty : empty.keys = ∅ := rfl

theorem keys_insert (c : Contents) (key value : Bytes) :
    (c.insert key value).keys = Insert.insert key c.keys := by
  ext other
  grind [mem_keys, get?_insert]

theorem keys_addAll (upper lower : Contents) :
    (upper.addAll lower).keys = lower.keys ∪ upper.keys := by
  ext key
  grind [mem_keys, get?_addAll]

end Contents

/-! ## Copies -/

/-- A full copy of a store. -/
structure Copy where
  map : Bytes → Option Bytes
  /-- The keys updated here, or flushed into here, since this copy was last in step with the one
  below. -/
  keys : Finset Bytes

/-- A store with full copies of it. -/
structure Copies where
  bottom : Bytes → Option Bytes
  /-- The copies, topmost first. -/
  levels : List Copy

namespace Copies

/-- What is seen from the top. -/
def top (s : Copies) : Bytes → Option Bytes :=
  match s.levels with
  | [] => s.bottom
  | copy :: _ => copy.map

def set (s : Copies) (key value : Bytes) : Copies :=
  match s.levels with
  | [] => { s with bottom := Function.update s.bottom key (some value) }
  | ⟨map, keys⟩ :: below =>
    { s with levels := ⟨Function.update map key (some value), insert key keys⟩ :: below }

/-- The top copy takes the place of what is below it. -/
def flush (s : Copies) : Copies :=
  match s.levels with
  | [] => s
  | [⟨map, _⟩] => ⟨map, [⟨map, ∅⟩]⟩
  | ⟨map, keys⟩ :: lower :: below =>
    { s with levels := ⟨map, ∅⟩ :: ⟨map, lower.keys ∪ keys⟩ :: below }

/-- One more copy of the top. -/
def push (s : Copies) : Copies := { s with levels := ⟨s.top, ∅⟩ :: s.levels }

def pop (s : Copies) : Copies := { s with levels := s.levels.tail }

/-- What is below the top copy is copied again. -/
def discard (s : Copies) : Copies :=
  match s.levels with
  | [] => s
  | _ :: below => push { s with levels := below }

end Copies

/-! ## Uses -/

/-- A use of the top level. -/
inductive Layers.Use where
  | get (key : Bytes)
  | set (key value : Bytes)
  | flush
  | push
  | pop
  | discard

namespace Copies

/-- A use of copies, with what was read. -/
def use (s : Copies) : Layers.Use → Option Bytes × Copies
  | .get key => (s.top key, s)
  | .set key value => (none, s.set key value)
  | .flush => (none, s.flush)
  | .push => (none, s.push)
  | .pop => (none, s.pop)
  | .discard => (none, s.discard)

/-- Uses one after another, with what each read. -/
def useAll (s : Copies) : List Layers.Use → List (Option Bytes) × Copies
  | [] => ([], s)
  | u :: rest =>
    let (seen, s) := s.use u
    let (later, s) := s.useAll rest
    (seen :: later, s)

end Copies

namespace Layers

/-- A use of layers, with what was read. -/
def use (l : Layers) : Use → Option Bytes × Layers
  | .get key => (l.get? key, l)
  | .set key value => (none, l.set key value)
  | .flush => (none, l.flush)
  | .push => (none, l.push)
  | .pop => (none, l.pop)
  | .discard => (none, l.discard)

/-- Uses one after another, with what each read. -/
def useAll (l : Layers) : List Use → List (Option Bytes) × Layers
  | [] => ([], l)
  | u :: rest =>
    let (seen, l) := l.use u
    let (later, l) := l.useAll rest
    (seen :: later, l)

/-! ## The copies that layers stand for -/

theorem find_cons (base : Contents) (key : Bytes) (buffer : Contents) (below : List Contents) :
    find base key (buffer :: below) = (buffer.get? key).or (find base key below) := by
  grind [find]

/-- Each buffer as the copy that is seen from there. -/
def copiesOf (base : Contents) : List Contents → List Copy
  | [] => []
  | buffer :: below =>
    ⟨fun key => find base key (buffer :: below), buffer.keys⟩ :: copiesOf base below

def copies (l : Layers) : Copies := ⟨l.base.get?, copiesOf l.base l.buffers⟩

theorem top_copies (l : Layers) : l.copies.top = l.get? := by
  obtain ⟨base, _ | ⟨buffer, below⟩⟩ := l <;> rfl

theorem copies_set (l : Layers) (key value : Bytes) :
    (l.set key value).copies = l.copies.set key value := by
  obtain ⟨base, _ | ⟨top, below⟩⟩ := l
  · have bottom : (base.insert key value).get? = Function.update base.get? key (some value) := by
      funext k
      rw [Contents.get?_insert, Function.update_apply]
    simp only [set, copies, copiesOf, Copies.set, bottom]
  · have seen : (fun k => find base k (top.insert key value :: below)) =
        Function.update (fun k => find base k (top :: below)) key (some value) := by
      funext k
      rw [find_cons, Contents.get?_insert, Function.update_apply, find_cons]
      split <;> rfl
    simp only [set, copies, copiesOf, Copies.set, seen, Contents.keys_insert]

theorem copies_flush (l : Layers) : l.flush.copies = l.copies.flush := by
  obtain ⟨base, _ | ⟨top, _ | ⟨next, below⟩⟩⟩ := l
  · rfl
  · have bottom : (top.addAll base).get? = fun k => find base k [top] := by
      funext k
      rw [Contents.get?_addAll, find_cons, find]
    have seen : (fun k => find (top.addAll base) k [.empty]) = (top.addAll base).get? := rfl
    simp only [flush, copies, copiesOf, Copies.flush, seen, bottom, Contents.keys_empty]
  · have lower : (fun k => find base k (top.addAll next :: below)) =
        fun k => find base k (top :: next :: below) := by
      funext k
      rw [find_cons, Contents.get?_addAll, find_cons, find_cons, Option.or_assoc]
    have seen : (fun k => find base k (.empty :: top.addAll next :: below)) =
        fun k => find base k (top.addAll next :: below) := rfl
    simp only [flush, copies, copiesOf, Copies.flush, seen, lower, Contents.keys_addAll,
      Contents.keys_empty]

theorem copies_push (l : Layers) : l.push.copies = l.copies.push := by
  rw [Copies.push, top_copies]
  rfl

theorem copies_pop (l : Layers) : l.pop.copies = l.copies.pop := by
  obtain ⟨base, _ | ⟨top, below⟩⟩ := l <;> rfl

theorem copies_discard (l : Layers) : l.discard.copies = l.copies.discard := by
  obtain ⟨base, _ | ⟨top, below⟩⟩ := l
  · rfl
  · exact copies_push ⟨base, below⟩

/-- Each use reads from the layers what it reads from the copies, and does the same to both. -/
theorem copies_use (l : Layers) (u : Use) :
    l.copies.use u = ((l.use u).1, (l.use u).2.copies) := by
  cases u with
  | get key => simp only [use, Copies.use, top_copies]
  | set key value => simp only [use, Copies.use, copies_set]
  | flush => simp only [use, Copies.use, copies_flush]
  | push => simp only [use, Copies.use, copies_push]
  | pop => simp only [use, Copies.use, copies_pop]
  | discard => simp only [use, Copies.use, copies_discard]

theorem copies_useAll (l : Layers) (uses : List Use) :
    l.copies.useAll uses = ((l.useAll uses).1, (l.useAll uses).2.copies) := by
  induction uses generalizing l with
  | nil => rfl
  | cons u rest ih => simp only [useAll, Copies.useAll, copies_use, ih]

theorem size_buffers (l : Layers) :
    l.buffers.map Contents.size = l.copies.levels.map fun copy => copy.keys.card := by
  obtain ⟨base, buffers⟩ := l
  simp only [copies]
  induction buffers with
  | nil => rfl
  | cons buffer below ih => simp only [List.map_cons, copiesOf, Contents.card_keys, ih]

/-- Layers over a store are a stack of full copies. Whatever the top level is used for, and however
many levels there are at any time, the same is read, the store ends up as the bottom of the copies,
and the updates pending at each level are those to the keys updated there or flushed into there
since it was last in step with the level below. -/
theorem useAll_eq_copies (c : Contents) (uses : List Use) :
    let layered := (⟨c, []⟩ : Layers).useAll uses
    let copied := (⟨c.get?, []⟩ : Copies).useAll uses
    layered.1 = copied.1 ∧ layered.2.base.get? = copied.2.bottom ∧
      layered.2.buffers.map Contents.size = copied.2.levels.map (fun copy => copy.keys.card) ∧
      layered.2.pending? = copied.2.levels.head?.map fun copy => copy.keys.card := by
  intro layered copied
  have same : copied = (layered.1, layered.2.copies) := copies_useAll ⟨c, []⟩ uses
  have sizes := layered.2.size_buffers
  rw [same]
  refine ⟨rfl, rfl, sizes, ?_⟩
  rw [pending?, ← List.head?_map, sizes, List.head?_map]

end Layers

end StakeLedger

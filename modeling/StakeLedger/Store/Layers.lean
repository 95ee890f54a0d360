import StakeLedger.Store.Contents
/-!
# Layers of buffers

A buffer in front of a store holds updates until it is flushed into what lies below it, which may be
another buffer. Reading looks for a key from the top down.
-/

namespace StakeLedger

/-- A store with buffers in front of it. -/
structure Layers where
  base : Contents
  /-- The updates that each buffer holds, topmost buffer first. -/
  buffers : List Contents
  deriving DecidableEq

namespace Layers

def empty : Layers := ⟨.empty, []⟩

/-- The value of a key in the first buffer that has one, or else in the store. -/
def find (base : Contents) (key : Bytes) : List Contents → Option Bytes
  | [] => base.get? key
  | buffer :: below =>
    match buffer.get? key with
    | some value => some value
    | none => find base key below

/-- The value of a key, seen from the top. -/
def get? (l : Layers) (key : Bytes) : Option Bytes := find l.base key l.buffers

/-- The layers with a key set at the top. -/
def set (l : Layers) (key value : Bytes) : Layers :=
  match l.buffers with
  | [] => { l with base := l.base.insert key value }
  | top :: below => { l with buffers := top.insert key value :: below }

/-- The layers with the updates of the top buffer moved into the layer below it. -/
def flush (l : Layers) : Layers :=
  match l.buffers with
  | [] => l
  | [top] => ⟨top.addAll l.base, [.empty]⟩
  | top :: next :: below => { l with buffers := .empty :: top.addAll next :: below }

def push (l : Layers) : Layers := { l with buffers := .empty :: l.buffers }

/-- The layers without the top buffer; its updates are lost. -/
def pop (l : Layers) : Layers := { l with buffers := l.buffers.tail }

/-- The layers with the top buffer emptied; its updates are lost. -/
def discard (l : Layers) : Layers :=
  match l.buffers with
  | [] => l
  | _ :: below => { l with buffers := .empty :: below }

/-- How many keys the top buffer holds updates for; `none` where there is no buffer. -/
def pending? (l : Layers) : Option Nat := l.buffers.head?.map Contents.size

end Layers

end StakeLedger

import StakeLedger.Failure
/-!
# Byte codecs

A codec writes values as bytes and reads them back from the front of a byte sequence. Numbers take a
fixed number of bytes, least significant first; texts and lists are preceded by their length.

Two layouts differ in the width of these lengths: records are stored with eight bytes, and their
canonical form, which digests are taken of, has four.

## Main definitions

* `Codec` — a way to write values and to read them back.
* `Codec.number`, `Codec.text`, `Codec.option`, `Codec.list` — the building blocks.
* `Codec.pair`, `Codec.refine` — one codec after another, and a codec seen through another type.
-/

namespace StakeLedger

/-- How wide the lengths of texts and lists are. -/
inductive Layout where
  | stored
  | canonical
  deriving DecidableEq

def Layout.lengthWidth : Layout → Nat
  | .stored => 8
  | .canonical => 4

/-- A way to write values as bytes, and to read one from the front of a byte sequence. -/
structure Codec (α : Type) where
  write : α → Bytes
  read : Bytes → Except ReadDefect (α × Bytes)

namespace Codec

variable {α β : Type}

def number (width : Nat) : Codec (Word (byteRange width)) where
  write w := littleEndian width w.val
  read bytes :=
    if enough : width ≤ bytes.length then
      have bound := ofLittleEndian_lt (bytes.take width)
      .ok (⟨ofLittleEndian (bytes.take width), by
        rwa [List.length_take, Nat.min_eq_left enough] at bound⟩, bytes.drop width)
    else .error .numberCut

/-- A codec seen through another type, some of whose values may be missing. -/
def refine (base : Codec β) (toBase : α → β) (ofBase : β → Except ReadDefect α) : Codec α where
  write a := base.write (toBase a)
  read bytes := do
    let (b, rest) ← base.read bytes
    let a ← ofBase b
    return (a, rest)

/-- A codec seen through a type with the same values. -/
def through (base : Codec β) (toBase : α → β) (ofBase : β → α) : Codec α :=
  base.refine toBase fun b => .ok (ofBase b)

def pair (first : Codec α) (second : Codec β) : Codec (α × β) where
  write ab := first.write ab.1 ++ second.write ab.2
  read bytes := do
    let (a, rest) ← first.read bytes
    let (b, rest) ← second.read rest
    return ((a, b), rest)

/-- A value that may be absent: a byte tells, and the value follows if it is there. -/
def option (item : Codec α) : Codec (Option α) where
  write
    | none => [0]
    | some a => 1 :: item.write a
  read
    | [] => .error .numberCut
    | tag :: rest =>
      if tag = 0 then .ok (none, rest)
      else if tag = 1 then do
        let (a, rest) ← item.read rest
        return (some a, rest)
      else .error (.badTag tag)

def readMany (item : Codec α) : (count : Nat) → Bytes → Except ReadDefect (List α × Bytes)
  | 0, bytes => .ok ([], bytes)
  | count + 1, bytes => do
    let (a, rest) ← item.read bytes
    let (more, rest) ← readMany item count rest
    return (a :: more, rest)

def list (layout : Layout) (item : Codec α) : Codec (List α) where
  write items := littleEndian layout.lengthWidth items.length ++ items.flatMap item.write
  read bytes := do
    let (count, rest) ← (number layout.lengthWidth).read bytes
    item.readMany count.val rest

/-- A text after the number of its bytes. -/
def text (layout : Layout) : Codec String where
  write s := littleEndian layout.lengthWidth (Text.utf8 s).length ++ Text.utf8 s
  read bytes := do
    let (size, rest) ← (number layout.lengthWidth).read bytes
    if size.val ≤ rest.length then
      match Text.ofUtf8 (rest.take size.val) with
      | .ok s => .ok (s, rest.drop size.val)
      | .error defect => .error (.notText defect)
    else .error .textCut

/-- The value at the front of some bytes, whatever follows it. -/
def decode (codec : Codec α) (bytes : Bytes) : Except ReadDefect α :=
  (codec.read bytes).map Prod.fst

end Codec

end StakeLedger

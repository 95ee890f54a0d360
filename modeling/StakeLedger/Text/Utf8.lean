import StakeLedger.Number.Bytes
/-!
# UTF-8

Texts are stored as their UTF-8 bytes. Bytes that are no text are refused, and the refusal says
where the first faulty sequence starts and how much of it could still have been well formed.
-/

namespace StakeLedger.Text

def utf8 (s : String) : Bytes := s.toUTF8.data.toList

/-- What is wrong with the first faulty sequence of some bytes. -/
inductive Utf8Defect where
  /-- The sequence at `index` cannot go on after its first `count` bytes. -/
  | broken (count index : Nat)
  /-- The bytes end inside the sequence at `index`. -/
  | unfinished (index : Nat)
  deriving DecidableEq

def Utf8Defect.message : Utf8Defect → String
  | .broken count index => s!"invalid utf-8 sequence of {count} bytes from index {index}"
  | .unfinished index => s!"incomplete utf-8 byte sequence from index {index}"

/-- The ranges of the bytes that have to follow a first byte; `none` if it starts no sequence. -/
def followers (first : UInt8) : Option (List (Nat × Nat)) :=
  let b := first.toNat
  let any := (0x80, 0xBF)
  if b ≤ 0x7F then some []
  else if 0xC2 ≤ b && b ≤ 0xDF then some [any]
  else if b == 0xE0 then some [(0xA0, 0xBF), any]
  else if b == 0xED then some [(0x80, 0x9F), any]
  else if 0xE1 ≤ b && b ≤ 0xEF then some [any, any]
  else if b == 0xF0 then some [(0x90, 0xBF), any, any]
  else if 0xF1 ≤ b && b ≤ 0xF3 then some [any, any, any]
  else if b == 0xF4 then some [(0x80, 0x8F), any, any]
  else none

/-- The first defect in `bytes`, where `seen` bytes of the sequence at `start` have been read and
bytes in the ranges `owed` have to follow. -/
def findDefect (start seen : Nat) (owed : List (Nat × Nat)) : Bytes → Utf8Defect
  | [] => .unfinished start
  | b :: rest =>
    match owed with
    | [] =>
      match followers b with
      | none => .broken 1 start
      | some [] => findDefect (start + 1) 0 [] rest
      | some (range :: more) => findDefect start 1 (range :: more) rest
    | (low, high) :: more =>
      if low ≤ b.toNat && b.toNat ≤ high then
        match more with
        | [] => findDefect (start + seen + 1) 0 [] rest
        | range :: later => findDefect start (seen + 1) (range :: later) rest
      else .broken seen start

/-- The text that `bytes` encode, or the first defect in them. -/
def ofUtf8 (bytes : Bytes) : Except Utf8Defect String :=
  match String.fromUTF8? bytes.toByteArray with
  | some s => .ok s
  | none => .error (findDefect 0 0 [] bytes)

theorem utf8_append (s t : String) : utf8 (s ++ t) = utf8 s ++ utf8 t := by
  simp [utf8]

theorem utf8_inj {s t : String} : utf8 s = utf8 t ↔ s = t := by
  refine ⟨fun h => ?_, fun h => h ▸ rfl⟩
  have bytes : s.toByteArray.data = t.toByteArray.data :=
    Array.toList_inj.1 (by simpa [utf8] using h)
  exact String.toByteArray_inj.1 (ByteArray.ext bytes)

theorem toByteArray_utf8 (s : String) : (utf8 s).toByteArray = s.toByteArray := by
  apply ByteArray.ext
  simp [utf8]

theorem ofUtf8_eq_ok_iff {bytes : Bytes} {s : String} : ofUtf8 bytes = .ok s ↔ bytes = utf8 s := by
  unfold ofUtf8 String.fromUTF8?
  constructor
  · intro h
    split at h
    · rename_i t ht
      split at ht
      · cases h
        cases ht
        simp [utf8, String.fromUTF8]
      · cases ht
    · cases h
  · rintro rfl
    have valid : (utf8 s).toByteArray.IsValidUTF8 := by
      rw [toByteArray_utf8]
      exact s.isValidUTF8
    rw [dif_pos valid]
    simp only [String.fromUTF8]
    congr 1
    exact String.toByteArray_inj.1 (toByteArray_utf8 s)

end StakeLedger.Text

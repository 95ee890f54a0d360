import StakeLedger.Ledger.Message

/-!
# Keys as text

The hexadecimal form of a key is read back as the key. Its digits are ASCII characters, none of them
blank, and two of them make up each byte.
-/

namespace StakeLedger

namespace Text

/-- The bytes of an ASCII text are its characters. -/
theorem utf8_ofList {cs : List Char} (ascii : ∀ c ∈ cs, c.toNat < 128) :
    utf8 (String.ofList cs) = cs.map Char.toUInt8 := by
  induction cs with
  | nil => rfl
  | cons c cs ih =>
    rw [List.forall_mem_cons] at ascii
    have single : c.utf8Size = 1 := by
      rw [Char.utf8Size_eq_one_iff, UInt32.le_iff_toNat_le]
      exact Nat.le_of_lt_succ ascii.1
    have first : utf8 (String.ofList [c]) = [c.toUInt8] := by
      simp [utf8, List.utf8Encode_singleton, String.utf8EncodeChar_eq_singleton single]
    rw [← List.singleton_append, String.ofList_append, utf8_append, ih ascii.2, first]
    rfl

/-- A text without blanks has none around it. -/
theorem trimBlank_of_forall {s : List Char} (h : ∀ c ∈ s, isBlank c = false) : trimBlank s = s := by
  have keep {l : List Char} (h : ∀ c ∈ l, isBlank c = false) : l.dropWhile isBlank = l := by
    cases l with
    | nil => rfl
    | cons c l => simp [h c (List.mem_cons_self ..)]
  rw [trimBlank, keep h, keep fun c hc => h c (List.mem_reverse.1 hc), List.reverse_reverse]

/-! ## Digits -/

/-- A digit is an ASCII character, not blank, and stands for its number. -/
theorem hexDigit_spec {n : Nat} (small : n < 16) :
    (hexDigit n).toNat < 128 ∧ isBlank (hexDigit n) = false ∧
      hexValue? (hexDigit n).toUInt8.toNat = some n := by
  revert n
  decide

theorem eq_hexDigit_of_mem {bytes : Bytes} {c : Char} (h : c ∈ bytes.flatMap hexPair) :
    ∃ n < 16, c = hexDigit n := by
  obtain ⟨b, -, hc⟩ := List.mem_flatMap.1 h
  have bound := b.toNat_lt
  simp only [hexPair, List.mem_cons, List.not_mem_nil, or_false] at hc
  rcases hc with rfl | rfl
  · exact ⟨b.toNat / 16, by omega, rfl⟩
  · exact ⟨b.toNat % 16, by omega, rfl⟩

theorem hexValueAt_hexDigit {n : Nat} (small : n < 16) (position : Nat) :
    hexValueAt position (hexDigit n).toUInt8 = .ok n := by
  rw [hexValueAt, (hexDigit_spec small).2.2]

theorem hexPairs_flatMap_hexPair (position : Nat) (bytes : Bytes) :
    hexPairs position ((bytes.flatMap hexPair).map Char.toUInt8) = .ok bytes := by
  induction bytes generalizing position with
  | nil => rfl
  | cons b rest ih =>
    have bound := b.toNat_lt
    have high := hexValueAt_hexDigit (n := b.toNat / 16) (by omega) position
    have low := hexValueAt_hexDigit (n := b.toNat % 16) (by omega) (position + 1)
    have whole : UInt8.ofNat (16 * (b.toNat / 16) + b.toNat % 16) = b := by
      rw [Nat.div_add_mod, UInt8.ofNat_toNat]
    simp only [List.flatMap_cons, hexPair, List.cons_append, List.nil_append, List.map_cons,
      hexPairs, high, low, ih, whole, bind, Except.bind, pure, Except.pure]

/-- Bytes are read back from their digits. -/
theorem ofHex_hex (bytes : Bytes) : ofHex (utf8 (hex bytes)) = .ok bytes := by
  have ascii : ∀ c ∈ bytes.flatMap hexPair, c.toNat < 128 := by
    intro c hc
    obtain ⟨n, small, rfl⟩ := eq_hexDigit_of_mem hc
    exact (hexDigit_spec small).1
  have even : ((bytes.flatMap hexPair).map Char.toUInt8).length % 2 ≠ 1 := by
    rw [List.length_map, length_flatMap_hexPair]
    omega
  rw [hex, utf8_ofList ascii, ofHex, if_neg even, hexPairs_flatMap_hexPair]

theorem trimBlank_hex (bytes : Bytes) : trimBlank (hex bytes).toList = (hex bytes).toList := by
  apply trimBlank_of_forall
  intro c hc
  rw [hex, String.toList_ofList] at hc
  obtain ⟨n, small, rfl⟩ := eq_hexDigit_of_mem hc
  exact (hexDigit_spec small).2.1

end Text

namespace PublicKey

/-- A key is read back from its digits. -/
theorem ofHex_toHex (key : PublicKey) : ofHex key.toHex = .ok key := by
  have bytes : ofBytes key.bytes = .ok key := by
    rw [ofBytes, dif_pos key.length_eq, dif_pos key.onCurve]
  simp only [ofHex, toHex, Text.trimBlank_hex, String.ofList_toList, Text.ofHex_hex, bytes]

theorem utf8ByteSize_toHex_le (key : PublicKey) : key.toHex.utf8ByteSize ≤ 256 := by
  have size := Text.utf8ByteSize_hex_le key.bytes
  have length := key.length_eq
  unfold toHex
  omega

end PublicKey

end StakeLedger

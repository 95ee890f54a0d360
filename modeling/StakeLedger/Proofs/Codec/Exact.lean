import StakeLedger.Ledger.Table
import StakeLedger.Proofs.Codec.RoundTrip

/-!
# Reading only what was written

A value has one form in bytes. What a codec reads from the front of some bytes are the bytes that it
would have written, so a value that has been cut short is never read as another one. This is
`Codec.Exact`. The building blocks have it, and so have the records.
-/

namespace StakeLedger.Codec

variable {α β : Type}

/-- What the codec reads is what it would have written, and it is read back in front of any other
bytes as well. -/
def Exact (codec : Codec α) : Prop :=
  ∀ ⦃bytes : Bytes⦄ ⦃a : α⦄ ⦃rest : Bytes⦄, codec.read bytes = .ok (a, rest) →
    bytes = codec.write a ++ rest ∧ codec.Reads a

theorem except_bind_eq_ok {ε : Type} {x : Except ε α} {next : α → Except ε β} {b : β} :
    (x >>= next) = .ok b ↔ ∃ a, x = .ok a ∧ next a = .ok b := by
  cases x <;> simp [bind, Except.bind]

/-! ## Building blocks -/

theorem exact_number (width : Nat) : (number width).Exact := by
  intro bytes w rest read
  refine ⟨?_, reads_number width w⟩
  simp only [number] at read
  split at read
  · rename_i enough
    cases read
    have size : (bytes.take width).length = width := by
      rw [List.length_take, Nat.min_eq_left enough]
    have front := littleEndian_ofLittleEndian (bytes.take width)
    rw [size] at front
    simp only [number, front, List.take_append_drop]
  · cases read

theorem Exact.refine {base : Codec β} {toBase : α → β} {ofBase : β → Except ReadDefect α}
    (h : base.Exact) (back : ∀ b a, ofBase b = .ok a → toBase a = b) :
    (base.refine toBase ofBase).Exact := by
  intro bytes a rest read
  simp only [Codec.refine, except_bind_eq_ok] at read
  obtain ⟨⟨b, rest⟩, hb, a, ha, last⟩ := read
  cases last
  obtain ⟨written, reads⟩ := h hb
  obtain rfl := back b a ha
  exact ⟨written, reads.refine ha⟩

theorem Exact.through {base : Codec β} {toBase : α → β} {ofBase : β → α} (h : base.Exact)
    (back : ∀ b, toBase (ofBase b) = b) : (base.through toBase ofBase).Exact := by
  refine h.refine fun b a same => ?_
  cases same
  exact back b

theorem Exact.pair {first : Codec α} {second : Codec β} (h : first.Exact) (h' : second.Exact) :
    (first.pair second).Exact := by
  intro bytes ab rest read
  simp only [Codec.pair, except_bind_eq_ok] at read
  obtain ⟨⟨a, mid⟩, ha, ⟨b, rest⟩, hb, last⟩ := read
  cases last
  obtain ⟨rfl, reads⟩ := h ha
  obtain ⟨rfl, reads'⟩ := h' hb
  exact ⟨(List.append_assoc _ _ _).symm, reads.pair reads'⟩

theorem Exact.option {item : Codec α} (h : item.Exact) : (option item).Exact := by
  intro bytes o rest read
  cases bytes with
  | nil => cases read
  | cons tag bytes =>
    simp only [Codec.option] at read
    split at read
    · rename_i absent
      cases read
      exact ⟨by rw [absent]; rfl, Reads.option (by rintro _ ⟨⟩)⟩
    · split at read
      · rename_i present
        obtain ⟨⟨a, rest⟩, ha, last⟩ := except_bind_eq_ok.1 read
        cases last
        obtain ⟨rfl, reads⟩ := h ha
        refine ⟨by rw [present]; rfl, Reads.option fun b same => ?_⟩
        cases same
        exact reads
      · cases read

/-- As many items are read as are asked for, each of them as it was written. -/
theorem Exact.readMany {item : Codec α} (h : item.Exact) {count : Nat} {bytes : Bytes}
    {items : List α} {rest : Bytes} (read : item.readMany count bytes = .ok (items, rest)) :
    items.length = count ∧ bytes = items.flatMap item.write ++ rest ∧
      ∀ a ∈ items, item.Reads a := by
  induction count generalizing bytes items with
  | zero =>
    cases read
    exact ⟨rfl, rfl, nofun⟩
  | succ count ih =>
    simp only [Codec.readMany, except_bind_eq_ok] at read
    obtain ⟨⟨a, mid⟩, ha, ⟨more, rest⟩, hmore, last⟩ := read
    cases last
    obtain ⟨rfl, reads⟩ := h ha
    obtain ⟨rfl, rfl, others⟩ := ih hmore
    exact ⟨rfl, by simp, List.forall_mem_cons.2 ⟨reads, others⟩⟩

theorem Exact.list {layout : Layout} {item : Codec α} (h : item.Exact) :
    (list layout item).Exact := by
  intro bytes items rest read
  obtain ⟨⟨count, mid⟩, hcount, hitems⟩ := except_bind_eq_ok.1 read
  obtain ⟨rfl, -⟩ := exact_number _ hcount
  obtain ⟨length, rfl, reads⟩ := h.readMany hitems
  refine ⟨?_, Reads.list (by rw [length]; exact count.val_lt) reads⟩
  simp [Codec.list, number, length]

theorem exact_text (layout : Layout) : (text layout).Exact := by
  intro bytes s rest read
  obtain ⟨⟨size, mid⟩, hsize, found⟩ := except_bind_eq_ok.1 read
  obtain ⟨rfl, -⟩ := exact_number _ hsize
  dsimp only at found
  split at found
  · rename_i enough
    split at found
    · rename_i s valid
      cases found
      have front : mid.take size.val = Text.utf8 s := Text.ofUtf8_eq_ok_iff.1 valid
      have length : (Text.utf8 s).length = size.val := by
        rw [← front, List.length_take, Nat.min_eq_left enough]
      have fits : layout.Admits s.utf8ByteSize := by
        have same : (Text.utf8 s).length = s.utf8ByteSize := by simp [Text.utf8]
        rw [← same, length]
        exact size.val_lt
      have whole : mid = Text.utf8 s ++ mid.drop size.val := by
        rw [← front, List.take_append_drop]
      refine ⟨?_, reads_text fits⟩
      simp only [Codec.text, number, length, List.append_assoc, ← whole]
    · cases found
  · cases found

/-! ## Numbers and names -/

theorem toWord_ofWord (w : Word64) : (Seconds.ofWord w).toWord = w := by
  have bound := w.val_lt
  apply Word.ext
  simp only [Seconds.ofWord, Seconds.centered, Seconds.toWord]
  split_ifs <;> omega

theorem exact_seconds : seconds.Exact := (exact_number 8).through toWord_ofWord

theorem exact_coin : coin.Exact := (exact_number 8).through fun _ => rfl

theorem exact_address (layout : Layout) : (address layout).Exact := by
  refine (exact_text layout).refine fun s a h => ?_
  unfold Address.ofText? at h
  split_ifs at h
  cases h
  rfl

theorem exact_username (layout : Layout) : (username layout).Exact := by
  refine (exact_text layout).refine fun s name h => ?_
  split at h
  · rename_i found
    cases h
    exact Username.ofText_eq_ok_iff.1 found
  · cases h

/-! ## Records -/

theorem exact_bank (layout : Layout) : (bank layout).Exact :=
  ((exact_address layout).pair (exact_coin.pair (exact_coin.pair
    (exact_username layout).option))).through fun _ => rfl

theorem exact_deposit : deposit.Exact :=
  (exact_seconds.pair (exact_seconds.pair exact_coin)).through fun _ => rfl

theorem exact_queue (layout : Layout) : (queue layout).Exact :=
  (exact_seconds.pair (exact_coin.pair ((exact_number 16).pair exact_deposit.list))).through
    fun _ => rfl

theorem exact_usage : usage.Exact :=
  ((exact_number 8).pair (exact_seconds.pair exact_coin)).through fun _ => rfl

theorem exact_earnings : earnings.Exact :=
  (exact_coin.pair (exact_coin.pair (exact_coin.pair exact_coin))).through fun _ => rfl

theorem exact_registration (layout : Layout) : (registration layout).Exact :=
  ((exact_username layout).pair (exact_seconds.pair ((exact_address layout).pair
    (exact_text layout)))).through fun _ => rfl

theorem exact_snapshot (layout : Layout) : (snapshot layout).Exact :=
  ((exact_registration layout).pair ((exact_bank layout).pair ((exact_queue layout).pair
    (exact_usage.pair exact_earnings)))).through fun _ => rfl

theorem exact_roster (layout : Layout) : (roster layout).Exact := by
  refine (exact_username layout).list.refine fun names r h => ?_
  split at h
  · rename_i found
    cases h
    unfold Roster.ofNames? at found
    split_ifs at found
    cases found
    rfl
  · cases h

end StakeLedger.Codec

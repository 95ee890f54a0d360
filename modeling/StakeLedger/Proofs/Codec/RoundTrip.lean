import Mathlib.Tactic.SplitIfs
import StakeLedger.Codec.Record

/-!
# Reading back what was written

A value is read back from its own bytes, whatever follows them, as long as the lengths inside it fit
into the length words of the layout. Every building block keeps this property, so each record has it
as soon as its texts and lists are short enough. The property is `Codec.Reads`, and `Layout.Admits`
says which lengths fit.
-/

namespace StakeLedger

/-! ## Lengths -/

/-- A length can be written in the layout. -/
abbrev Layout.Admits (layout : Layout) (length : Nat) : Prop :=
  length < byteRange layout.lengthWidth

theorem Layout.admits_stored_iff {length : Nat} :
    Layout.stored.Admits length ↔ length < 0x10000000000000000 := Iff.rfl

abbrev Address.Fits (layout : Layout) (a : Address) : Prop := layout.Admits a.text.utf8ByteSize

theorem Address.fits_stored (a : Address) : a.Fits .stored := a.short

abbrev Bank.Fits (layout : Layout) (b : Bank) : Prop := b.address.Fits layout

abbrev PendingQueue.Fits (layout : Layout) (q : PendingQueue) : Prop :=
  layout.Admits q.deposits.length

structure Registration.Fits (layout : Layout) (r : Registration) : Prop where
  address : r.address.Fits layout
  publicKey : layout.Admits r.publicKey.utf8ByteSize

structure Snapshot.Fits (layout : Layout) (s : Snapshot) : Prop where
  registration : s.registration.Fits layout
  bank : s.bank.Fits layout
  queue : s.queue.Fits layout

namespace Codec

variable {α β : Type}

/-- A value comes back from its own bytes, and what follows them is left. -/
def Reads (codec : Codec α) (a : α) : Prop :=
  ∀ rest, codec.read (codec.write a ++ rest) = .ok (a, rest)

theorem Reads.decode {codec : Codec α} {a : α} (h : codec.Reads a) :
    codec.decode (codec.write a) = .ok a := by
  have whole := h []
  rw [List.append_nil] at whole
  rw [Codec.decode, whole]
  rfl

/-! ## Building blocks -/

theorem reads_number (width : Nat) (w : Word (byteRange width)) : (number width).Reads w := by
  intro rest
  have size : (littleEndian width w.val).length = width := length_littleEndian width w.val
  have front : (littleEndian width w.val ++ rest).take width = littleEndian width w.val := by
    rw [List.take_append_of_le_length (by omega), List.take_of_length_le (by omega)]
  have back : (littleEndian width w.val ++ rest).drop width = rest := by
    rw [List.drop_append_of_le_length (by omega), List.drop_of_length_le (by omega),
      List.nil_append]
  have enough : width ≤ (littleEndian width w.val ++ rest).length := by
    rw [List.length_append, size]
    omega
  have same : ofLittleEndian (littleEndian width w.val) = w.val := by
    rw [ofLittleEndian_littleEndian, Nat.mod_eq_of_lt w.val_lt]
  simp only [number, dif_pos enough, front, back, same]

theorem Reads.refine {base : Codec β} {toBase : α → β} {ofBase : β → Except ReadDefect α} {a : α}
    (h : base.Reads (toBase a)) (back : ofBase (toBase a) = .ok a) :
    (base.refine toBase ofBase).Reads a := by
  intro rest
  simp [Codec.refine, h rest, back, bind, Except.bind, pure, Except.pure]

theorem Reads.through {base : Codec β} {toBase : α → β} {ofBase : β → α} {a : α}
    (h : base.Reads (toBase a)) (back : ofBase (toBase a) = a) :
    (base.through toBase ofBase).Reads a :=
  Reads.refine h (congrArg Except.ok back)

theorem Reads.pair {first : Codec α} {second : Codec β} {a : α} {b : β} (ha : first.Reads a)
    (hb : second.Reads b) : (first.pair second).Reads (a, b) := by
  intro rest
  simp [Codec.pair, List.append_assoc, ha (second.write b ++ rest), hb rest, bind, Except.bind,
    pure, Except.pure]

theorem Reads.option {item : Codec α} {o : Option α} (h : ∀ a ∈ o, item.Reads a) :
    (option item).Reads o := by
  intro rest
  cases o with
  | none => rfl
  | some a => simp [Codec.option, h a rfl rest, bind, Except.bind, pure, Except.pure]

theorem readMany_flatMap {item : Codec α} {items : List α} (h : ∀ a ∈ items, item.Reads a)
    (rest : Bytes) :
    item.readMany items.length (items.flatMap item.write ++ rest) = .ok (items, rest) := by
  induction items with
  | nil => rfl
  | cons a items ih =>
    have first := h a (List.mem_cons_self ..) (items.flatMap item.write ++ rest)
    have others := ih fun b hb => h b (List.mem_cons_of_mem _ hb)
    simp [readMany, List.append_assoc, first, others, bind, Except.bind, pure, Except.pure]

/-- A length that fits into its word is read back. -/
theorem read_length {width n : Nat} (fits : n < byteRange width) (rest : Bytes) :
    (number width).read (littleEndian width n ++ rest) = .ok (⟨n, fits⟩, rest) :=
  reads_number width ⟨n, fits⟩ rest

theorem Reads.list {layout : Layout} {item : Codec α} {items : List α}
    (fits : layout.Admits items.length) (h : ∀ a ∈ items, item.Reads a) :
    (list layout item).Reads items := by
  intro rest
  simp [Codec.list, List.append_assoc, read_length fits, readMany_flatMap h, bind, Except.bind]

theorem reads_text {layout : Layout} {s : String} (fits : layout.Admits s.utf8ByteSize) :
    (text layout).Reads s := by
  intro rest
  have size : (Text.utf8 s).length = s.utf8ByteSize := by simp [Text.utf8]
  have fits' : (Text.utf8 s).length < byteRange layout.lengthWidth := size ▸ fits
  have valid : Text.ofUtf8 (Text.utf8 s) = .ok s := Text.ofUtf8_eq_ok_iff.2 rfl
  simp [Codec.text, List.append_assoc, read_length fits', valid, bind, Except.bind]

/-! ## Numbers and names -/

theorem ofWord_toWord (t : Seconds) : Seconds.ofWord t.toWord = t := by
  have lower := t.lower
  have upper := t.upper
  apply Seconds.ext
  simp only [Seconds.ofWord, Seconds.centered, Seconds.toWord]
  split_ifs <;> omega

theorem reads_seconds (t : Seconds) : seconds.Reads t :=
  (reads_number 8 t.toWord).through (ofWord_toWord t)

theorem reads_coin (c : Coin) : coin.Reads c :=
  (reads_number 8 c.toWord).through rfl

theorem reads_address {layout : Layout} {a : Address} (fits : a.Fits layout) :
    (address layout).Reads a :=
  (reads_text fits).refine (by rw [Address.ofText?_text])

theorem utf8ByteSize_username_le (name : Username) : name.text.utf8ByteSize ≤ 20 := by
  have flawless := name.flawless
  unfold usernameFlaw? at flawless
  split_ifs at flawless
  omega

theorem lengthWidth_ge (layout : Layout) : 20 < byteRange layout.lengthWidth := by
  cases layout <;> decide

theorem reads_username (layout : Layout) (name : Username) : (username layout).Reads name :=
  (reads_text (Nat.lt_of_le_of_lt (utf8ByteSize_username_le name) (lengthWidth_ge layout))).refine
    (by rw [Username.ofText_text])

/-! ## Records -/

theorem reads_bank {layout : Layout} {b : Bank} (fits : b.Fits layout) : (bank layout).Reads b := by
  refine Reads.through (a := b) ?_ rfl
  exact (reads_address fits).pair ((reads_coin b.balance).pair ((reads_coin b.stake).pair
    (Reads.option fun name _ => reads_username layout name)))

theorem reads_deposit (d : Deposit) : deposit.Reads d := by
  refine Reads.through (a := d) ?_ rfl
  exact (reads_seconds d.start).pair ((reads_seconds d.finish).pair (reads_coin d.coin))

theorem reads_queue {layout : Layout} {q : PendingQueue} (fits : q.Fits layout) :
    (queue layout).Reads q := by
  refine Reads.through (a := q) ?_ rfl
  exact (reads_seconds q.lastUpdate).pair ((reads_coin q.total).pair
    ((reads_number 16 q.progress).pair (Reads.list fits fun d _ => reads_deposit d)))

theorem reads_usage (u : Usage) : usage.Reads u := by
  refine Reads.through (a := u) ?_ rfl
  exact (reads_number 8 u.sequence).pair ((reads_seconds u.lastActive).pair (reads_coin u.capacity))

theorem reads_earnings (e : Earnings) : earnings.Reads e := by
  refine Reads.through (a := e) ?_ rfl
  exact (reads_coin e.total).pair ((reads_coin e.direct).pair
    ((reads_coin e.friction).pair (reads_coin e.unclaimed)))

theorem reads_registration {layout : Layout} {r : Registration} (fits : r.Fits layout) :
    (registration layout).Reads r := by
  refine Reads.through (a := r) ?_ rfl
  exact (reads_username layout r.username).pair ((reads_seconds r.createdAt).pair
    ((reads_address fits.address).pair (reads_text fits.publicKey)))

theorem reads_snapshot {layout : Layout} {s : Snapshot} (fits : s.Fits layout) :
    (snapshot layout).Reads s := by
  refine Reads.through (a := s) ?_ rfl
  exact (reads_registration fits.registration).pair ((reads_bank fits.bank).pair
    ((reads_queue fits.queue).pair ((reads_usage s.usage).pair (reads_earnings s.earnings))))

theorem reads_roster (r : Roster) : (roster .stored).Reads r :=
  Reads.refine (Reads.list r.short fun name _ => reads_username .stored name)
    (by rw [Roster.ofNames?_names])

end Codec

end StakeLedger

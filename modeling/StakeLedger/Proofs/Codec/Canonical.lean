import StakeLedger.Proofs.Codec.RoundTrip
import StakeLedger.Proofs.Identity.KeyText

/-!
# The canonical form

Digests are taken of the canonical form of records. It has no marks between its parts, and still its
bytes tell the record and where it ends. So two states of an account have the same digest only if
they are the same, or if the digests of their two forms collide. `Codec.unambiguous_canonical` says
so of all kinds of records.
-/

namespace StakeLedger

/-- Different bytes with the same digest. -/
def Sha256.Collision (x y : Bytes) : Prop := x ≠ y ∧ digest x = digest y

theorem Text.hex_injective {x y : Bytes} (h : hex x = hex y) : x = y := by
  have back := ofHex_hex x
  rw [h, ofHex_hex] at back
  exact (Except.ok.inj back).symm

namespace Codec

variable {α : Type} {codec : Codec α}

/-- The bytes of these values tell the value and where it ends, whatever follows them. -/
def Unambiguous (codec : Codec α) (among : α → Prop) : Prop :=
  ∀ ⦃a b : α⦄, among a → among b → ∀ ⦃r s : Bytes⦄, codec.write a ++ r = codec.write b ++ s →
    a = b ∧ r = s

theorem Reads.append_inj {a b : α} (ha : codec.Reads a) (hb : codec.Reads b) {r s : Bytes}
    (same : codec.write a ++ r = codec.write b ++ s) : a = b ∧ r = s := by
  have back := ha r
  rw [same, hb s] at back
  cases back
  exact ⟨rfl, rfl⟩

theorem unambiguous_of_reads {among : α → Prop} (reads : ∀ a, among a → codec.Reads a) :
    codec.Unambiguous among :=
  fun a b ha hb _ _ same => (reads a ha).append_inj (reads b hb) same

/-- Values with one digest are the same, or their bytes collide. -/
theorem Unambiguous.eq_or_collision {among : α → Prop} (h : codec.Unambiguous among) {a b : α}
    (ha : among a) (hb : among b) (same : codec.fingerprint a = codec.fingerprint b) :
    a = b ∨ Sha256.Collision (codec.write a) (codec.write b) := by
  by_cases bytes : codec.write a = codec.write b
  · exact .inl (h ha hb (r := []) (s := []) (by rw [bytes])).1
  · exact .inr ⟨bytes, Text.hex_injective same⟩

/-- The canonical bytes of a snapshot, and of each record in it, tell the record and where it ends,
as long as its texts and lists are shorter than two to the power of 32. So snapshots with one digest
are the same, unless the digests of their bytes collide. -/
theorem unambiguous_canonical :
    (snapshot .canonical).Unambiguous (Snapshot.Fits .canonical) ∧
      (bank .canonical).Unambiguous (Bank.Fits .canonical) ∧
      (queue .canonical).Unambiguous (PendingQueue.Fits .canonical) ∧
      usage.Unambiguous (fun _ => True) ∧ earnings.Unambiguous (fun _ => True) ∧
      (registration .canonical).Unambiguous (Registration.Fits .canonical) ∧
      ∀ x y : Snapshot, x.Fits .canonical → y.Fits .canonical →
        (snapshot .canonical).fingerprint x = (snapshot .canonical).fingerprint y →
        x = y ∨
          Sha256.Collision ((snapshot .canonical).write x) ((snapshot .canonical).write y) := by
  have snapshots : (snapshot .canonical).Unambiguous (Snapshot.Fits .canonical) :=
    unambiguous_of_reads fun _ fits => reads_snapshot fits
  refine ⟨snapshots, ?_, ?_, ?_, ?_, ?_, fun x y hx hy => snapshots.eq_or_collision hx hy⟩
  · exact unambiguous_of_reads fun _ fits => reads_bank fits
  · exact unambiguous_of_reads fun _ fits => reads_queue fits
  · exact unambiguous_of_reads fun u _ => reads_usage u
  · exact unambiguous_of_reads fun e _ => reads_earnings e
  · exact unambiguous_of_reads fun _ fits => reads_registration fits

/-- The address and the key of a registration are written one after the other. Where they share out
the same characters in two ways, the bytes of the snapshots differ, whatever follows them. -/
theorem unambiguous_canonical_shared :
    let alice : Username := ⟨"alice", by decide⟩
    let bank : Bank := ⟨⟨"ab", by decide⟩, .zero, .zero, some alice⟩
    let rest (r : Registration) : Snapshot := ⟨r, bank, .empty .zero, .fresh .zero, .empty⟩
    let x := rest ⟨alice, .zero, ⟨"ab", by decide⟩, "c"⟩
    let y := rest ⟨alice, .zero, ⟨"a", by decide⟩, "bc"⟩
    x.Fits .canonical ∧ y.Fits .canonical ∧
      ∀ r s, (snapshot .canonical).write x ++ r ≠ (snapshot .canonical).write y ++ s := by
  intro alice bank rest x y
  have home : bank.Fits .canonical := by decide
  have hx : x.Fits .canonical := ⟨⟨by decide, by decide⟩, home, by decide⟩
  have hy : y.Fits .canonical := ⟨⟨by decide, by decide⟩, home, by decide⟩
  refine ⟨hx, hy, fun r s same => ?_⟩
  have key := congrArg (fun s => s.registration.publicKey) (unambiguous_canonical.1 hx hy same).1
  exact absurd key (by decide)

end Codec

end StakeLedger

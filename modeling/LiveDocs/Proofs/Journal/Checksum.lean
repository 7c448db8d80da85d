import LiveDocs.Proofs.Journal.Encoding
import Mathlib.Logic.Function.Basic

/-!
# What the checksum of an entry detects

The checksum takes in one byte after the other: the byte is added to the hash bit by bit, and the
sum is multiplied modulo `2 ^ 32` by an odd number. Both can be undone, so with one of its arguments
fixed a step loses nothing of the other one. A hash that differs once goes on to differ, whatever
bytes follow (`hashFrom_injective`), and a byte that is replaced by another one makes it differ
(`hashBytes_ne_of_replaced`).

The bytes of the sequence number, the kind, the table and the payload stand one behind the other in
what the checksum covers. An entry of which one byte was replaced there and whose checksum was kept
is therefore never taken for a good one (`JournalEntry.verify_altered`).

## Main definitions

* `Bytes.Replaced`: bytes of which one was replaced by another one.
* `JournalEntry.Altered`: an entry with one byte replaced.
-/

namespace LiveDocs

/-! ## Steps of the hash -/

/-- The multiplier of the hash is odd, so it has an inverse modulo `2 ^ 32`. -/
theorem hashFactor_mul_inverse : (0x01000193 : UInt32) * 0x359c449b = 1 := by decide

theorem mul_hashFactor_injective : Function.Injective fun n : UInt32 => n * 0x01000193 := by
  intro m n h
  have hundone : ∀ k : UInt32, k * 0x01000193 * 0x359c449b = k := by
    intro k
    rw [UInt32.mul_assoc, hashFactor_mul_inverse, UInt32.mul_one]
  rw [← hundone m, ← hundone n]
  exact congrArg (· * 0x359c449b) h

/-- A step on the same byte keeps different hashes apart. -/
theorem hashByte_left_injective (byte : UInt8) :
    Function.Injective fun hash => hashByte hash byte := by
  intro hash hash' h
  have hsum : hash ^^^ byte.toUInt32 = hash' ^^^ byte.toUInt32 := mul_hashFactor_injective h
  exact UInt32.xor_left_inj _ |>.mp hsum

/-- A step from the same hash keeps different bytes apart. -/
theorem hashByte_injective (hash : UInt32) : Function.Injective (hashByte hash) := by
  intro byte byte' h
  have hsum : hash ^^^ byte.toUInt32 = hash ^^^ byte'.toUInt32 := mul_hashFactor_injective h
  exact UInt8.toUInt32_inj.mp ((UInt32.xor_right_inj _).mp hsum)

/-- Different hashes stay different, whatever bytes are taken in. -/
theorem hashFrom_injective (bytes : Bytes) :
    Function.Injective fun hash => bytes.foldl hashByte hash := by
  induction bytes with
  | nil => exact fun _ _ h => h
  | cons byte bytes ih =>
    intro hash hash' h
    exact hashByte_left_injective byte (ih h)

namespace Bytes

/-- Bytes of which one, at any place, was replaced by another one. -/
inductive Replaced : Bytes → Bytes → Prop where
  | intro (before : Bytes) {old new : UInt8} (hne : new ≠ old) (after : Bytes) :
      Replaced (before ++ old :: after) (before ++ new :: after)

theorem Replaced.between {bytes bytes' : Bytes} (h : Replaced bytes bytes') (before after : Bytes) :
    Replaced (before ++ bytes ++ after) (before ++ bytes' ++ after) := by
  obtain ⟨front, hne, back⟩ := h
  have hreplaced := Replaced.intro (before ++ front) hne (back ++ after)
  simpa using hreplaced

end Bytes

/-- A byte that is replaced by another one changes the hash. -/
theorem hashBytes_ne_of_replaced {bytes bytes' : Bytes} (h : Bytes.Replaced bytes bytes') :
    hashBytes bytes' ≠ hashBytes bytes := by
  obtain ⟨before, hne, after⟩ := h
  intro hsame
  simp only [hashBytes, List.foldl_append, List.foldl_cons] at hsame
  exact hne (hashByte_injective _ (hashFrom_injective after hsame))

/-! ## Altered entries -/

theorem EntryKind.mark_injective : Function.Injective EntryKind.mark := by
  intro k k'
  cases k <;> cases k' <;> decide

namespace JournalEntry

/-- An entry with one byte replaced by another one: a byte of its number, its kind, a byte of the
name of its table or a byte of its payload. Its checksum was kept. -/
inductive Altered (e : JournalEntry) : JournalEntry → Prop where
  | sequence {n : UInt64}
      (h : Bytes.Replaced (Bytes.ofNat 8 e.sequence.toNat) (Bytes.ofNat 8 n.toNat)) :
      Altered e { e with sequence := n }
  | kind {k : EntryKind} (h : k ≠ e.kind) : Altered e { e with kind := k }
  | table {name : String} (h : Bytes.Replaced (Bytes.ofText e.table) (Bytes.ofText name)) :
      Altered e { e with table := name }
  | payload {bytes : Bytes} (h : Bytes.Replaced e.payload bytes) :
      Altered e { e with payload := bytes }

/-- Altering an entry replaces one of the bytes that its checksum covers. -/
theorem Altered.replaced {e e' : JournalEntry} (h : e.Altered e') :
    e'.checksum = e.checksum ∧
      Bytes.Replaced (checkedBytes e.sequence e.kind e.table e.payload)
        (checkedBytes e'.sequence e'.kind e'.table e'.payload) := by
  refine ⟨by cases h <;> rfl, ?_⟩
  cases h with
  | sequence h =>
    simpa [checkedBytes] using
      h.between [] (e.kind.mark :: Bytes.ofText e.table ++ e.payload)
  | @kind k h =>
    have hmark : k.mark ≠ e.kind.mark := fun hsame => h (EntryKind.mark_injective hsame)
    simpa [checkedBytes] using
      Bytes.Replaced.intro (Bytes.ofNat 8 e.sequence.toNat) hmark
        (Bytes.ofText e.table ++ e.payload)
  | table h =>
    simpa [checkedBytes] using
      h.between (Bytes.ofNat 8 e.sequence.toNat ++ [e.kind.mark]) e.payload
  | payload h =>
    simpa [checkedBytes] using
      h.between (Bytes.ofNat 8 e.sequence.toNat ++ e.kind.mark :: Bytes.ofText e.table) []

theorem verify_iff {e : JournalEntry} :
    e.verify = true ↔
      e.checksum = hashBytes (checkedBytes e.sequence e.kind e.table e.payload) := by
  simp [verify]

/-- **The checksum detects every replaced byte.** -/
theorem verify_altered {e e' : JournalEntry} (hverify : e.verify = true) (h : e.Altered e') :
    e'.verify = false := by
  obtain ⟨hchecksum, hreplaced⟩ := h.replaced
  rw [Bool.eq_false_iff]
  intro hverify'
  rw [verify_iff] at hverify hverify'
  rw [hchecksum, hverify] at hverify'
  exact hashBytes_ne_of_replaced hreplaced hverify'.symm

/-- A row that was written. -/
def sampleEntry : JournalEntry := make 3 .upsert "patches" [0x7b, 0x7d]

/-- One byte of each part of an entry is replaced, and none of the altered entries is good. -/
theorem verify_altered_sampleEntry :
    sampleEntry.verify = true ∧
      { sampleEntry with sequence := 259 }.verify = false ∧
      { sampleEntry with kind := .delete }.verify = false ∧
      { sampleEntry with table := "matches" }.verify = false ∧
      { sampleEntry with payload := [0x7b, 0x82] }.verify = false := by
  have hverify : sampleEntry.verify = true := verify_make 3 .upsert "patches" [0x7b, 0x7d]
  have hsequence : Bytes.Replaced (Bytes.ofNat 8 sampleEntry.sequence.toNat)
      (Bytes.ofNat 8 (259 : UInt64).toNat) :=
    .intro [3] (show (1 : UInt8) ≠ 0 by decide) [0, 0, 0, 0, 0, 0]
  have htable : Bytes.Replaced (Bytes.ofText sampleEntry.table) (Bytes.ofText "matches") := by
    rw [Bytes.ofText_eq, Bytes.ofText_eq]
    exact .intro [] (show (0x6d : UInt8) ≠ 0x70 by decide) [0x61, 0x74, 0x63, 0x68, 0x65, 0x73]
  have hpayload : Bytes.Replaced sampleEntry.payload [0x7b, 0x82] :=
    .intro [0x7b] (by decide) []
  exact ⟨hverify, verify_altered hverify (.sequence hsequence),
    verify_altered hverify (.kind (by decide)), verify_altered hverify (.table htable),
    verify_altered hverify (.payload hpayload)⟩

end JournalEntry

end LiveDocs

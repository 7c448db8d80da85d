import LiveDocs.Journal.Entry

/-!
# The binary form of journal entries

Numbers, texts, compressed blocks and whole entries are read back from their bytes. Each of these
statements allows any bytes to follow, since the parts of a body stand one behind the other.

## Main results

* `Varint.decode?_encode`, `Bytes.text?_ofText`: numbers and texts.
* `Block.readBack_literals`: compressed blocks.
* `JournalEntry.ofBody?_body`: the body of an entry.
-/

namespace LiveDocs

namespace Bytes

@[simp] theorem length_ofNat (width n : Nat) : (ofNat width n).length = width := by
  induction width generalizing n with
  | zero => rfl
  | succ width ih => simp [ofNat, ih]

/-- A number that fits its width is read back. -/
theorem toNat_ofNat (width : Nat) {n : Nat} (h : n < Nat.pow 256 width) :
    toNat (ofNat width n) = n := by
  induction width generalizing n with
  | zero =>
    have hzero : n = 0 := Nat.lt_one_iff.mp h
    simp [ofNat, toNat, hzero]
  | succ width ih =>
    have hdiv : n / 256 < Nat.pow 256 width :=
      Nat.div_lt_of_lt_mul (by rwa [Nat.mul_comm])
    simp only [ofNat, toNat, ih hdiv, UInt8.toNat_ofNat']
    omega

/-- The number of some bytes fits their width. -/
theorem toNat_lt (bytes : Bytes) : toNat bytes < Nat.pow 256 bytes.length := by
  induction bytes with
  | nil => exact Nat.zero_lt_one
  | cons b bytes ih =>
    have hb : b.toNat < 256 := b.toNat_lt
    have hpow : Nat.pow 256 (bytes.length + 1) = Nat.pow 256 bytes.length * 256 := rfl
    simp only [toNat, List.length_cons, hpow]
    omega

/-- Four bytes are determined by their number. -/
theorem ofNat_toNat (bytes : Bytes) : ofNat bytes.length (toNat bytes) = bytes := by
  induction bytes with
  | nil => rfl
  | cons b bytes ih =>
    have hb : b.toNat < 256 := b.toNat_lt
    have hhead : UInt8.ofNat (b.toNat + 256 * toNat bytes) = b := by
      apply UInt8.toNat_inj.mp
      rw [UInt8.toNat_ofNat']
      omega
    have htail : (b.toNat + 256 * toNat bytes) / 256 = toNat bytes := by omega
    simp only [List.length_cons, toNat, ofNat, hhead, htail, ih]

theorem split?_append {count : Nat} {bytes : Bytes} (h : bytes.length = count) (rest : Bytes) :
    split? count (bytes ++ rest) = some (bytes, rest) := by
  subst h
  simp [split?]

theorem split?_eq_none {count : Nat} {bytes : Bytes} (h : bytes.length < count) :
    split? count bytes = none := by
  simp [split?, Nat.not_le.mpr h]

/-- The bytes of an array, one by one. -/
theorem toList_loop (bytes : ByteArray) (i : Nat) (acc : Bytes) :
    ByteArray.toList.loop bytes i acc = acc.reverse ++ bytes.data.toList.drop i := by
  rw [ByteArray.toList.loop]
  split
  · next h =>
    have hlen : i < bytes.data.toList.length := h
    have hget : bytes.get! i = bytes.data.toList[i] := by
      have hsize : i < bytes.data.size := h
      simp [ByteArray.get!, getElem!_pos bytes.data i hsize]
    rw [toList_loop bytes (i + 1) (bytes.get! i :: acc), List.drop_eq_getElem_cons hlen, hget]
    simp
  · next h =>
    have hlen : bytes.data.toList.length ≤ i := Nat.not_lt.mp h
    simp [List.drop_eq_nil_of_le hlen]
termination_by bytes.size - i

theorem ofText_eq (s : String) : ofText s = s.toByteArray.data.toList := by
  simp [ofText, ByteArray.toList, toList_loop]

/-- A text is read back from its bytes. -/
@[simp] theorem text?_ofText (s : String) : text? (ofText s) = some s := by
  have hbytes : (⟨(ofText s).toArray⟩ : ByteArray) = s.toByteArray := by simp [ofText_eq]
  have hvalid : s.toByteArray.IsValidUTF8 := s.isValidUTF8
  simp only [text?, hbytes, String.fromUTF8?, hvalid, dite_true]
  rfl

end Bytes

namespace Varint

/-- A number is read back if its widest form is allowed: four bytes are enough below `2 ^ 32`. -/
theorem decode?_encode {width n : Nat} (rest : Bytes) (hwidth : 4 ≤ width)
    (hn : n < 0x100000000 ∨ (8 ≤ width ∧ n < 0x10000000000000000)) :
    decode? width (encode n ++ rest) = some (n, rest) := by
  unfold encode
  split
  · next h =>
    have hbyte : (UInt8.ofNat n).toNat = n := by rw [UInt8.toNat_ofNat']; omega
    have hlt : UInt8.ofNat n < 251 := by rw [UInt8.lt_iff_toNat_lt, hbyte]; exact h
    simp [decode?, hlt, hbyte]
  · split
    · next h =>
      have hread := Bytes.toNat_ofNat 2 (n := n) (by simpa using h)
      have htwo : 2 ≤ width := by omega
      simp [decode?, htwo, Bytes.split?_append (Bytes.length_ofNat 2 n), hread]
    · split
      · next h =>
        have hread := Bytes.toNat_ofNat 4 (n := n) (by simpa using h)
        simp [decode?, hwidth, Bytes.split?_append (Bytes.length_ofNat 4 n), hread]
      · next h =>
        obtain ⟨height, hlt⟩ := hn.resolve_left h
        have hread := Bytes.toNat_ofNat 8 (n := n) (by simpa using hlt)
        simp [decode?, height, Bytes.split?_append (Bytes.length_ofNat 8 n), hread]

end Varint

namespace Block

/-- The bytes that continue a length are read back. -/
theorem readLength?_lengthBytes (start n : Nat) (rest : Bytes) :
    readLength? start (lengthBytes n ++ rest) = some (start + n, rest) := by
  have hlast : ∀ start, readLength? start ([UInt8.ofNat (n % 255)] ++ rest) =
      some (start + n % 255, rest) := by
    intro start
    have hbyte : (UInt8.ofNat (n % 255)).toNat = n % 255 := by rw [UInt8.toNat_ofNat']; omega
    have hne : UInt8.ofNat (n % 255) ≠ 255 := by
      intro h
      have := congrArg UInt8.toNat h
      rw [hbyte] at this
      have hlt : n % 255 < 255 := Nat.mod_lt n (by decide)
      exact absurd this (Nat.ne_of_lt hlt)
    simp [readLength?, hne, hbyte]
  have hmany : ∀ count start, readLength? start
      (List.replicate count 255 ++ ([UInt8.ofNat (n % 255)] ++ rest)) =
      some (start + 255 * count + n % 255, rest) := by
    intro count
    induction count with
    | zero => intro start; simpa using hlast start
    | succ count ih =>
      intro start
      rw [List.replicate_succ, List.cons_append, readLength?, if_pos rfl, ih]
      congr 2
      omega
  have hdivmod : 255 * (n / 255) + n % 255 = n := Nat.div_add_mod n 255
  rw [lengthBytes, List.append_assoc, hmany, Nat.add_assoc, hdivmod]

/-- The first sequence of a block of literals holds all of them. -/
theorem readSequences?_literals {n fuel : Nat} {token : UInt8} {input content : Bytes}
    (hlength : length? (token.toNat / 16) input = some (n, content)) (hn : content.length = n) :
    readSequences? n (fuel + 1) (token :: input) [] = some content := by
  have hsplit : Bytes.split? n content = some (content, []) := by
    simpa using Bytes.split?_append hn []
  simp [readSequences?, hlength, hsplit, hn]

/-- Every content whose size fits its four bytes is read back from a block of literals. -/
theorem readBack_literals {content : Bytes} (h : content.length < 0x100000000) :
    ReadBack literals content := by
  have hsize := Bytes.toNat_ofNat 4 (n := content.length) (by simpa using h)
  simp only [ReadBack, decompress?, literals, List.append_assoc,
    Bytes.split?_append (Bytes.length_ofNat 4 content.length), Option.bind_eq_bind,
    Option.bind_some, hsize]
  split
  · next hshort =>
    have htoken : (UInt8.ofNat (16 * content.length)).toNat / 16 = content.length := by
      rw [UInt8.toNat_ofNat']; omega
    have hne : content.length ≠ 15 := by omega
    exact readSequences?_literals (by rw [htoken, length?, if_neg hne]; rfl) rfl
  · next hlong =>
    have hread := readLength?_lengthBytes 15 (content.length - 15) content
    have hsum : 15 + (content.length - 15) = content.length := by omega
    rw [hsum] at hread
    exact readSequences?_literals (by simpa [length?] using hread) rfl

end Block

namespace EntryKind

@[simp] theorem ofIndex?_index (k : EntryKind) : ofIndex? k.index = some k := by
  cases k <;> rfl

end EntryKind

namespace JournalEntry

/-- An entry is read back from its body. -/
theorem ofBody?_body {e : JournalEntry} (h : e.body.length < 0x100000000) :
    ofBody? e.body = some e := by
  have hlength : (Bytes.ofText e.table).length < 0x100000000 ∧ e.payload.length < 0x100000000 := by
    simp only [body, List.length_append] at h
    omega
  have hkind : e.kind.index < 0x100000000 := by cases e.kind <;> decide
  have hsum : e.checksum.toNat < 0x100000000 := e.checksum.toNat_lt
  have hsequence : e.sequence.toNat < 0x10000000000000000 := e.sequence.toNat_lt
  simp only [body, ofBody?, List.append_assoc, Option.bind_eq_bind]
  rw [Varint.decode?_encode _ (by decide) (.inr ⟨by decide, hsequence⟩), Option.bind_some,
    Varint.decode?_encode _ (by decide) (.inl hkind), Option.bind_some, EntryKind.ofIndex?_index,
    Option.bind_some, Varint.decode?_encode _ (by decide) (.inl hlength.1), Option.bind_some,
    Bytes.split?_append rfl, Option.bind_some, Bytes.text?_ofText, Option.bind_some,
    Varint.decode?_encode _ (by decide) (.inl hlength.2), Option.bind_some,
    Bytes.split?_append rfl, Option.bind_some]
  have hlast := Varint.decode?_encode [] (Nat.le_refl 4) (.inl hsum)
  rw [List.append_nil] at hlast
  rw [hlast, Option.bind_some, UInt64.ofNat_toNat, UInt32.ofNat_toNat]

theorem verify_make (sequence : UInt64) (kind : EntryKind) (table : String) (payload : Bytes) :
    (make sequence kind table payload).verify = true := by
  simp [make, verify]

end JournalEntry

end LiveDocs

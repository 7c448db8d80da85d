import LiveDocs.Proofs.Journal.Frames

/-!
# Scanning a damaged journal

A journal file may hold frames that were damaged, and its last frame may be cut short at any byte,
the length in front of it included. A damaged body is skipped, since the length of its frame still
says where the next one begins; what is left of the last frame is the end of the scan. So scanning
gives the entries of all sound frames, in the order of their numbers, and counts each damaged body
and the torn rest once (`Replay.ofBytes_frames`).

## Main definitions

* `Replay.Frame`: a whole frame of a file, sound or damaged.
* `Replay.StablySorted`: entries in the order of their numbers, equal numbers in the order of the
  file.
-/

namespace LiveDocs

namespace Replay

/-- A whole frame of a file: the frame of an entry that verifies, or a body from which no such entry
can be read. -/
inductive Frame where
  | sound (e : JournalEntry) (hverify : e.verify = true) (hlength : e.body.length < 0x100000000)
  | damaged (content : Bytes)
      (hbad : ∀ e, JournalEntry.ofBody? content = some e → e.verify = false)
      (hlength : content.length < 0x100000000)

namespace Frame

def body : Frame → Bytes
  | sound e _ _ => e.body
  | damaged content _ _ => content

def bytes : Frame → Bytes
  | sound e _ _ => e.frame
  | damaged content _ _ => frameOf content

def entry? : Frame → Option JournalEntry
  | sound e _ _ => some e
  | damaged _ _ _ => none

def isDamaged (f : Frame) : Bool := f.entry?.isNone

theorem bytes_eq (f : Frame) : f.bytes = frameOf f.body := by
  cases f <;> rfl

theorem length_body_lt (f : Frame) : f.body.length < 0x100000000 := by
  cases f with
  | sound _ _ hlength => exact hlength
  | damaged _ _ hlength => exact hlength

/-- A frame has the entry that is read from its body. -/
theorem good?_body_eq (f : Frame) : good? f.body = f.entry? := by
  cases f with
  | sound e hverify hlength => exact good?_body hlength hverify
  | damaged content hbad _ =>
    rw [body, entry?, good?, Option.filter_eq_none_iff]
    intro e he
    simp [hbad e he]

/-- Every frame is sound or damaged. -/
theorem length_eq_add_countP (frames : List Frame) :
    frames.length = (frames.filterMap entry?).length + frames.countP isDamaged := by
  induction frames with
  | nil => rfl
  | cons f frames ih =>
    cases hentry : f.entry? with
    | some e =>
      have hwhole : isDamaged f = false := by rw [isDamaged, hentry, Option.isNone_some]
      rw [List.filterMap_cons_some hentry, List.countP_cons_of_neg (by simp [hwhole])]
      simp only [List.length_cons]
      omega
    | none =>
      have hdamaged : isDamaged f = true := by rw [isDamaged, hentry, Option.isNone_none]
      rw [List.filterMap_cons_none hentry, List.countP_cons_of_pos hdamaged]
      simp only [List.length_cons]
      omega

end Frame

/-- The entries in the order of their numbers, those with one number in the order they had. -/
structure StablySorted (entries sorted : List JournalEntry) : Prop where
  perm : sorted.Perm entries
  ordered : sorted.Pairwise fun a b => a.sequence ≤ b.sequence
  stable : ∀ n : UInt64,
    sorted.filter (fun e => e.sequence = n) = entries.filter fun e => e.sequence = n

theorem stablySorted_sortBySequence (entries : List JournalEntry) :
    StablySorted entries (sortBySequence entries) where
  perm := sortBySequence_perm entries
  ordered := sortBySequence_sorted entries
  stable n := by
    rw [sortBySequence_eq]
    exact filter_insertEach JournalEntry.sequence entries n

/-- The bodies of whole frames with a torn rest behind them. The rest is noticed unless it is
empty. -/
theorem bodies_frames {contents : List Bytes} (h : ∀ c ∈ contents, c.length < 0x100000000)
    {rest : Bytes} (hrest : Torn rest) {fuel : Nat}
    (hfuel : (contents.flatMap frameOf ++ rest).length < fuel) :
    bodies fuel (contents.flatMap frameOf ++ rest) = (contents, !rest.isEmpty) := by
  induction contents generalizing fuel with
  | nil =>
    obtain ⟨fuel, rfl⟩ := Nat.exists_eq_add_one_of_ne_zero (Nat.ne_zero_of_lt hfuel)
    exact bodies_torn fuel hrest
  | cons c contents ih =>
    obtain ⟨hc, hcontents⟩ := List.forall_mem_cons.mp h
    obtain ⟨fuel, rfl⟩ := Nat.exists_eq_add_one_of_ne_zero (Nat.ne_zero_of_lt hfuel)
    rw [List.flatMap_cons, List.append_assoc, List.length_append, length_frameOf] at hfuel
    have hscan : bodies fuel (contents.flatMap frameOf ++ rest) = (contents, !rest.isEmpty) :=
      ih hcontents (by rw [List.length_append] at hfuel ⊢; omega)
    rw [List.flatMap_cons, List.append_assoc, bodies_frameOf fuel hc, hscan]

/-- A frame that is cut short is torn, wherever it is cut. -/
theorem torn_of_cut {content rest : Bytes} (hlength : content.length < 0x100000000)
    (hcut : rest <+: frameOf content) (hstrict : rest ≠ frameOf content) : Torn rest := by
  have htake : rest = (frameOf content).take rest.length := List.prefix_iff_eq_take.mp hcut
  have hshort : rest.length < (frameOf content).length := by
    rcases Nat.lt_or_eq_of_le hcut.length_le with hlt | heq
    · exact hlt
    · exact absurd (hcut.eq_of_length heq) hstrict
  rw [htake]
  exact torn_take_frameOf hlength hshort

/-- **Scanning recovers exactly the sound entries.** A file is a row of frames, sound ones and
damaged ones in any order, with a strict prefix of one more frame behind them. The scan has the
entries of the sound frames, and counts the damaged frames and the rest. -/
theorem ofBytes_frames (frames : List Frame) {content rest : Bytes}
    (hlength : content.length < 0x100000000) (hcut : rest <+: frameOf content)
    (hstrict : rest ≠ frameOf content) :
    StablySorted (frames.filterMap Frame.entry?)
        (ofBytes (frames.flatMap Frame.bytes ++ rest)).entries ∧
      (ofBytes (frames.flatMap Frame.bytes ++ rest)).corrupted =
        frames.countP Frame.isDamaged + if rest = [] then 0 else 1 := by
  have hbytes : frames.flatMap Frame.bytes = (frames.map Frame.body).flatMap frameOf := by
    rw [List.flatMap_map, funext Frame.bytes_eq]
  have hcontents : ∀ c ∈ frames.map Frame.body, c.length < 0x100000000 := by
    intro c hc
    obtain ⟨f, -, rfl⟩ := List.mem_map.mp hc
    exact f.length_body_lt
  have hscan := bodies_frames hcontents (torn_of_cut hlength hcut hstrict)
    (Nat.lt_succ_self _)
  have hgood : (frames.map Frame.body).filterMap good? = frames.filterMap Frame.entry? := by
    rw [List.filterMap_map]
    exact List.filterMap_congr fun f _ => f.good?_body_eq
  have hdamaged : frames.length - (frames.filterMap Frame.entry?).length =
      frames.countP Frame.isDamaged := by
    have hcount := Frame.length_eq_add_countP frames
    omega
  have htorn : (if (!rest.isEmpty) = true then 1 else 0) = if rest = [] then 0 else 1 := by
    cases rest <;> rfl
  have hreplay : ofBytes (frames.flatMap Frame.bytes ++ rest) =
      ⟨sortBySequence (frames.filterMap Frame.entry?),
        frames.countP Frame.isDamaged + if rest = [] then 0 else 1⟩ := by
    rw [hbytes, ofBytes, hscan]
    simp only [hgood, List.length_map, hdamaged, htorn]
  rw [hreplay]
  exact ⟨stablySorted_sortBySequence _, rfl⟩

/-- A row that was written. -/
def writtenEntry : JournalEntry := .make 2 .upsert "t" [0x7b, 0x7d]

/-- The key of a row that was deleted earlier. -/
def deletedEntry : JournalEntry := .make 0 .delete "t" [0x7b, 0x7d]

/-- An entry whose checksum has gone bad stands between two sound ones. -/
def mixedFrames : List Frame :=
  [.sound writtenEntry (JournalEntry.verify_make _ _ _ _) (by decide +kernel),
    .damaged { writtenEntry with checksum := 0 }.body
      (by
        intro e he
        rw [JournalEntry.ofBody?_body (by decide +kernel)] at he
        cases he
        decide +kernel)
      (by decide +kernel),
    .sound deletedEntry (JournalEntry.verify_make _ _ _ _) (by decide +kernel)]

/-- The file ends within the length of a fourth frame. -/
theorem ofBytes_mixedFrames :
    ([9, 0] : Bytes) <+: frameOf [1, 2, 3, 4, 5, 6, 7, 8, 9] ∧
      StablySorted [writtenEntry, deletedEntry]
        (ofBytes (mixedFrames.flatMap Frame.bytes ++ [9, 0])).entries ∧
      (ofBytes (mixedFrames.flatMap Frame.bytes ++ [9, 0])).corrupted = 2 := by
  have hcut : ([9, 0] : Bytes) <+: frameOf [1, 2, 3, 4, 5, 6, 7, 8, 9] := by decide
  exact ⟨hcut, ofBytes_frames mixedFrames (by decide) hcut (by decide)⟩

end Replay

end LiveDocs

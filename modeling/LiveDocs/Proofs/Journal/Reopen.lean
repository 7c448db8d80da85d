import LiveDocs.Proofs.Journal.Frames
import LiveDocs.Journal.Basic

/-!
# Reopening a journal

What a journal replays after it was opened on a file, entries were appended, and it is opened again.
Appending writes behind the end of the file, while scanning goes on from where the whole frames of
the old file ended. So the appended entries come back in general only if the old file ended with a
whole frame: a torn frame at its end takes the bytes of the entries that follow it for its own. The
exact condition is that what was left of the old file, together with the new frames, is scanned as
the new entries (`Journal.reopen_replays_appended_iff`).

## Main definitions

* `JournalWrite`, `Journal.writeAll`: writes, and a journal after some of them.
* `JournalWrite.entries`: the entries that writes append.
-/

namespace LiveDocs

/-- The number after a number that is not the last one. -/
theorem toNat_add_one {n : UInt64} (h : n.toNat < 0xffffffffffffffff) :
    (n + 1).toNat = n.toNat + 1 := by
  rw [UInt64.toNat_add, UInt64.toNat_one]
  omega

/-- What is appended to a journal: a row that was written, or the key of a row that was deleted. -/
inductive JournalWrite where
  | upsert (table : String) (row : Record)
  | delete (table : String) (key : Record)

namespace JournalWrite

def entry (sequence : UInt64) : JournalWrite → JournalEntry
  | upsert table row => .upsert sequence table row
  | delete table key => .delete sequence table key

/-- The entries of some writes, numbered from `sequence` on. -/
def entries (sequence : UInt64) : List JournalWrite → List JournalEntry
  | [] => []
  | w :: rest => w.entry sequence :: entries (sequence + 1) rest

@[simp] theorem sequence_entry (sequence : UInt64) (w : JournalWrite) :
    (w.entry sequence).sequence = sequence := by
  cases w <;> rfl

theorem verify_entry (sequence : UInt64) (w : JournalWrite) : (w.entry sequence).verify = true := by
  cases w <;> exact JournalEntry.verify_make _ _ _ _

theorem verify_of_mem_entries {sequence : UInt64} {writes : List JournalWrite} {e : JournalEntry}
    (h : e ∈ entries sequence writes) : e.verify = true := by
  induction writes generalizing sequence with
  | nil => cases h
  | cons w rest ih =>
    rcases List.mem_cons.mp h with rfl | h
    · exact verify_entry sequence w
    · exact ih h

/-- The numbers of entries do not fall below the first, as long as there are numbers left. -/
theorem le_sequence_of_mem_entries {sequence : UInt64} {writes : List JournalWrite}
    (hroom : sequence.toNat + writes.length ≤ 0x10000000000000000) {e : JournalEntry}
    (h : e ∈ entries sequence writes) : sequence ≤ e.sequence := by
  induction writes generalizing sequence with
  | nil => cases h
  | cons w rest ih =>
    simp only [List.length_cons] at hroom
    rcases List.mem_cons.mp h with rfl | h
    · simp
    · cases rest with
      | nil => cases h
      | cons w' rest =>
        simp only [List.length_cons] at hroom
        have hnext := toNat_add_one (n := sequence) (by omega)
        have hle := ih (by simp only [List.length_cons, hnext]; omega) h
        rw [UInt64.le_iff_toNat_le] at hle ⊢
        omega

theorem increasing_entries {sequence : UInt64} {writes : List JournalWrite}
    (hroom : sequence.toNat + writes.length ≤ 0x10000000000000000) :
    Replay.Increasing (entries sequence writes) := by
  induction writes generalizing sequence with
  | nil => exact List.Pairwise.nil
  | cons w rest ih =>
    simp only [List.length_cons] at hroom
    cases rest with
    | nil => exact List.pairwise_singleton _ _
    | cons w' rest =>
      simp only [List.length_cons] at hroom
      have hnext := toNat_add_one (n := sequence) (by omega)
      have hroom' : (sequence + 1).toNat + (w' :: rest).length ≤ 0x10000000000000000 := by
        simp only [List.length_cons, hnext]; omega
      refine List.pairwise_cons.mpr ⟨fun e he => ?_, ih hroom'⟩
      have hle := le_sequence_of_mem_entries hroom' he
      rw [UInt64.le_iff_toNat_le] at hle
      rw [UInt64.lt_iff_toNat_lt, sequence_entry]
      omega

end JournalWrite

namespace Journal

def write (j : Journal) : JournalWrite → Journal
  | .upsert table row => j.appendUpsert table row
  | .delete table key => j.appendDelete table key

def writeAll (j : Journal) (writes : List JournalWrite) : Journal := writes.foldl write j

theorem write_eq (j : Journal) (w : JournalWrite) :
    j.write w = j.append (w.entry j.nextSequence) := by
  cases w <;> rfl

/-- Writes add their frames to the end of the file. -/
theorem journal_writeAll {j : Journal} {bytes : Bytes} (h : j.volume.journal = .file bytes)
    (writes : List JournalWrite) :
    (j.writeAll writes).volume.journal =
      .file (bytes ++ (JournalWrite.entries j.nextSequence writes).flatMap JournalEntry.frame) := by
  induction writes generalizing j bytes with
  | nil => simpa [writeAll, JournalWrite.entries] using h
  | cons w rest ih =>
    have hwrite : (j.write w).volume.journal = .file (bytes ++ (w.entry j.nextSequence).frame) := by
      simp [write_eq, append, Volume.append, h]
    have hnext : (j.write w).nextSequence = j.nextSequence + 1 := by simp [write_eq, append]
    have hrest := ih hwrite
    simpa [writeAll, JournalWrite.entries, hnext] using hrest

variable {compress : Bytes → Bytes}

/-- What opening gives: the file as it is, its replay and the number after the last one. -/
theorem openOn_eq_ok {compactAfter : UInt64} {volume : Volume} {j : Journal} {replay : Replay}
    (h : openOn compress compactAfter volume = .ok (j, replay)) :
    j.volume.journal = .file volume.journal.content ∧
      replay = Replay.ofBytes volume.journal.content ∧
      j.nextSequence = (replay.entries.getLast?.map (·.sequence + 1)).getD 0 := by
  unfold openOn at h
  cases hjournal : volume.journal with
  | absent =>
    simp only [hjournal] at h
    cases h
    refine ⟨rfl, rfl, ?_⟩
    cases (Replay.ofBytes []).entries.getLast? <;> rfl
  | file bytes =>
    simp only [hjournal] at h
    cases h
    refine ⟨rfl, rfl, ?_⟩
    simp only
    cases (Replay.ofBytes bytes).entries.getLast? <;> rfl
  | directory => simp [hjournal] at h

/-- A file can be opened. -/
theorem openOn_file (compress : Bytes → Bytes) (compactAfter : UInt64) {volume : Volume}
    {bytes : Bytes} (h : volume.journal = .file bytes) :
    ∃ j, openOn compress compactAfter volume = .ok (j, Replay.ofBytes bytes) := by
  simp [openOn, h]

/-- An opened journal goes on with the number after the last one it replayed. -/
theorem toNat_nextSequence {compactAfter : UInt64} {volume : Volume} {j : Journal}
    {replay : Replay} (hopen : openOn compress compactAfter volume = .ok (j, replay))
    {last : JournalEntry} (hlast : replay.entries.getLast? = some last)
    (hbound : last.sequence.toNat < 0xffffffffffffffff) :
    j.nextSequence.toNat = last.sequence.toNat + 1 := by
  rw [(openOn_eq_ok hopen).2.2, hlast, Option.map_some, Option.getD_some]
  exact toNat_add_one hbound

/-- The entries that follow an opened journal have greater numbers than those it replayed. -/
theorem sequence_lt_of_mem_entries {compactAfter : UInt64} {volume : Volume} {j : Journal}
    {replay : Replay} {writes : List JournalWrite}
    (hopen : openOn compress compactAfter volume = .ok (j, replay))
    (hsequence : ∀ e ∈ replay.entries, e.sequence.toNat < 0xffffffffffffffff - writes.length) :
    ∀ f ∈ replay.entries, ∀ e ∈ JournalWrite.entries j.nextSequence writes,
      f.sequence < e.sequence := by
  obtain ⟨-, hreplay, -⟩ := openOn_eq_ok hopen
  intro f hf e he
  cases hlast : replay.entries.getLast? with
  | none => simp [List.getLast?_eq_none_iff.mp hlast] at hf
  | some last =>
    have hmem : last ∈ replay.entries := List.mem_of_getLast? hlast
    have hle : f.sequence ≤ last.sequence := by
      have hsorted := Replay.sortBySequence_sorted (Replay.goodEntries volume.journal.content)
      rw [← Replay.entries_ofBytes, ← hreplay] at hsorted
      obtain ⟨front, hfront⟩ := List.getLast?_eq_some_iff.mp hlast
      rw [hfront] at hf hsorted
      rcases List.mem_append.mp hf with hf | hf
      · exact (List.pairwise_append.mp hsorted).2.2 f hf last (by simp)
      · rw [List.mem_singleton.mp hf]
        exact UInt64.le_refl _
    have hbound := hsequence last hmem
    have hnumber := toNat_nextSequence hopen hlast (by omega)
    have hroom : j.nextSequence.toNat + writes.length ≤ 0x10000000000000000 := by omega
    have hge := JournalWrite.le_sequence_of_mem_entries hroom he
    rw [UInt64.le_iff_toNat_le] at hle hge
    rw [UInt64.lt_iff_toNat_lt]
    omega

/-- A journal that was opened on any file, written to and opened again replays what it replayed
before and then the entries that were written, exactly if what was left behind the last whole frame
of the file and the new frames are scanned as the new entries. That is so if nothing was left and
the length of every new frame fits four bytes. -/
theorem reopen_replays_appended_iff {compactAfter : UInt64} {volume : Volume} {j : Journal}
    {replay : Replay} (again : UInt64) (writes : List JournalWrite)
    (hopen : openOn compress compactAfter volume = .ok (j, replay))
    (hroom : writes.length < 0xffffffffffffffff)
    (hsequence : ∀ e ∈ replay.entries, e.sequence.toNat < 0xffffffffffffffff - writes.length) :
    ∃ j' replay', openOn compress again (j.writeAll writes).volume = .ok (j', replay') ∧
      (replay'.entries = replay.entries ++ JournalWrite.entries j.nextSequence writes ↔
        (Replay.ofBytes (Replay.leftover volume.journal.content ++
          (JournalWrite.entries j.nextSequence writes).flatMap JournalEntry.frame)).entries =
            JournalWrite.entries j.nextSequence writes) ∧
      (Replay.leftover volume.journal.content = [] →
        (∀ e ∈ JournalWrite.entries j.nextSequence writes, e.frame.length < 0x100000000) →
        replay'.entries = replay.entries ++ JournalWrite.entries j.nextSequence writes) := by
  obtain ⟨hfile, hreplay, hnext⟩ := openOn_eq_ok hopen
  obtain ⟨j', hreopen⟩ := openOn_file compress again (journal_writeAll hfile writes)
  have hlater := sequence_lt_of_mem_entries hopen hsequence
  have hiff := Replay.entries_append_eq_iff volume.journal.content
    ((JournalWrite.entries j.nextSequence writes).flatMap JournalEntry.frame)
    (hreplay ▸ hlater)
  rw [← hreplay] at hiff
  refine ⟨j', _, hreopen, hiff, fun hleft hframes => hiff.mpr ?_⟩
  have hnumber : j.nextSequence.toNat + writes.length ≤ 0x10000000000000000 := by
    cases hlast : replay.entries.getLast? with
    | none =>
      have hzero : j.nextSequence.toNat = 0 := by simp [hnext, hlast]
      omega
    | some last =>
      have hbound := hsequence last (List.mem_of_getLast? hlast)
      have hnumber := toNat_nextSequence hopen hlast (by omega)
      omega
  have hsound : ∀ e ∈ JournalWrite.entries j.nextSequence writes,
      e.body.length < 0x100000000 ∧ e.verify = true := fun e he => by
    have hframe := hframes e he
    rw [Replay.frame_eq, Replay.length_frameOf] at hframe
    exact ⟨by omega, JournalWrite.verify_of_mem_entries he⟩
  have hgood := Replay.goodEntries_frames hsound []
  rw [Replay.goodEntries_torn Replay.torn_nil, List.append_nil, List.append_nil] at hgood
  rw [hleft, List.nil_append, Replay.entries_ofBytes, hgood]
  exact Replay.sortBySequence_of_increasing (JournalWrite.increasing_entries hnumber)

/-- A file with the entry of one row and, cut short by two bytes, that of a second one. -/
def tornFile : Bytes :=
  (JournalEntry.upsert 0 "t" (SortedMap.empty.insert "id" (.ofNat 1))).frame ++
    ((JournalEntry.upsert 1 "t" (SortedMap.empty.insert "id" (.ofNat 2))).frame.take 20)

/-- The entry that is written behind a torn one is lost. -/
theorem reopen_after_tornFile :
    ∃ j replay j' replay', openOn Block.literals 8 ⟨.file tornFile, .absent⟩ = .ok (j, replay) ∧
      openOn Block.literals 8
          (j.writeAll [.upsert "t" (SortedMap.empty.insert "id" (.ofNat 3))]).volume =
        .ok (j', replay') ∧
      replay'.entries ≠ replay.entries ++ JournalWrite.entries j.nextSequence
        [.upsert "t" (SortedMap.empty.insert "id" (.ofNat 3))] := by
  have hfile : (⟨.file tornFile, .absent⟩ : Volume).journal = .file tornFile := rfl
  obtain ⟨j, hopen⟩ := openOn_file Block.literals 8 hfile
  have hentries : (Replay.ofBytes tornFile).entries =
      [JournalEntry.upsert 0 "t" (SortedMap.empty.insert "id" (.ofNat 1))] := by decide +kernel
  have hnext : j.nextSequence = 1 := by
    rw [(openOn_eq_ok hopen).2.2, hentries]
    rfl
  obtain ⟨j', replay', hreopen, hiff, -⟩ := reopen_replays_appended_iff 8
    [.upsert "t" (SortedMap.empty.insert "id" (.ofNat 3))] hopen (by decide)
    (by rw [hentries]; decide)
  refine ⟨j, _, j', replay', hopen, hreopen, fun h => ?_⟩
  have hscan := hiff.mp h
  rw [hnext] at hscan
  revert hscan
  decide +kernel

end Journal

end LiveDocs

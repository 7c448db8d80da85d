import LiveDocs.Proofs.Database.Actions
import LiveDocs.Proofs.Journal.Reopen

/-!
# Recovery of a database from a journal that was cut

A database with a journal is opened on an empty place and acted on, and then its journal file is cut
at any byte, as a crash may leave it. Opened again on what is left, it has the tables as they were
when the file was last a part of what is left (`Database.reopen_cut_restores`).

The proof follows the run with a *chronicle*: the entries in the file, which restore the tables, are
numbered in order, and each row of first entries of the file was the whole file at some time. One
action extends the chronicle by at most one entry or begins a new one with a snapshot.

## Main definitions

* `Database.Recordable`: the frame of every step has a length of four bytes and a number.
* `Database.LastRecorded`: the part of a run that some bytes of the file record.
* `Database.Chronicle`: the entries in the file after a run.
-/

namespace LiveDocs

namespace Database

variable {schemas : List Schema} {compress : Bytes → Bytes}

/-- What a step has written to the journal file: the bytes behind its old end or, if there is
nothing but a snapshot, the whole file. -/
def written (before after : Database) : Bytes :=
  if after.sinceSnapshot = 0 then after.journalFile
  else after.journalFile.drop before.journalFile.length

/-- At every step of a run, the length of what is written fits the four bytes it is stored in, and
the numbers of the entries do not start again from zero. -/
def Recordable (db : Database) : List Action → Prop
  | [] => True
  | a :: rest =>
    ((written db (db.perform a)).length < 0x100000000 ∧
      db.nextSequence ≤ (db.perform a).nextSequence) ∧ Recordable (db.perform a) rest

instance Recordable.decidable (db : Database) :
    (actions : List Action) → Decidable (db.Recordable actions)
  | [] => inferInstanceAs (Decidable True)
  | a :: rest =>
    have := Recordable.decidable (db.perform a) rest
    inferInstanceAs (Decidable (_ ∧ _))

/-- The longest part of a run after which the journal file was a part of some bytes: its last
action with a frame is the last one whose frame is wholly there. -/
structure LastRecorded (db : Database) (actions : List Action) (bytes : Bytes)
    (done : List Action) : Prop where
  part : done <+: actions
  whole : (db.run done).journalFile <+: bytes
  last : ∀ done', done' <+: actions → (db.run done').journalFile <+: bytes → done' <+: done

theorem recordable_append {db : Database} {actions more : List Action} :
    db.Recordable (actions ++ more) ↔ db.Recordable actions ∧ (db.run actions).Recordable more := by
  induction actions generalizing db with
  | nil => simp [Recordable]
  | cons a actions ih =>
    simp only [List.cons_append, Recordable, ih, and_assoc]
    rfl

theorem Recordable.of_part {db : Database} {actions done : List Action}
    (h : db.Recordable actions) (hdone : done <+: actions) : db.Recordable done := by
  obtain ⟨more, rfl⟩ := hdone
  exact (recordable_append.mp h).1

/-- The next number does not fall during a run. -/
theorem Recordable.nextSequence_le {db : Database} {actions : List Action}
    (h : db.Recordable actions) : db.nextSequence ≤ (db.run actions).nextSequence := by
  induction actions generalizing db with
  | nil => exact UInt64.le_refl _
  | cons a actions ih => exact UInt64.le_trans h.1.2 (ih h.2)

theorem Recordable.nextSequence_le_of_part {db : Database} {done actions : List Action}
    (h : db.Recordable actions) (hdone : done <+: actions) :
    (db.run done).nextSequence ≤ (db.run actions).nextSequence := by
  obtain ⟨more, rfl⟩ := hdone
  rw [run_append]
  exact (recordable_append.mp h).2.nextSequence_le

/-- There is a longest part of a list with a property that the empty list has. -/
theorem exists_longest_part {α : Type} (P : List α → Prop) (hnil : P []) (l : List α) :
    ∃ m, m <+: l ∧ P m ∧ ∀ m', m' <+: l → P m' → m' <+: m := by
  induction l using List.reverseRecOn with
  | nil => exact ⟨[], List.prefix_rfl, hnil, fun _ h _ => h⟩
  | append_singleton l a ih =>
    by_cases hall : P (l ++ [a])
    · exact ⟨l ++ [a], List.prefix_rfl, hall, fun _ h _ => h⟩
    · obtain ⟨m, hm, hP, hlast⟩ := ih
      refine ⟨m, hm.trans (List.prefix_append l [a]), hP, fun m' hm' hP' => ?_⟩
      rcases List.prefix_concat_iff.mp hm' with rfl | hm'
      · exact absurd hP' hall
      · exact hlast m' hm' hP'

/-! ## Numbers of entries -/

/-- The number that follows those of some entries. -/
def numberAfter (entries : List JournalEntry) : Nat :=
  match entries.getLast? with
  | some e => e.sequence.toNat + 1
  | none => 0

@[simp] theorem numberAfter_concat (entries : List JournalEntry) (e : JournalEntry) :
    numberAfter (entries ++ [e]) = e.sequence.toNat + 1 := by
  simp [numberAfter]

theorem lt_numberAfter {entries : List JournalEntry} (h : Replay.Increasing entries)
    {e : JournalEntry} (he : e ∈ entries) : e.sequence.toNat < numberAfter entries := by
  induction entries using List.reverseRecOn with
  | nil => cases he
  | append_singleton entries last =>
    rw [numberAfter_concat]
    rcases List.mem_append.mp he with he | he
    · have hlt := (List.pairwise_append.mp h).2.2 e he last (by simp)
      rw [UInt64.lt_iff_toNat_lt] at hlt
      omega
    · rw [List.mem_singleton.mp he]
      omega

theorem increasing_concat {entries : List JournalEntry} (h : Replay.Increasing entries)
    {e : JournalEntry} (he : e.sequence.toNat = numberAfter entries) :
    Replay.Increasing (entries ++ [e]) := by
  refine List.pairwise_append.mpr ⟨h, List.pairwise_singleton _ _, fun f hf g hg => ?_⟩
  have hlt := lt_numberAfter h hf
  rw [← he, ← UInt64.lt_iff_toNat_lt] at hlt
  rwa [List.mem_singleton.mp hg]

/-- More entries have a greater number after them. -/
theorem eq_nil_of_numberAfter_le {entries more : List JournalEntry}
    (h : Replay.Increasing (entries ++ more))
    (hle : numberAfter (entries ++ more) ≤ numberAfter entries) : more = [] := by
  induction more using List.reverseRecOn with
  | nil => rfl
  | append_singleton more e =>
    rw [← List.append_assoc, numberAfter_concat] at hle
    induction entries using List.reverseRecOn with
    | nil => simp [numberAfter] at hle
    | append_singleton entries f =>
      have hlt := (List.pairwise_append.mp h).2.2 f (by simp) e (by simp)
      rw [UInt64.lt_iff_toNat_lt] at hlt
      rw [numberAfter_concat] at hle
      omega

/-- A number that an entry takes is not the last one if the numbers do not start again. -/
theorem toNat_succ_of_le {next sequence : UInt64}
    (hsequence : sequence = next ∨ sequence = next + 1) (h : next ≤ sequence + 1) :
    (sequence + 1).toNat = sequence.toNat + 1 := by
  have hbound := sequence.toNat_lt
  have hnext := next.toNat_lt
  rw [UInt64.le_iff_toNat_le] at h
  rcases hsequence with rfl | rfl
  · simp only [UInt64.toNat_add, UInt64.toNat_one] at h ⊢
    omega
  · simp only [UInt64.toNat_add, UInt64.toNat_one] at h hbound ⊢
    omega

/-! ## The entries in the file -/

/-- The entries in the journal file after a run. -/
structure Chronicle (schemas : List Schema) (compress : Bytes → Bytes) (db : Database)
    (actions : List Action) (entries : List JournalEntry) : Prop where
  intact : (db.run actions).Intact schemas compress
  file : (db.run actions).journalFile = entries.flatMap JournalEntry.frame
  good : ∀ e ∈ entries, e.body.length < 0x100000000 ∧ e.verify = true
  increasing : Replay.Increasing entries
  number : (db.run actions).nextSequence.toNat = numberAfter entries
  restored : restoreEntries (empty schemas).tables entries = .ok (db.run actions).tables
  /-- The first entries were all the entries at some time. -/
  reached : ∀ count, ∃ done, done <+: actions ∧
    (db.run done).journalFile = (entries.take count).flatMap JournalEntry.frame

theorem restoreEntries_concat {tables tables' : Tables} {entries : List JournalEntry}
    (h : restoreEntries tables entries = .ok tables') (e : JournalEntry) :
    restoreEntries tables (entries ++ [e]) = restoreEntry tables' e := by
  induction entries generalizing tables with
  | nil =>
    cases h
    simp only [List.nil_append, restoreEntries]
    cases restoreEntry tables' e <;> rfl
  | cons f entries ih =>
    simp only [List.cons_append, restoreEntries] at h ⊢
    split at h
    · next hf => exact ih h
    · cases h

/-- A database is opened on an empty place. -/
theorem openOn_absent (schemas : List Schema) (compress : Bytes → Bytes) (compactAfter : UInt64)
    (staging : FileEntry) :
    ∃ db, openOn schemas compress compactAfter ⟨.absent, staging⟩ = .ok db ∧
      Chronicle schemas compress db [] [] := by
  refine ⟨_, rfl, ⟨?_, cleared_empty schemas, _, [], rfl, rfl, rfl⟩, rfl, by simp,
    List.Pairwise.nil, rfl, rfl, fun count => ⟨[], List.prefix_rfl, by simp; rfl⟩⟩
  exact sound_empty schemas

/-- An entry at the end of the file leaves the times at which there were fewer entries. -/
theorem Chronicle.reached_concat {db : Database} {actions : List Action}
    {entries : List JournalEntry} (h : Chronicle schemas compress db actions entries) {a : Action}
    {e : JournalEntry}
    (hfile : (db.run (actions ++ [a])).journalFile = (entries ++ [e]).flatMap JournalEntry.frame)
    (count : Nat) :
    ∃ done, done <+: actions ++ [a] ∧
      (db.run done).journalFile = ((entries ++ [e]).take count).flatMap JournalEntry.frame := by
  by_cases hcount : count ≤ entries.length
  · obtain ⟨done, hdone, hreached⟩ := h.reached count
    exact ⟨done, hdone.trans (List.prefix_append actions [a]),
      by rw [hreached, List.take_append_of_le_length hcount]⟩
  · have hlength : (entries ++ [e]).length ≤ count := by
      rw [List.length_append, List.length_singleton]
      omega
    exact ⟨actions ++ [a], List.prefix_rfl, by rw [List.take_of_length_le hlength, hfile]⟩

/-- One action extends a chronicle by at most one entry or begins a new one. -/
theorem Chronicle.perform {db : Database} {actions : List Action}
    {entries : List JournalEntry} (h : Chronicle schemas compress db actions entries) {a : Action}
    (ha : a.Storable) (hrecordable : (db.run actions).Recordable [a])
    (hread : Block.ReadBack compress (JournalEntry.dumpBytes (db.run (actions ++ [a])).dump)) :
    ∃ entries', Chronicle schemas compress db (actions ++ [a]) entries' := by
  obtain ⟨hintact, houtcome⟩ := perform_outcome h.intact ha
  obtain ⟨⟨hwritten, hnumber⟩, -⟩ := hrecordable
  rw [← run_concat] at hintact houtcome hwritten hnumber
  have hkept : ∀ {done}, done <+: actions → done <+: actions ++ [a] := fun hdone =>
    hdone.trans (List.prefix_append actions [a])
  cases houtcome with
  | silent htables hfile hnext =>
    refine ⟨entries, hintact, by rw [hfile, h.file], h.good, h.increasing,
      by rw [hnext, h.number], by rw [htables, h.restored], fun count => ?_⟩
    obtain ⟨done, hdone, hreached⟩ := h.reached count
    exact ⟨done, hkept hdone, hreached⟩
  | appended e hsequence hverify hrestore hfile hnext hsince =>
    rw [written, if_neg hsince, hfile, List.drop_left, Replay.frame_eq,
      Replay.length_frameOf] at hwritten
    rw [hnext] at hnumber
    have hsucc := toNat_succ_of_le (.inl hsequence) hnumber
    have hframes : (db.run (actions ++ [a])).journalFile =
        (entries ++ [e]).flatMap JournalEntry.frame := by
      rw [hfile, h.file, List.flatMap_append, List.flatMap_singleton]
    refine ⟨entries ++ [e], hintact, hframes, ?_, ?_, ?_, ?_, h.reached_concat hframes⟩
    · intro f hf
      rcases List.mem_append.mp hf with hf | hf
      · exact h.good f hf
      · rw [List.mem_singleton.mp hf]
        exact ⟨by omega, hverify⟩
    · exact increasing_concat h.increasing (by rw [hsequence, h.number])
    · rw [hnext, hsucc, numberAfter_concat]
    · rw [restoreEntries_concat h.restored, hrestore]
  | compacted e hsequence hverify hrestore hfile hnext hsince =>
    rw [written, if_pos hsince, hfile, Replay.frame_eq, Replay.length_frameOf] at hwritten
    rw [hnext] at hnumber
    have hsucc := toNat_succ_of_le hsequence hnumber
    have hlayout : cleared (empty schemas).tables = cleared (db.run (actions ++ [a])).tables := by
      rw [cleared_empty, hintact.layout]
    refine ⟨[e], hintact, by simp [hfile], by simp [hverify]; omega, List.pairwise_singleton _ _,
      by rw [hnext, hsucc]; rfl, ?_, fun count => ?_⟩
    · simp [restoreEntries, hrestore hread _ hlayout]
    · cases count with
      | zero =>
        obtain ⟨done, hdone, hreached⟩ := h.reached 0
        exact ⟨done, hkept hdone, hreached⟩
      | succ count => exact ⟨actions ++ [a], List.prefix_rfl, by simp [hfile]⟩

theorem Chronicle.run {db : Database} (h : Chronicle schemas compress db [] [])
    {actions : List Action} (hstorable : ∀ a ∈ actions, a.Storable)
    (hrecordable : db.Recordable actions)
    (hread : ∀ done, done <+: actions →
      Block.ReadBack compress (JournalEntry.dumpBytes (db.run done).dump)) :
    ∃ entries, Chronicle schemas compress db actions entries := by
  induction actions using List.reverseRecOn with
  | nil => exact ⟨[], h⟩
  | append_singleton actions a ih =>
    obtain ⟨hactions, ha⟩ := recordable_append.mp hrecordable
    obtain ⟨entries, hentries⟩ := ih (fun b hb => hstorable b (by simp [hb])) hactions
      fun done hdone => hread done (hdone.trans (List.prefix_append actions [a]))
    exact hentries.perform (hstorable a (by simp)) ha (hread _ List.prefix_rfl)

/-! ## What is left of the file -/

/-- The entries of any bytes that begin with the file begin with the entries in the file. -/
theorem Chronicle.goodEntries_append {db : Database} {actions : List Action}
    {entries : List JournalEntry} (h : Chronicle schemas compress db actions entries)
    (rest : Bytes) :
    Replay.goodEntries ((db.run actions).journalFile ++ rest) =
      entries ++ Replay.goodEntries rest := by
  rw [h.file]
  exact Replay.goodEntries_frames h.good rest

/-- Wherever the file is cut, there was a time at which it had just the entries that are left. -/
theorem Chronicle.exists_part {db : Database} {actions : List Action}
    {entries : List JournalEntry} (h : Chronicle schemas compress db actions entries) (cut : Nat) :
    ∃ part rest, part <+: actions ∧ Replay.Torn rest ∧
      (db.run actions).journalFile.take cut = (db.run part).journalFile ++ rest := by
  obtain ⟨count, rest, hcut, hrest⟩ := Replay.take_frames (fun e he => (h.good e he).1) cut
  obtain ⟨part, hpart, hreached⟩ := h.reached count
  exact ⟨part, rest, hpart, hrest, by rw [h.file, hcut, hreached]⟩

/-- A file with the entries of a chronicle is opened as the tables of its run. -/
theorem Chronicle.openOn {db : Database} {actions : List Action}
    {entries : List JournalEntry} (h : Chronicle schemas compress db actions entries)
    {bytes : Bytes}
    (hbytes : Replay.goodEntries bytes = entries) (compactAfter : UInt64) (staging : FileEntry) :
    ∃ db', openOn schemas compress compactAfter ⟨.file bytes, staging⟩ = .ok db' ∧
      db'.tables = (db.run actions).tables := by
  have hreplay : (Replay.ofBytes bytes).entries = entries := by
    rw [Replay.entries_ofBytes, hbytes, Replay.sortBySequence_of_increasing h.increasing]
  have hvolume : (⟨.file bytes, staging⟩ : Volume).journal = .file bytes := rfl
  obtain ⟨j, hopen⟩ := Journal.openOn_file compress compactAfter hvolume
  refine ⟨{ empty schemas with tables := (db.run actions).tables, journal := some j }, ?_, rfl⟩
  simp only [Database.openOn, hopen, hreplay, h.restored]

/-- As long as the file is empty there are no rows. -/
theorem Chronicle.rows_eq_nil {db : Database} {actions : List Action}
    {entries : List JournalEntry} (h : Chronicle schemas compress db actions entries)
    (hfile : (db.run actions).journalFile = []) (table : String) :
    (db.run actions).rows table = [] := by
  have hnil : entries = [] := by
    refine List.eq_nil_iff_forall_not_mem.mpr fun e he => ?_
    rw [h.file, List.flatMap_eq_nil_iff] at hfile
    have hlength := congrArg List.length (hfile e he)
    simp [Replay.frame_eq] at hlength
  have htables : (empty schemas).tables = (db.run actions).tables := by
    have hrestored := h.restored
    rw [hnil] at hrestored
    exact Except.ok.inj hrestored
  rw [rows, ← htables]
  split
  · next t ht =>
    rw [(get?_empty ht).2]
    rfl
  · rfl

/-- A database that was opened on an empty place and acted on is cut off by a crash: of its journal
file any first bytes are left. Then it can be opened again, and has the tables it had after the last
action whose frame is wholly left, a snapshot counting for all actions up to it. If there is no such
action, no table has rows. Snapshots may be compressed in any way that decompression undoes for the
tables of this run. -/
theorem reopen_cut_restores (schemas : List Schema) (compress : Bytes → Bytes)
    (compactAfter again : UInt64) (staging staging' : FileEntry) :
    ∃ db, openOn schemas compress compactAfter ⟨.absent, staging⟩ = .ok db ∧
      ∀ actions : List Action, (∀ a ∈ actions, a.Storable) → db.Recordable actions →
        (∀ done, done <+: actions →
          Block.ReadBack compress (JournalEntry.dumpBytes (db.run done).dump)) →
        ∀ cut : Nat, ∃ done,
          LastRecorded db actions ((db.run actions).journalFile.take cut) done ∧
          ∃ db', openOn schemas compress again
              ⟨.file ((db.run actions).journalFile.take cut), staging'⟩ = .ok db' ∧
            db'.tables = (db.run done).tables ∧
            ((db.run done).journalFile = [] → ∀ table, db'.rows table = []) := by
  obtain ⟨db, hopen, hstart⟩ := openOn_absent schemas compress compactAfter staging
  refine ⟨db, hopen, fun actions hstorable hrecordable hread cut => ?_⟩
  have hchronicle : ∀ {done}, done <+: actions →
      ∃ entries, Chronicle schemas compress db done entries := fun hdone =>
    hstart.run (fun a ha => hstorable a (hdone.subset ha)) (hrecordable.of_part hdone)
      fun part hpart => hread part (hpart.trans hdone)
  obtain ⟨entries, hentries⟩ := hchronicle List.prefix_rfl
  obtain ⟨part, rest, hpart, hrest, hcut⟩ := hentries.exists_part cut
  have hnil : (db.run []).journalFile <+: (db.run actions).journalFile.take cut := by
    rw [hstart.file]
    exact List.nil_prefix
  obtain ⟨done, hdone, hwhole, hlast⟩ := exists_longest_part
    (fun done => (db.run done).journalFile <+: (db.run actions).journalFile.take cut) hnil actions
  have hpartDone : part <+: done := hlast part hpart ⟨rest, hcut.symm⟩
  obtain ⟨partEntries, hpartEntries⟩ := hchronicle hpart
  obtain ⟨doneEntries, hdoneEntries⟩ := hchronicle hdone
  have hleft : Replay.goodEntries ((db.run actions).journalFile.take cut) = partEntries := by
    rw [hcut, hpartEntries.goodEntries_append, Replay.goodEntries_torn hrest, List.append_nil]
  -- The entries of `done` are among those that are left, and are all of them since the numbers do
  -- not fall from `part` to `done`.
  have hsame : partEntries = doneEntries := by
    obtain ⟨more, hmore⟩ := hwhole
    rw [← hmore, hdoneEntries.goodEntries_append] at hleft
    have hnumber : numberAfter partEntries ≤ numberAfter doneEntries := by
      rw [← hpartEntries.number, ← hdoneEntries.number, ← UInt64.le_iff_toNat_le]
      exact (hrecordable.of_part hdone).nextSequence_le_of_part hpartDone
    have hincreasing := hpartEntries.increasing
    rw [← hleft] at hnumber hincreasing
    rw [← hleft, eq_nil_of_numberAfter_le hincreasing hnumber, List.append_nil]
  obtain ⟨db', hreopen, htables⟩ := hdoneEntries.openOn (hleft.trans hsame) again staging'
  refine ⟨done, ⟨hdone, hwhole, hlast⟩, db', hreopen, htables, fun hfile table => ?_⟩
  rw [← hdoneEntries.rows_eq_nil hfile table, rows, rows, htables]

/-- An empty table with a journal. -/
def sampleStart : Database :=
  { empty [⟨"t", ["id"]⟩] with journal := some ⟨⟨.file [], .absent⟩, Block.literals, 8, 0, 0⟩ }

/-- Two rows are written with a compaction between them, and the first is deleted. -/
def sampleRun : List Action :=
  [.upsert (fun _ => true) "t" (SortedMap.empty.insert "id" (.ofNat 1)), .compact,
    .upsert (fun _ => true) "t" (SortedMap.empty.insert "id" (.ofNat 2)),
    .delete (fun _ => true) "t" (SortedMap.empty.insert "id" (.ofNat 1))]

theorem storable_sampleRun : ∀ a ∈ sampleRun, a.Storable := by
  have hrow : ∀ n, Record.Storable (SortedMap.empty.insert "id" (Json.ofNat n)) := by
    intro n
    obtain ⟨hlegible, hdepth⟩ := Record.legible_single "id" n
    exact ⟨hlegible, Nat.le_trans hdepth (by decide)⟩
  simp [sampleRun, Action.Storable, hrow, (hrow 1).legible]

/-- The journal of the run is cut in the frame of the deletion: both rows are there again. -/
theorem reopen_sampleRun_cut :
    openOn [⟨"t", ["id"]⟩] Block.literals 8 Volume.empty = .ok sampleStart ∧
      (∀ a ∈ sampleRun, a.Storable) ∧ sampleStart.Recordable sampleRun ∧
      (∀ done, done <+: sampleRun →
        Block.ReadBack Block.literals (JournalEntry.dumpBytes (sampleStart.run done).dump)) ∧
      ∃ db, openOn [⟨"t", ["id"]⟩] Block.literals 8
          ⟨.file ((sampleStart.run sampleRun).journalFile.take 70), .absent⟩ = .ok db ∧
        ((sampleStart.run sampleRun).rows "t").map (·.key? ["id"]) = [some "[2]"] ∧
        (db.rows "t").map (·.key? ["id"]) = [some "[1]", some "[2]"] := by
  have hopen : openOn [⟨"t", ["id"]⟩] Block.literals 8 Volume.empty = .ok sampleStart := rfl
  obtain ⟨start, hstart, hrestores⟩ :=
    reopen_cut_restores [⟨"t", ["id"]⟩] Block.literals 8 8 .absent .absent
  obtain rfl : sampleStart = start := Except.ok.inj (hopen.symm.trans hstart)
  have hrecordable : sampleStart.Recordable sampleRun := by decide +kernel
  have hread : ∀ done, done <+: sampleRun →
      Block.ReadBack Block.literals (JournalEntry.dumpBytes (sampleStart.run done).dump) := by
    have hshort : ∀ done ∈ sampleRun.inits,
        (JournalEntry.dumpBytes (sampleStart.run done).dump).length < 0x100000000 := by
      decide +kernel
    exact fun done hdone => Block.readBack_literals (hshort done ((List.mem_inits _ _).mpr hdone))
  obtain ⟨done, hdone, db, hreopen, htables, -⟩ :=
    hrestores sampleRun storable_sampleRun hrecordable hread 70
  have hthree := hdone.last (sampleRun.take 3) (List.take_prefix 3 sampleRun) (by decide +kernel)
  have hsame : done = sampleRun.take 3 := by
    rcases List.prefix_concat_iff.mp (show done <+: sampleRun.take 3 ++ [_] from hdone.part) with
      rfl | hpart
    · exact absurd hdone.whole (by decide +kernel)
    · exact hpart.eq_of_length_le hthree.length_le
  refine ⟨hopen, storable_sampleRun, hrecordable, hread, db, hreopen, by decide +kernel, ?_⟩
  rw [rows, htables, hsame]
  decide +kernel

end Database

end LiveDocs

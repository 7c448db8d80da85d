import LiveDocs.Proofs.Database.Restore

/-!
# Actions on a database with a journal

A database is written to, queried and compacted, and the place of the staging file may be taken by
something else, which makes compaction fail. Whatever one of these does, seen from the journal it is
one of three things (`Database.Outcome`): nothing is recorded and no row changes; one entry is
appended, and it makes the change when it is restored; or the file is replaced by a snapshot of the
tables, possibly after a change of theirs, which makes them again if what was compressed is read
back.

## Main definitions

* `Database.Action`, `Database.perform`, `Database.run`: actions, and a database after them.
* `Database.Intact`: the tables are sound, are those of the schemas, and there is a journal file
  whose snapshots are made with a given compressor.
* `Database.Outcome`: what an action does to the tables and to the journal.

## Main results

* `Database.perform_outcome`: the outcome of every action.
-/

namespace LiveDocs

namespace Database

variable {schemas : List Schema} {compress : Bytes → Bytes}

/-- What is done to a database, or to the place of its staging file. -/
inductive Action where
  | upsert (alive : SinkId → Bool) (table : String) (row : Record)
  | delete (alive : SinkId → Bool) (table : String) (key : Record)
  | query (alive : SinkId → Bool) (request : Request) (sink : SinkId)
  | compact
  /-- Something else is put where the staging file would be made. -/
  | stage (entry : FileEntry)

/-- Rows that are written can be restored, and keys of deleted rows can be read. -/
def Action.Storable : Action → Prop
  | upsert _ _ row => row.Storable
  | delete _ _ key => (Json.ofRecord key).Legible
  | query _ request _ =>
    ∀ table row, Statement.parse request.query = .ok (.set table row) → row.Storable
  | compact | stage _ => True

def perform (db : Database) : Action → Database
  | .upsert alive table row => (db.upsert alive table row).1
  | .delete alive table key => (db.delete alive table key).1
  | .query alive request sink => (db.query alive request sink).1
  | .compact =>
    match db.compact with
    | .ok db => db
    | .error _ => db
  | .stage entry => db.record fun j => { j with volume := { j.volume with staging := entry } }

def run (db : Database) (actions : List Action) : Database := actions.foldl perform db

@[simp] theorem run_nil (db : Database) : db.run [] = db := rfl

theorem run_append (db : Database) (actions more : List Action) :
    db.run (actions ++ more) = (db.run actions).run more := List.foldl_append

theorem run_concat (db : Database) (actions : List Action) (a : Action) :
    db.run (actions ++ [a]) = (db.run actions).perform a := run_append db actions [a]

/-! ## The journal of a database -/

def journalFile (db : Database) : Bytes :=
  match db.journal with
  | some j => j.volume.journal.content
  | none => []

/-- The number of the next entry. -/
def nextSequence (db : Database) : UInt64 :=
  match db.journal with
  | some j => j.nextSequence
  | none => 0

/-- The number of entries after the last snapshot. -/
def sinceSnapshot (db : Database) : Nat :=
  match db.journal with
  | some j => j.sinceSnapshot
  | none => 0

/-- Tables of the schemas with restorable rows, and a journal file with its compressor. -/
structure Intact (schemas : List Schema) (compress : Bytes → Bytes) (db : Database) : Prop where
  sound : Sound db.tables
  layout : cleared db.tables = (empty schemas).tables
  journaled : ∃ j bytes, db.journal = some j ∧ j.volume.journal = .file bytes ∧
    j.compress = compress

/-- What an action does to the tables and to the journal. -/
inductive Outcome (compress : Bytes → Bytes) (before after : Database) : Prop where
  | silent (htables : after.tables = before.tables)
      (hfile : after.journalFile = before.journalFile)
      (hnext : after.nextSequence = before.nextSequence)
  | appended (e : JournalEntry) (hsequence : e.sequence = before.nextSequence)
      (hverify : e.verify = true) (hrestore : restoreEntry before.tables e = .ok after.tables)
      (hfile : after.journalFile = before.journalFile ++ e.frame)
      (hnext : after.nextSequence = e.sequence + 1) (hsince : after.sinceSnapshot ≠ 0)
  | compacted (e : JournalEntry)
      (hsequence : e.sequence = before.nextSequence ∨ e.sequence = before.nextSequence + 1)
      (hverify : e.verify = true)
      (hrestore : Block.ReadBack compress (JournalEntry.dumpBytes after.dump) →
        ∀ tables, cleared tables = cleared after.tables → restoreEntry tables e = .ok after.tables)
      (hfile : after.journalFile = e.frame) (hnext : after.nextSequence = e.sequence + 1)
      (hsince : after.sinceSnapshot = 0)

/-- Compaction keeps the tables and leaves a file with one snapshot. -/
theorem compact_eq_ok {db db' : Database} {j : Journal} (hj : db.journal = some j)
    (h : db.compact = .ok db') :
    db'.tables = db.tables ∧ ∃ j', db'.journal = some j' ∧
      j'.volume.journal = .file (JournalEntry.snapshot j.compress j.nextSequence db.dump).frame ∧
      j'.compress = j.compress ∧ j'.nextSequence = j.nextSequence + 1 ∧ j'.sinceSnapshot = 0 := by
  simp only [compact, hj, Journal.compact] at h
  split at h
  · next hcompact =>
    split at hcompact
    · cases hcompact
    · cases hcompact
      cases h
      exact ⟨rfl, _, rfl, rfl, rfl, rfl, rfl⟩
  · cases h

theorem compactIfNeeded_cases (db : Database) :
    db.compactIfNeeded = db ∨ db.compact = .ok db.compactIfNeeded := by
  unfold compactIfNeeded
  split
  · split
    · split
      · next h => exact .inr h
      · exact .inl rfl
    · exact .inl rfl
  · exact .inl rfl

/-- The outcome of a compaction of a database whose tables may have been changed before: the
snapshot takes the next number or, behind an entry for the change, the number after that. -/
theorem Outcome.of_compact {before db db' : Database}
    (hdb : db.Intact schemas compress)
    (hnext : db.nextSequence = before.nextSequence ∨ db.nextSequence = before.nextSequence + 1)
    (h : db.compact = .ok db') : db'.Intact schemas compress ∧ Outcome compress before db' := by
  obtain ⟨j, bytes, hj, -, rfl⟩ := hdb.journaled
  obtain ⟨htables, j', hj', hfile, hcompress, hnext', hsince⟩ := compact_eq_ok hj h
  have hdump : db'.dump = db.dump := by rw [dump, dump, htables]
  have hnumber : db.nextSequence = j.nextSequence := by simp [nextSequence, hj]
  refine ⟨⟨htables ▸ hdb.sound, htables ▸ hdb.layout, j', _, hj', hfile, hcompress⟩,
    .compacted (.snapshot j.compress j.nextSequence db.dump) ?_ ?_ ?_ ?_ ?_ ?_⟩
  · rwa [← hnumber]
  · exact JournalEntry.verify_make _ _ _ _
  · intro hread tables hlayout
    rw [htables] at hlayout ⊢
    rw [hdump] at hread
    exact restoreEntry_snapshot hdb.sound hlayout hread
  · simp [journalFile, hj', hfile, FileEntry.content]
  · simp [Database.nextSequence, hj', hnext', JournalEntry.snapshot, JournalEntry.make]
  · simp [sinceSnapshot, hj', hsince]

/-- The outcome of a change of the tables that is recorded by an entry, with the compaction that may
follow it. -/
theorem Outcome.of_append {before db : Database} {j : Journal}
    {e : JournalEntry} (hbefore : before.Intact schemas compress) (hj : before.journal = some j)
    (hsequence : e.sequence = j.nextSequence) (hverify : e.verify = true)
    (hrestore : restoreEntry before.tables e = .ok db.tables) (hsound : Sound db.tables)
    (hlayout : cleared db.tables = cleared before.tables)
    (hjournal : db.journal = some (j.append e)) :
    db.compactIfNeeded.Intact schemas compress ∧ Outcome compress before db.compactIfNeeded := by
  obtain ⟨j₀, bytes, hj₀, hfile, hcompress⟩ := hbefore.journaled
  rw [hj] at hj₀
  cases hj₀
  have happend : (j.append e).volume.journal = .file (bytes ++ e.frame) := by
    simp [Journal.append, Volume.append, hfile]
  have hnumber : before.nextSequence = e.sequence := by simp [nextSequence, hj, hsequence]
  have hnext : db.nextSequence = e.sequence + 1 := by simp [nextSequence, hjournal, Journal.append]
  have hintact : db.Intact schemas compress :=
    ⟨hsound, hlayout.trans hbefore.layout, j.append e, _, hjournal, happend, hcompress⟩
  rcases compactIfNeeded_cases db with hsame | hcompact
  · rw [hsame]
    refine ⟨hintact, .appended e hnumber.symm hverify hrestore ?_ hnext ?_⟩
    · simp [journalFile, hjournal, happend, hj, hfile, FileEntry.content]
    · simp [sinceSnapshot, hjournal, Journal.append]
  · exact Outcome.of_compact hintact (.inr (by rw [hnumber, hnext])) hcompact

/-- Nothing happens to the tables and to the journal file. -/
theorem Outcome.of_same {before after : Database}
    (h : before.Intact schemas compress) (htables : after.tables = before.tables)
    (hjournal : after.journal = before.journal) :
    after.Intact schemas compress ∧ Outcome compress before after :=
  ⟨⟨htables ▸ h.sound, htables ▸ h.layout, hjournal ▸ h.journaled⟩,
    .silent htables (by rw [journalFile, journalFile, hjournal])
      (by rw [nextSequence, nextSequence, hjournal])⟩

/-- The outcome depends on the tables and the journal only. -/
theorem Outcome.congr {before before' after : Database} (h : Outcome compress before after)
    (htables : before'.tables = before.tables) (hjournal : before'.journal = before.journal) :
    Outcome compress before' after := by
  have hfile : before'.journalFile = before.journalFile := by
    rw [journalFile, journalFile, hjournal]
  have hnext : before'.nextSequence = before.nextSequence := by
    rw [nextSequence, nextSequence, hjournal]
  cases h with
  | silent htables' hfile' hnext' =>
    exact .silent (by rw [htables', htables]) (by rw [hfile', hfile]) (by rw [hnext', hnext])
  | appended e hsequence hverify hrestore hfile' hnext' hsince =>
    exact .appended e (by rw [hsequence, hnext]) hverify (by rw [htables, hrestore])
      (by rw [hfile', hfile]) hnext' hsince
  | compacted e hsequence hverify hrestore hfile' hnext' hsince =>
    exact .compacted e (by rwa [hnext]) hverify hrestore hfile' hnext' hsince

/-! ## Every action -/

/-- A write that was recorded changes the tables and may be followed by a compaction. -/
theorem commit_eq (alive : SinkId → Bool) (db : Database) (t : StoredTable) (key : String)
    (old new : Option Record) :
    ∃ db' : Database, (commit alive db t key old new).1 = db'.compactIfNeeded ∧
      db'.tables = (db.setRow t key new).tables ∧ db'.journal = db.journal :=
  ⟨_, rfl, rfl, rfl⟩

/-- The outcome of a change of the rows of one table, of which an entry is in the journal. -/
theorem commit_outcome {db recorded : Database} (h : db.Intact schemas compress)
    {j : Journal} (hj : db.journal = some j) {table : String} {t : StoredTable}
    (ht : db.tables.get? table = some t) {rows : Rows}
    (hrows : ∀ {key row}, rows.get? key = some row → t.schema.key? row = some key ∧ row.Storable)
    {e : JournalEntry} (hsequence : e.sequence = j.nextSequence) (hverify : e.verify = true)
    (hrestore : restoreEntry db.tables e =
      .ok (db.tables.insert table { t with rows := rows }))
    (hjournal : recorded.journal = some (j.append e)) (alive : SinkId → Bool) (key : String)
    (old new : Option Record)
    (hset : (recorded.setRow t key new).tables =
      db.tables.insert table { t with rows := rows }) :
    (commit alive recorded t key old new).1.Intact schemas compress ∧
      Outcome compress db (commit alive recorded t key old new).1 := by
  obtain ⟨db', hcommit, htables, hjournal'⟩ := commit_eq alive recorded t key old new
  rw [hset] at htables
  rw [hcommit]
  refine Outcome.of_append h hj hsequence hverify (by rw [hrestore, htables]) ?_
    (by rw [htables, cleared_insert ht]) (hjournal'.trans hjournal)
  rw [htables]
  exact h.sound.insert ht hrows

theorem upsert_outcome {db : Database} (h : db.Intact schemas compress)
    (alive : SinkId → Bool) (table : String) {row : Record} (hrow : row.Storable) :
    (db.upsert alive table row).1.Intact schemas compress ∧
      Outcome compress db (db.upsert alive table row).1 := by
  unfold upsert
  split
  · exact Outcome.of_same h rfl rfl
  · next t ht =>
    split
    · exact Outcome.of_same h rfl rfl
    · next key hkey =>
      simp only
      split
      · exact Outcome.of_same h rfl rfl
      · obtain ⟨j, bytes, hj, hfile, -⟩ := h.journaled
        have hmerged : (((t.rows.get? key).getD .empty).merge row).Storable := by
          refine Record.Storable.merge ?_ hrow
          cases hold : t.rows.get? key with
          | none => exact Record.storable_empty
          | some old => exact h.sound.storable ht hold
        have hmergedKey := Record.key?_merge ((t.rows.get? key).getD .empty) hkey
        generalize ((t.rows.get? key).getD .empty).merge row = merged at hmerged hmergedKey ⊢
        refine commit_outcome h hj ht (fun {key'} {row'} hget => ?_)
          (e := .upsert j.nextSequence table merged) rfl (JournalEntry.verify_make _ _ _ _)
          (restoreEntry_upsert ht hmergedKey hmerged j.nextSequence)
          (by simp [record, hj, Journal.appendUpsert]) alive key _ _
          (by rw [← h.sound.named ht]; rfl)
        rw [SortedMap.get?_insert] at hget
        split at hget
        · next hsame =>
          cases hget
          exact ⟨hsame ▸ hmergedKey, hmerged⟩
        · exact ⟨h.sound.keyed ht hget, h.sound.storable ht hget⟩

theorem delete_outcome {db : Database} (h : db.Intact schemas compress)
    (alive : SinkId → Bool) (table : String) (key : Record) :
    (db.delete alive table key).1.Intact schemas compress ∧
      Outcome compress db (db.delete alive table key).1 := by
  unfold delete
  split
  · exact Outcome.of_same h rfl rfl
  · next t ht =>
    split
    · exact Outcome.of_same h rfl rfl
    · next text htext =>
      split
      · exact Outcome.of_same h rfl rfl
      · next old hold =>
        obtain ⟨j, bytes, hj, hfile, -⟩ := h.journaled
        have hstorable : (t.schema.keyFields key).Storable :=
          Record.Storable.keyFields (h.sound.storable ht hold) (h.sound.keyed ht hold) htext
        have hsameKey : t.schema.key? (t.schema.keyFields key) = some text := by
          rw [← htext]
          exact Record.key?_keyFields _ key
        refine commit_outcome h hj ht (fun {key'} {row'} hget => ?_)
          (e := .delete j.nextSequence table (t.schema.keyFields key)) rfl
          (JournalEntry.verify_make _ _ _ _)
          (restoreEntry_delete ht hsameKey hstorable j.nextSequence)
          (by simp [record, hj, Journal.appendDelete]) alive text _ _
          (by rw [← h.sound.named ht]; rfl)
        rw [SortedMap.get?_erase] at hget
        split at hget
        · cases hget
        · exact ⟨h.sound.keyed ht hget, h.sound.storable ht hget⟩

theorem write_outcome {db : Database} (h : db.Intact schemas compress)
    (alive : SinkId → Bool) (table : String) {row : Record} (hrow : row.Storable)
    (expected : Option Record) :
    (db.write alive table row expected).1.Intact schemas compress ∧
      Outcome compress db (db.write alive table row expected).1 := by
  unfold write
  split
  · exact upsert_outcome h alive table hrow
  · split
    · exact Outcome.of_same h rfl rfl
    · simp only
      split
      · exact upsert_outcome h alive table hrow
      · exact Outcome.of_same h rfl rfl

theorem query_outcome {db : Database} (h : db.Intact schemas compress)
    (alive : SinkId → Bool) {request : Request} (sink : SinkId)
    (hrow : ∀ table row, Statement.parse request.query = .ok (.set table row) → row.Storable) :
    (db.query alive request sink).1.Intact schemas compress ∧
      Outcome compress db (db.query alive request sink).1 := by
  unfold query
  split
  · exact Outcome.of_same h rfl rfl
  · next statement hparse =>
    cases statement with
    | get query =>
      simp only [get]
      split
      · exact Outcome.of_same h rfl rfl
      · split
        · exact Outcome.of_same h rfl rfl
        · split
          · exact Outcome.of_same h rfl rfl
          · exact Outcome.of_same h rfl rfl
    | set table row =>
      simp only
      split
      · exact Outcome.of_same h rfl rfl
      · -- The query is counted before the row is written.
        have hcounted : Intact schemas compress
            { db with stats := { db.stats with queries := db.stats.queries + 1 } } :=
          ⟨h.sound, h.layout, h.journaled⟩
        obtain ⟨hintact', houtcome⟩ := write_outcome hcounted alive table (hrow table row hparse)
          request.precondition?
        exact ⟨hintact', houtcome.congr rfl rfl⟩

/-- Every action leaves a database intact and has one of the outcomes. -/
theorem perform_outcome {db : Database} (h : db.Intact schemas compress) {a : Action}
    (ha : a.Storable) : (db.perform a).Intact schemas compress ∧
      Outcome compress db (db.perform a) := by
  cases a with
  | upsert alive table row => exact upsert_outcome h alive table ha
  | delete alive table key => exact delete_outcome h alive table key
  | query alive request sink => exact query_outcome h alive sink ha
  | compact =>
    cases hcompact : db.compact with
    | ok db' =>
      simp only [perform, hcompact]
      exact Outcome.of_compact h (.inl rfl) hcompact
    | error e =>
      simp only [perform, hcompact]
      exact Outcome.of_same h rfl rfl
  | stage entry =>
    obtain ⟨j, bytes, hj, hfile, hcompress⟩ := h.journaled
    refine ⟨⟨h.sound, h.layout, { j with volume := { j.volume with staging := entry } }, bytes,
      by simp [perform, record, hj], hfile, hcompress⟩, .silent rfl ?_ ?_⟩
    · simp [perform, record, journalFile, hj]
    · simp [perform, record, nextSequence, hj]

end Database

end LiveDocs

import LiveDocs.Journal.Entry

/-!
# Journals

A journal is a file that entries are appended to. When enough entries have followed the last
snapshot, the whole file may be replaced by one snapshot: it is written to a staging file, which
then takes the place of the journal.

## Main definitions

* `Volume`: the directory with the journal file and the staging file.
* `Journal`, `Journal.openOn`: an open journal.
* `Journal.appendUpsert`, `Journal.appendDelete`, `Journal.compact`: what is written to it.
-/

namespace LiveDocs

/-- What is found at a path. -/
inductive FileEntry where
  | absent
  | file (content : Bytes)
  | directory

namespace FileEntry

/-- The bytes of a file; nothing if there is no file. -/
def content : FileEntry → Bytes
  | file bytes => bytes
  | _ => []

end FileEntry

/-- The directory of a journal. -/
structure Volume where
  journal : FileEntry
  staging : FileEntry

namespace Volume

def empty : Volume := ⟨.absent, .absent⟩

/-- The volume with the bytes of the journal file changed, if it is a file. -/
def mapJournal (v : Volume) (change : Bytes → Bytes) : Volume :=
  match v.journal with
  | .file bytes => { v with journal := .file (change bytes) }
  | _ => v

/-- The volume with bytes at the end of the journal file, which is made if there is none. -/
def append (v : Volume) (bytes : Bytes) : Volume :=
  match v.journal with
  | .absent => { v with journal := .file bytes }
  | .file content => { v with journal := .file (content ++ bytes) }
  | .directory => v

/-- The volume with the journal file cut short by some bytes. -/
def truncate (v : Volume) (count : Nat) : Volume :=
  v.mapJournal fun bytes => bytes.take (bytes.length - count)

/-- The volume with the bits of one byte of the journal file inverted, counted from the end. -/
def flip (v : Volume) (fromEnd : Nat) : Volume :=
  v.mapJournal fun bytes =>
    if 1 ≤ fromEnd ∧ fromEnd ≤ bytes.length then
      bytes.modify (bytes.length - fromEnd) fun b => b ^^^ 0xff
    else bytes

/-- The volume with a directory where the journal file would be. -/
def blockJournal (v : Volume) : Volume :=
  match v.journal with
  | .absent => { v with journal := .directory }
  | _ => v

/-- The volume with a directory where the staging file would be. -/
def blockStaging (v : Volume) : Volume := { v with staging := .directory }

end Volume

/-- An open journal. -/
structure Journal where
  volume : Volume
  /-- How snapshots are compressed. -/
  compress : Bytes → Bytes
  /-- The number of entries after a snapshot that calls for compaction, zero for never. -/
  compactAfter : UInt64
  nextSequence : UInt64
  /-- The number of entries after the last snapshot. -/
  sinceSnapshot : Nat

namespace Journal

/-- Opens a journal, which is made if there is none, and reads what it holds. -/
def openOn (compress : Bytes → Bytes) (compactAfter : UInt64) (volume : Volume) :
    Except JournalError (Journal × Replay) :=
  let opened (bytes : Bytes) : Journal × Replay :=
    let replay := Replay.ofBytes bytes
    ({ volume := { volume with journal := .file bytes }
       compress
       compactAfter
       nextSequence :=
        match replay.entries.getLast? with
        | some e => e.sequence + 1
        | none => 0
       sinceSnapshot := (replay.entries.reverse.takeWhile fun e => e.kind ≠ .snapshot).length },
      replay)
  match volume.journal with
  | .absent => .ok (opened [])
  | .file bytes => .ok (opened bytes)
  | .directory => .error .io

def append (j : Journal) (e : JournalEntry) : Journal :=
  { j with
    volume := j.volume.append e.frame
    nextSequence := e.sequence + 1
    sinceSnapshot := j.sinceSnapshot + 1 }

def appendUpsert (j : Journal) (table : String) (row : Record) : Journal :=
  j.append (JournalEntry.upsert j.nextSequence table row)

def appendDelete (j : Journal) (table : String) (key : Record) : Journal :=
  j.append (JournalEntry.delete j.nextSequence table key)

/-- Whether enough entries have followed the last snapshot. -/
def needsCompaction (j : Journal) : Bool :=
  0 < j.compactAfter && j.compactAfter.toNat ≤ j.sinceSnapshot

/-- Replaces the journal by one snapshot. It fails if the staging file cannot be made, and then the
journal stays as it is. -/
def compact (j : Journal) (tables : TableDump) : Except JournalError Journal :=
  match j.volume.staging with
  | .directory => .error .io
  | _ =>
    .ok
      { j with
        volume := ⟨.file (JournalEntry.snapshot j.compress j.nextSequence tables).frame, .absent⟩
        nextSequence := j.nextSequence + 1
        sinceSnapshot := 0 }

end Journal

end LiveDocs

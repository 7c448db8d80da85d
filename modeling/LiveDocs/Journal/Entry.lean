import LiveDocs.Journal.Varint
import LiveDocs.Journal.Block
import LiveDocs.Record

/-!
# Journal entries

A journal is a row of frames, each a body behind its length in four bytes. A body holds one entry: a
row that was written, the key of a row that was deleted, or a snapshot of all tables. A checksum
over all its parts tells a damaged entry from a good one.

## Main definitions

* `JournalEntry`, `JournalEntry.verify`: entries and their checksum.
* `JournalEntry.record`, `JournalEntry.tables`: what an entry holds.
* `JournalEntry.body`, `JournalEntry.ofBody?`, `JournalEntry.frame`: the binary form.
* `Replay`, `Replay.ofBytes`: the entries of a journal file.
-/

namespace LiveDocs

/-- What can go wrong with a journal. -/
inductive JournalError where
  | io
  | encode
  | decode
  | compression
deriving DecidableEq

namespace JournalError

def code : JournalError → String
  | io => "Io"
  | encode => "Encode"
  | decode => "Decode"
  | compression => "Compression"

def message : JournalError → String
  | io => "journal i/o error: the file cannot be used"
  | encode => "journal encode error: the entry cannot be written"
  | decode => "journal decode error: the payload is not what it should be"
  | compression => "journal compression error: the payload is no compressed block"

end JournalError

/-- What an entry records. -/
inductive EntryKind where
  | upsert
  | delete
  | snapshot
deriving DecidableEq

namespace EntryKind

/-- The number of a kind in the binary form. -/
def index : EntryKind → Nat
  | upsert => 0
  | delete => 1
  | snapshot => 2

def ofIndex? : Nat → Option EntryKind
  | 0 => some upsert
  | 1 => some delete
  | 2 => some snapshot
  | _ => none

/-- The byte that stands for a kind in the checksum. -/
def mark (k : EntryKind) : UInt8 := UInt8.ofNat (k.index + 1)

def name : EntryKind → String
  | upsert => "upsert"
  | delete => "delete"
  | snapshot => "snapshot"

end EntryKind

/-- The rows of all tables by name. -/
abbrev TableDump := SortedMap String (List Record)

/-- An entry of a journal. The table of a snapshot is empty. -/
structure JournalEntry where
  sequence : UInt64
  kind : EntryKind
  table : String
  payload : Bytes
  checksum : UInt32
deriving DecidableEq

/-- One step of the FNV-1a hash. -/
def hashByte (hash : UInt32) (byte : UInt8) : UInt32 := (hash ^^^ byte.toUInt32) * 0x01000193

/-- The FNV-1a hash of some bytes. -/
def hashBytes (bytes : Bytes) : UInt32 := bytes.foldl hashByte 0x811c9dc5

namespace JournalEntry

/-- The bytes that the checksum covers. -/
def checkedBytes (sequence : UInt64) (kind : EntryKind) (table : String) (payload : Bytes) :
    Bytes :=
  Bytes.ofNat 8 sequence.toNat ++ kind.mark :: Bytes.ofText table ++ payload

/-- An entry with its checksum. -/
def make (sequence : UInt64) (kind : EntryKind) (table : String) (payload : Bytes) : JournalEntry :=
  ⟨sequence, kind, table, payload, hashBytes (checkedBytes sequence kind table payload)⟩

/-- Whether the checksum fits. -/
def verify (e : JournalEntry) : Bool :=
  e.checksum == hashBytes (checkedBytes e.sequence e.kind e.table e.payload)

/-- A row that was written. -/
def upsert (sequence : UInt64) (table : String) (row : Record) : JournalEntry :=
  make sequence .upsert table (Bytes.ofText row.render)

/-- The key of a row that was deleted. -/
def delete (sequence : UInt64) (table : String) (key : Record) : JournalEntry :=
  make sequence .delete table (Bytes.ofText key.render)

def dumpJson (tables : TableDump) : Json :=
  .obj (tables.entries.map fun e => (e.1, .arr (e.2.map Json.ofRecord)))

/-- The bytes that a snapshot holds in compressed form. -/
def dumpBytes (tables : TableDump) : Bytes := Bytes.ofText (dumpJson tables).render

/-- The rows of all tables. -/
def snapshot (compress : Bytes → Bytes) (sequence : UInt64) (tables : TableDump) : JournalEntry :=
  make sequence .snapshot "" (compress (dumpBytes tables))

/-- The record in the payload of an entry for one row. -/
def record (e : JournalEntry) : Except JournalError Record :=
  match (Bytes.text? e.payload).bind Record.parse? with
  | some record => .ok record
  | none => .error .decode

/-- Reads rows of all tables from JSON. -/
def dumpOfJson? (j : Json) : Option TableDump := do
  let tables ← j.record?
  let entries ← tables.entries.mapM fun e => do
    let rows ← e.2.items?
    let rows ← rows.mapM Json.record?
    some (e.1, rows)
  some (.ofList entries)

/-- The tables in the payload of a snapshot. -/
def tables (e : JournalEntry) : Except JournalError TableDump :=
  match Block.decompress? e.payload with
  | none => .error .compression
  | some raw =>
    match ((Bytes.text? raw).bind Json.parse?).bind dumpOfJson? with
    | some tables => .ok tables
    | none => .error .decode

/-- The body of a frame. -/
def body (e : JournalEntry) : Bytes :=
  let table := Bytes.ofText e.table
  Varint.encode e.sequence.toNat ++ Varint.encode e.kind.index ++
    Varint.encode table.length ++ table ++
    Varint.encode e.payload.length ++ e.payload ++ Varint.encode e.checksum.toNat

/-- A body behind its length. -/
def frame (e : JournalEntry) : Bytes := Bytes.ofNat 4 e.body.length ++ e.body

/-- Reads a body. What follows the entry is ignored. A length in it may be any number: if fewer
bytes follow, the body cannot be read, however much memory that length would ask for. -/
def ofBody? (bytes : Bytes) : Option JournalEntry := do
  let (sequence, bytes) ← Varint.decode? 8 bytes
  let (kind, bytes) ← Varint.decode? 4 bytes
  let kind ← EntryKind.ofIndex? kind
  let (length, bytes) ← Varint.decode? 8 bytes
  let (table, bytes) ← Bytes.split? length bytes
  let table ← Bytes.text? table
  let (length, bytes) ← Varint.decode? 8 bytes
  let (payload, bytes) ← Bytes.split? length bytes
  let (checksum, _) ← Varint.decode? 4 bytes
  some ⟨UInt64.ofNat sequence, kind, table, payload, UInt32.ofNat checksum⟩

end JournalEntry

/-- What a journal file holds: its good entries in the order of their sequence numbers, and the
number of frames that are damaged or cut off. -/
structure Replay where
  entries : List JournalEntry
  corrupted : Nat

namespace Replay

/-- Splits a file into bodies of frames. The flag tells whether something is left behind the last
whole frame. -/
def bodies : Nat → Bytes → List Bytes × Bool
  | 0, bytes => ([], !bytes.isEmpty)
  | _, [] => ([], false)
  | fuel + 1, bytes =>
    match Bytes.split? 4 bytes with
    | none => ([], true)
    | some (length, rest) =>
      match Bytes.split? length.toNat rest with
      | none => ([], true)
      | some (body, rest) =>
        let (more, torn) := bodies fuel rest
        (body :: more, torn)

/-- The entry of a body, if it is a good one. -/
def good? (body : Bytes) : Option JournalEntry :=
  (JournalEntry.ofBody? body).filter JournalEntry.verify

/-- Puts an entry behind those with the same or a lower sequence number. -/
def insertBySequence (e : JournalEntry) : List JournalEntry → List JournalEntry
  | [] => [e]
  | first :: rest =>
    if e.sequence < first.sequence then e :: first :: rest else first :: insertBySequence e rest

/-- Entries in the order of their sequence numbers; those with one number keep their order. -/
def sortBySequence (entries : List JournalEntry) : List JournalEntry :=
  entries.foldl (fun sorted e => insertBySequence e sorted) []

/-- Reads a journal file. Every frame takes four bytes, so the length of the file bounds their
number. -/
def ofBytes (bytes : Bytes) : Replay :=
  let (bodies, torn) := bodies (bytes.length + 1) bytes
  let good := bodies.filterMap good?
  ⟨sortBySequence good, (bodies.length - good.length) + if torn then 1 else 0⟩

end Replay

end LiveDocs

import LiveDocs.Engine.Control

/-!
# Reports

Errors, events, results and states as JSON, for whoever watches from outside.

## Main definitions

* `Report.failure`: an error by its code and its message.
* `Report.entry`, `Report.replay`: journals.
* `Report.outcome`: the result of a call.
* `Report.feed`, `Report.table`, `Report.document`: the state of a feed, a table or a document.
* `Report.feedEvent`, `Report.tableEvent`, `Report.documentEvent`: events.
-/

namespace LiveDocs

namespace Report

def object (fields : List (String × Json)) : Json := Json.ofRecord (.ofList fields)

/-- A value that may be absent. -/
def orNull {α : Type} (encode : α → Json) : Option α → Json
  | some a => encode a
  | none => .null

def texts (names : List String) : Json := .arr (names.map Json.str)

def rows (rows : List Record) : Json := .arr (rows.map Json.ofRecord)

/-- Rows by key. -/
def keyedRows (rows : Rows) : Json := object (rows.entries.map fun e => (e.1, .ofRecord e.2))

/-- The id of a patch: its time and its user. -/
def patchId (id : PatchId) : Json := .arr [.ofUInt64 id.time, .ofNat id.user.toNat]

/-! ## Errors -/

/-- An error without its message. -/
def bareFailure (code : String) : Json := object [("error", .str code)]

/-- An error by its code and its message. -/
def failure (code message : String) : Json :=
  object [("error", .str code), ("message", .str message)]

def documentError (e : DocumentError) : Json := failure e.code e.message

def queryError (e : QueryError) : Json := failure e.code e.message

def commandError (e : CommandError) : Json := failure e.code e.message

def tableError (e : TableError) : Json := failure e.code e.message

def syncError (e : SyncError) : Json := failure e.code e.message

def registryError (e : RegistryError) : Json := failure e.code e.message

def journalError (e : JournalError) : Json := bareFailure e.code

/-- A result or an error. -/
def result {ε α : Type} (failed : ε → Json) (encode : α → Json) : Except ε α → Json
  | .ok a => encode a
  | .error e => failed e

/-! ## Contents and histories -/

/-- A record set: its text and its records. -/
def recordSet (d : RecordSet) : Json :=
  object
    [("text", .str d.render), ("len", .ofNat d.size), ("empty", .bool (d.size == 0)),
      ("records", rows d.records.values)]

def historyEntry {δ π : Type} (f : Format δ π) (id : PatchId) (e : HistoryEntry π) : Json :=
  object
    [("id", patchId id), ("patch", f.encode e.patch), ("snapshot", orNull Json.str e.snapshot)]

/-- The options of a document of some kind. -/
def options (kind : Kind) (o : DocumentOptions) : Json :=
  let duration (ms : UInt64) : Json := .str (durationText ms.toNat)
  object
    [("config", .ofRecord o.settings.toRecord), ("path", .str o.path),
      ("feed_timeout", duration o.settings.feedTimeout),
      ("write_timeout", duration o.settings.writeTimeout),
      ("init_timeout", orNull duration o.settings.initLimit?),
      ("document", .ofRecord (Descriptor.ofKind kind o.primaryKeys).options),
      ("load_from_disk", .bool o.loadFromDisk)]

/-! ## Queries and journals -/

/-- A query handed to the data layer. -/
def request (r : Request) : Json :=
  object
    [("query", r.query), ("changes", .bool r.changes), ("timeout_ms", .ofNat r.timeout),
      ("options", .arr r.options)]

/-- What arrives for a query. The id of a feed is only told to be there. -/
def reply : Reply → Json
  | .ok response =>
    let shown := response.toRecord
    .ofRecord (if shown.contains "id" then shown.insert "id" (.bool true) else shown)
  | .error e => queryError e

/-- What an entry of a journal holds. -/
def entryContent (e : JournalEntry) : List (String × Json) :=
  match e.kind with
  | .snapshot => [("tables", result journalError JournalEntry.dumpJson e.tables)]
  | _ =>
    [("checksum", .ofNat e.checksum.toNat), ("record", result journalError Json.ofRecord e.record)]

/-- The parts of an entry of a journal. -/
def entryParts (e : JournalEntry) : List (String × Json) :=
  [("sequence", .ofUInt64 e.sequence), ("verify", .bool e.verify), ("kind", .str e.kind.name),
    ("table", .str e.table)] ++ entryContent e

/-- What a journal file holds. -/
def replay (r : Replay) : Json :=
  object
    [("entries", .arr (r.entries.map fun e => object (entryParts e))),
      ("corrupted", .ofNat r.corrupted)]

/-- Where a journal stands. -/
def journal (j : Journal) : Json :=
  .arr [.ofUInt64 j.nextSequence, .ofNat j.sinceSnapshot, .bool j.needsCompaction]

/-- How often things happened in a database. -/
def database (db : Database) : Json :=
  .arr
    [.ofNat db.stats.queries, .ofNat db.stats.writes, .ofNat db.stats.deltasSent,
      .ofNat db.stats.feedsDropped, .ofNat db.feeds.length]

/-! ## Feeds, tables and documents -/

def outcome : CallOutcome → Json
  | .feedConnected r =>
    result (fun e : ConnectionError => failure e.code e.message)
      (fun found => object [("rows", rows found)]) r
  | .tableDone r => result tableError (fun () => .str "ok") r
  | .tableRows r => result tableError (fun found => object [("rows", keyedRows found)]) r
  | .committed r => result syncError (fun id => object [("patch", orNull patchId id)]) r
  | .documentDone r => result syncError (fun () => object [("ok", .null)]) r
  | .loaded r => result syncError (fun changed => object [("ok", .bool changed)]) r
  | .opened path => object [("opened", orNull Json.str path)]
  | .sessionEnded r => result tableError (fun () => .str "stopped") r

def feedEvent : FeedEvent → Json
  | .update change => .ofRecord change.toRecord
  | .close => .str "close"

def tableEvent : TableEvent → Json
  | .connected => .str "connected"
  | .change keys => texts keys
  | .disconnected => .str "disconnected"
  | .closed => .str "closed"

def documentEvent : DocumentEvent → Json
  | .ready => .str "ready"
  | .change => .str "change"
  | .saved => .str "saved"
  | .error detail => object [("error", .str detail)]
  | .closed => .str "closed"

def feed (f : Feed) : List (String × Json) :=
  [("state", .str f.state.name), ("id", orNull Json.str f.id), ("pending", .ofNat f.pendingCount)]

def table (t : Table) : List (String × Json) :=
  [("state", .str t.state.name), ("rows", keyedRows t.rows), ("pending", .ofNat t.waiting.length)]

def document (d : Document) : Json :=
  object
    [("state", .str d.state.name), ("text", .str d.text),
      ("user", orNull (fun u : UInt32 => .ofNat u.toNat) d.user),
      ("versions", .arr (d.versions.map patchId)), ("unsaved", .bool d.hasUnsavedChanges)]

/-- What a document is. -/
def documentInfo (d : Document) : Json :=
  let latest := d.replica.history.latest?
  object
    [("path", .str d.path), ("string_id", .str d.stringId), ("type", .str d.kind.name),
      ("last_changed", orNull (fun id : PatchId => .str (toString id.time.toNat)) latest),
      ("debug", .str d.describe),
      ("kinds", .arr [.bool (d.kind == .text), .bool (d.kind == .records)])]

def hookRun (h : HookRun) : Json :=
  .arr [.str h.label, .str h.path, .str h.state.name, .str h.client]

end Report

end LiveDocs

import LiveDocs.Journal.Basic
import LiveDocs.Query.Response

/-!
# Databases

Tables in memory. A get query is answered with the rows that match it, and if changes are wanted, it
stays as a *feed*: every later write is sent to the feeds whose filter the row passes before or
after it. A set query merges fields into a row. Writes may be held back and released later, and with
a journal every write is recorded before it is made.

What is sent goes to numbered sinks, given as a list of posts in the order they are sent. Whether
somebody still listens at a sink is asked of the caller: a feed that nobody listens to is dropped
when something is sent to it.

## Main definitions

* `Database`: the tables, feeds and held writes.
* `Post`: something sent to a sink, or the end of a sink.
* `Database.upsert`, `Database.delete`: writes.
* `Database.query`, `Database.cancel`: queries and the end of a feed.
* `Database.release`, `Database.disconnect`: held writes, and the loss of all feeds.
* `Database.openOn`: a database restored from a journal.
-/

namespace LiveDocs

/-- The number of a place that responses are sent to. -/
abbrev SinkId := Nat

/-- Something sent to a sink, or the end of it: nothing more will be sent. -/
inductive Post where
  | send (sink : SinkId) (reply : Reply)
  | finish (sink : SinkId)

/-- A table: its schema and its rows. -/
structure StoredTable where
  schema : Schema
  rows : Rows

/-- A query whose changes are sent to a sink. -/
structure StoredFeed where
  id : String
  query : Query
  sink : SinkId

/-- A set query that waits to be released. -/
structure HeldWrite where
  table : String
  row : Record
  expected : Option Record
  sink : SinkId

/-- How often things happened. -/
structure DatabaseStats where
  queries : Nat
  writes : Nat
  deltasSent : Nat
  feedsDropped : Nat
deriving DecidableEq

/-- Tables in memory, with their feeds and held writes. -/
structure Database where
  tables : SortedMap String StoredTable
  /-- The feeds in the order they were opened. -/
  feeds : List StoredFeed
  held : List HeldWrite
  holding : Bool
  journal : Option Journal
  stats : DatabaseStats
  /-- The number of feeds opened so far. -/
  feedCount : Nat

namespace Database

def empty (schemas : List Schema) : Database where
  tables := .ofList (schemas.map fun s => (s.name, ⟨s, .empty⟩))
  feeds := []
  held := []
  holding := false
  journal := none
  stats := ⟨0, 0, 0, 0⟩
  feedCount := 0

/-- The tables of stored documents. -/
def forDocuments : Database := empty [Schema.syncstrings, Schema.patches]

def rows (db : Database) (table : String) : List Record :=
  match db.tables.get? table with
  | some t => t.rows.values
  | none => []

/-- Adds a table unless there is one with that name. -/
def define (db : Database) (schema : Schema) : Database :=
  if db.tables.contains schema.name then db
  else { db with tables := db.tables.insert schema.name ⟨schema, .empty⟩ }

def dump (db : Database) : TableDump := db.tables.map fun _ t => t.rows.values

/-! ## Feeds -/

/-- What a feed is told of a write that turned the row `old` into `new`. A row that the query
selects before and after was updated; one that it selects only before or only after counts as
deleted or inserted. -/
def changeFor (query : Query) (schema : Schema) (old new : Option Record) : Option Change :=
  let project := query.project schema
  let before := old.filter query.matchesRow
  let after := new.filter query.matchesRow
  match before, after with
  | none, none => none
  | none, some row => some ⟨.insert, some (project row), none⟩
  | some oldRow, some row => some ⟨.update, some (project row), some (project oldRow)⟩
  | some oldRow, none => some ⟨.delete, none, some (project oldRow)⟩

/-- What happens at one feed after a write. -/
inductive FeedOutcome where
  /-- The write does not concern the feed. -/
  | untouched
  /-- The change is sent. -/
  | sent (change : Change)
  /-- There is a change and nobody to send it to. -/
  | dead

/-- What happens at a feed after a write to a table. -/
def feedOutcome (alive : SinkId → Bool) (schema : Schema) (old new : Option Record)
    (feed : StoredFeed) : FeedOutcome :=
  if feed.query.table ≠ schema.name then .untouched
  else
    match changeFor feed.query schema old new with
    | none => .untouched
    | some change => if alive feed.sink then .sent change else .dead

/-- Tells every feed of a write. -/
def fanOut (alive : SinkId → Bool) (db : Database) (schema : Schema) (old new : Option Record) :
    Database × List Post :=
  let outcomes := db.feeds.map fun feed => (feed, feedOutcome alive schema old new feed)
  let kept := outcomes.filterMap fun (feed, outcome) =>
    match outcome with
    | .dead => none
    | _ => some feed
  let posts := outcomes.filterMap fun (feed, outcome) =>
    match outcome with
    | .sent change => some (Post.send feed.sink (.ok (.ofChange change)))
    | _ => none
  ({ db with
      feeds := kept
      stats :=
        { db.stats with
          deltasSent := db.stats.deltasSent + posts.length
          feedsDropped := db.stats.feedsDropped + (db.feeds.length - kept.length) } },
    posts)

/-! ## Writes -/

/-- Records a write in the journal, if there is one. -/
def record (db : Database) (write : Journal → Journal) : Database :=
  { db with journal := db.journal.map write }

/-- Replaces the journal by a snapshot. -/
def compact (db : Database) : Except JournalError Database :=
  match db.journal with
  | none => .ok db
  | some journal =>
    match journal.compact db.dump with
    | .ok journal => .ok { db with journal := some journal }
    | .error e => .error e

/-- Replaces the journal by a snapshot if it has grown enough; a failure changes nothing. -/
def compactIfNeeded (db : Database) : Database :=
  match db.journal with
  | some journal =>
    if journal.needsCompaction then
      match db.compact with
      | .ok db => db
      | .error _ => db
    else db
  | none => db

/-- The database with the row under a key replaced or removed. -/
def setRow (db : Database) (table : StoredTable) (key : String) (row : Option Record) : Database :=
  let rows :=
    match row with
    | some row => table.rows.insert key row
    | none => table.rows.erase key
  { db with tables := db.tables.insert table.schema.name { table with rows } }

/-- Makes a write that was recorded and tells the feeds. -/
def commit (alive : SinkId → Bool) (db : Database) (table : StoredTable) (key : String)
    (old new : Option Record) : Database × List Post :=
  let db := db.setRow table key new
  let db := { db with stats := { db.stats with writes := db.stats.writes + 1 } }
  let (db, posts) := fanOut alive db table.schema old new
  (db.compactIfNeeded, posts)

/-- Merges a row into the row with the same key. A row that stays as it is counts as no write. -/
def upsert (alive : SinkId → Bool) (db : Database) (table : String) (row : Record) :
    Database × List Post × Except QueryError Unit :=
  match db.tables.get? table with
  | none => (db, [], .error (.unknownTable table))
  | some t =>
    match t.schema.key? row with
    | none => (db, [], .error (.malformed (.keylessRow table)))
    | some key =>
      let old := t.rows.get? key
      let merged := (old.getD .empty).merge row
      if old.any (· == merged) then (db, [], .ok ())
      else
        let db := db.record fun j => j.appendUpsert table merged
        let (db, posts) := commit alive db t key old (some merged)
        (db, posts, .ok ())

/-- Removes the row with the key of `key`. Tells whether there was one. -/
def delete (alive : SinkId → Bool) (db : Database) (table : String) (key : Record) :
    Database × List Post × Except QueryError Bool :=
  match db.tables.get? table with
  | none => (db, [], .error (.unknownTable table))
  | some t =>
    match t.schema.key? key with
    | none => (db, [], .error (.malformed .keylessDelete))
    | some keyText =>
      match t.rows.get? keyText with
      | none => (db, [], .ok false)
      | some old =>
        let db := db.record fun j => j.appendDelete table (t.schema.keyFields key)
        let (db, posts) := commit alive db t keyText (some old) none
        (db, posts, .ok true)

/-- A write that is refused if the stored row does not have the fields of `expected`. -/
def write (alive : SinkId → Bool) (db : Database) (table : String) (row : Record)
    (expected : Option Record) : Database × List Post × Except QueryError Unit :=
  match expected with
  | none => upsert alive db table row
  | some expected =>
    match db.tables.get? table with
    | none => (db, [], .error (.unknownTable table))
    | some t =>
      let current := (t.schema.key? row).bind t.rows.get?
      if rowMatches current expected then upsert alive db table row
      else (db, [], .error (.conflict table))

/-- The answer to a set query. -/
def acknowledgement : Except QueryError Unit → Reply
  | .ok () => .ok .empty
  | .error e => .error e

/-- Makes a write and answers it. -/
def writeAndAnswer (alive : SinkId → Bool) (db : Database) (w : HeldWrite) : Database × List Post :=
  let (db, posts, result) := write alive db w.table w.row w.expected
  (db, posts ++ [.send w.sink (acknowledgement result), .finish w.sink])

/-! ## Queries -/

def select (db : Database) (query : Query) : Option (List Record) :=
  (db.tables.get? query.table).map fun t =>
    (t.rows.values.filter query.matchesRow).map (query.project t.schema)

/-- The id of a feed. -/
def feedId (number : Nat) : String := "changefeed-" ++ toString number

/-- Answers a get query and keeps it as a feed if changes are wanted and somebody listens. -/
def get (alive : SinkId → Bool) (db : Database) (query : Query) (changes : Bool) (sink : SinkId) :
    Database × List Post :=
  match db.select query with
  | none => (db, [.send sink (.error (.unknownTable query.table)), .finish sink])
  | some rows =>
    let id := if changes then some (feedId db.feedCount) else none
    let initial := Post.send sink (.ok (.initial id query.table rows))
    match id with
    | none => (db, [initial, .finish sink])
    | some id =>
      if alive sink then
        ({ db with feeds := db.feeds ++ [⟨id, query, sink⟩], feedCount := db.feedCount + 1 },
          [initial])
      else (db, [.finish sink])

def query (alive : SinkId → Bool) (db : Database) (request : Request) (sink : SinkId) :
    Database × List Post :=
  match Statement.parse request.query with
  | .error e => (db, [.send sink (.error e), .finish sink])
  | .ok statement =>
    let db := { db with stats := { db.stats with queries := db.stats.queries + 1 } }
    match statement with
    | .get query => db.get alive query request.changes sink
    | .set table row =>
      let write : HeldWrite := ⟨table, row, request.precondition?, sink⟩
      if db.holding then ({ db with held := db.held ++ [write] }, [])
      else writeAndAnswer alive db write

/-- Ends the feed with an id. -/
def cancel (db : Database) (id : String) : Database × List Post × Except QueryError Unit :=
  match db.feeds.find? fun f => f.id == id with
  | none => (db, [], .error (.unknownQuery id))
  | some feed =>
    ({ db with feeds := db.feeds.filter fun f => f.id != id },
      [.send feed.sink (.ok .cancelled), .finish feed.sink], .ok ())

/-- Makes some held writes, one after the other. -/
def writeAll (alive : SinkId → Bool) (db : Database) : List HeldWrite → Database × List Post
  | [] => (db, [])
  | w :: rest =>
    let (db, posts) := writeAndAnswer alive db w
    let (db, more) := writeAll alive db rest
    (db, posts ++ more)

/-- Makes and answers every held write. -/
def release (alive : SinkId → Bool) (db : Database) : Database × List Post :=
  writeAll alive { db with held := [] } db.held

/-- Drops every feed and every held write as if the connection was lost. -/
def disconnect (db : Database) : Database × List Post :=
  ({ db with
      feeds := []
      held := []
      stats := { db.stats with feedsDropped := db.stats.feedsDropped + db.feeds.length } },
    (db.feeds.flatMap fun f => [Post.send f.sink (.error .disconnected), .finish f.sink]) ++
      db.held.map fun w => Post.finish w.sink)

/-- The end of all sinks, when the database goes away. -/
def shutDown (db : Database) : List Post :=
  (db.feeds.map fun f => Post.finish f.sink) ++ db.held.map fun w => Post.finish w.sink

/-! ## Restoring from a journal -/

/-- Puts whole rows into a table; rows without a key and unknown tables are skipped. -/
def restoreRows (tables : SortedMap String StoredTable) (name : String) (rows : List Record) :
    SortedMap String StoredTable :=
  match tables.get? name with
  | none => tables
  | some t =>
    let restored := rows.foldl (fun m row => match t.schema.key? row with
      | some key => m.insert key row
      | none => m) t.rows
    tables.insert name { t with rows := restored }

/-- Removes the row with the key of a deletion. -/
def restoreDelete (tables : SortedMap String StoredTable) (name : String) (key : Record) :
    SortedMap String StoredTable :=
  match tables.get? name with
  | none => tables
  | some t =>
    match t.schema.key? key with
    | some key => tables.insert name { t with rows := t.rows.erase key }
    | none => tables

/-- Tables after one entry of a journal. A snapshot replaces all rows. -/
def restoreEntry (tables : SortedMap String StoredTable) (e : JournalEntry) :
    Except JournalError (SortedMap String StoredTable) :=
  match e.kind with
  | .snapshot =>
    match e.tables with
    | .error error => .error error
    | .ok dump =>
      let cleared := tables.map fun _ t => { t with rows := .empty }
      .ok (dump.entries.foldl (fun tables d => restoreRows tables d.1 d.2) cleared)
  | .upsert =>
    match e.record with
    | .error error => .error error
    | .ok row => .ok (restoreRows tables e.table [row])
  | .delete =>
    match e.record with
    | .error error => .error error
    | .ok key => .ok (restoreDelete tables e.table key)

/-- Tables after some entries of a journal. -/
def restoreEntries (tables : SortedMap String StoredTable) :
    List JournalEntry → Except JournalError (SortedMap String StoredTable)
  | [] => .ok tables
  | e :: rest =>
    match restoreEntry tables e with
    | .ok tables => restoreEntries tables rest
    | .error error => .error error

/-- Opens the journal of a volume and restores the tables from it. -/
def openOn (schemas : List Schema) (compress : Bytes → Bytes) (compactAfter : UInt64)
    (volume : Volume) : Except JournalError Database :=
  match Journal.openOn compress compactAfter volume with
  | .error e => .error e
  | .ok (journal, replay) =>
    let db := empty schemas
    match restoreEntries db.tables replay.entries with
    | .error e => .error e
    | .ok tables => .ok { db with tables, journal := some journal }

end Database

end LiveDocs

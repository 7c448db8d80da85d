import LiveDocs.Feed
import LiveDocs.Settings

/-!
# Tables

A table keeps the rows of a query: it takes them from the first response of a feed and follows the
feed's changes. A local write is put into the rows at once, before the data layer has answered, and
taken back if it fails and nothing newer has replaced it. A table that loses its feed is
disconnected and may be connected again; all writes that wait for an answer fail then.

A table changes in single steps, each a function from a table to a table. What others may be waiting
for, and what is to be done with feeds, is reported as a list of notices, in the order it happens.

## Main definitions

* `Table`, `TableEvent`, `TableError`: a table, what its subscribers see, and what may go wrong.
* `Table.beginConnect`, `Table.finishConnect`, `Table.connectFailed`: connecting.
* `Table.beginWrite`, `Table.settle`, `Table.resumeWrite`, `Table.rollback`: local writes.
* `Table.applyChange`, `Table.feedClosed`, `Table.close`.
-/

namespace LiveDocs

/-- What may go wrong with a table. -/
inductive TableError where
  | connection (cause : ConnectionError)
  /-- A limit in milliseconds has passed. -/
  | timeout (milliseconds : Nat)
  | disconnected
  | closed
  | missingPrimaryKey (table : String)
  | rejected (cause : QueryError)
deriving DecidableEq

namespace TableError

/-- The name of the kind of an error, with the kind of its cause behind a dot. -/
def code : TableError → String
  | connection cause => "Connection." ++ cause.code
  | timeout _ => "Timeout"
  | disconnected => "Disconnected"
  | closed => "Closed"
  | missingPrimaryKey _ => "MissingPrimaryKey"
  | rejected cause => "Rejected." ++ cause.code

def message : TableError → String
  | connection cause => cause.message
  | timeout milliseconds => "timed out after " ++ durationText milliseconds
  | disconnected => "disconnected before the write was acknowledged"
  | closed => "table is closed"
  | missingPrimaryKey table =>
    "record is missing primary key fields of table '" ++ table ++ "'"
  | rejected cause => "write rejected: " ++ cause.message

end TableError

/-- What the subscribers of a table see. -/
inductive TableEvent where
  | connected
  /-- The rows with these keys have changed. -/
  | change (keys : List String)
  | disconnected
  | closed
deriving DecidableEq

abbrev FeedId := Nat

/-- The rows of a query, kept up to date. -/
structure Table where
  schema : Schema
  query : Query
  settings : Settings
  state : ConnectionState
  rows : Rows
  /-- How often the rows were replaced. -/
  revision : Nat
  feed : Option FeedId
  /-- The writes that wait for an answer, in the order they were made. -/
  waiting : List Nat
  /-- The outcomes of writes that were not taken yet. -/
  settled : SortedMap Nat (Except TableError Unit)
  /-- The number of the next write. -/
  nextWrite : Nat
  events : EventBus TableEvent
  /-- Whether nobody holds the table any more. -/
  released : Bool

/-- What others may be waiting for, or what is to be done. -/
inductive TableNotice where
  | state
  | rows
  /-- There is an event, or there will be no more. -/
  | events
  /-- A write has an outcome. -/
  | outcome (write : Nat)
  | closeFeed (feed : FeedId)
deriving DecidableEq

/-- A local write: the row before it and with it. -/
structure LocalWrite where
  number : Nat
  key : String
  previous : Option Record
  optimistic : Option Record

namespace Table

def new (schema : Schema) (query : Query) (settings : Settings) : Table where
  schema
  query
  settings
  state := .disconnected
  rows := .empty
  revision := 0
  feed := none
  waiting := []
  settled := .empty
  nextWrite := 0
  events := .empty
  released := false

/-- The row with the same key. -/
def get? (t : Table) (key : Record) : Option Record := (t.schema.key? key).bind t.rows.get?

def first? (t : Table) : Option Record := t.rows.values.head?

def describe (t : Table) : String :=
  "SyncTable \x7b table: " ++ quotedName t.schema.name ++ ", state: " ++ t.state.title ++
    ", rows: " ++ toString t.rows.size ++ " \x7d"

def emit (t : Table) (event : TableEvent) : Table := { t with events := t.events.emit event }

/-! ## Rows -/

/-- Equality of rows that may be absent. -/
def sameRow : Option Record → Option Record → Bool
  | none, none => true
  | some a, some b => a == b
  | _, _ => false

/-- Sets or removes the row under a key. The flag tells whether something has changed. -/
def replaceRow (t : Table) (key : String) (row : Option Record) : Table × Bool :=
  if sameRow (t.rows.get? key) row then (t, false)
  else
    let rows :=
      match row with
      | some row => t.rows.insert key row
      | none => t.rows.erase key
    ({ t with rows, revision := t.revision + 1 }, true)

/-- Puts fields into the row under a key. The flag tells whether something has changed. -/
def mergeRow (t : Table) (key : String) (fields : Record) : Table × Bool :=
  match t.rows.get? key with
  | some row => t.replaceRow key (some (row.merge fields))
  | none => t.replaceRow key (some fields)

/-- Tells the subscribers of a changed row. -/
def announce (key : String) : Table × Bool → Table × List TableNotice
  | (t, true) => (t.emit (.change [key]), [.rows, .events])
  | (t, false) => (t, [])

/-- Follows a change of the feed. Changes without a key are skipped. -/
def applyChange (t : Table) (c : Change) : Table × List TableNotice :=
  match c.action with
  | .delete =>
    match (c.oldRow.orElse fun _ => c.newRow).bind t.schema.key? with
    | some key => announce key (t.replaceRow key none)
    | none => (t, [])
  | .insert | .update =>
    match c.newRow with
    | none => (t, [])
    | some row =>
      match t.schema.key? row with
      | some key => announce key (t.mergeRow key row)
      | none => (t, [])

/-! ## Writes -/

/-- Gives a waiting write its outcome. -/
def settle (t : Table) (write : Nat) (outcome : Except TableError Unit) :
    Table × List TableNotice :=
  if t.waiting.contains write then
    ({ t with
        waiting := t.waiting.filter (· != write)
        settled := t.settled.insert write outcome },
      [.outcome write])
  else (t, [])

/-- Gives every waiting write the same failure. -/
def failWaiting (t : Table) (e : TableError) : Table × List TableNotice :=
  ({ t with
      waiting := []
      settled := t.waiting.foldl (fun m w => m.insert w (.error e)) t.settled },
    t.waiting.map .outcome)

/-- Starts a write: the row is changed at once, and the write waits for its answer. -/
def beginWrite (t : Table) (record : Record) :
    Except TableError (Table × List TableNotice × LocalWrite) :=
  match t.state with
  | .closed => .error .closed
  | .disconnected | .connecting => .error .disconnected
  | .connected =>
    match t.schema.key? record with
    | none => .error (.missingPrimaryKey t.schema.name)
    | some key =>
      let previous := t.rows.get? key
      let (t, notices) := announce key (t.mergeRow key record)
      .ok
        ({ t with waiting := t.waiting ++ [t.nextWrite], nextWrite := t.nextWrite + 1 }, notices,
          ⟨t.nextWrite, key, previous, t.rows.get? key⟩)

/-- The write as it is sent. -/
def request (t : Table) (record : Record) (expected : Option Record) : Request :=
  let timeout := t.settings.writeTimeout.toNat
  match expected with
  | some expected => Request.setIf t.schema.name record expected timeout
  | none => Request.set t.schema.name record timeout

/-- What the answer to a write means. No answer means that the connection was lost. -/
def writeOutcome : Option Reply → Except TableError Unit
  | some (.ok _) => .ok ()
  | some (.error .disconnected) | none => .error .disconnected
  | some (.error cause) => .error (.rejected cause)

/-- A write that has waited too long waits no more. -/
def expire (t : Table) (write : Nat) : Table :=
  { t with waiting := t.waiting.filter (· != write) }

/-- Takes the outcome of a write, if there is one. -/
def takeOutcome? (t : Table) (write : Nat) : Option (Except TableError Unit × Table) :=
  (t.settled.get? write).map fun outcome => (outcome, { t with settled := t.settled.erase write })

/-- Takes back a failed write unless something newer has replaced it. -/
def rollback (t : Table) (w : LocalWrite) : Table × List TableNotice :=
  if t.state = .closed then (t, [])
  else if sameRow (t.rows.get? w.key) w.optimistic then
    announce w.key (t.replaceRow w.key w.previous)
  else (t, [])

/-- The call of a write goes on. It returns the outcome of the write if there is one, or fails if
the limit given here has passed; a write that has failed is taken back. Otherwise the call waits. -/
def resumeWrite (t : Table) (w : LocalWrite) (passed : Option Nat) :
    Option (Except TableError Unit × Table × List TableNotice) :=
  match t.takeOutcome? w.number with
  | some (.ok (), t) => some (.ok (), t, [])
  | some (.error cause, t) => some (.error cause, t.rollback w)
  | none => passed.map fun limit => (.error (.timeout limit), (t.expire w.number).rollback w)

/-! ## Connecting and closing -/

def beginConnect (t : Table) : Except TableError Table :=
  match t.state with
  | .disconnected => .ok { t with state := .connecting }
  | .closed => .error .closed
  | state => .error (.connection (.notDisconnected state))

/-- The table without a feed, if it is this one. -/
def forgetFeed (t : Table) (feed : FeedId) : Table :=
  if t.feed = some feed then { t with feed := none } else t

/-- Gives up connecting with a feed. -/
def connectFailed (t : Table) (feed : FeedId) : Table × List TableNotice :=
  let t := t.forgetFeed feed
  if t.state = .connecting then ({ t with state := .disconnected }, [.state]) else (t, [])

/-- Completes the connection with the first rows; rows without a key are skipped. -/
def finishConnect (t : Table) (rows : List Record) : Except TableError (Table × List TableNotice) :=
  if t.state = .closed then .error .closed
  else
    let keyed := rows.filterMap fun row => (t.schema.key? row).map fun key => (key, row)
    .ok
      (({ t with rows := .ofList keyed, revision := t.revision + 1, state := .connected } :
          Table).emit .connected,
        [.rows, .state, .events])

/-- A feed was closed. If it was the feed of this table, the table is disconnected. -/
def feedClosed (t : Table) (feed : FeedId) : Table × List TableNotice :=
  if t.feed = some feed then
    let t := t.forgetFeed feed
    if t.state = .closed then (t, [])
    else
      let (t, outcomes) := ({ t with state := .disconnected } : Table).failWaiting .disconnected
      (t.emit .disconnected, .state :: outcomes ++ [.events])
  else (t, [])

def close (t : Table) : Table × List TableNotice :=
  if t.state = .closed then (t, [])
  else
    let feed := (t.feed.map TableNotice.closeFeed).toList
    let (t, outcomes) := ({ t with state := .closed, feed := none } : Table).failWaiting .closed
    let t := t.emit .closed
    ({ t with events := t.events.close }, .state :: feed ++ outcomes ++ [.events])

end Table

end LiveDocs

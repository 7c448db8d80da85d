import LiveDocs.Document.Row
import LiveDocs.Table

/-!
# Documents

An open document: its replica, its place in the data layer, and its life. A document starts out
initializing, becomes ready, is syncing while a local patch waits for its acknowledgement, and ends
closed; a failure puts it into the error state, from which it can only be closed.

A document changes in single steps, each a function from a document to a document. What others may
be waiting for, and what is to be done with its tables, is reported as a list of notices, in the
order it happens.

## Main definitions

* `Document`, `DocumentState`, `DocumentEvent`, `SyncError`.
* `UserEdit`: a change that a user asks for.
* `Document.beginCommit`, `Document.withdraw`: a local patch, and its removal after a failure.
* `Document.ingestRows`: patches from the data layer.
* `Document.fail`, `Document.close`, `Document.checkRow`.
-/

namespace LiveDocs

/-- The states of a document. -/
inductive DocumentState where
  | init
  | ready
  | syncing
  | closed
  | error
deriving DecidableEq

namespace DocumentState

def name : DocumentState → String
  | init => "init"
  | ready => "ready"
  | syncing => "syncing"
  | closed => "closed"
  | error => "error"

/-- The name of a state in descriptions. -/
def title : DocumentState → String
  | init => "Init"
  | ready => "Ready"
  | syncing => "Syncing"
  | closed => "Closed"
  | error => "Error"

end DocumentState

/-- What may go wrong with an open document. -/
inductive SyncError where
  | table (cause : TableError)
  | document (cause : DocumentError)
  | notReady (state : DocumentState)
  | closed
  | failed (detail : String)
  /-- A limit in milliseconds has passed. -/
  | timeout (milliseconds : Nat)
  | io (path : String) (detail : String)
deriving DecidableEq

namespace SyncError

/-- The name of the kind of an error, with the kind of its cause behind a dot. -/
def code : SyncError → String
  | table cause => "Table." ++ cause.code
  | document cause => "Document." ++ cause.code
  | notReady _ => "NotReady"
  | closed => "Closed"
  | failed _ => "Failed"
  | timeout _ => "Timeout"
  | io _ _ => "Io"

def message : SyncError → String
  | table cause => cause.message
  | document cause => cause.message
  | notReady state => "document is not ready (state '" ++ state.name ++ "')"
  | closed => "document is closed"
  | failed detail => "document failed: " ++ detail
  | timeout milliseconds => "timed out after " ++ durationText milliseconds
  | io path detail => "i/o error on '" ++ path ++ "': " ++ detail

end SyncError

/-- What the subscribers of a document see. -/
inductive DocumentEvent where
  | ready
  | change
  | saved
  | error (detail : String)
  | closed
deriving DecidableEq

abbrev TableId := Nat

abbrev ClientId := Nat

/-- What others may be waiting for, or what is to be done. -/
inductive DocumentNotice where
  | state
  /-- There is an event, or there will be no more. -/
  | events
  | closeTable (table : TableId)
  /-- It is the turn of the commit with this ticket. -/
  | turn (ticket : Nat)
deriving DecidableEq

/-- A change that a user asks for. It is worked out on the content at the time it is made. -/
inductive UserEdit where
  /-- The content of a text. -/
  | replace (text : String)
  /-- The content with text at its end. -/
  | append (text : String)
  /-- Fields for the record with the same key. -/
  | assign (record : Record)
  /-- The removal of the records with all these fields. -/
  | remove (filter : Record)

namespace UserEdit

/-- The content after an edit of records; a text has none and stays. -/
def onRecords (change : RecordSet → Except DocumentError RecordSet) :
    (kind : Kind) → kind.Content → Except DocumentError kind.Content
  | .text, content => .ok content
  | .records, content => change content

/-- The content after an edit. -/
def run (kind : Kind) (primaryKeys : List String) (content : kind.Content) :
    UserEdit → Except DocumentError kind.Content
  | replace text => (kind.format primaryKeys).parse text
  | append text =>
    let f := kind.format primaryKeys
    f.parse (f.render content ++ text)
  | assign record => onRecords (fun set => set.set record) kind content
  | remove filter => onRecords (fun set => .ok (set.delete filter)) kind content

end UserEdit

/-- An open document. -/
structure Document where
  kind : Kind
  path : String
  stringId : String
  client : ClientId
  settings : Settings
  primaryKeys : List String
  loadFromDisk : Bool
  /-- The table with the row of the document. -/
  strings : TableId
  /-- The table with the patches of the document. -/
  patches : TableId
  state : DocumentState
  replica : Replica kind.Content kind.Patch
  user : Option UInt32
  /-- The text as it was last saved or loaded. -/
  saved : Option String
  failure : Option String
  events : EventBus DocumentEvent
  /-- The commits that are running or waiting, by ticket; the first one has its turn. -/
  turns : List Nat
  nextTicket : Nat

/-- A local patch that was added and is to be written. -/
structure LocalPatch where
  id : PatchId
  row : Record

namespace Document

/-- A document without history that has yet to be initialized. -/
def new (kind : Kind) (o : DocumentOptions) (stringId : String) (client : ClientId)
    (strings patches : TableId) : Document where
  kind
  path := o.path
  stringId
  client
  settings := o.settings
  primaryKeys := o.primaryKeys
  loadFromDisk := o.loadFromDisk
  strings
  patches
  state := .init
  replica := .empty (kind.format o.primaryKeys)
  user := none
  saved := none
  failure := none
  events := .empty
  turns := []
  nextTicket := 0

def format (d : Document) : Format d.kind.Content d.kind.Patch := d.kind.format d.primaryKeys

def text (d : Document) : String := d.format.render d.replica.live

def versions (d : Document) : List PatchId := d.replica.history.ids

/-- Whether the content differs from what was last saved; without a save, whether there is any
history. -/
def hasUnsavedChanges (d : Document) : Bool :=
  match d.saved with
  | some text => text != d.text
  | none => d.replica.history.size != 0

/-- The text of the content at a time. -/
def version (d : Document) (time : UInt64) : Except DocumentError String :=
  (d.replica.version d.format time).map d.format.render

/-- The records of the content; a text has none. -/
def records? (d : Document) : Option RecordSet :=
  match d.kind, d.replica.live with
  | .records, live => some live
  | .text, _ => none

def describe (d : Document) : String :=
  let kind :=
    match d.kind with
    | .text => "String"
    | .records => "Db"
  "SyncDoc \x7b path: " ++ quotedName d.path ++ ", doctype: " ++ kind ++ ", state: " ++
    d.state.title ++ " \x7d"

def emit (d : Document) (event : DocumentEvent) : Document :=
  { d with events := d.events.emit event }

/-! ## Life -/

/-- The error of a document that has failed. -/
def failureError (d : Document) : SyncError := .failed (d.failure.getD "unknown failure")

/-- Refuses a document that is closed or has failed. -/
def ensureOpen (d : Document) : Except SyncError Unit :=
  match d.state with
  | .closed => .error .closed
  | .error => .error d.failureError
  | _ => .ok ()

/-- Refuses a document that does not take edits. -/
def ensureReady (d : Document) : Except SyncError Unit :=
  match d.state with
  | .ready | .syncing => .ok ()
  | .closed => .error .closed
  | .error => .error d.failureError
  | .init => .error (.notReady .init)

/-- What waiting for a document to be ready ends with; `none` as long as it initializes. -/
def readiness? (d : Document) : Option (Except SyncError Unit) :=
  match d.state with
  | .init => none
  | .ready | .syncing => some (.ok ())
  | .closed => some (.error .closed)
  | .error => some (.error d.failureError)

/-- Moves from one state to another; in a third state nothing happens. -/
def transition (d : Document) (source target : DocumentState) : Document × List DocumentNotice :=
  if d.state = source then ({ d with state := target }, [.state]) else (d, [])

/-- Enters the error state, unless the document is closed or has failed before. -/
def fail (d : Document) (detail : String) : Document × List DocumentNotice :=
  if d.state = .closed ∨ d.state = .error then (d, [])
  else
    (({ d with state := .error, failure := some detail } : Document).emit (.error detail),
      [.state, .events])

def close (d : Document) : Document × List DocumentNotice :=
  if d.state = .closed then (d, [])
  else
    let d := ({ d with state := .closed } : Document).emit .closed
    ({ d with events := d.events.close },
      [.state, .closeTable d.strings, .closeTable d.patches, .events])

/-- The document is ready, if it was initializing. -/
def becomeReady (d : Document) : Document × List DocumentNotice :=
  if d.state = .init then
    (({ d with state := .ready } : Document).emit .ready, [.state, .events])
  else (d, [])

/-- Fails if the row of the document is gone or marked as deleted. -/
def checkRow (d : Document) (row : Option Record) : Document × List DocumentNotice :=
  match row with
  | none => d.fail ("syncstring for '" ++ d.path ++ "' disappeared")
  | some row =>
    if row.hasField "deleted" (.bool true) then d.fail ("'" ++ d.path ++ "' was deleted")
    else (d, [])

/-! ## Patches from the data layer -/

/-- Takes in the patches in the rows with these keys. Rows that hold no patch are skipped. -/
def ingestRows (d : Document) (rows : Rows) (keys : List String) :
    Document × List DocumentNotice :=
  let batch := keys.filterMap fun key =>
    (rows.get? key).bind fun row => PatchRow.decode? d.format row
  let (replica, result) := d.replica.ingest d.format batch
  let d := { d with replica }
  match result with
  | .ok true => (d.emit .change, [.events])
  | .ok false => (d, [])
  | .error e => d.fail ("cannot rebuild content: " ++ e.message)

/-! ## Commits -/

/-- Takes a ticket for a commit. -/
def takeTicket (d : Document) : Nat × Document :=
  (d.nextTicket,
    { d with turns := d.turns ++ [d.nextTicket], nextTicket := d.nextTicket + 1 })

/-- Whether it is the turn of a ticket. -/
def hasTurn (d : Document) (ticket : Nat) : Bool := d.turns.head? == some ticket

/-- Gives a ticket back; the next one has its turn. -/
def returnTicket (d : Document) (ticket : Nat) : Document × List DocumentNotice :=
  let d := { d with turns := d.turns.filter (· != ticket) }
  (d, (d.turns.head?.map DocumentNotice.turn).toList)

/-- Works out an edit and adds its patch to the replica. An edit that changes nothing adds none. -/
def beginCommit (d : Document) (clock : UInt64) (edit : UserEdit) :
    Except SyncError (Option (Document × LocalPatch)) :=
  match d.ensureOpen with
  | .error e => .error e
  | .ok () =>
    match edit.run d.kind d.primaryKeys d.replica.live with
    | .error e => .error (.document e)
    | .ok target =>
      let patch := d.format.diff d.replica.live target
      if d.format.isNoop patch then .ok none
      else
        match d.user with
        | none => .error (.notReady d.state)
        | some user =>
          let id := d.replica.nextId clock user
          let d' := ({ d with replica := d.replica.commit d.format id patch } : Document)
          .ok (some (d'.emit .change, ⟨id, PatchRow.encode d.format d.stringId id patch⟩))

/-- Takes back a patch that was not accepted. -/
def withdraw (d : Document) (id : PatchId) : Document × List DocumentNotice :=
  let (replica, result) := d.replica.withdraw d.format id
  let d := { d with replica }
  match result with
  | .ok () => (d.emit .change, [.events])
  | .error e =>
    let (d, notices) := d.fail ("cannot rebuild content: " ++ e.message)
    (d.emit .change, notices ++ [.events])

/-- The snapshot to take, if one is due. -/
def dueSnapshot? (d : Document) : Option (PatchId × String) :=
  d.replica.dueSnapshot? d.format d.settings.snapshotInterval.toNat

def recordSnapshot (d : Document) (id : PatchId) (text : String) : Document :=
  { d with replica := d.replica.recordSnapshot id text }

/-- The fields that note the time of the last snapshot in the row of the document. -/
def snapshotNote (d : Document) (id : PatchId) : Record :=
  .ofList [("string_id", .str d.stringId), ("last_snapshot", .ofUInt64 id.time)]

/-! ## Users -/

/-- How often a client tries to join the list of users. -/
def registerAttempts : Nat := 32

/-- The place in the list of users that a client would take, the row that says so, and what the list
has to be for the row to be written. -/
def registration (d : Document) (clientName : String) (clock : UInt64) (row : Option Record) :
    Nat × Record × Record :=
  let seen := UserList.ofRow row
  let (place, users) := UserList.join seen clientName
  let fields : List (String × Json) :=
    [("string_id", .str d.stringId), ("path", .str d.path), ("users", .arr users),
      ("last_active", .ofUInt64 clock)]
  let described := (row.map fun r => r.contains "doctype").getD false
  let descriptor := (Descriptor.ofKind d.kind d.primaryKeys).render
  let fields := if described then fields else fields ++ [("doctype", .str descriptor)]
  (place, .ofList fields, .ofList [("users", seen)])

/-- What comes of an attempt to join the list of users. -/
inductive JoinOutcome where
  | joined (user : UInt32)
  /-- The list is not what it was thought to be. -/
  | outdated
  | failed (cause : TableError)

/-- What the outcome of the write means for a client that would take a place in the list of
users. -/
def joinOutcome (place : Nat) : Except TableError Unit → JoinOutcome
  | .ok () => .joined (UInt32.ofNat place)
  | .error (.rejected (.conflict _)) => .outdated
  | .error cause => .failed cause

/-- The error of a client that could not join the list of users. -/
def registrationError (d : Document) : SyncError :=
  .failed ("could not register in the users list of '" ++ d.path ++ "'")

end Document

end LiveDocs

import LiveDocs.Engine.Basic

/-!
# Results of jobs

What a job does with the result of something it has waited for: connecting, writing, waiting for
rows, committing, loading. Every result is handed to the one it was asked for, which either comes to
an end or goes on as another job.

## Main definitions

* `Progress`: what a job comes to when it is looked at.
* `Engine.connected`, `Engine.feedConnected`: results of connecting.
* `Engine.written`: results of writes.
* `Engine.committed`, `Engine.loaded`: results of commits and of loading.
* `Engine.gotRows`, `Engine.openRow`: results of waiting for rows; a document opened from its row.
-/

namespace LiveDocs

/-- What a job comes to when it is looked at. -/
inductive Progress where
  /-- It waits. -/
  | wait
  /-- It goes on as another job. -/
  | goOn (engine : Engine) (job : Job)
  /-- It goes on as another job, after all others. -/
  | yield (job : Job)
  /-- It has come to an end. -/
  | finish (engine : Engine)

namespace Engine

/-! ## Calls and failures -/

/-- A call has its result. -/
def answer (e : Engine) (call : CallId) (outcome : CallOutcome) : Progress :=
  .finish (e.report call outcome)

/-- The initialization of a document fails. -/
def initializationFailed (e : Engine) (init : Initialization) (cause : SyncError) : Progress :=
  .finish (e.onDocument init.doc fun doc => doc.fail ("initialization failed: " ++ cause.message))

/-! ## Sessions -/

/-- The first delay before a session connects again, in milliseconds. -/
def shortestDelay : Nat := 100

/-- The longest delay before a session connects again. -/
def longestDelay : Nat := 10000

/-- The path of a row that a session opens, with the id of its document: a row with an id and a path
that is not marked as deleted. -/
def openable? (row : Record) : Option (String × String) :=
  match row.getStr? "string_id", row.getStr? "path" with
  | some id, some path =>
    let deleted := ((row.get? "deleted").bind Json.bool?).getD false
    if deleted || path.isEmpty then none else some (id, path)
  | _, _ => none

/-- Opens the document of one row, unless it is open or being opened. -/
def openSessionRow (e : Engine) (s : Session) (row : Record) : Engine × Session :=
  match openable? row with
  | none => (e, s)
  | some (id, path) =>
    if s.opening.contains id || (e.registry.get? path).isSome then (e, s)
    else
      let (table, e) := e.newTable .syncstrings (documentQuery .syncstrings id) s.settings
      let opener := e.nextJob
      let e := e.spawn (.awaitConnected table none (.opening ⟨s.client, table, none⟩))
      let waiter := e.nextJob
      let e := e.spawn (.connect table (.opening table opener))
      (e, { s with opening := s.opening.insert id waiter })

/-- Opens the documents of some rows of a session, all rows if no keys are given. -/
def openSessionRows (e : Engine) (s : Session) (keys : Option (List String)) : Engine × Session :=
  let s := { s with opening := s.opening.filter fun _ job => e.jobs.contains job }
  let rows := e.tableRows s.table
  let candidates :=
    match keys with
    | some keys => keys.filterMap rows.get?
    | none => rows.values
  candidates.foldl (fun (e, s) row => e.openSessionRow s row) (e, s)

/-! ## Connecting -/

/-- A table was connected, or not. -/
def connected (e : Engine) (next : ConnectReturn) (result : Except TableError Unit) : Progress :=
  match next, result with
  | .call call, _ => e.answer call (.tableDone result)
  | .strings init, .error cause => e.initializationFailed init (.table cause)
  | .strings init, .ok () =>
    match e.docs.get? init.doc with
    | some doc => .goOn e (.connect doc.patches (.patches init))
    | none => .finish e
  | .patches init, .error cause => e.initializationFailed init (.table cause)
  | .patches init, .ok () => .goOn e (.register init 0)
  | .reconnect _ _ call, .error cause => e.answer call (.documentDone (.error (.table cause)))
  | .reconnect doc rest call, .ok () => .goOn e (.reconnectTables doc rest call)
  | .session s _ _, .error .closed => e.answer s.call (.sessionEnded (.error .closed))
  | .session s delay isFirst, .error _ => .goOn e (.sleep s (e.now + delay) delay isFirst)
  | .session s _ isFirst, .ok () =>
    if isFirst then
      let (e, s) := e.openSessionRows s none
      .goOn e (.followRows s)
    else .goOn e (.followRows s)
  | .opening table _, .error _ => .finish (e.closeTable table)
  | .opening table opener, .ok () => .goOn e (.join table opener)

/-- The feed of a table was connected, or not. -/
def tableFeedConnected (e : Engine) (table : TableId) (feed : FeedId) (subscription : Nat)
    (next : ConnectReturn) (result : Except ConnectionError (List Record)) : Progress :=
  match result with
  | .error cause =>
    let e := e.unsubscribeFeed feed subscription
    (e.onTable table fun t => t.connectFailed feed).connected next (.error (.connection cause))
  | .ok rows =>
    match e.tables.get? table with
    | none => .finish e
    | some t =>
      match t.finishConnect rows with
      | .error cause => (e.closeFeed feed).connected next (.error cause)
      | .ok (t, notices) =>
        let e := (e.putTable table t notices).spawn (.follow table feed subscription)
        e.connected next (.ok ())

/-- A feed was connected, or not. -/
def feedConnected (e : Engine) (feed : FeedId) (next : FeedReturn)
    (result : Except ConnectionError (List Record)) : Progress :=
  match next with
  | .call call => e.answer call (.feedConnected result)
  | .table table subscription next => e.tableFeedConnected table feed subscription next result

/-- Connecting a feed has taken too long. -/
def feedTimedOut (e : Engine) (feed : FeedId) (next : FeedReturn) (limit : Limit) : Progress :=
  match next with
  | .table _ subscription (.strings init) | .table _ subscription (.patches init) =>
    (e.unsubscribeFeed feed subscription).initializationFailed init (.timeout limit.duration)
  | _ => .finish e

/-! ## Commits and loading -/

/-- A document was loaded from its file, or not. -/
def loaded (e : Engine) (next : LoadReturn) (result : Except SyncError Bool) : Progress :=
  match next with
  | .call call => e.answer call (.loaded result)
  | .setUp init => .goOn e (.becomeReady init)

/-- A commit has ended. -/
def committed (e : Engine) (doc : DocId) (next : CommitReturn)
    (result : Except SyncError (Option PatchId)) : Progress :=
  match next, result with
  | .call call, _ => e.answer call (.committed result)
  | .load next, .error cause => e.loaded next (.error cause)
  | .load next, .ok id =>
    (e.onDocument doc fun d => ({ d with saved := some d.text }, [])).loaded next (.ok id.isSome)

/-- A commit has ended, and the next one has its turn. -/
def endCommit (e : Engine) (doc : DocId) (ticket : Nat) (next : CommitReturn)
    (result : Except SyncError (Option PatchId)) : Progress :=
  (e.onDocument doc fun d => d.returnTicket ticket).committed doc next result

/-- A commit has its turn: the edit is worked out, and its patch is written. -/
def runCommit (e : Engine) (id : DocId) (ticket : Nat) (edit : UserEdit) (next : CommitReturn) :
    Progress :=
  match e.docs.get? id with
  | none => .finish e
  | some doc =>
    match doc.beginCommit (e.clockOf doc.client) edit with
    | .error cause => e.endCommit id ticket next (.error cause)
    | .ok none => e.endCommit id ticket next (.ok none)
    | .ok (some (doc', patch)) =>
      let e := e.putDocument id doc' [.events]
      let e := e.onDocument id fun d => d.transition .ready .syncing
      .goOn e (.write doc.patches patch.row none (.commit ⟨id, ticket, patch.id, next⟩))

/-- A commit that was accepted takes a snapshot if one is due. -/
def accepted (e : Engine) (c : Commit) : Progress :=
  match e.docs.get? c.doc with
  | none => .finish e
  | some doc =>
    match doc.dueSnapshot? with
    | none => e.endCommit c.doc c.ticket c.next (.ok (some c.id))
    | some (id, text) =>
      .goOn e
        (.write doc.patches (PatchRow.encodeSnapshot doc.stringId id text) none
          (.snapshot c id text))

/-! ## Writes -/

/-- A client has joined the list of users: the known patches are taken in, and a document without
history is loaded from its file. -/
def registered (e : Engine) (init : Initialization) (user : UInt32) : Progress :=
  let e := e.onDocument init.doc fun d => ({ d with user := some user }, [])
  let e := e.ingestAll init.doc
  match e.docs.get? init.doc with
  | none => .finish e
  | some doc =>
    if doc.loadFromDisk && doc.replica.history.size == 0 then
      .goOn e (.load init.doc (.setUp init))
    else .goOn e (.becomeReady init)

/-- A write has its outcome. -/
def written (e : Engine) (next : WriteReturn) (result : Except TableError Unit) : Progress :=
  match next, result with
  | .call call, _ => e.answer call (.tableDone result)
  | .register init attempt place seen, _ =>
    match Document.joinOutcome place result with
    | .joined user => e.registered init user
    | .outdated =>
      match e.docs.get? init.doc with
      | none => .finish e
      | some doc =>
        let limit := Limit.from e.now doc.settings.writeTimeout.toNat
        .goOn e
          (.awaitRows doc.strings (.otherUsers seen) (some limit) (.register init (attempt + 1)))
    | .failed cause => e.initializationFailed init (.table cause)
  | .commit c, _ =>
    let e := e.onDocument c.doc fun d => d.transition .syncing .ready
    match result with
    | .ok () => e.accepted c
    | .error cause =>
      (e.onDocument c.doc fun d => d.withdraw c.id).endCommit c.doc c.ticket c.next
        (.error (.table cause))
  | .snapshot c id text, .ok () =>
    let e := e.onDocument c.doc fun d => (d.recordSnapshot id text, [])
    match e.docs.get? c.doc with
    | none => .finish e
    | some doc => .goOn e (.write doc.strings (doc.snapshotNote id) none (.snapshotNote c))
  | .snapshot c _ _, .error _ => e.endCommit c.doc c.ticket c.next (.ok (some c.id))
  | .snapshotNote c, _ => e.endCommit c.doc c.ticket c.next (.ok (some c.id))

/-! ## Documents from rows -/

def hasPath (row : Record) : Bool :=
  match row.getStr? "path" with
  | some path => !path.isEmpty
  | none => false

/-- Whether the rows of a table are those that are waited for. -/
def satisfies (rows : Rows) : RowsCondition → Bool
  | .least count has =>
    decide (count ≤ rows.size) &&
      match has with
      | some fields => rows.values.any fun row => row.hasAll fields
      | none => true
  | .otherUsers seen => !(UserList.ofRow rows.values.head? == seen)
  | .path => rows.values.any hasPath

/-- Makes the document that a descriptor describes. -/
def createDocument (e : Engine) (client : ClientId) (descriptor : Descriptor) (path : String)
    (stringId : Option String) : Except RegistryError (DocId × Engine) :=
  let refused (cause : DocumentError) : Except RegistryError (DocId × Engine) :=
    .error (.construction path cause.message)
  match DocumentOptions.ofRecord descriptor.kind path descriptor.options with
  | .error cause => refused cause
  | .ok options =>
    match e.newDocument client descriptor.kind { options with stringId } with
    | .error cause => refused cause
    | .ok made => .ok made

/-- Watches a document of the registry and the table it was opened from. -/
def watch (e : Engine) (doc : DocId) (table : TableId) : Engine :=
  let (docEvents, e) := e.subscribeDocument doc
  let (tableEvents, e) := e.subscribeTable table
  let failed := (e.docs.get? doc).any fun d => d.state == .error
  let e := if failed || e.tableIs table .closed then e.closeDocument doc else e
  e.spawn (.watch doc table docEvents tableEvents)

/-- Starts the hook for the path of a document, if there is one. -/
def startHook (e : Engine) (doc : DocId) (client : ClientId) (path : String) : Engine :=
  match e.registry.hookFor? path with
  | some label => e.spawn (.awaitReady doc none (.hook label client))
  | none => e

/-- Opens the document of a row: the one that is open at its path, or a new one. -/
def openRow (e : Engine) (o : Opening) (row : Record) : Engine × Option String :=
  let path := (row.getStr? "path").getD ""
  match e.registry.get? path with
  | some _ => (e, some path)
  | none =>
    let descriptor := Descriptor.resolve (row.get? "doctype")
    match e.createDocument o.client descriptor path (row.getStr? "string_id") with
    | .error _ => (e, none)
    | .ok (doc, e) =>
      let e := { e with registry := e.registry.insert path doc }
      ((e.watch doc o.table).startHook doc o.client path, some path)

/-- A document was opened from its row, or not. -/
def openingEnded (e : Engine) (o : Opening) (path : Option String) : Progress :=
  match o.call with
  | some call => e.answer call (.opened path)
  | none => .finish e

/-- The rows that were waited for are there, or not. -/
def gotRows (e : Engine) (next : RowsReturn) (result : Except TableError Rows) : Progress :=
  match next, result with
  | .call call, _ => e.answer call (.tableRows result)
  | .register init attempt, .ok _ => .goOn e (.register init attempt)
  | .register init _, .error cause => e.initializationFailed init (.table cause)
  | .opening o, .error _ => e.openingEnded o none
  | .opening o, .ok rows =>
    match rows.values.find? hasPath with
    | none => e.openingEnded o none
    | some row =>
      let (e, path) := e.openRow o row
      e.openingEnded o path

/-- The table that was waited for is connected, or not. -/
def gotConnected (e : Engine) (next : ConnectedReturn) (result : Except TableError Unit) :
    Progress :=
  match next, result with
  | .call call, _ => e.answer call (.tableDone result)
  | .opening o, .ok () => .goOn e (.awaitRows o.table .path none (.opening o))
  | .opening o, .error _ => e.openingEnded o none

/-- The document that was waited for is ready, or not. -/
def gotReady (e : Engine) (doc : DocId) (next : ReadyReturn) (result : Except SyncError Unit) :
    Progress :=
  match next, result, e.docs.get? doc with
  | .call call, _, _ => e.answer call (.documentDone result)
  | .hook label client, .ok (), some d =>
    .finish { e with hookRuns := e.hookRuns ++ [⟨label, d.path, d.state, e.nameOf client⟩] }
  | .hook _ _, _, _ => .finish e

end Engine

end LiveDocs

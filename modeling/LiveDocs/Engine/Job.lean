import LiveDocs.Backend
import LiveDocs.Document.Basic
import LiveDocs.Registry

/-!
# Jobs

Whatever takes time is done by jobs. A job is a value that says where it stands: what it waits for,
or what it will do next, and to whom its result goes. Results of jobs that were started from outside
are *calls* and have a number.

## Main definitions

* `Signal`: what a job may wait for.
* `CallOutcome`: the result of a call.
* `ConnectReturn`, `WriteReturn`, `RowsReturn`, `CommitReturn`, `LoadReturn`: to whom the result of
  connecting, writing, waiting for rows, committing and loading goes.
* `Job`, `Job.signals`, `Job.deadline?`: jobs, what wakes them, and when they give up waiting.
-/

namespace LiveDocs

abbrev JobId := Nat

abbrev CallId := Nat

/-- What a job may wait for. -/
inductive Signal where
  /-- Something arrived at a sink, or nothing more will. -/
  | channel (sink : SinkId)
  /-- The first response of a feed has arrived or is lost. -/
  | first (feed : FeedId)
  /-- A subscription has an event, or there will be no more. -/
  | feedEvent (feed : FeedId) (subscription : Nat)
  | tableEvent (table : TableId) (subscription : Nat)
  | documentEvent (doc : DocId) (subscription : Nat)
  | tableState (table : TableId)
  | tableRows (table : TableId)
  | documentState (doc : DocId)
  /-- A write has its outcome. -/
  | outcome (table : TableId) (write : Nat)
  /-- A commit has its turn. -/
  | turn (doc : DocId) (ticket : Nat)
  | finished (job : JobId)
deriving DecidableEq

/-- The result of a call. -/
inductive CallOutcome where
  | feedConnected (result : Except ConnectionError (List Record))
  | tableDone (result : Except TableError Unit)
  | tableRows (result : Except TableError Rows)
  | committed (result : Except SyncError (Option PatchId))
  | documentDone (result : Except SyncError Unit)
  | loaded (result : Except SyncError Bool)
  | opened (path : Option String)
  | sessionEnded (result : Except TableError Unit)

/-- A limit on waiting: the time at which it ends, and how long it was, in milliseconds. -/
structure Limit where
  deadline : Nat
  duration : Nat
deriving DecidableEq

/-- The limit of a wait that starts now. -/
def Limit.from (now duration : Nat) : Limit := ⟨now + duration, duration⟩

/-- A document that is being initialized, and its subscriptions to its two tables. -/
structure Initialization where
  doc : DocId
  stringsEvents : Nat
  patchesEvents : Nat
  limit : Option Limit

/-- A document that is being opened from its row. -/
structure Opening where
  client : ClientId
  table : TableId
  /-- The call that waits for it. -/
  call : Option CallId

/-- Opens a document for every row of the table of documents. -/
structure Session where
  client : ClientId
  settings : Settings
  table : TableId
  events : Nat
  /-- The jobs that open documents, by the id of the document. -/
  opening : SortedMap String JobId
  call : CallId

/-- What rows are waited for. -/
inductive RowsCondition where
  /-- A number of rows, and one with all these fields. -/
  | least (count : Nat) (has : Option Record)
  /-- Another list of users. -/
  | otherUsers (seen : Json)
  /-- A row with a path. -/
  | path

/-- To whom the result of loading goes. -/
inductive LoadReturn where
  | call (call : CallId)
  | setUp (init : Initialization)

/-- To whom the result of a commit goes. -/
inductive CommitReturn where
  | call (call : CallId)
  | load (next : LoadReturn)

/-- To whom the result of connecting a table goes. -/
inductive ConnectReturn where
  | call (call : CallId)
  /-- The first table of a document that is being initialized. -/
  | strings (init : Initialization)
  /-- The second one. -/
  | patches (init : Initialization)
  /-- A document that connects again, and its tables that are still to be looked at. -/
  | reconnect (doc : DocId) (rest : List TableId) (call : CallId)
  /-- A session, the delay before its next attempt, and whether it has just started. -/
  | session (session : Session) (delay : Nat) (isFirst : Bool)
  /-- A table that a session has made, and the job that opens its document. -/
  | opening (table : TableId) (opener : JobId)

/-- To whom the result of connecting a feed goes. -/
inductive FeedReturn where
  | call (call : CallId)
  | table (table : TableId) (subscription : Nat) (next : ConnectReturn)

/-- A commit that is under way. -/
structure Commit where
  doc : DocId
  ticket : Nat
  id : PatchId
  next : CommitReturn

/-- To whom the result of a write goes. -/
inductive WriteReturn where
  | call (call : CallId)
  /-- A client that joins the list of users. -/
  | register (init : Initialization) (attempt : Nat) (place : Nat) (seen : Json)
  /-- A patch. -/
  | commit (commit : Commit)
  /-- The snapshot of a patch. -/
  | snapshot (commit : Commit) (id : PatchId) (text : String)
  /-- The note of a snapshot in the row of the document. -/
  | snapshotNote (commit : Commit)

/-- To whom the rows that were waited for go. -/
inductive RowsReturn where
  | call (call : CallId)
  | register (init : Initialization) (attempt : Nat)
  | opening (opening : Opening)

/-- Who waits for a table to be connected. -/
inductive ConnectedReturn where
  | call (call : CallId)
  | opening (opening : Opening)

/-- Who waits for a document to be ready. -/
inductive ReadyReturn where
  | call (call : CallId)
  | hook (label : String) (client : ClientId)

/-- Where a job stands. -/
inductive Job where
  /-- Hands the responses of a query to its feed. -/
  | pump (feed : FeedId) (sink : SinkId)
  /-- Hands out what a feed has kept back, after it has let everybody else go first. -/
  | flush (feed : FeedId) (waited : Bool)
  /-- Cancels a query. -/
  | cancel (id : String)
  /-- Starts to connect a feed. -/
  | connectFeed (feed : FeedId) (next : FeedReturn)
  /-- Waits for the first response of a feed. -/
  | awaitFirst (feed : FeedId) (next : FeedReturn)
  /-- Starts to connect a table. -/
  | connect (table : TableId) (next : ConnectReturn)
  /-- Hands the changes of a feed to its table. -/
  | follow (table : TableId) (feed : FeedId) (subscription : Nat)
  /-- Starts a write. -/
  | write (table : TableId) (record : Record) (expected : Option Record) (next : WriteReturn)
  /-- Waits for the answer to a write. -/
  | awaitAnswer (table : TableId) (write : Nat) (sink : SinkId)
  /-- Waits for the outcome of a write. -/
  | awaitOutcome (table : TableId) (write : LocalWrite) (limit : Limit) (next : WriteReturn)
  /-- Waits for rows of a table. -/
  | awaitRows (table : TableId) (condition : RowsCondition) (limit : Option Limit)
      (next : RowsReturn)
  /-- Waits for a table to be connected. -/
  | awaitConnected (table : TableId) (limit : Option Limit) (next : ConnectedReturn)
  /-- Waits for a document to be ready. -/
  | awaitReady (doc : DocId) (limit : Option Limit) (next : ReadyReturn)
  /-- Starts to initialize a document. -/
  | setUp (doc : DocId)
  /-- Tries to join the list of users. -/
  | register (init : Initialization) (attempt : Nat)
  /-- Completes the initialization. -/
  | becomeReady (init : Initialization)
  /-- Follows the patches of a document. -/
  | followPatches (doc : DocId) (table : TableId) (subscription : Nat)
  /-- Follows the row of a document. -/
  | followStrings (doc : DocId) (table : TableId) (subscription : Nat)
  /-- Starts an edit that a user asks for. -/
  | edit (doc : DocId) (edit : UserEdit) (call : CallId)
  /-- Starts to commit an edit. -/
  | commit (doc : DocId) (edit : UserEdit) (next : CommitReturn)
  /-- Waits for its turn to commit an edit. -/
  | awaitTurn (doc : DocId) (ticket : Nat) (edit : UserEdit) (next : CommitReturn)
  /-- Saves a document to its file. -/
  | save (doc : DocId) (call : CallId)
  /-- Loads a document from its file. -/
  | load (doc : DocId) (next : LoadReturn)
  /-- Starts to connect a document again. -/
  | reconnect (doc : DocId) (call : CallId)
  /-- Connects those of some tables of a document that are disconnected. -/
  | reconnectTables (doc : DocId) (tables : List TableId) (call : CallId)
  /-- Closes a document of the registry when it fails or its table closes. -/
  | watch (doc : DocId) (table : TableId) (docEvents : Nat) (tableEvents : Nat)
  /-- Starts a session. -/
  | session (client : ClientId) (settings : Settings) (call : CallId)
  /-- Follows the rows of a session. -/
  | followRows (session : Session)
  /-- Waits before a session connects again. -/
  | sleep (session : Session) (wakeAt : Nat) (delay : Nat) (isFirst : Bool)
  /-- Waits for another job to open a document. -/
  | join (table : TableId) (job : JobId)

namespace FeedReturn

/-- The limit on connecting. -/
def limit? : FeedReturn → Option Limit
  | table _ _ (.strings init) | table _ _ (.patches init) => init.limit
  | _ => none

end FeedReturn

namespace Job

/-- What wakes a job. -/
def signals : Job → List Signal
  | pump _ sink | awaitAnswer _ _ sink => [.channel sink]
  | awaitFirst feed _ => [.first feed]
  | follow _ feed subscription => [.feedEvent feed subscription]
  | awaitOutcome table pending _ _ => [.outcome table pending.number]
  | awaitRows table _ _ _ => [.tableRows table, .tableState table]
  | awaitConnected table _ _ => [.tableState table]
  | awaitReady doc _ _ => [.documentState doc]
  | followPatches _ table subscription | followStrings _ table subscription =>
    [.tableEvent table subscription]
  | awaitTurn doc ticket _ _ => [.turn doc ticket]
  | watch doc table docEvents tableEvents =>
    [.documentEvent doc docEvents, .tableEvent table tableEvents]
  | followRows follower => [.tableEvent follower.table follower.events]
  | join _ other => [.finished other]
  | _ => []

/-- The time at which a job gives up waiting. -/
def deadline? : Job → Option Nat
  | awaitFirst _ next => next.limit?.map Limit.deadline
  | awaitOutcome _ _ limit _ => some limit.deadline
  | awaitRows _ _ limit _ | awaitConnected _ limit _ | awaitReady _ limit _ =>
    limit.map Limit.deadline
  | sleep _ wakeAt _ _ => some wakeAt
  | _ => none

end Job

end LiveDocs

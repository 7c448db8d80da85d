import LiveDocs.Client
import LiveDocs.DocumentId
import LiveDocs.Engine.Job

/-!
# Engines

An engine holds everything that lives at one time: the data layer, feeds, tables and open documents,
the registry, clients and files, and the jobs that are under way. Jobs that can go on stand in a
queue. Whatever happens to a feed, a table or a document is done by one of the functions here, so
the jobs that wait for it are woken in the order it happens.

## Main definitions

* `Engine`: the state.
* `Engine.spawn`, `Engine.wake`: starting and waking jobs.
* `Engine.onFeed`, `Engine.onTable`, `Engine.onDocument`: one step of a feed, a table or a document.
* `Engine.deliver`, `Engine.ask`: posts of the data layer, and queries to it.
* `Engine.newTable`, `Engine.newDocument`: new tables and documents.
-/

namespace LiveDocs

/-- A hook that was run: its label, and the document it was run for. -/
structure HookRun where
  label : String
  path : String
  state : DocumentState
  client : String

/-- Everything that lives at one time. -/
structure Engine where
  backend : Backend
  channels : Channels
  feeds : SortedMap FeedId Feed
  tables : SortedMap TableId Table
  docs : SortedMap DocId Document
  clients : SortedMap ClientId Client
  disk : Disk
  registry : Registry
  /-- The time in milliseconds. -/
  now : Nat
  jobs : SortedMap JobId Job
  nextJob : JobId
  /-- The jobs that may go on, in order. -/
  queue : List JobId
  /-- The jobs that go on when the queue is empty. -/
  deferred : List JobId
  /-- The results of calls, newest last. -/
  done : List (CallId × CallOutcome)
  /-- The hooks that were run, newest last. -/
  hookRuns : List HookRun

namespace Engine

def new (backend : Backend) : Engine where
  backend
  channels := .empty
  feeds := .empty
  tables := .empty
  docs := .empty
  clients := .empty
  disk := .empty
  registry := .empty
  now := 0
  jobs := .empty
  nextJob := 0
  queue := []
  deferred := []
  done := []
  hookRuns := []

/-! ## Jobs -/

def spawn (e : Engine) (job : Job) : Engine :=
  { e with
    jobs := e.jobs.insert e.nextJob job
    nextJob := e.nextJob + 1
    queue := e.queue ++ [e.nextJob] }

/-- Puts some jobs at the end of the queue, those that do not stand in it. -/
def enqueue (e : Engine) (ids : List JobId) : Engine :=
  { e with queue := e.queue ++ ids.filter fun id => !e.queue.contains id }

def wake (e : Engine) (signal : Signal) : Engine :=
  e.enqueue ((e.jobs.filter fun _ job => job.signals.contains signal).keys)

def report (e : Engine) (call : CallId) (outcome : CallOutcome) : Engine :=
  { e with done := e.done ++ [(call, outcome)] }

/-! ## Feeds -/

/-- Acts on a notice of a feed. -/
def heedFeed (e : Engine) (id : FeedId) : FeedNotice → Engine
  | .first => e.wake (.first id)
  | .events =>
    match e.feeds.get? id with
    | some feed => feed.events.queues.keys.foldl (fun e s => e.wake (.feedEvent id s)) e
    | none => e
  | .cancel query => e.spawn (.cancel query)

/-- Replaces a feed and acts on its notices. -/
def putFeed (e : Engine) (id : FeedId) (feed : Feed) (notices : List FeedNotice) : Engine :=
  notices.foldl (fun e n => e.heedFeed id n) { e with feeds := e.feeds.insert id feed }

/-- Lets a feed make one step. -/
def onFeed (e : Engine) (id : FeedId) (step : Feed → Feed × List FeedNotice) : Engine :=
  match e.feeds.get? id with
  | none => e
  | some feed =>
    let (feed, notices) := step feed
    e.putFeed id feed notices

def unsubscribeFeed (e : Engine) (id : FeedId) (subscription : Nat) : Engine :=
  e.onFeed id fun f => ({ f with events := f.events.unsubscribe subscription }, [])

def newFeed (e : Engine) (feed : Feed) : FeedId × Engine :=
  (e.feeds.size, { e with feeds := e.feeds.insert e.feeds.size feed })

def closeFeed (e : Engine) (id : FeedId) : Engine := e.onFeed id Feed.close

/-! ## Tables -/

/-- Acts on a notice of a table. -/
def heedTable (e : Engine) (id : TableId) : TableNotice → Engine
  | .state => e.wake (.tableState id)
  | .rows => e.wake (.tableRows id)
  | .events =>
    match e.tables.get? id with
    | some table => table.events.queues.keys.foldl (fun e s => e.wake (.tableEvent id s)) e
    | none => e
  | .outcome write => e.wake (.outcome id write)
  | .closeFeed feed => e.closeFeed feed

/-- Replaces a table and acts on its notices. -/
def putTable (e : Engine) (id : TableId) (table : Table) (notices : List TableNotice) : Engine :=
  notices.foldl (fun e n => e.heedTable id n) { e with tables := e.tables.insert id table }

/-- Lets a table make one step. -/
def onTable (e : Engine) (id : TableId) (step : Table → Table × List TableNotice) : Engine :=
  match e.tables.get? id with
  | none => e
  | some table =>
    let (table, notices) := step table
    e.putTable id table notices

def newTable (e : Engine) (schema : Schema) (query : Query) (settings : Settings) :
    TableId × Engine :=
  (e.tables.size, { e with tables := e.tables.insert e.tables.size (.new schema query settings) })

def closeTable (e : Engine) (id : TableId) : Engine := e.onTable id Table.close

def tableIs (e : Engine) (id : TableId) (state : ConnectionState) : Bool :=
  match e.tables.get? id with
  | some table => table.state == state
  | none => false

def tableRows (e : Engine) (id : TableId) : Rows := ((e.tables.get? id).map Table.rows).getD .empty

def subscribeTable (e : Engine) (id : TableId) : Nat × Engine :=
  match e.tables.get? id with
  | none => (0, e)
  | some table =>
    let (subscription, events) := table.events.subscribe
    (subscription, { e with tables := e.tables.insert id { table with events } })

def unsubscribeTable (e : Engine) (id : TableId) (subscription : Nat) : Engine :=
  e.onTable id fun t => ({ t with events := t.events.unsubscribe subscription }, [])

/-! ## Documents -/

/-- Acts on a notice of a document. -/
def heedDocument (e : Engine) (id : DocId) : DocumentNotice → Engine
  | .state => e.wake (.documentState id)
  | .events =>
    match e.docs.get? id with
    | some doc => doc.events.queues.keys.foldl (fun e s => e.wake (.documentEvent id s)) e
    | none => e
  | .closeTable table => e.closeTable table
  | .turn ticket => e.wake (.turn id ticket)

/-- Replaces a document and acts on its notices. -/
def putDocument (e : Engine) (id : DocId) (doc : Document) (notices : List DocumentNotice) :
    Engine :=
  notices.foldl (fun e n => e.heedDocument id n) { e with docs := e.docs.insert id doc }

/-- Lets a document make one step. -/
def onDocument (e : Engine) (id : DocId) (step : Document → Document × List DocumentNotice) :
    Engine :=
  match e.docs.get? id with
  | none => e
  | some doc =>
    let (doc, notices) := step doc
    e.putDocument id doc notices

def closeDocument (e : Engine) (id : DocId) : Engine := e.onDocument id Document.close

def subscribeDocument (e : Engine) (id : DocId) : Nat × Engine :=
  match e.docs.get? id with
  | none => (0, e)
  | some doc =>
    let (subscription, events) := doc.events.subscribe
    (subscription, { e with docs := e.docs.insert id { doc with events } })

/-- Takes in all patches that the table of a document holds. -/
def ingestAll (e : Engine) (id : DocId) : Engine :=
  e.onDocument id fun doc =>
    let rows := e.tableRows doc.patches
    doc.ingestRows rows rows.keys

/-- Looks whether the row of a document is still there. -/
def checkRow (e : Engine) (id : DocId) : Engine :=
  e.onDocument id fun doc => doc.checkRow (e.tableRows doc.strings).values.head?

/-- The table of one of the two schemas, for one document. -/
def documentQuery (schema : Schema) (stringId : String) : Query :=
  (Query.all schema.name).withFilter "string_id" (.str stringId)

/-- Makes a document with its two tables and starts to initialize it. -/
def newDocument (e : Engine) (client : ClientId) (kind : Kind) (o : DocumentOptions) :
    Except DocumentError (DocId × Engine) :=
  match o.validate kind with
  | .error cause => .error cause
  | .ok () =>
    let project := ((e.clients.get? client).map Client.project).getD ""
    let id := o.stringId.getD (stringId project o.path)
    let (strings, e) :=
      e.newTable .syncstrings (documentQuery .syncstrings id) o.settings
    let (patches, e) := e.newTable .patches (documentQuery .patches id) o.settings
    let doc := e.docs.size
    let e := { e with docs := e.docs.insert doc (.new kind o id client strings patches) }
    .ok (doc, e.spawn (.setUp doc))

/-! ## The data layer -/

/-- Delivers posts of the data layer. -/
def deliver (e : Engine) (posts : List Post) : Engine :=
  posts.foldl (fun e post =>
    let sink :=
      match post with
      | .send sink _ => sink
      | .finish sink => sink
    { e with channels := e.channels.post post }.wake (.channel sink)) e

/-- Asks the data layer. The answers arrive at the sink. -/
def ask (e : Engine) (request : Request) : SinkId × Engine :=
  let (sink, channels) := e.channels.fresh
  let (backend, posts) := e.backend.query channels.alive request sink
  (sink, { e with channels, backend }.deliver posts)

/-- Lets the database make one step. -/
def onDatabase {α : Type} (e : Engine) (step : Database → Database × List Post × α) :
    Engine × Option α :=
  match e.backend with
  | .script _ => (e, none)
  | .database db plan =>
    let (db, posts, result) := step db
    ({ e with backend := .database db plan }.deliver posts, some result)

def clockOf (e : Engine) (client : ClientId) : UInt64 :=
  ((e.clients.get? client).map Client.clock).getD 0

def nameOf (e : Engine) (client : ClientId) : String :=
  ((e.clients.get? client).map Client.name).getD ""

end Engine

end LiveDocs

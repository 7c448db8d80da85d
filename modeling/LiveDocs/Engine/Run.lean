import LiveDocs.Engine.Progress

/-!
# Running jobs

A job is looked at when it stands at the head of the queue: it makes one step after the other until
it waits, and then the next job has its turn. When no job can go on, those that let all others go
first are put into the queue. Time stands still meanwhile; moving it wakes the jobs that have waited
long enough.

## Main definitions

* `Engine.look`: what a job comes to when it is looked at.
* `Engine.step`: one step of a job.
* `Engine.settle`: steps until all jobs wait.
* `Engine.advance`: moves the clock.
-/

namespace LiveDocs

namespace Engine

/-- Whether a limit has been reached. -/
def isOver (e : Engine) (limit : Option Limit) : Option Limit :=
  limit.filter fun l => l.deadline ≤ e.now

/-! ## Feeds and tables -/

/-- Hands the next response to a feed. -/
def lookPump (e : Engine) (feed : FeedId) (sink : SinkId) : Progress :=
  let channel := e.channels.get sink
  let released := ((e.feeds.get? feed).map Feed.released).getD true
  let stop (e : Engine) : Progress := .finish { e with channels := e.channels.dropReceiver sink }
  match channel.queue with
  | reply :: rest =>
    let e := { e with channels := e.channels.modify sink fun c => { c with queue := rest } }
    if released then stop e
    else
      match e.feeds.get? feed with
      | none => stop e
      | some f =>
        let (f, notices, goesOn) := f.deliver reply
        let e := e.putFeed feed f notices
        if goesOn then .goOn e (.pump feed sink) else stop e
  | [] =>
    if channel.hasSender then .wait
    else stop (if released then e else e.onFeed feed Feed.endOfStream)

/-- Starts to connect a feed: the query is asked, and its responses are awaited. -/
def lookConnectFeed (e : Engine) (feed : FeedId) (next : FeedReturn) : Progress :=
  match e.feeds.get? feed with
  | none => .finish e
  | some f =>
    match f.beginConnect with
    | .error cause => e.feedConnected feed next (.error cause)
    | .ok f =>
      let (sink, e) := { e with feeds := e.feeds.insert feed f }.ask f.request
      .goOn (e.spawn (.pump feed sink)) (.awaitFirst feed next)

/-- Waits for the first response of a feed. -/
def lookAwaitFirst (e : Engine) (feed : FeedId) (next : FeedReturn) : Progress :=
  match e.feeds.get? feed with
  | none => .finish e
  | some f =>
    match f.first with
    | .arrived reply =>
      let (f, notices, result) := f.finishConnect reply
      let e := e.putFeed feed f notices
      let e :=
        match result with
        | .ok _ => e.spawn (.flush feed false)
        | .error _ => e
      e.feedConnected feed next result
    | .lost => e.feedConnected feed next (.error .closedWhileConnecting)
    | .unasked | .awaited =>
      match e.isOver next.limit? with
      | some limit => e.feedTimedOut feed next limit
      | none => .wait

/-- Starts to connect a table: it gets a feed. -/
def lookConnect (e : Engine) (table : TableId) (next : ConnectReturn) : Progress :=
  match e.tables.get? table with
  | none => .finish e
  | some t =>
    match t.beginConnect with
    | .error cause => e.connected next (.error cause)
    | .ok t =>
      let (subscription, events) := (EventBus.empty : EventBus FeedEvent).subscribe
      let feed := { Feed.new t.query t.settings.feedTimeout.toNat [] with events }
      let (id, e) := e.newFeed feed
      let e := e.putTable table { t with feed := some id } [.state]
      .goOn e (.connectFeed id (.table table subscription next))

/-- Hands the next change of a feed to its table. -/
def lookFollow (e : Engine) (table : TableId) (feed : FeedId) (subscription : Nat) : Progress :=
  match e.feeds.get? feed with
  | none => .finish e
  | some f =>
    let (event, events) := f.events.receive subscription
    let e := { e with feeds := e.feeds.insert feed { f with events } }
    let stop (e : Engine) : Progress := .finish (e.unsubscribeFeed feed subscription)
    let released := ((e.tables.get? table).map Table.released).getD true
    match event with
    | none => if f.events.isEnded subscription then stop e else .wait
    | some event =>
      if released then stop (e.onFeed feed fun f => ({ f with released := true }, []))
      else
        match event with
        | .update change =>
          .goOn (e.onTable table fun t => t.applyChange change) (.follow table feed subscription)
        | .close => stop (e.onTable table fun t => t.feedClosed feed)

/-- Starts a write: the row is changed, and the data layer is asked. -/
def lookWrite (e : Engine) (table : TableId) (record : Record) (expected : Option Record)
    (next : WriteReturn) : Progress :=
  match e.tables.get? table with
  | none => .finish e
  | some t =>
    match t.beginWrite record with
    | .error cause => e.written next (.error cause)
    | .ok (t, notices, write) =>
      let (sink, e) := (e.putTable table t notices).ask (t.request record expected)
      let e := e.spawn (.awaitAnswer table write.number sink)
      let limit := Limit.from e.now t.settings.writeTimeout.toNat
      .goOn e (.awaitOutcome table write limit next)

def lookAwaitAnswer (e : Engine) (table : TableId) (write : Nat) (sink : SinkId) : Progress :=
  let channel := e.channels.get sink
  let settle (reply : Option Reply) : Progress :=
    let e := { e with channels := e.channels.dropReceiver sink }
    .finish (e.onTable table fun t => t.settle write (Table.writeOutcome reply))
  match channel.queue with
  | reply :: _ => settle (some reply)
  | [] => if channel.hasSender then .wait else settle none

/-- Waits for the outcome of a write. One that fails or takes too long is taken back. -/
def lookAwaitOutcome (e : Engine) (table : TableId) (write : LocalWrite) (limit : Limit)
    (next : WriteReturn) : Progress :=
  match e.tables.get? table with
  | none => .finish e
  | some t =>
    let passed := if limit.deadline ≤ e.now then some limit.duration else none
    match t.resumeWrite write passed with
    | some (outcome, t, notices) => (e.putTable table t notices).written next outcome
    | none => .wait

def lookAwaitRows (e : Engine) (table : TableId) (condition : RowsCondition)
    (limit : Option Limit) (next : RowsReturn) : Progress :=
  if satisfies (e.tableRows table) condition then e.gotRows next (.ok (e.tableRows table))
  else if e.tableIs table .closed then e.gotRows next (.error .closed)
  else
    match e.isOver limit with
    | some limit => e.gotRows next (.error (.timeout limit.duration))
    | none => .wait

def lookAwaitConnected (e : Engine) (table : TableId) (limit : Option Limit)
    (next : ConnectedReturn) : Progress :=
  if e.tableIs table .connected then e.gotConnected next (.ok ())
  else if e.tableIs table .closed then e.gotConnected next (.error .closed)
  else
    match e.isOver limit with
    | some limit => e.gotConnected next (.error (.timeout limit.duration))
    | none => .wait

/-! ## Documents -/

def lookAwaitReady (e : Engine) (doc : DocId) (limit : Option Limit) (next : ReadyReturn) :
    Progress :=
  match (e.docs.get? doc).bind Document.readiness? with
  | some result => e.gotReady doc next result
  | none =>
    match e.isOver limit with
    | some limit => e.gotReady doc next (.error (.timeout limit.duration))
    | none => .wait

/-- Starts to initialize a document: it listens to its tables and connects them. -/
def lookSetUp (e : Engine) (id : DocId) : Progress :=
  match e.docs.get? id with
  | none => .finish e
  | some doc =>
    let (stringsEvents, e) := e.subscribeTable doc.strings
    let (patchesEvents, e) := e.subscribeTable doc.patches
    let limit := doc.settings.initLimit?.map fun d => Limit.from e.now d.toNat
    .goOn e (.connect doc.strings (.strings ⟨id, stringsEvents, patchesEvents, limit⟩))

/-- Tries to join the list of users. -/
def lookRegister (e : Engine) (init : Initialization) (attempt : Nat) : Progress :=
  match e.docs.get? init.doc with
  | none => .finish e
  | some doc =>
    if attempt < Document.registerAttempts then
      let row := (e.tableRows doc.strings).values.head?
      let (place, record, expected) :=
        doc.registration (e.nameOf doc.client) (e.clockOf doc.client) row
      .goOn e
        (.write doc.strings record (some expected)
          (.register init attempt place (UserList.ofRow row)))
    else e.initializationFailed init doc.registrationError

/-- Completes the initialization: the document is ready and follows its tables. -/
def lookBecomeReady (e : Engine) (init : Initialization) : Progress :=
  match e.docs.get? init.doc with
  | none => .finish e
  | some doc =>
    if doc.state = .init then
      let e := e.onDocument init.doc Document.becomeReady
      let e := e.spawn (.followPatches init.doc doc.patches init.patchesEvents)
      let e := e.spawn (.followStrings init.doc doc.strings init.stringsEvents)
      .finish (e.checkRow init.doc)
    else
      .finish
        ((e.unsubscribeTable doc.strings init.stringsEvents).unsubscribeTable doc.patches
          init.patchesEvents)

/-- Hands the next event of a table to a document. -/
def lookFollowTable (e : Engine) (doc : DocId) (table : TableId) (subscription : Nat)
    (job : Job) (onChange : Engine → List String → Engine) : Progress :=
  match e.tables.get? table with
  | none => .finish e
  | some t =>
    let (event, events) := t.events.receive subscription
    let e := { e with tables := e.tables.insert table { t with events } }
    match event with
    | some (.change keys) => .goOn (onChange e keys) job
    | some .connected => .goOn (e.ingestAll doc) job
    | some .disconnected => .goOn e job
    | some .closed => .finish ((e.closeDocument doc).unsubscribeTable table subscription)
    | none => if t.events.isEnded subscription then .finish e else .wait

/-- Takes in the patches in some rows of a document. -/
def ingestKeys (doc : DocId) (e : Engine) (keys : List String) : Engine :=
  e.onDocument doc fun d => d.ingestRows (e.tableRows d.patches) keys

/-- Starts an edit, unless the document takes none. -/
def lookEdit (e : Engine) (doc : DocId) (edit : UserEdit) (call : CallId) : Progress :=
  match e.docs.get? doc with
  | none => .finish e
  | some d =>
    match d.ensureReady with
    | .error cause => e.answer call (.committed (.error cause))
    | .ok () => .goOn e (.commit doc edit (.call call))

/-- Starts a commit: it takes a ticket. -/
def lookCommit (e : Engine) (doc : DocId) (edit : UserEdit) (next : CommitReturn) : Progress :=
  match e.docs.get? doc with
  | none => .finish e
  | some d =>
    let (ticket, d) := d.takeTicket
    .goOn (e.putDocument doc d []) (.awaitTurn doc ticket edit next)

def lookAwaitTurn (e : Engine) (doc : DocId) (ticket : Nat) (edit : UserEdit)
    (next : CommitReturn) : Progress :=
  match e.docs.get? doc with
  | none => .finish e
  | some d => if d.hasTurn ticket then e.runCommit doc ticket edit next else .wait

def lookSave (e : Engine) (doc : DocId) (call : CallId) : Progress :=
  match e.docs.get? doc with
  | none => .finish e
  | some d =>
    match d.ensureOpen with
    | .error cause => e.answer call (.documentDone (.error cause))
    | .ok () =>
      match e.disk.write d.path d.text with
      | .error detail => e.answer call (.documentDone (.error (.io d.path detail)))
      | .ok disk =>
        let saved := ({ d with saved := some d.text } : Document).emit .saved
        ({ e with disk }.putDocument doc saved [.events]).answer call (.documentDone (.ok ()))

def lookLoad (e : Engine) (doc : DocId) (next : LoadReturn) : Progress :=
  match e.docs.get? doc with
  | none => .finish e
  | some d =>
    match d.ensureOpen with
    | .error cause => e.loaded next (.error cause)
    | .ok () =>
      match e.disk.read d.path with
      | .error detail => e.loaded next (.error (.io d.path detail))
      | .ok none => e.loaded next (.ok false)
      | .ok (some text) =>
        match d.format.parse text with
        | .error cause => e.loaded next (.error (.document cause))
        | .ok _ => .goOn e (.commit doc (.replace text) (.load next))

def lookReconnect (e : Engine) (doc : DocId) (call : CallId) : Progress :=
  match e.docs.get? doc with
  | none => .finish e
  | some d =>
    match d.ensureOpen with
    | .error cause => e.answer call (.documentDone (.error cause))
    | .ok () => .goOn e (.reconnectTables doc [d.strings, d.patches] call)

/-- Connects the next table of a document that is disconnected. -/
def lookReconnectTables (e : Engine) (doc : DocId) (tables : List TableId) (call : CallId) :
    Progress :=
  match tables with
  | [] => (e.ingestAll doc).answer call (.documentDone (.ok ()))
  | table :: rest =>
    if e.tableIs table .disconnected then .goOn e (.connect table (.reconnect doc rest call))
    else .goOn e (.reconnectTables doc rest call)

/-! ## Registry and sessions -/

/-- A document of the registry and its table are closed, and the document leaves the registry. -/
def endWatch (e : Engine) (doc : DocId) (table : TableId) : Progress :=
  let e := e.closeTable table
  match e.docs.get? doc with
  | none => .finish e
  | some d => .finish { e with registry := e.registry.forget d.path doc }

/-- Looks for the end of a document of the registry, or of its table. Events of both may be there at
once, and then either may be taken first: here it is always the one of the document, so of the
orders that are allowed this is one. -/
def lookWatch (e : Engine) (doc : DocId) (table : TableId) (docEvents tableEvents : Nat) :
    Progress :=
  match e.docs.get? doc, e.tables.get? table with
  | some d, some t =>
    let job := Job.watch doc table docEvents tableEvents
    let (event, left) := d.events.receive docEvents
    match event with
    | some event =>
      let e := { e with docs := e.docs.insert doc { d with events := left } }
      match event with
      | .error _ => .goOn (e.closeDocument doc) job
      | .closed => e.endWatch doc table
      | _ => .goOn e job
    | none =>
      if d.events.isEnded docEvents then e.endWatch doc table
      else
        let (event, left) := t.events.receive tableEvents
        let e := { e with tables := e.tables.insert table { t with events := left } }
        match event with
        | some .closed => (e.closeDocument doc).endWatch doc table
        | some _ => .goOn e job
        | none =>
          if t.events.isEnded tableEvents then (e.closeDocument doc).endWatch doc table else .wait
  | _, _ => .finish e

/-- Starts a session: it connects to the table of all documents. -/
def lookSession (e : Engine) (client : ClientId) (settings : Settings) (call : CallId) :
    Progress :=
  let (table, e) := e.newTable .syncstrings (Query.all Schema.syncstrings.name) settings
  let (events, e) := e.subscribeTable table
  let s : Session := ⟨client, settings, table, events, .empty, call⟩
  .goOn e (.connect table (.session s shortestDelay true))

/-- Handles the next event of a session's table. -/
def lookFollowRows (e : Engine) (s : Session) : Progress :=
  match e.tables.get? s.table with
  | none => .finish e
  | some t =>
    let (event, events) := t.events.receive s.events
    let e := { e with tables := e.tables.insert s.table { t with events } }
    let opened (keys : Option (List String)) : Progress :=
      let (e, s) := e.openSessionRows s keys
      .goOn e (.followRows s)
    match event with
    | some .connected => opened none
    | some (.change keys) => opened (some keys)
    | some .disconnected => .goOn e (.connect s.table (.session s shortestDelay false))
    | some .closed => e.answer s.call (.sessionEnded (.ok ()))
    | none => if t.events.isEnded s.events then e.answer s.call (.sessionEnded (.ok ())) else .wait

/-- Waits before a session connects again. -/
def lookSleep (e : Engine) (s : Session) (wakeAt delay : Nat) (isFirst : Bool) : Progress :=
  if wakeAt ≤ e.now then
    .goOn e (.connect s.table (.session s (min (2 * delay) longestDelay) isFirst))
  else .wait

/-- Waits for a document to be opened. A table that nobody watches then is let go. -/
def lookJoin (e : Engine) (table : TableId) (job : JobId) : Progress :=
  if e.jobs.contains job then .wait
  else
    let watched := e.jobs.values.any fun j =>
      match j with
      | .watch _ t _ _ => t == table
      | _ => false
    if watched then .finish e
    else .finish (e.onTable table fun t => ({ t with released := true }, []))

/-! ## Steps -/

/-- What a job comes to when it is looked at. -/
def look (e : Engine) (job : Job) : Progress :=
  match job with
  | .pump feed sink => e.lookPump feed sink
  | .flush feed false => .yield (.flush feed true)
  | .flush feed true => .finish (e.onFeed feed Feed.flush)
  | .cancel id =>
    let (backend, posts) := e.backend.cancel id
    .finish ({ e with backend }.deliver posts)
  | .connectFeed feed next => e.lookConnectFeed feed next
  | .awaitFirst feed next => e.lookAwaitFirst feed next
  | .connect table next => e.lookConnect table next
  | .follow table feed subscription => e.lookFollow table feed subscription
  | .write table record expected next => e.lookWrite table record expected next
  | .awaitAnswer table write sink => e.lookAwaitAnswer table write sink
  | .awaitOutcome table write limit next => e.lookAwaitOutcome table write limit next
  | .awaitRows table condition limit next => e.lookAwaitRows table condition limit next
  | .awaitConnected table limit next => e.lookAwaitConnected table limit next
  | .awaitReady doc limit next => e.lookAwaitReady doc limit next
  | .setUp doc => e.lookSetUp doc
  | .register init attempt => e.lookRegister init attempt
  | .becomeReady init => e.lookBecomeReady init
  | .followPatches doc table subscription =>
    e.lookFollowTable doc table subscription job (ingestKeys doc)
  | .followStrings doc table subscription =>
    e.lookFollowTable doc table subscription job fun e _ => e.checkRow doc
  | .edit doc edit call => e.lookEdit doc edit call
  | .commit doc edit next => e.lookCommit doc edit next
  | .awaitTurn doc ticket edit next => e.lookAwaitTurn doc ticket edit next
  | .save doc call => e.lookSave doc call
  | .load doc next => e.lookLoad doc next
  | .reconnect doc call => e.lookReconnect doc call
  | .reconnectTables doc tables call => e.lookReconnectTables doc tables call
  | .watch doc table docEvents tableEvents => e.lookWatch doc table docEvents tableEvents
  | .session client settings call => e.lookSession client settings call
  | .followRows s => e.lookFollowRows s
  | .sleep s wakeAt delay isFirst => e.lookSleep s wakeAt delay isFirst
  | .join table other => e.lookJoin table other

def dequeue (e : Engine) (id : JobId) : Engine := { e with queue := e.queue.erase id }

/-- One step of a job. -/
def stepJob (e : Engine) (id : JobId) : Engine :=
  match e.jobs.get? id with
  | none => e.dequeue id
  | some job =>
    match e.look job with
    | .wait => e.dequeue id
    | .goOn e job => { e with jobs := e.jobs.insert id job }
    | .yield job =>
      { e.dequeue id with jobs := e.jobs.insert id job, deferred := e.deferred ++ [id] }
    | .finish e => ({ e with jobs := e.jobs.erase id }.dequeue id).wake (.finished id)

/-- One step: of the job at the head of the queue, or else the deferred jobs are put into it. -/
def step (e : Engine) : Engine :=
  match e.queue with
  | id :: _ => e.stepJob id
  | [] => { e with queue := e.deferred, deferred := [] }

/-- Whether no job can go on. -/
def isQuiet (e : Engine) : Bool := e.queue.isEmpty && e.deferred.isEmpty

/-- Makes steps until all jobs wait, at most `fuel` of them. -/
def settle : (fuel : Nat) → Engine → Engine
  | 0, e => e
  | fuel + 1, e => if e.isQuiet then e else settle fuel e.step

/-- Puts an entry behind those that are not later. -/
def insertByTime (entry : Nat × JobId) : List (Nat × JobId) → List (Nat × JobId)
  | [] => [entry]
  | first :: rest =>
    if entry.1 < first.1 then entry :: first :: rest else first :: insertByTime entry rest

/-- Moves the clock and wakes the jobs whose deadlines have passed, in the order of the
deadlines. -/
def advance (e : Engine) (milliseconds : Nat) : Engine :=
  let e := { e with now := e.now + milliseconds }
  let due := e.jobs.entries.filterMap fun (id, job) =>
    (job.deadline?.filter (· ≤ e.now)).map fun deadline => (deadline, id)
  e.enqueue ((due.foldl (fun sorted d => insertByTime d sorted) []).map Prod.snd)

end Engine

end LiveDocs

import LiveDocs.Engine.Run

/-!
# Control of an engine from outside

What may be done to an engine besides starting jobs: observing feeds, tables and documents, sending
responses by hand, and acting on the registry.

## Main definitions

* `Engine.drainFeed`, `Engine.drainTable`, `Engine.drainDocument`: the events of a subscription.
* `Engine.push`: sends a response.
* `Engine.openFromTable`: opens a document from its row.
* `Engine.callPath`, `Engine.dispatch`, `Engine.closePath`, `Engine.closeTree`: acts on the
  registry.
-/

namespace LiveDocs

namespace Engine

def subscribeFeed (e : Engine) (id : FeedId) : Nat × Engine :=
  match e.feeds.get? id with
  | none => (0, e)
  | some feed =>
    let (subscription, events) := feed.events.subscribe
    (subscription, { e with feeds := e.feeds.insert id { feed with events } })

def drainFeed (e : Engine) (id : FeedId) (subscription : Nat) : List FeedEvent × Engine :=
  match e.feeds.get? id with
  | none => ([], e)
  | some feed =>
    let (seen, events) := feed.events.drain subscription
    (seen, { e with feeds := e.feeds.insert id { feed with events } })

def drainTable (e : Engine) (id : TableId) (subscription : Nat) : List TableEvent × Engine :=
  match e.tables.get? id with
  | none => ([], e)
  | some table =>
    let (seen, events) := table.events.drain subscription
    (seen, { e with tables := e.tables.insert id { table with events } })

def drainDocument (e : Engine) (id : DocId) (subscription : Nat) : List DocumentEvent × Engine :=
  match e.docs.get? id with
  | none => ([], e)
  | some doc =>
    let (seen, events) := doc.events.drain subscription
    (seen, { e with docs := e.docs.insert id { doc with events } })

/-- Sends a response to a sink and tells whether it could arrive. -/
def push (e : Engine) (sink : SinkId) (reply : Reply) : Engine × Bool :=
  let channel := e.channels.get sink
  if channel.hasSender && channel.hasReceiver then (e.deliver [.send sink reply], true)
  else (e, false)

/-- Starts to open the document whose row a table holds. -/
def openFromTable (e : Engine) (client : ClientId) (table : TableId) (call : Option CallId) :
    Except RegistryError Engine :=
  match e.tables.get? table with
  | none => .error .tableClosed
  | some t =>
    if t.schema.name ≠ Schema.syncstrings.name then .error (.wrongTable t.schema.name)
    else if t.state = .closed then .error .tableClosed
    else .ok (e.spawn (.awaitConnected table none (.opening ⟨client, table, call⟩)))

def closeDocuments (e : Engine) (docs : List DocId) : Engine :=
  docs.foldl (fun e doc => e.closeDocument doc) e

/-- Runs a command on the document at a path. -/
def callPath (e : Engine) (path : String) (message : Json) :
    Except CommandError (CallStatus × Engine) :=
  match e.registry.call path message with
  | .error cause => .error cause
  | .ok (status, registry, doc) => .ok (status, { e with registry }.closeDocuments doc.toList)

/-- Runs a command given as text and replies to it. -/
def dispatch (e : Engine) (text : String) : Record × Engine :=
  let (reply, registry, doc) := e.registry.dispatch text
  (reply, { e with registry }.closeDocuments doc.toList)

/-- Closes the document at a path and tells whether there was one. -/
def closePath (e : Engine) (path : String) : Bool × Engine :=
  let (registry, doc) := e.registry.close path
  (doc.isSome, { e with registry }.closeDocuments doc.toList)

/-- Closes the documents at a directory or below it and tells how many there were. -/
def closeTree (e : Engine) (dir : String) : Nat × Engine :=
  let (registry, docs) := e.registry.closeTree dir
  (docs.length, { e with registry }.closeDocuments docs)

end Engine

end LiveDocs

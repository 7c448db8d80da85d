import LiveDocs.Events
import LiveDocs.Query.Response
import LiveDocs.Text.Quoted

/-!
# Changefeeds

A feed runs one live query. Its first response holds the rows of the query and completes the
connection. Changes that arrive before that are kept back and handed out, in the order they arrived,
a moment after the connection is complete; later ones are handed out at once. An error, a
cancellation or the end of the responses closes the feed.

A feed changes in single steps, each a function from a feed to a feed. What others may be waiting
for is reported as a list of notices, in the order it happens.

## Main definitions

* `ConnectionState`, `ConnectionError`: the states of feeds and tables, and why connecting fails.
* `Feed`, `FeedEvent`: a feed and what its subscribers see.
* `Feed.beginConnect`, `Feed.finishConnect`: connecting, before and after the first response.
* `Feed.deliver`, `Feed.endOfStream`: what arrives from the data layer.
* `Feed.flush`, `Feed.close`.
-/

namespace LiveDocs

/-- The states of a feed or a table. -/
inductive ConnectionState where
  | disconnected
  | connecting
  | connected
  | closed
deriving DecidableEq

namespace ConnectionState

def name : ConnectionState → String
  | disconnected => "disconnected"
  | connecting => "connecting"
  | connected => "connected"
  | closed => "closed"

/-- The name of a state in descriptions. -/
def title : ConnectionState → String
  | disconnected => "Disconnected"
  | connecting => "Connecting"
  | connected => "Connected"
  | closed => "Closed"

end ConnectionState

/-- Why connecting fails. -/
inductive ConnectionError where
  | notDisconnected (state : ConnectionState)
  | cancelled
  | missingTable (table : String)
  | closedWhileConnecting
  | query (cause : QueryError)
deriving DecidableEq

namespace ConnectionError

/-- The name of the kind of an error, with the kind of its cause behind a dot. -/
def code : ConnectionError → String
  | notDisconnected _ => "NotDisconnected"
  | cancelled => "Cancelled"
  | missingTable _ => "MissingTable"
  | closedWhileConnecting => "ClosedWhileConnecting"
  | query cause => "Query." ++ cause.code

def message : ConnectionError → String
  | notDisconnected state =>
    "can only connect when disconnected, but state is '" ++ state.name ++ "'"
  | cancelled => "query was cancelled before the initial result"
  | missingTable table => "initial result has no rows for table '" ++ table ++ "'"
  | closedWhileConnecting => "changefeed closed while connecting"
  | query cause => "initial query failed: " ++ cause.message

end ConnectionError

/-- What the subscribers of a feed see. -/
inductive FeedEvent where
  | update (change : Change)
  | close

/-- The first response, as the one who connects sees it. -/
inductive FirstResponse where
  /-- Nobody has connected yet. -/
  | unasked
  /-- It has not arrived. -/
  | awaited
  | arrived (reply : Reply)
  /-- The feed was closed before it arrived. -/
  | lost

/-- A live query. -/
structure Feed where
  query : Query
  timeout : Nat
  options : List Json
  state : ConnectionState
  /-- The id of the running query. -/
  id : Option String
  first : FirstResponse
  /-- What is kept back, `none` once it was handed out. -/
  pending : Option (List Reply)
  events : EventBus FeedEvent
  /-- Whether nobody holds the feed any more. -/
  released : Bool

/-- What others may be waiting for. -/
inductive FeedNotice where
  /-- The first response has arrived or is lost. -/
  | first
  /-- There is an event, or there will be no more. -/
  | events
  /-- The query with this id is to be cancelled. -/
  | cancel (id : String)
deriving DecidableEq

namespace Feed

/-- The timeout of queries if nothing else is said, in milliseconds. -/
def standardTimeout : Nat := 30000

def new (query : Query) (timeout : Nat) (options : List Json) : Feed where
  query
  timeout
  options
  state := .disconnected
  id := none
  first := .unasked
  pending := some []
  events := .empty
  released := false

/-- The number of responses that are kept back. -/
def pendingCount (f : Feed) : Nat := (f.pending.map List.length).getD 0

/-- The query as it is sent. -/
def request (f : Feed) : Request := Request.changefeed f.query f.timeout f.options

def describe (f : Feed) : String :=
  "Changefeed \x7b table: " ++ quotedName f.query.table ++ ", state: " ++ f.state.title ++ " \x7d"

/-- Closes the feed. What is kept back is dropped. -/
def close (f : Feed) : Feed × List FeedNotice :=
  if f.state = .closed then (f, [])
  else
    let (first, awaited) :=
      match f.first with
      | .awaited => (FirstResponse.lost, [FeedNotice.first])
      | first => (first, [])
    ({ f with
        state := .closed
        first
        pending := none
        id := none
        events := (f.events.emit .close).close },
      awaited ++ (f.id.map FeedNotice.cancel).toList ++ [.events])

def beginConnect (f : Feed) : Except ConnectionError Feed :=
  if f.state = .disconnected then .ok { f with state := .connecting, first := .awaited }
  else .error (.notDisconnected f.state)

/-- What the first response says: the rows of the query and its id, or why there are none. -/
def readFirst (f : Feed) : Reply → Except ConnectionError (Option String × List Record)
  | .error cause => .error (.query cause)
  | .ok response =>
    if response.isCancel then .error .cancelled
    else
      match response.rows? f.query.table with
      | some rows => .ok (response.id, rows)
      | none => .error (.missingTable f.query.table)

/-- Completes the connection with a first response. A response without rows closes the feed. -/
def finishConnect (f : Feed) (reply : Reply) :
    Feed × List FeedNotice × Except ConnectionError (List Record) :=
  match f.readFirst reply with
  | .error e =>
    let (f, notices) := f.close
    (f, notices, .error e)
  | .ok (id, rows) =>
    if f.state = .closed then (f, [], .error .closedWhileConnecting)
    else ({ f with id, state := .connected }, [], .ok rows)

/-- Hands out one response. The flag tells whether the feed is still open. -/
def process (f : Feed) : Reply → Feed × List FeedNotice × Bool
  | .error _ =>
    let (f, notices) := f.close
    (f, notices, false)
  | .ok response =>
    if response.isCancel then
      let (f, notices) := f.close
      (f, notices, false)
    else
      match response.change? with
      | some change => ({ f with events := f.events.emit (.update change) }, [.events], true)
      | none => (f, [], true)

/-- Takes in one response. The flag tells whether more of them are wanted. -/
def deliver (f : Feed) (reply : Reply) : Feed × List FeedNotice × Bool :=
  match f.first with
  | .awaited => ({ f with first := .arrived reply }, [.first], true)
  | _ =>
    if f.state = .closed then (f, [], false)
    else
      match f.pending with
      | some queue => ({ f with pending := some (queue ++ [reply]) }, [], true)
      | none => f.process reply

/-- The end of the responses. -/
def endOfStream (f : Feed) : Feed × List FeedNotice := f.close

/-- Hands out some responses, up to one that closes the feed. -/
def processAll (f : Feed) : List Reply → Feed × List FeedNotice
  | [] => (f, [])
  | reply :: rest =>
    match f.process reply with
    | (f, notices, true) =>
      let (f, more) := f.processAll rest
      (f, notices ++ more)
    | (f, notices, false) => (f, notices)

/-- Hands out what was kept back; from now on responses are handed out as they arrive. -/
def flush (f : Feed) : Feed × List FeedNotice :=
  if f.state = .connected then
    ({ f with pending := none } : Feed).processAll (f.pending.getD [])
  else (f, [])

end Feed

end LiveDocs

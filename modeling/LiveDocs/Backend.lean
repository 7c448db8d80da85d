import LiveDocs.Channel

/-!
# Data layers

What answers the queries of feeds and tables. One data layer is a database, whose next answers may
be planned to go wrong; the other records the queries and is answered by hand.

## Main definitions

* `Script`: a data layer answered by hand.
* `Fault`, `FaultPlan`: how the next answers of a database go wrong.
* `Backend`, `Backend.query`, `Backend.cancel`: a data layer of either sort.
-/

namespace LiveDocs

/-- A data layer answered by hand: the queries it was asked, and the ids it was told to cancel. -/
structure Script where
  /-- The queries in the order they were asked, with their sinks. -/
  queries : List (Request × SinkId)
  cancelled : List String

/-- How a query is answered. -/
inductive Fault where
  /-- As usual. -/
  | pass
  /-- With an error of the server. -/
  | reject
  /-- With a conflict. -/
  | conflict
  /-- With the loss of the connection. -/
  | lost
  /-- With a cancellation. -/
  | cancel
  /-- With the rows of another table. -/
  | missing
  /-- Not at all, and nothing will come. -/
  | drop
  /-- Not at all, and nobody can tell. -/
  | silent
  /-- As usual, but another user joins the document just before. -/
  | race (user : Json)

/-- How the next queries are answered, writes and live queries apart. -/
structure FaultPlan where
  writes : List Fault
  feeds : List Fault

/-- A data layer. -/
inductive Backend where
  | script (script : Script)
  | database (db : Database) (plan : FaultPlan)

namespace Fault

/-- The way of answering with a name. An object names the user of a race. -/
def ofJson? : Json → Option Fault
  | .str "pass" => some pass
  | .str "reject" => some reject
  | .str "conflict" => some conflict
  | .str "lost" => some lost
  | .str "cancel" => some cancel
  | .str "missing" => some missing
  | .str "drop" => some drop
  | .str "silent" => some silent
  | .obj fields => ((SortedMap.ofList fields).get? "race").map race
  | _ => none

end Fault

namespace Script

def new : Script := ⟨[], []⟩

end Script

namespace FaultPlan

def none : FaultPlan := ⟨[], []⟩

/-- Takes the plan for one query. -/
def take (p : FaultPlan) (isFeed : Bool) : Fault × FaultPlan :=
  match isFeed, p.writes, p.feeds with
  | true, _, fault :: rest => (fault, { p with feeds := rest })
  | false, fault :: rest, _ => (fault, { p with writes := rest })
  | _, _, _ => (.pass, p)

end FaultPlan

namespace Backend

def tableOf (request : Request) : String :=
  match request.query with
  | .obj ((table, _) :: _) => table
  | _ => ""

/-- The document that a write is about. -/
def stringIdOf (request : Request) : Option Json :=
  match request.query with
  | .obj ((_, .obj fields) :: _) => (SortedMap.ofList fields).get? "string_id"
  | _ => none

/-- Lets another user join a document. -/
def join (alive : SinkId → Bool) (db : Database) (stringId user : Json) : Database × List Post :=
  let table := Schema.syncstrings
  let key : Record := .ofList [("string_id", stringId)]
  let row := (table.key? key).bind fun k =>
    (db.tables.get? table.name).bind fun t => t.rows.get? k
  let users := ((row.bind fun r => r.get? "users").bind Json.items?).getD []
  let (db, posts, _) := db.upsert alive table.name (key.insert "users" (.arr (users ++ [user])))
  (db, posts)

def answer (sink : SinkId) (reply : Reply) : List Post := [.send sink reply, .finish sink]

/-- Runs a query on a database, as planned. -/
def queryDatabase (alive : SinkId → Bool) (db : Database) (fault : Fault) (request : Request)
    (sink : SinkId) : Database × List Post :=
  match fault with
  | .pass => db.query alive request sink
  | .reject => (db, answer sink (.error (.server "rejected")))
  | .conflict => (db, answer sink (.error (.conflict (tableOf request))))
  | .lost => (db, answer sink (.error .disconnected))
  | .cancel => (db, answer sink (.ok .cancelled))
  | .missing => (db, answer sink (.ok (.initial none "other" [])))
  | .drop => (db, [.finish sink])
  | .silent => (db, [])
  | .race user =>
    match stringIdOf request with
    | none => db.query alive request sink
    | some stringId =>
      let (db, before) := join alive db stringId user
      let (db, posts) := db.query alive request sink
      (db, before ++ posts)

def plan (b : Backend) (more : FaultPlan) : Backend :=
  match b with
  | script s => .script s
  | database db plan => .database db ⟨plan.writes ++ more.writes, plan.feeds ++ more.feeds⟩

/-- The queries that a data layer answered by hand was asked. -/
def asked : Backend → List (Request × SinkId)
  | script s => s.queries
  | database _ _ => []

/-- The ids that a data layer answered by hand was told to cancel. -/
def cancelled : Backend → List String
  | script s => s.cancelled
  | database _ _ => []

def query (alive : SinkId → Bool) (b : Backend) (request : Request) (sink : SinkId) :
    Backend × List Post :=
  match b with
  | script s => (.script { s with queries := s.queries ++ [(request, sink)] }, [])
  | database db plan =>
    let (fault, plan) := plan.take request.changes
    let (db, posts) := queryDatabase alive db fault request sink
    (.database db plan, posts)

def cancel (b : Backend) (id : String) : Backend × List Post :=
  match b with
  | script s => (.script { s with cancelled := s.cancelled ++ [id] }, [])
  | database db plan =>
    let (db, posts, _) := db.cancel id
    (.database db plan, posts)

end Backend

end LiveDocs

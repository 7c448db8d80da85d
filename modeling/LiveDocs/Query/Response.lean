import LiveDocs.Query.Basic

/-!
# Responses

What the data layer sends for a query. The first response to a changefeed holds the rows of the
query; every later one is a change of them or the end of the feed.

## Main definitions

* `Action`, `Change`: a change of one row.
* `Response`: a response, with `Response.rows?` and `Response.change?`.
* `Response.toRecord`, `Response.ofJson?`: the JSON form.
-/

namespace LiveDocs

/-- What happened to a row. -/
inductive Action where
  | insert
  | update
  | delete
deriving DecidableEq

/-- The change of one row: the row after and before it. -/
structure Change where
  action : Action
  newRow : Option Record
  oldRow : Option Record

/-- A response of the data layer. -/
structure Response where
  id : Option String
  query : Option Record
  event : Option String
  action : Option Action
  newRow : Option Record
  oldRow : Option Record

/-- What arrives for a query: responses or an error. -/
abbrev Reply := Except QueryError Response

namespace Action

def name : Action → String
  | insert => "insert"
  | update => "update"
  | delete => "delete"

def ofName? : String → Option Action
  | "insert" => some insert
  | "update" => some update
  | "delete" => some delete
  | _ => none

/-- Reads an action: its name, or an object with the name as its only key and no content. -/
def ofJson? : Json → Option Action
  | .str name => ofName? name
  | .obj [(name, .null)] => ofName? name
  | _ => none

end Action

/-- Adds a field if there is a value for it. -/
def addField (fields : List (String × Json)) (key : String) (value : Option Json) :
    List (String × Json) :=
  match value with
  | some v => fields ++ [(key, v)]
  | none => fields

namespace Change

def toRecord (c : Change) : Record :=
  .ofList
    (addField
      (addField [("action", .str c.action.name)] "new_val" (c.newRow.map Json.ofRecord))
      "old_val" (c.oldRow.map Json.ofRecord))

end Change

namespace Response

/-- The response without any part. It is also the acknowledgement of a write. -/
def empty : Response := ⟨none, none, none, none, none, none⟩

/-- The rows of a query. -/
def initial (id : Option String) (table : String) (rows : List Record) : Response :=
  { empty with id, query := some (.ofList [(table, .arr (rows.map Json.ofRecord))]) }

/-- The change of a row. -/
def ofChange (c : Change) : Response :=
  { empty with action := some c.action, newRow := c.newRow, oldRow := c.oldRow }

/-- The event that ends a cancelled feed. -/
def cancelEvent : String := "query_cancel"

/-- The end of a cancelled feed. -/
def cancelled : Response := { empty with event := some cancelEvent }

/-- Whether this ends a cancelled feed. -/
def isCancel (r : Response) : Bool := r.event == some cancelEvent

def rows? (r : Response) (table : String) : Option (List Record) :=
  match r.query.bind fun q => q.get? table with
  | some (.arr items) => some (items.filterMap Json.record?)
  | some (.obj fields) => some [.ofList fields]
  | _ => none

def change? (r : Response) : Option Change :=
  r.action.map fun action => ⟨action, r.newRow, r.oldRow⟩

/-- The response as a record; absent parts are left out. -/
def toRecord (r : Response) : Record :=
  let fields : List (String × Json) := []
  let fields := addField fields "id" (r.id.map Json.str)
  let fields := addField fields "query" (r.query.map Json.ofRecord)
  let fields := addField fields "event" (r.event.map Json.str)
  let fields := addField fields "action" (r.action.map fun a => Json.str a.name)
  let fields := addField fields "new_val" (r.newRow.map Json.ofRecord)
  .ofList (addField fields "old_val" (r.oldRow.map Json.ofRecord))

/-- Reads a part that may be absent or `null`. -/
def part? {α : Type} (read : Json → Option α) : Option Json → Option (Option α)
  | none | some .null => some none
  | some value => (read value).map some

/-- Reads a response from its parts. -/
def ofParts? (part : String → Option Json) : Option Response := do
  let id ← part? Json.str? (part "id")
  let query ← part? Json.record? (part "query")
  let event ← part? Json.str? (part "event")
  let action ← part? Action.ofJson? (part "action")
  let newRow ← part? Json.record? (part "new_val")
  let oldRow ← part? Json.record? (part "old_val")
  some { id, query, event, action, newRow, oldRow }

/-- The names of the parts, in the order they have in a list. -/
def partNames : List String := ["id", "query", "event", "action", "new_val", "old_val"]

/-- Reads a response, as an object or as the list of its parts. -/
def ofJson? : Json → Option Response
  | .obj fields => ofParts? (SortedMap.ofList fields).get?
  | .arr items =>
    if partNames.length < items.length then none
    else ofParts? fun name => items[partNames.idxOf name]?
  | _ => none

end Response

end LiveDocs

import LiveDocs.Schema

/-!
# Queries

Queries travel as JSON objects that name one table. A get query holds a list with one template: a
field with a value asks for rows with that value, a field that is `null` asks for that field to be
returned, and a template without such fields asks for whole rows. A set query holds a row to write.

## Main definitions

* `QueryError`: what the data layer may answer instead of a result.
* `Query`, `Query.matchesRow`, `Query.project`: get queries and what they select.
* `Query.toJson`, `Statement.parse`: the JSON form of queries and how it is read.
* `Request`: a query with its options, and `Request.precondition?` of a conditional write.
-/

namespace LiveDocs

/-- Why a query is malformed. -/
inductive QueryFault where
  | notAnObject
  | tableCount (count : Nat)
  | notOneTemplate
  | badBody (table : String)
  | keylessRow (table : String)
  | keylessDelete
  /-- A fault that the data layer words itself. -/
  | reported (detail : String)
deriving DecidableEq

/-- Errors of the data layer. -/
inductive QueryError where
  | malformed (fault : QueryFault)
  | unknownTable (table : String)
  | unknownQuery (id : String)
  | disconnected
  | server (detail : String)
  | conflict (table : String)
deriving DecidableEq

namespace QueryFault

def message : QueryFault → String
  | notAnObject => "query must be an object"
  | tableCount count => "query must name exactly one table, got " ++ toString count
  | notOneTemplate => "get query must hold a single template object"
  | badBody table => "query body for '" ++ table ++ "' must be an array or an object"
  | keylessRow table => "row for '" ++ table ++ "' is missing its primary key"
  | keylessDelete => "delete without primary key"
  | reported detail => detail

end QueryFault

namespace QueryError

def code : QueryError → String
  | malformed _ => "Malformed"
  | unknownTable _ => "UnknownTable"
  | unknownQuery _ => "UnknownQuery"
  | disconnected => "Disconnected"
  | server _ => "Server"
  | conflict _ => "Conflict"

/-- The error of a kind, with what it says. -/
def ofCode? (code detail : String) : Option QueryError :=
  match code with
  | "Malformed" => some (.malformed (.reported detail))
  | "UnknownTable" => some (.unknownTable detail)
  | "UnknownQuery" => some (.unknownQuery detail)
  | "Disconnected" => some .disconnected
  | "Server" => some (.server detail)
  | "Conflict" => some (.conflict detail)
  | _ => none

def message : QueryError → String
  | malformed fault => "malformed query: " ++ fault.message
  | unknownTable table => "unknown table '" ++ table ++ "'"
  | unknownQuery id => "unknown query id '" ++ id ++ "'"
  | disconnected => "transport disconnected"
  | server detail => "server error: " ++ detail
  | conflict table => "row in '" ++ table ++ "' changed since it was read"

end QueryError

/-- A get query: equality filters, and fields to return; no fields mean whole rows. -/
structure Query where
  table : String
  filter : Record
  fields : List String

namespace Query

def all (table : String) : Query := ⟨table, .empty, []⟩

/-- The query with a filter added; it replaces one on the same field. -/
def withFilter (q : Query) (field : String) (value : Json) : Query :=
  { q with filter := q.filter.insert field value }

/-- The query with fields to return added. -/
def select (q : Query) (fields : List String) : Query := { q with fields := q.fields ++ fields }

def matchesRow (q : Query) (row : Record) : Bool := row.hasAll q.filter

/-- The part of a row that is returned: the fields asked for, those filtered on and the key. -/
def project (q : Query) (schema : Schema) (row : Record) : Record :=
  if q.fields.isEmpty then row
  else
    row.filter fun field _ =>
      q.fields.contains field || q.filter.contains field || schema.primaryKey.contains field

/-- The template of a query. A field that is filtered on shows its value. -/
def template (q : Query) : Record :=
  q.fields.foldl (fun t f => if t.contains f then t else t.insert f .null) q.filter

def toJson (q : Query) : Json := .obj [(q.table, .arr [.ofRecord q.template])]

/-- The query of a template. -/
def ofTemplate (table : String) (template : Record) : Query :=
  { table
    filter := template.filter fun _ value => !value.isNull
    fields := (template.filter fun _ value => value.isNull).keys }

end Query

/-- A query that was read: rows to get, or a row to write. -/
inductive Statement where
  | get (query : Query)
  | set (table : String) (row : Record)

namespace Statement

/-- Reads the body of a query. -/
def ofBody (table : String) : Json → Except QueryError Statement
  | .arr [] => .ok (.get (.ofTemplate table .empty))
  | .arr [.obj fields] => .ok (.get (.ofTemplate table (.ofList fields)))
  | .arr _ => .error (.malformed .notOneTemplate)
  | .obj fields => .ok (.set table (.ofList fields))
  | _ => .error (.malformed (.badBody table))

def parse : Json → Except QueryError Statement
  | .obj [(table, body)] => ofBody table body
  | .obj fields => .error (.malformed (.tableCount fields.length))
  | _ => .error (.malformed .notAnObject)

end Statement

/-- Whether a row, an absent one counting as empty, has every field of `expected`; `null` stands
for an absent field. -/
def rowMatches (row : Option Record) (expected : Record) : Bool :=
  expected.entries.all fun e => (row.getD .empty).getOrNull e.1 == e.2

/-- A query handed to the data layer. -/
structure Request where
  query : Json
  /-- Whether changes of the result are wanted, too. -/
  changes : Bool
  /-- The timeout in milliseconds. -/
  timeout : Nat
  options : List Json

namespace Request

/-- A query for rows and their changes. -/
def changefeed (q : Query) (timeout : Nat) (options : List Json) : Request :=
  ⟨q.toJson, true, timeout, options⟩

def set (table : String) (row : Record) (timeout : Nat) : Request :=
  ⟨.obj [(table, .ofRecord row)], false, timeout, []⟩

/-- The write of a row that is made only while the stored row has the fields of `expected`. -/
def setIf (table : String) (row expected : Record) (timeout : Nat) : Request :=
  { set table row timeout with options := [.obj [("if_match", .ofRecord expected)]] }

/-- The precondition of a conditional write: the first option that holds one. -/
def precondition? (r : Request) : Option Record :=
  r.options.findSome? fun option =>
    (option.record?.bind fun fields => fields.get? "if_match").bind Json.record?

end Request

end LiveDocs

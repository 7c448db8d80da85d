import LiveDocs.Record

/-!
# Table schemas

What the engine knows of a table: its name and the fields that identify a row.

## Main definitions

* `Schema`, `Schema.key?`, `Schema.keyFields`: a schema, and the key of a row.
* `Schema.syncstrings`, `Schema.patches`: the two tables of stored documents.
-/

namespace LiveDocs

/-- The name of a table and its key fields. -/
structure Schema where
  name : String
  primaryKey : List String
deriving DecidableEq

namespace Schema

/-- The key of a row, `none` if a key field is missing or `null`. -/
def key? (s : Schema) (row : Record) : Option String := row.key? s.primaryKey

def keyFields (s : Schema) (row : Record) : Record := row.keyFields s.primaryKey

/-- The table with one row per document. -/
def syncstrings : Schema := ⟨"syncstrings", ["string_id"]⟩

/-- The table with one row per patch. -/
def patches : Schema := ⟨"patches", ["string_id", "time", "user_id"]⟩

end Schema

/-- Rows by key. -/
abbrev Rows := SortedMap String Record

end LiveDocs

import LiveDocs.Json.Reader

/-!
# Records

Operations on the members of JSON objects. Rows of tables and records of documents are identified by
the values of some key fields; the text of those values as a JSON array is the *key* of a record.

## Main definitions

* `Record.merge`, `Record.assign`: fields put into a record; with `assign` a `null` drops a field.
* `Record.key?`, `Record.keyFields`: the key of a record, and the fields it is made of.
* `Record.hasAll`: whether a record has all fields of another.
-/

namespace LiveDocs

namespace Record

/-- Equality of records: the same keys with equal values. -/
def eqv (a b : Record) : Bool := Json.eqvFields a.entries b.entries

instance : BEq Record := ⟨eqv⟩

/-- The value of a key, where a missing key counts as `null`. -/
def getOrNull (r : Record) (key : String) : Json := (r.get? key).getD .null

def getStr? (r : Record) (key : String) : Option String := (r.get? key).bind Json.str?

def getNatural? (r : Record) (key : String) : Option UInt64 := (r.get? key).bind Json.natural?

/-- `r` with the fields of `s` put in, those of `s` winning. -/
def merge (r s : Record) : Record := s.entries.foldl (fun m e => m.insert e.1 e.2) r

/-- One field put into a record; `null` drops it. -/
def assignField (r : Record) (key : String) (value : Json) : Record :=
  if value.isNull then r.erase key else r.insert key value

/-- `r` with the fields of `s` put in, where a `null` drops the field. -/
def assign (r s : Record) : Record := s.entries.foldl (fun m e => m.assignField e.1 e.2) r

/-- Whether a field has a value equal to `value`. -/
def hasField (r : Record) (key : String) (value : Json) : Bool :=
  match r.get? key with
  | some v => v == value
  | none => false

def hasAll (r filter : Record) : Bool := filter.entries.all fun e => r.hasField e.1 e.2

/-- The value of a key field; `null` does not count. -/
def keyValue? (r : Record) (field : String) : Option Json :=
  match r.get? field with
  | none | some .null => none
  | some value => some value

/-- The values of the key fields, in the order of the fields. -/
def keyValues? (fields : List String) (r : Record) : Option (List Json) :=
  fields.mapM fun f => r.keyValue? f

/-- The key of a record: its key values as the text of a JSON array. -/
def key? (fields : List String) (r : Record) : Option String :=
  (keyValues? fields r).map fun values => (Json.arr values).render

/-- The key fields that a record has. -/
def keyFields (fields : List String) (r : Record) : Record :=
  fields.foldl (fun m f => match r.get? f with
    | some value => m.insert f value
    | none => m) .empty

def render (r : Record) : String := (Json.ofRecord r).render

def parse? (text : String) : Option Record := (Json.parse? text).bind Json.record?

end Record

end LiveDocs

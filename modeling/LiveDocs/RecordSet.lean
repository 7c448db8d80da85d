import LiveDocs.Record
import LiveDocs.Text.Blank
import LiveDocs.Document.Error

/-!
# Record sets

A record set holds records by key: at most one for each combination of key values. A field is never
`null`; assigning `null` drops it. Its text form has one JSON object per line, in key order. Patches
work record by record and field by field, so edits of different fields of one record both survive.

## Main definitions

* `RecordSet`, `RecordOp`, `RecordPatch`: record sets and patches of them.
* `RecordSet.set`, `RecordSet.delete`, `RecordSet.get`: changing and reading records.
* `RecordSet.parse`, `RecordSet.render`: the text form.
* `RecordSet.diff`, `RecordSet.apply`: making and applying patches.
-/

namespace LiveDocs

/-- One step of a patch: fields for the record with the same key, or the removal of a record. -/
inductive RecordOp where
  | set (record : Record)
  | remove (key : Record)

/-- Steps in the order they are made. -/
abbrev RecordPatch := List RecordOp

/-- Records by key. -/
structure RecordSet where
  primaryKeys : List String
  records : SortedMap String Record

namespace RecordOp

def toJson : RecordOp → Json
  | set record => .obj [("op", .str "set"), ("record", .ofRecord record)]
  | remove key => .obj [("key", .ofRecord key), ("op", .str "remove")]

/-- The step with a name and an operand. -/
def ofParts? (name : String) (operand : String → Option Json) : Option RecordOp :=
  match name with
  | "set" => ((operand "record").bind Json.record?).map set
  | "remove" => ((operand "key").bind Json.record?).map remove
  | _ => none

/-- Reads a step, as an object or as the list of its name and its operand. -/
def ofJson? : Json → Option RecordOp
  | .obj fields =>
    let r : Record := .ofList fields
    (r.getStr? "op").bind fun name => ofParts? name r.get?
  | .arr [.str name, operand] => ofParts? name fun _ => some operand
  | _ => none

def eqv : RecordOp → RecordOp → Bool
  | set a, set b => a == b
  | remove a, remove b => a == b
  | _, _ => false

end RecordOp

namespace RecordPatch

def toJson (patch : RecordPatch) : Json := .arr (patch.map RecordOp.toJson)

def ofJson? (j : Json) : Option RecordPatch :=
  j.items?.bind fun items => items.mapM RecordOp.ofJson?

end RecordPatch

namespace RecordSet

def empty (primaryKeys : List String) : RecordSet := ⟨primaryKeys, .empty⟩

def size (d : RecordSet) : Nat := d.records.size

/-- Equality of record sets: the same keys with equal records. -/
def eqv (a b : RecordSet) : Bool :=
  a.primaryKeys == b.primaryKeys && a.records.keys == b.records.keys &&
    (a.records.values.zip b.records.values).all fun p => p.1 == p.2

instance : BEq RecordSet := ⟨eqv⟩

def key? (d : RecordSet) (record : Record) : Option String := record.key? d.primaryKeys

/-- Assigns fields to the record under a key, which is made if it is not there. -/
def mergeAt (d : RecordSet) (key : String) (fields : Record) : RecordSet :=
  let record := (d.records.get? key).getD .empty
  { d with records := d.records.insert key (record.assign fields) }

/-- The records that have every field of `filter`, in key order. -/
def get (d : RecordSet) (filter : Record) : List Record :=
  d.records.values.filter (·.hasAll filter)

/-- The first record that has every field of `filter`. -/
def getOne? (d : RecordSet) (filter : Record) : Option Record :=
  d.records.values.find? (·.hasAll filter)

/-- Assigns the fields of a record to the record with the same key. -/
def set (d : RecordSet) (record : Record) : Except DocumentError RecordSet :=
  match d.key? record with
  | some key => .ok (d.mergeAt key record)
  | none => .error (.parse (.keylessRecord d.primaryKeys))

/-- The set without the records that have every field of `filter`. -/
def delete (d : RecordSet) (filter : Record) : RecordSet :=
  { d with records := d.records.filter fun _ record => !record.hasAll filter }

/-- Takes in one line of the text form; blank lines are skipped. -/
def readLine (d : RecordSet) (number : Nat) (line : List Char) : Except DocumentError RecordSet :=
  if Text.isBlank line then .ok d
  else
    match Record.parse? (String.ofList line) with
    | none => .error (.parse (.badLine number))
    | some record =>
      match d.key? record with
      | none => .error (.parse (.keylessLine number))
      | some key => .ok (d.mergeAt key record)

/-- Takes in the lines from number `number` on. -/
def readLines (d : RecordSet) (number : Nat) : List (List Char) → Except DocumentError RecordSet
  | [] => .ok d
  | line :: rest =>
    match d.readLine number line with
    | .ok d => readLines d (number + 1) rest
    | .error e => .error e

def parse (primaryKeys : List String) (text : String) : Except DocumentError RecordSet :=
  (empty primaryKeys).readLines 1 (Text.lines text.toList)

/-- The text form: one object per line. -/
def render (d : RecordSet) : String := "\n".intercalate (d.records.values.map Record.render)

/-- The fields that turn the record `current` into `wanted`: its key fields, those with another
value, and `null` for those to drop. -/
def fieldsToward (primaryKeys : List String) (current wanted : Record) : Record :=
  let changed := wanted.entries.foldl
    (fun m e => if current.hasField e.1 e.2 then m else m.insert e.1 e.2)
    (wanted.keyFields primaryKeys)
  current.keys.foldl (fun m k => if wanted.contains k then m else m.insert k .null) changed

/-- The step for one record of the target, if it is missing or different here. -/
def stepToward (d target : RecordSet) (key : String) (wanted : Record) : Option RecordOp :=
  match d.records.get? key with
  | none => some (.set wanted)
  | some current =>
    if current == wanted then none
    else some (.set (fieldsToward target.primaryKeys current wanted))

/-- The patch from one set to another: removals first, then records to make or change. -/
def diff (d target : RecordSet) : RecordPatch :=
  (d.records.entries.filterMap fun e =>
    if target.records.contains e.1 then none else some (.remove (e.2.keyFields d.primaryKeys))) ++
  target.records.entries.filterMap fun e => d.stepToward target e.1 e.2

/-- Makes one step. A step whose operand lacks a key field does nothing. -/
def step (d : RecordSet) : RecordOp → RecordSet
  | .set record =>
    match d.key? record with
    | some key => d.mergeAt key record
    | none => d
  | .remove key =>
    match d.key? key with
    | some key => { d with records := d.records.erase key }
    | none => d

def apply (d : RecordSet) (patch : RecordPatch) : RecordSet := patch.foldl step d

end RecordSet

end LiveDocs

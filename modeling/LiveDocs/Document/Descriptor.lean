import LiveDocs.Document.Format
import LiveDocs.Settings

/-!
# Document descriptors

A stored document names its kind and its options in a descriptor, a JSON object kept as text.
Reading a descriptor never fails: what cannot be understood counts as a text document without
options.

## Main definitions

* `Kind`: the two kinds of documents, with the types of their content and patches.
* `Descriptor`, `Descriptor.resolve`, `Descriptor.render`: descriptors and their text form.
* `DocumentOptions.ofRecord`: the options of a document.
-/

namespace LiveDocs

/-- The kinds of documents. -/
inductive Kind where
  | text
  | records
deriving DecidableEq

namespace Kind

def name : Kind → String
  | text => "string"
  | records => "db"

def ofName (name : String) : Except DocumentError Kind :=
  match name with
  | "string" => .ok text
  | "db" => .ok records
  | other => .error (.unknownType other)

/-- The content of documents of a kind. -/
abbrev Content : Kind → Type
  | text => List Char
  | records => RecordSet

/-- The patches of documents of a kind. -/
abbrev Patch : Kind → Type
  | text => TextPatch
  | records => RecordPatch

/-- The format of a kind. Key fields matter for record sets only. -/
def format (primaryKeys : List String) : (k : Kind) → Format k.Content k.Patch
  | text => Format.text
  | records => Format.records primaryKeys

end Kind

/-- The kind and the options of a stored document. -/
structure Descriptor where
  kind : Kind
  options : Record

namespace Descriptor

/-- A text document without options. -/
def default : Descriptor := ⟨.text, .empty⟩

def eqv (a b : Descriptor) : Bool := a.kind == b.kind && a.options == b.options

def ofRecord (r : Record) : Descriptor :=
  { kind :=
      match (r.getStr? "type").map Kind.ofName with
      | some (.ok kind) => kind
      | _ => .text
    options := ((r.get? "opts").bind Json.record?).getD .empty }

/-- The descriptor of a stored value, which is its JSON text or an object. -/
def resolve : Option Json → Descriptor
  | some (.str text) => ofRecord ((Record.parse? text).getD .empty)
  | some (.obj fields) => ofRecord (.ofList fields)
  | _ => ofRecord .empty

/-- The descriptor as an object; empty options are left out. -/
def toRecord (d : Descriptor) : Record :=
  if d.options.isEmpty then .ofList [("type", .str d.kind.name)]
  else .ofList [("type", .str d.kind.name), ("opts", .ofRecord d.options)]

def render (d : Descriptor) : String := d.toRecord.render

end Descriptor

/-- The options with which a document is opened. -/
structure DocumentOptions where
  path : String
  settings : Settings
  primaryKeys : List String
  loadFromDisk : Bool
  stringId : Option String

namespace DocumentOptions

/-- A list of strings that may be absent. -/
def names? : Option Json → Option (List String)
  | none => some []
  | some value => value.items?.bind fun items => items.mapM Json.str?

/-- The options of a document at `path` from the options of its descriptor. Key fields are read for
record sets only. -/
def ofRecord (kind : Kind) (path : String) (r : Record) : Except DocumentError DocumentOptions :=
  let primaryKeys? :=
    match kind with
    | .text => some []
    | .records => names? (r.get? "primary_keys")
  match Settings.standard.override? r, primaryKeys? with
  | some settings, some primaryKeys => .ok ⟨path, settings, primaryKeys, true, none⟩
  | _, _ => .error (.invalidOptions .malformed)

/-- Checks the options of a document: record sets need a key field, and the path is not empty. -/
def validate (kind : Kind) (o : DocumentOptions) : Except DocumentError Unit :=
  if kind = .records ∧ o.primaryKeys.isEmpty then .error (.invalidOptions .noPrimaryKey)
  else if o.path.isEmpty then .error (.invalidOptions .emptyPath)
  else .ok ()

end DocumentOptions

end LiveDocs

import LiveDocs.Command
import LiveDocs.Path
import LiveDocs.Table

/-!
# Registry of open documents

Open documents by path, at most one for each, and what may be asked of them by path. For some file
extensions a hook is run once a document is ready.

## Main definitions

* `Registry`: the open documents by path, and the hooks by extension.
* `Registry.call`, `Registry.dispatch`: commands, and commands as text.
* `Registry.closeTree`: the documents at a directory or below it.
-/

namespace LiveDocs

abbrev DocId := Nat

/-- What may go wrong with the registry. -/
inductive RegistryError where
  | command (cause : CommandError)
  | construction (path : String) (detail : String)
  | wrongTable (table : String)
  | tableClosed

namespace RegistryError

def code : RegistryError → String
  | command cause => cause.code
  | construction _ _ => "Construction"
  | wrongTable _ => "WrongTable"
  | tableClosed => "TableClosed"

def message : RegistryError → String
  | command cause => cause.message
  | construction path detail => "could not open '" ++ path ++ "': " ++ detail
  | wrongTable table => "expected a syncstrings table, got '" ++ table ++ "'"
  | tableClosed => "syncstrings table is closed"

end RegistryError

/-- Open documents by path, and the labels of hooks by extension. -/
structure Registry where
  docs : SortedMap String DocId
  hooks : SortedMap String String

namespace Registry

def empty : Registry := ⟨.empty, .empty⟩

def openPaths (r : Registry) : List String := r.docs.keys

def get? (r : Registry) (path : String) : Option DocId := r.docs.get? path

def describe (r : Registry) : String :=
  "SyncDocRegistry \x7b open: " ++ quotedNames r.openPaths ++ " \x7d"

def insert (r : Registry) (path : String) (doc : DocId) : Registry :=
  { r with docs := r.docs.insert path doc }

def erase (r : Registry) (path : String) : Registry := { r with docs := r.docs.erase path }

/-- The registry without a document, if it is still the one at its path. -/
def forget (r : Registry) (path : String) (doc : DocId) : Registry :=
  if r.get? path = some doc then r.erase path else r

/-- The registry with a hook for an extension. It replaces an earlier one. -/
def addHook (r : Registry) (ext label : String) : Registry :=
  { r with hooks := r.hooks.insert ext label }

/-- The hook for the document at a path. -/
def hookFor? (r : Registry) (path : String) : Option String :=
  (Path.extension? path).bind r.hooks.get?

/-- Takes the document at a path out of the registry; it is to be closed. -/
def close (r : Registry) (path : String) : Registry × Option DocId := (r.erase path, r.get? path)

/-- Takes the documents at a directory or below it out of the registry; they are to be closed. -/
def closeTree (r : Registry) (dir : String) : Registry × List DocId :=
  let inside := r.docs.filter fun path _ => Path.isInTree dir path
  ({ r with docs := r.docs.filter fun path _ => !Path.isInTree dir path }, inside.values)

/-- Runs a command on the document at a path. Without a document any message is answered that it is
not open. -/
def call (r : Registry) (path : String) (message : Json) :
    Except CommandError (CallStatus × Registry × Option DocId) :=
  match r.get? path with
  | none => .ok (.notOpen, r, none)
  | some _ =>
    match Command.parse message with
    | .error e => .error e
    | .ok .close =>
      let (r, doc) := r.close path
      .ok (.closed, r, doc)

/-- The reply to a command that cannot be run. -/
def errorReply (detail : String) : Record := .ofList [("error", .str detail)]

/-- Runs a command given as text and replies to it. -/
def dispatch (r : Registry) (text : String) : Record × Registry × Option DocId :=
  match Json.parse? text with
  | none => (errorReply "invalid JSON: <json error>", r, none)
  | some message =>
    match message.record?.bind fun m => m.getStr? "path" with
    | none => (errorReply "missing path", r, none)
    | some path =>
      match r.call path message with
      | .ok (status, r, doc) => (.ofList [("status", .str status.text)], r, doc)
      | .error e => (errorReply e.message, r, none)

end Registry

end LiveDocs

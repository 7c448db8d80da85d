import LiveDocs.Text.Quoted

/-!
# Errors of documents

What can be wrong with the type, the text or the options of a document, and how it is worded.
-/

namespace LiveDocs

/-- Why a text is no record set, or a record does not fit into one. -/
inductive ParseError where
  /-- A line is not a JSON object. -/
  | badLine (line : Nat)
  /-- The object of a line lacks a key field. -/
  | keylessLine (line : Nat)
  /-- A record lacks one of these key fields. -/
  | keylessRecord (keys : List String)
deriving DecidableEq

/-- Why the options of a document are refused. -/
inductive OptionsError where
  | emptyPath
  | noPrimaryKey
  /-- An option has a value of the wrong kind. -/
  | malformed
deriving DecidableEq

/-- What can be wrong with a document. -/
inductive DocumentError where
  | unknownType (name : String)
  | parse (cause : ParseError)
  | invalidOptions (cause : OptionsError)
deriving DecidableEq

namespace ParseError

def message : ParseError → String
  | badLine line => "line " ++ toString line ++ ": <json error>"
  | keylessLine line => "line " ++ toString line ++ ": missing primary key"
  | keylessRecord keys => "record is missing primary keys " ++ quotedNames keys

end ParseError

namespace OptionsError

def message : OptionsError → String
  | emptyPath => "path must not be empty"
  | noPrimaryKey => "a db document needs at least one primary key"
  | malformed => "<json error>"

end OptionsError

namespace DocumentError

def code : DocumentError → String
  | unknownType _ => "UnknownDocType"
  | parse _ => "Parse"
  | invalidOptions _ => "InvalidOptions"

def message : DocumentError → String
  | unknownType name => "unknown document type '" ++ name ++ "'"
  | parse cause => "cannot parse document: " ++ cause.message
  | invalidOptions cause => "invalid document options: " ++ cause.message

end DocumentError

end LiveDocs

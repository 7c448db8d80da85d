import LiveDocs.Json.Token

/-!
# Reading JSON

Tokens are taken one at a time by a machine with a stack of open containers. The members of an
object go into a sorted map as they are complete, so of several members with one key the last stays.

## Main definitions

* `Reader`, `Reader.take?`: the machine and its step on a token.
* `Json.parse?`: the value of a text, with at most 127 containers nested in one another.
-/

namespace LiveDocs

/-- A container that is not closed yet. -/
inductive Reader.Open where
  /-- An array with the items so far, last first. -/
  | array (items : List Json)
  /-- An object with the members so far and the key that waits for its value. -/
  | object (fields : Record) (key : String)

/-- What may come next. -/
inductive Reader.Expect where
  /-- A value; in a container just opened also its end. -/
  | value (orEnd : Bool)
  /-- A key; in an object just opened also its end. -/
  | key (orEnd : Bool)
  /-- The colon after a key. -/
  | colon
  /-- A comma, or the end of the innermost container. -/
  | comma
  /-- Nothing: the value is complete. -/
  | nothing (value : Json)

/-- The state of reading a value. -/
structure Reader where
  stack : List Reader.Open
  expect : Reader.Expect

namespace Reader

def start : Reader := ⟨[], .value false⟩

/-- Puts a complete value into the innermost open container. -/
def place (stack : List Open) (value : Json) : Reader :=
  match stack with
  | [] => ⟨[], .nothing value⟩
  | .array items :: rest => ⟨.array (value :: items) :: rest, .comma⟩
  | .object fields key :: rest => ⟨.object (fields.insert key value) "" :: rest, .comma⟩

/-- Opens a container, unless `limit` are open. -/
def openContainer? (limit : Nat) (r : Reader) (container : Open) (expect : Expect) :
    Option Reader :=
  if r.stack.length < limit then some ⟨container :: r.stack, expect⟩ else none

/-- Takes one token, `none` if it may not stand here. -/
def take? (limit : Nat) (r : Reader) (t : Token) : Option Reader :=
  match r.expect, t, r.stack with
  | .value _, .atom value, stack => some (place stack value)
  | .value _, .openArray, _ => r.openContainer? limit (.array []) (.value true)
  | .value _, .openObject, _ => r.openContainer? limit (.object .empty "") (.key true)
  | .value true, .closeArray, .array items :: rest => some (place rest (.arr items.reverse))
  | .key _, .atom (.str key), .object fields _ :: rest => some ⟨.object fields key :: rest, .colon⟩
  | .key true, .closeObject, .object fields _ :: rest => some (place rest (Json.ofRecord fields))
  | .colon, .colon, stack => some ⟨stack, .value false⟩
  | .comma, .comma, .array items :: rest => some ⟨.array items :: rest, .value false⟩
  | .comma, .comma, .object fields key :: rest => some ⟨.object fields key :: rest, .key false⟩
  | .comma, .closeArray, .array items :: rest => some (place rest (.arr items.reverse))
  | .comma, .closeObject, .object fields _ :: rest => some (place rest (Json.ofRecord fields))
  | _, _, _ => none

def takeAll? (limit : Nat) : Reader → List Token → Option Reader
  | r, [] => some r
  | r, t :: rest => (r.take? limit t).bind (·.takeAll? limit rest)

/-- The value, if it is complete. -/
def value? (r : Reader) : Option Json :=
  match r.expect with
  | .nothing value => some value
  | _ => none

end Reader

namespace Json

/-- The number of containers that may be nested in one another in a text. -/
def nestingLimit : Nat := 127

/-- The value of a text with at most `limit` nested containers. -/
def parseNested? (limit : Nat) (text : String) : Option Json :=
  (Token.scan? text.toList).bind fun tokens =>
    (Reader.start.takeAll? limit tokens).bind Reader.value?

/-- The value of a text, `none` if it is not JSON or nested too deeply. -/
def parse? (text : String) : Option Json := parseNested? nestingLimit text

end Json

end LiveDocs

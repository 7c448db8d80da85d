import LiveDocs.Sha1

/-!
# Document ids

A document is identified by its project and its path. Its id is the version 5 UUID of the text
`project/path` in the URL namespace, so everyone who opens the path finds the same rows.

## Main definitions

* `DocumentId.uuid`: the version 5 UUID of a name.
* `stringId`: the id of a document.
-/

namespace LiveDocs

namespace DocumentId

def urlNamespace : Bytes :=
  [0x6b, 0xa7, 0xb8, 0x11, 0x9d, 0xad, 0x11, 0xd1, 0x80, 0xb4, 0x00, 0xc0, 0x4f, 0xd4, 0x30, 0xc8]

/-- The sixteen bytes of the version 5 UUID of a name. -/
def uuidBytes (space : Bytes) (name : String) : Bytes :=
  let hash := (Sha1.digest (space ++ Bytes.ofText name)).take 16
  (hash.modify 6 fun b => (b &&& 0x0f) ||| 0x50).modify 8 fun b => (b &&& 0x3f) ||| 0x80

/-- A UUID in its usual form. -/
def render (bytes : Bytes) : String :=
  let part (first count : Nat) := Bytes.hex ((bytes.drop first).take count)
  "-".intercalate [part 0 4, part 4 2, part 6 2, part 8 2, part 10 6]

end DocumentId

def stringId (project path : String) : String :=
  DocumentId.render (DocumentId.uuidBytes DocumentId.urlNamespace (project ++ "/" ++ path))

end LiveDocs

import LiveDocs.Document.Descriptor
import LiveDocs.Document.Replica
import LiveDocs.Schema

/-!
# Rows of stored documents

A document is stored in two tables. Its row in the first holds its path, its kind and the clients
that have opened it; the place of a client in this list is its user number. Every patch is a row of
the second table, which may also hold a snapshot.

## Main definitions

* `PatchRow.encode`, `PatchRow.decode?`: patches as rows.
* `UserList.join`: the place of a client in the list of users.
-/

namespace LiveDocs

namespace PatchRow

variable {δ π : Type}

/-- The fields that identify a patch. -/
def keyFields (stringId : String) (id : PatchId) : List (String × Json) :=
  [("string_id", .str stringId), ("time", .ofUInt64 id.time),
    ("user_id", .ofUInt64 id.user.toUInt64)]

def encode (f : Format δ π) (stringId : String) (id : PatchId) (patch : π) : Record :=
  .ofList (keyFields stringId id ++ [("patch", f.encode patch)])

/-- The fields that add a snapshot to the row of a patch. -/
def encodeSnapshot (stringId : String) (id : PatchId) (text : String) : Record :=
  .ofList (keyFields stringId id ++ [("snapshot", .str text)])

def userOf? (row : Record) : Option UInt32 :=
  (row.getNatural? "user_id").bind fun n => if n.toNat < 0x100000000 then some n.toUInt32 else none

def decode? (f : Format δ π) (row : Record) : Option (IncomingPatch π) := do
  let time ← row.getNatural? "time"
  let user ← userOf? row
  let patch ← f.decode? (← row.get? "patch")
  some ⟨⟨time, user⟩, ⟨patch, row.getStr? "snapshot"⟩⟩

end PatchRow

namespace UserList

/-- The list of users in the row of a document; `null` if there is none. -/
def ofRow (row : Option Record) : Json := (row.getD .empty).getOrNull "users"

/-- The place of a client in a list of users, and the list with the client in it. What is no list
counts as an empty one. -/
def join (users : Json) (client : String) : Nat × List Json :=
  let known := users.items?.getD []
  match known.findIdx? (· == .str client) with
  | some index => (index, known)
  | none => (known.length, known ++ [.str client])

end UserList

/-- The descriptor that a document stores of itself. -/
def Descriptor.ofKind (kind : Kind) (primaryKeys : List String) : Descriptor :=
  match kind with
  | .text => ⟨.text, .empty⟩
  | .records => ⟨.records, .ofList [("primary_keys", .arr (primaryKeys.map Json.str))]⟩

end LiveDocs

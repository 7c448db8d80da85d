import LiveDocs.SortedMap

/-!
# Clients and files

A client opens documents: it has a name, a project and a clock, and reads and writes the files of
the project.

## Main definitions

* `Client`: the identity of a client and its clock.
* `Disk`, `Disk.read`, `Disk.write`: files by path, which may be out of order.
-/

namespace LiveDocs

/-- Somebody who opens documents. -/
structure Client where
  name : String
  project : String
  /-- The time of the server in milliseconds. -/
  clock : UInt64

/-- Files by path. -/
structure Disk where
  files : SortedMap String String
  /-- What goes wrong with every read. -/
  readError : Option String
  /-- What goes wrong with every write. -/
  writeError : Option String

namespace Disk

def empty : Disk := ⟨.empty, none, none⟩

/-- The content of a file, `none` if there is no such file. -/
def read (d : Disk) (path : String) : Except String (Option String) :=
  match d.readError with
  | some e => .error e
  | none => .ok (d.files.get? path)

def write (d : Disk) (path content : String) : Except String Disk :=
  match d.writeError with
  | some e => .error e
  | none => .ok { d with files := d.files.insert path content }

end Disk

end LiveDocs

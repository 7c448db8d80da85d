import LiveDocs.Journal.Bytes
import LiveDocs.SortedMap

/-!
# Files of a project

The files and directories below the root of a project. Documents are found by paths relative to the
root; a path that leads out of it is refused. Writing a file makes the directories on its way.

## Main definitions

* `FileTree`: files and directories by path.
* `FileTree.read`, `FileTree.write`: the text of a file.
* `FileError`: why a file cannot be read or written.
-/

namespace LiveDocs

/-- Why a file cannot be read or written. -/
inductive FileError where
  /-- The path leads out of the root. -/
  | escapes (path : String)
  /-- The path has a character that no file name has. -/
  | badName
  /-- There is something else at the path or on its way. -/
  | unusable
deriving DecidableEq

namespace FileError

def message : FileError → String
  | escapes path => "path escapes the project root: " ++ path
  | badName => "file name contained an unexpected NUL byte"
  | unusable => "the file cannot be used"

end FileError

/-- What is found at a path. -/
inductive FileNode where
  | file (content : Bytes)
  | directory

/-- Files and directories by path. The root itself is the empty path. -/
structure FileTree where
  nodes : SortedMap String FileNode

/-- A path below the root, part by part. A path that ends with a slash names a directory. -/
structure RelativePath where
  parts : List String
  namesDirectory : Bool

namespace RelativePath

/-- The parts between slashes. -/
def split : List Char → List (List Char)
  | [] => [[]]
  | c :: rest =>
    if c = '/' then [] :: split rest
    else
      match split rest with
      | first :: others => (c :: first) :: others
      | [] => [[c]]

/-- The longest name of a file, in bytes. -/
def longestName : Nat := 255

/-- Reads a path. Empty parts and single dots say nothing; at the end they ask for a directory. -/
def ofText (path : String) : Except FileError RelativePath :=
  let all := (split path.toList).map String.ofList
  let parts := all.filter fun p => p != "" && p != "."
  let last := all.getLast?.getD ""
  if parts.contains ".." then .error (.escapes path)
  else if parts.any fun p => p.toList.contains (Char.ofNat 0) then .error .badName
  else .ok ⟨parts, last == "" || last == "."⟩

/-- Whether all names are short enough. -/
def isUsable (p : RelativePath) : Bool := p.parts.all fun part => part.utf8ByteSize ≤ longestName

end RelativePath

/-- What is found at the end of a way. -/
inductive FoundFile where
  | missing
  /-- A file stands in the way. -/
  | blocked
  | found (node : FileNode)

namespace FileTree

def empty : FileTree := ⟨.empty⟩

/-- The key of a path. -/
def key (parts : List String) : String := "/".intercalate parts

/-- What is at a path, if nothing stands in its way. -/
def node? (t : FileTree) (parts : List String) : Option FileNode :=
  if parts.isEmpty then some .directory else t.nodes.get? (key parts)

/-- Follows a way, given the parts behind and before us. -/
def find (t : FileTree) : List String → List String → FoundFile
  | behind, [] =>
    match t.node? behind with
    | some node => .found node
    | none => .missing
  | behind, part :: rest =>
    match t.node? behind with
    | some .directory => t.find (behind ++ [part]) rest
    | some (.file _) => .blocked
    | none => .missing

def read (t : FileTree) (path : String) : Except FileError (Option String) :=
  match RelativePath.ofText path with
  | .error e => .error e
  | .ok p =>
    if !p.isUsable then .error .unusable
    else
      match t.find [] p.parts with
      | .missing => .ok none
      | .blocked | .found .directory => .error .unusable
      | .found (.file content) =>
        if p.namesDirectory then .error .unusable
        else
          match Bytes.text? content with
          | some text => .ok (some text)
          | none => .error .unusable

/-- Makes the directories of a way, given the parts behind and before us. -/
def makeDirectories (t : FileTree) : List String → List String → Except FileError FileTree
  | _, [] => .ok t
  | behind, part :: rest =>
    let here := behind ++ [part]
    match t.node? here with
    | some .directory => t.makeDirectories here rest
    | some (.file _) => .error .unusable
    | none => makeDirectories ⟨t.nodes.insert (key here) .directory⟩ here rest

/-- Writes a file. The directories on its way stay, even if the file itself cannot be written. -/
def write (t : FileTree) (path : String) (content : Bytes) : FileTree × Except FileError Unit :=
  match RelativePath.ofText path with
  | .error e => (t, .error e)
  | .ok p =>
    if !p.isUsable then (t, .error .unusable)
    else
      match t.makeDirectories [] p.parts.dropLast with
      | .error e => (t, .error e)
      | .ok t =>
        match p.namesDirectory, t.node? p.parts with
        | true, _ | _, some .directory => (t, .error .unusable)
        | false, _ => (⟨t.nodes.insert (key p.parts) (.file content)⟩, .ok ())

end FileTree

/-- The time of a server whose clock is ahead of ours by some milliseconds. It is never negative and
fits into 63 bits. -/
def skewedTime (now : Nat) (skew : Int) : Nat := min ((now : Int) + skew).toNat 0x7fffffffffffffff

end LiveDocs

/-!
# Paths

Documents are found by their path in a project, a text with `/` between its parts.

## Main definitions

* `Path.extension?`: the extension of the file name.
* `Path.isInTree`: whether a path is a directory or below it.
-/

namespace LiveDocs

namespace Path

/-- What follows the last `c`, `none` if there is no `c`. -/
def afterLast? (c : Char) : List Char → Option (List Char)
  | [] => none
  | d :: rest =>
    match afterLast? c rest with
    | some found => some found
    | none => if d = c then some rest else none

def fileName (path : List Char) : List Char := (afterLast? '/' path).getD path

/-- The extension of the file name: what follows its last dot. A file name that starts with its only
dot has none, and neither has one that ends with a dot. -/
def extension? (path : String) : Option String :=
  match fileName path.toList with
  | [] => none
  | _ :: rest =>
    match afterLast? '.' rest with
    | none | some [] => none
    | some found => some (String.ofList found)

/-- A text without the slashes at its end. -/
def trimEnd (text : List Char) : List Char := (text.reverse.dropWhile (· == '/')).reverse

/-- Whether a path is at `dir` or below it. All paths are below the root, which is written as the
empty text or with slashes only. -/
def isInTree (dir path : String) : Bool :=
  let dir := trimEnd dir.toList
  dir.isEmpty || path.toList == dir || (dir ++ ['/']).isPrefixOf path.toList

end Path

end LiveDocs

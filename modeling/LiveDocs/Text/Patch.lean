import LiveDocs.Record

/-!
# Text patches

A text patch is a list of hunks. Each replaces some text at a position counted in characters of the
text the patch was made from. A patch may meet another text: a hunk then lands at the occurrence of
its deleted text nearest to where it is expected, and if there is none, only its insertion is made.

## Main definitions

* `Hunk`, `TextPatch`: one replacement, and a list of them.
* `Hunk.locate`, `Hunk.site`: where the deleted text of a hunk is found, and where the hunk is
  applied.
* `TextPatch.apply`: the text after a patch.
* `Hunk.toJson`, `Hunk.ofJson?`: the written form of a hunk.
-/

namespace LiveDocs

/-- One replacement of text. The position may be any 64-bit number. -/
structure Hunk where
  start : UInt64
  delete : List Char
  insert : List Char
deriving DecidableEq

/-- A list of replacements, in the order they are made. -/
abbrev TextPatch := List Hunk

namespace Hunk

/-- The greatest position; positions and shifts saturate there. -/
def positionBound : Int := 0x7fffffffffffffff

/-- A number brought into the range of positions and shifts. -/
def saturate (n : Int) : Int := max (-0x8000000000000000) (min n positionBound)

/-- The positions at which `needle` occurs in a text whose first character stands at `first`. -/
def occurrences (needle : List Char) (first : Nat) : List Char → List Nat
  | [] => []
  | c :: rest =>
    if needle.isPrefixOf (c :: rest) then first :: occurrences needle (first + 1) rest
    else occurrences needle (first + 1) rest

def distance (a b : Nat) : Nat := (a - b) + (b - a)

/-- The position nearest to `expected`, the first of two at the same distance. -/
def nearest (expected : Nat) : List Nat → Option Nat
  | [] => none
  | p :: rest =>
    match nearest expected rest with
    | none => some p
    | some q => if distance q expected < distance p expected then some q else some p

/-- The place of `needle` nearest to `expected`. The empty text is found wherever it is expected. -/
def locate (text needle : List Char) (expected : Nat) : Option Nat :=
  if needle.isEmpty then some expected
  else if needle.isPrefixOf (text.drop expected) then some expected
  else nearest expected (occurrences needle 0 text)

/-- `text` with `removed` characters from `pos` on replaced. -/
def splice (text : List Char) (pos removed : Nat) (inserted : List Char) : List Char :=
  text.take pos ++ inserted ++ text.drop (pos + removed)

/-- The position of a hunk as a saturated number. -/
def origin (h : Hunk) : Int := saturate h.start.toNat

/-- Where a hunk is expected in a text after earlier hunks have moved it by `shift`. -/
def expected (h : Hunk) (shift : Int) (length : Nat) : Nat :=
  min (saturate (h.origin + shift)).toNat length

/-- The position at which a hunk is applied, and the number of characters that it removes there. -/
def site (h : Hunk) (text : List Char) (expected : Nat) : Nat × Nat :=
  match locate text h.delete expected with
  | some pos => (pos, h.delete.length)
  | none => (expected, 0)

/-- How far the end of a hunk has moved that was applied at a position. -/
def drift (h : Hunk) (pos : Nat) : Int :=
  saturate ((pos + h.insert.length : Nat) - saturate (h.origin + h.delete.length))

/-- Makes one replacement in a text. Also gives the shift for the hunks that follow. -/
def apply (h : Hunk) (text : List Char) (shift : Int) : List Char × Int :=
  let (pos, removed) := h.site text (h.expected shift text.length)
  (splice text pos removed h.insert, h.drift pos)

/-- The written form of a hunk; empty texts are left out. -/
def toRecord (h : Hunk) : Record :=
  let r : Record := SortedMap.empty.insert "start" (Json.ofUInt64 h.start)
  let r := if h.delete.isEmpty then r else r.insert "delete" (.str (String.ofList h.delete))
  if h.insert.isEmpty then r else r.insert "insert" (.str (String.ofList h.insert))

/-- A text of a hunk that may be absent. -/
def text? : Option Json → Option (List Char)
  | none => some []
  | some value => value.str?.map String.toList

/-- Reads a hunk, as an object or as the list of its parts in order. -/
def ofJson? : Json → Option Hunk
  | .obj fields => do
    let r : Record := .ofList fields
    let start ← r.getNatural? "start"
    let delete ← text? (r.get? "delete")
    let insert ← text? (r.get? "insert")
    some ⟨start, delete, insert⟩
  | .arr (start :: rest) => do
    let start ← start.natural?
    if 2 < rest.length then none
    let delete ← text? rest[0]?
    let insert ← text? rest[1]?
    some ⟨start, delete, insert⟩
  | _ => none

end Hunk

namespace TextPatch

/-- Makes the replacements one after the other, each shifted by the end of the one before. -/
def applyFrom : TextPatch → List Char → Int → List Char
  | [], text, _ => text
  | h :: rest, text, shift =>
    let (text, shift) := h.apply text shift
    applyFrom rest text shift

def apply (patch : TextPatch) (text : List Char) : List Char := applyFrom patch text 0

def toJson (patch : TextPatch) : Json := .arr (patch.map fun h => Json.ofRecord h.toRecord)

def ofJson? (j : Json) : Option TextPatch := j.items?.bind fun items => items.mapM Hunk.ofJson?

end TextPatch

end LiveDocs

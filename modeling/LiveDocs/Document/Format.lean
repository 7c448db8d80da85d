import LiveDocs.RecordSet
import LiveDocs.Text.Diff

/-!
# Document formats

A document format says what the content and the patches of a document are: how content is read from
text and written back, and how patches are made, applied and encoded. The engine works on any
format; there are two of them, plain text and record sets.

## Main definitions

* `Format`: the operations of a format.
* `Format.text`, `Format.records`: the two formats.
* `Format.fold`: content after some patches.
-/

namespace LiveDocs

/-- Documents with content `δ` and patches `π`. -/
structure Format (δ π : Type) where
  /-- The content of a document without history. -/
  empty : δ
  /-- The content of a text. -/
  parse : String → Except DocumentError δ
  /-- The text of some content. -/
  render : δ → String
  /-- The patch from one content to another. -/
  diff : δ → δ → π
  /-- The content after a patch. -/
  apply : δ → π → δ
  /-- Whether a patch changes nothing. -/
  isNoop : π → Bool
  /-- Equality of contents. -/
  eqv : δ → δ → Bool
  /-- The written form of a patch. -/
  encode : π → Json
  /-- Reads a patch. -/
  decode? : Json → Option π

namespace Format

/-- Plain text, as the list of its characters. -/
def text : Format (List Char) TextPatch where
  empty := []
  parse s := .ok s.toList
  render := String.ofList
  diff := TextPatch.diff
  apply t p := TextPatch.apply p t
  isNoop p := p.isEmpty
  eqv a b := a == b
  encode := TextPatch.toJson
  decode? := TextPatch.ofJson?

/-- Records identified by some key fields. -/
def records (primaryKeys : List String) : Format RecordSet RecordPatch where
  empty := RecordSet.empty primaryKeys
  parse := RecordSet.parse primaryKeys
  render := RecordSet.render
  diff := RecordSet.diff
  apply := RecordSet.apply
  isNoop p := p.isEmpty
  eqv a b := a == b
  encode := RecordPatch.toJson
  decode? := RecordPatch.ofJson?

/-- The content after some patches, made in order. -/
def fold {δ π : Type} (f : Format δ π) (base : δ) (patches : List π) : δ :=
  patches.foldl f.apply base

end Format

end LiveDocs

import LiveDocs.Text.Compaction

/-!
# Text diffs

The patch from one text to another: the compacted edit script, with all deletions and insertions
between two kept runs joined into one hunk. A hunk stands at the position of its deletion, or of its
insertion if it deletes nothing.

## Main definitions

* `TextPatch.ofScript`: the hunks of an edit script.
* `TextPatch.diff`: the patch from one text to another.
-/

namespace LiveDocs

namespace TextPatch

/-- Joins an operation to the one collected so far: its position stays and the lengths add up. -/
def join : Option Edit → Edit → Option Edit
  | none, e => some e
  | some first, e => some { first with length := first.length + e.length }

/-- The hunk of a collected deletion and a collected insertion; no hunk if there is neither. -/
def hunkOf (a b : Array Char) (deletion insertion : Option Edit) : TextPatch :=
  let deleted (e : Edit) := (a.extract e.old (e.old + e.length)).toList
  let inserted (e : Edit) := (b.extract e.new (e.new + e.length)).toList
  match deletion, insertion with
  | none, none => []
  | some d, none => [⟨UInt64.ofNat d.old, deleted d, []⟩]
  | none, some i => [⟨UInt64.ofNat i.old, [], inserted i⟩]
  | some d, some i => [⟨UInt64.ofNat d.old, deleted d, inserted i⟩]

/-- The hunks of a script, given what was collected since the last kept run. -/
def ofScriptFrom (a b : Array Char) (deletion insertion : Option Edit) : List Edit → TextPatch
  | [] => hunkOf a b deletion insertion
  | e :: rest =>
    match e.tag with
    | .keep => hunkOf a b deletion insertion ++ ofScriptFrom a b none none rest
    | .delete => ofScriptFrom a b (join deletion e) insertion rest
    | .insert => ofScriptFrom a b deletion (join insertion e) rest

/-- The hunks of an edit script. -/
def ofScript (a b : Array Char) (script : List Edit) : TextPatch :=
  ofScriptFrom a b none none script

def diff (a b : List Char) : TextPatch :=
  let a := a.toArray
  let b := b.toArray
  ofScript a b (Edit.compact a b (Edit.script a b))

end TextPatch

end LiveDocs

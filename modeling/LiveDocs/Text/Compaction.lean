import LiveDocs.Text.Script

/-!
# Compaction of edit scripts

Deletions and then insertions are moved as far up and then as far down the script as they go, so
that neighbours of one kind meet and merge. An insertion slides over a kept run as long as the
characters agree; operations of different kinds change places.

A script is walked as a `Cursor`: the operation in hand, what stands before it (nearest first), and
what stands after it. When two operations change places both keep the positions they had.

## Main definitions

* `Edit.Cursor`: a script with one operation in hand.
* `Edit.Cursor.shiftUp`, `Edit.Cursor.shiftDown`: the two movements.
* `Edit.compact`: the script after all movements.
-/

namespace LiveDocs

namespace Edit

/-- A script with one operation in hand. -/
structure Cursor where
  before : List Edit
  edit : Edit
  after : List Edit

namespace Cursor

def toList (c : Cursor) : List Edit := c.before.reverse ++ c.edit :: c.after

/-- The number of operations and characters, a bound for the number of movements. -/
def weight (c : Cursor) : Nat := c.toList.foldl (fun total e => total + e.length + 1) 0

/-- How many characters an insertion can slide up over a kept run. -/
def slideUp (a b : Array Char) (edit kept : Edit) : Nat :=
  if edit.tag = .insert then
    commonEnd a b (kept.old + kept.length) (edit.new + edit.length) (min kept.length edit.length)
  else 0

/-- How many characters an insertion can slide down over a kept run. -/
def slideDown (a b : Array Char) (edit kept : Edit) : Nat :=
  if edit.tag = .insert then commonStart a b kept.old edit.new (min kept.length edit.length)
  else 0

/-- Kept characters that an insertion slid over upwards join the kept run after it. -/
def keepAfter (edit kept : Edit) (s : Nat) : List Edit → List Edit
  | next :: rest =>
    if next.tag = .keep then
      { next with old := next.old - s, new := next.new - s, length := next.length + s } :: rest
    else ⟨.keep, kept.old + kept.length - s, edit.new + edit.length - s, s⟩ :: next :: rest
  | [] => [⟨.keep, kept.old + kept.length - s, edit.new + edit.length - s, s⟩]

/-- Kept characters that an insertion slid over downwards join the kept run before it. -/
def keepBefore (edit kept : Edit) (s : Nat) : List Edit → List Edit
  | previous :: rest =>
    if previous.tag = .keep then { previous with length := previous.length + s } :: rest
    else ⟨.keep, kept.old, edit.new, s⟩ :: previous :: rest
  | [] => [⟨.keep, kept.old, edit.new, s⟩]

/-- Moves the operation in hand up, at most `fuel` steps. -/
def shiftUp (a b : Array Char) : Nat → Cursor → Cursor
  | 0, c => c
  | fuel + 1, c =>
    match c.before with
    | [] => c
    | p :: before =>
      if p.tag = .keep then
        let s := slideUp a b c.edit p
        if 0 < s then
          let edit := { c.edit with old := c.edit.old - s, new := c.edit.new - s }
          let after := keepAfter c.edit p s c.after
          if p.length = s then shiftUp a b fuel ⟨before, edit, after⟩
          else shiftUp a b fuel ⟨{ p with length := p.length - s } :: before, edit, after⟩
        else if p.length = 0 then shiftUp a b fuel ⟨before, c.edit, c.after⟩
        else c
      else if p.tag ≠ c.edit.tag then shiftUp a b fuel ⟨before, c.edit, p :: c.after⟩
      else shiftUp a b fuel ⟨before, { p with length := p.length + c.edit.length }, c.after⟩

/-- Moves the operation in hand down, at most `fuel` steps. -/
def shiftDown (a b : Array Char) : Nat → Cursor → Cursor
  | 0, c => c
  | fuel + 1, c =>
    match c.after with
    | [] => c
    | q :: after =>
      if q.tag = .keep then
        let s := slideDown a b c.edit q
        if 0 < s then
          let edit := { c.edit with old := c.edit.old + s, new := c.edit.new + s }
          let before := keepBefore c.edit q s c.before
          if q.length = s then shiftDown a b fuel ⟨before, edit, after⟩
          else
            shiftDown a b fuel
              ⟨before, edit,
                { q with old := q.old + s, new := q.new + s, length := q.length - s } :: after⟩
        else if q.length = 0 then shiftDown a b fuel ⟨c.before, c.edit, after⟩
        else c
      else if q.tag ≠ c.edit.tag then shiftDown a b fuel ⟨q :: c.before, c.edit, after⟩
      else
        shiftDown a b fuel ⟨c.before, { c.edit with length := c.edit.length + q.length }, after⟩

/-- Moves an operation up and then down, as far as it goes. Every movement passes or shortens an
operation, so the weight of the script bounds their number. -/
def settle (a b : Array Char) (c : Cursor) : Cursor :=
  let up := shiftUp a b c.weight c
  shiftDown a b up.weight up

/-- Settles every operation of a kind, walking down the script. -/
def settleAll (a b : Array Char) (tag : Tag) : Nat → Cursor → List Edit
  | 0, c => c.toList
  | fuel + 1, c =>
    let c := if c.edit.tag = tag then settle a b c else c
    match c.after with
    | [] => c.toList
    | next :: after => settleAll a b tag fuel ⟨c.edit :: c.before, next, after⟩

end Cursor

/-- Settles every operation of a kind in a script. A settled operation stands below everything that
was moved for it, and the square of the weight bounds the length of the walk. -/
def settleTag (a b : Array Char) (tag : Tag) : List Edit → List Edit
  | [] => []
  | edit :: after =>
    let c : Cursor := ⟨[], edit, after⟩
    c.settleAll a b tag ((c.weight + 1) * (c.weight + 1))

/-- The script with all deletions and then all insertions settled. -/
def compact (a b : Array Char) (script : List Edit) : List Edit :=
  settleTag a b .insert (settleTag a b .delete script)

end Edit

end LiveDocs

import LiveDocs.Text.Patch

/-!
# Edit scripts

An edit script between two texts is a list of operations that keep, delete or insert runs of
characters. It is found by divide and conquer: common ends of two ranges are kept, and what lies
between them is split where a shortest path of deletions and insertions from the start meets one
from the end.

## Main definitions

* `Edit`: one operation.
* `Edit.Box`: a range of the old text against a range of the new text.
* `Edit.Box.middle?`: where a box is split.
* `Edit.script`: the operations that lead from one text to the other.
-/

namespace LiveDocs

/-- Whether characters are kept, deleted from the old text or inserted from the new one. -/
inductive Edit.Tag where
  | keep
  | delete
  | insert
deriving DecidableEq

/-- An operation on a run of characters, with its position in both texts. -/
structure Edit where
  tag : Edit.Tag
  old : Nat
  new : Nat
  length : Nat
deriving DecidableEq

namespace Edit

/-- The number of equal characters from two positions on, at most `count`. -/
def commonStart (a b : Array Char) (i j : Nat) : Nat → Nat
  | 0 => 0
  | count + 1 => if a[i]? = b[j]? then commonStart a b (i + 1) (j + 1) count + 1 else 0

/-- The number of equal characters before two positions, at most `count`. -/
def commonEnd (a b : Array Char) (i j : Nat) : Nat → Nat
  | 0 => 0
  | count + 1 => if a[i - 1]? = b[j - 1]? then commonEnd a b (i - 1) (j - 1) count + 1 else 0

/-- The characters `oldStart … oldEnd - 1` of the old text against `newStart … newEnd - 1` of the
new one. -/
structure Box where
  oldStart : Nat
  oldEnd : Nat
  newStart : Nat
  newEnd : Nat
deriving DecidableEq

/-- The furthest position reached on each diagonal, zero where nothing is known. A diagonal is the
difference of a position in the old and one in the new text and may be negative. -/
structure Frontier where
  origin : Nat
  cells : Array Nat

namespace Frontier

/-- No position known on the diagonals from `-size` to `size`. -/
def empty (size : Nat) : Frontier := ⟨size, Array.replicate (2 * size + 1) 0⟩

def get (f : Frontier) (diagonal : Int) : Nat := f.cells.getD (diagonal + f.origin).toNat 0

def set (f : Frontier) (diagonal : Int) (x : Nat) : Frontier :=
  { f with cells := f.cells.setIfInBounds (diagonal + f.origin).toNat x }

/-- Where a path with `d` operations enters a diagonal: from the neighbour that got further. -/
def enter (f : Frontier) (d : Nat) (k : Int) : Nat :=
  if k = -(d : Int) ∨ (k ≠ d ∧ f.get (k - 1) < f.get (k + 1)) then f.get (k + 1)
  else f.get (k - 1) + 1

end Frontier

/-- The diagonals that `d` operations can reach, from the highest down. -/
def diagonals (d : Nat) : List Int := (List.range (d + 1)).map fun (i : Nat) => (d : Int) - 2 * i

namespace Box

/-- The number of old characters. -/
def width (box : Box) : Nat := box.oldEnd - box.oldStart

/-- The number of new characters. -/
def height (box : Box) : Nat := box.newEnd - box.newStart

/-- The diagonal of the far corner. -/
def delta (box : Box) : Int := (box.width : Int) - box.height

/-- Extends the paths from the start by one operation on one diagonal. Gives the split, as an
error, if the path meets one from the end. -/
def forward (a b : Array Char) (box : Box) (back : Frontier) (d : Nat) (front : Frontier)
    (k : Int) : Except (Int × Int) Frontier :=
  let x₀ := front.enter d k
  let y₀ : Int := (x₀ : Int) - k
  let x :=
    if x₀ < box.width ∧ 0 ≤ y₀ ∧ y₀ < box.height then
      let i := box.oldStart + x₀
      let j := box.newStart + y₀.toNat
      x₀ + commonStart a b i j (min (box.oldEnd - i) (box.newEnd - j))
    else x₀
  let front := front.set k x
  if box.delta % 2 = 1 ∧ (k - box.delta).natAbs + 1 ≤ d ∧
      box.width ≤ front.get k + back.get (box.delta - k) then
    .error (x₀ + box.oldStart, y₀ + box.newStart)
  else .ok front

/-- Extends the paths from the end by one operation on one diagonal. Gives the split, as an error,
if the path meets one from the start. -/
def backward (a b : Array Char) (box : Box) (front : Frontier) (d : Nat) (back : Frontier)
    (k : Int) : Except (Int × Int) Frontier :=
  let x₀ := back.enter d k
  let y₀ : Int := (x₀ : Int) - k
  let run :=
    if x₀ < box.width ∧ 0 ≤ y₀ ∧ y₀ < box.height then
      commonEnd a b (box.oldEnd - x₀) (box.newEnd - y₀.toNat)
        (min (box.width - x₀) (box.height - y₀.toNat))
    else 0
  let x := x₀ + run
  let y := y₀ + run
  let back := back.set k x
  if box.delta % 2 = 0 ∧ (k - box.delta).natAbs ≤ d ∧
      box.width ≤ back.get k + front.get (box.delta - k) then
    .error ((box.width : Int) - x + box.oldStart, (box.height : Int) - y + box.newStart)
  else .ok back

/-- One more operation on all diagonals, first from the start and then from the end. -/
def advance (a b : Array Char) (box : Box) (paths : Frontier × Frontier) (d : Nat) :
    Except (Int × Int) (Frontier × Frontier) := do
  let (front, back) := paths
  let front ← (diagonals d).foldlM (box.forward a b back d) front
  let back ← (diagonals d).foldlM (box.backward a b front d) back
  pure (front, back)

/-- The point where a box is split. It lies in the box and is none of its two corners. -/
def middle? (a b : Array Char) (box : Box) : Option (Nat × Nat) :=
  let size := (box.width + box.height + 1) / 2 + 1
  let known := Frontier.empty size
  match (List.range size).foldlM (box.advance a b) (known, known) with
  | .ok _ => none
  | .error (x, y) =>
    if box.oldStart ≤ x ∧ x ≤ box.oldEnd ∧ box.newStart ≤ y ∧ y ≤ box.newEnd ∧
        (x, y) ≠ ((box.oldStart : Int), (box.newStart : Int)) ∧
        (x, y) ≠ ((box.oldEnd : Int), (box.newEnd : Int)) then
      some (x.toNat, y.toNat)
    else none

end Box

/-- The operation on a run, no operation if the run is empty. -/
def run (tag : Tag) (old new length : Nat) : List Edit :=
  if length = 0 then [] else [⟨tag, old, new, length⟩]

/-- The script of a box: its common ends are kept and the rest is split. A rest that one text lacks
is deleted or inserted, as is a rest that cannot be split. -/
def scriptOf (a b : Array Char) : Nat → Box → List Edit
  | 0, box =>
    run .delete box.oldStart box.newStart box.width ++
      run .insert box.oldStart box.newStart box.height
  | fuel + 1, box =>
    let start := commonStart a b box.oldStart box.newStart (min box.width box.height)
    let i := box.oldStart + start
    let j := box.newStart + start
    let stop := commonEnd a b box.oldEnd box.newEnd (min (box.oldEnd - i) (box.newEnd - j))
    let rest : Box := ⟨i, box.oldEnd - stop, j, box.newEnd - stop⟩
    let split :=
      if rest.width = 0 ∨ rest.height = 0 then none else rest.middle? a b
    run .keep box.oldStart box.newStart start ++
      (match split with
      | none => run .delete i j rest.width ++ run .insert i j rest.height
      | some (x, y) =>
        scriptOf a b fuel ⟨i, x, j, y⟩ ++ scriptOf a b fuel ⟨x, rest.oldEnd, y, rest.newEnd⟩) ++
      run .keep rest.oldEnd rest.newEnd stop

/-- The operations that lead from one text to another. Each split makes both boxes smaller, so the
total length bounds the number of nested splits. -/
def script (a b : Array Char) : List Edit :=
  scriptOf a b (a.size + b.size + 1) ⟨0, a.size, 0, b.size⟩

end Edit

end LiveDocs

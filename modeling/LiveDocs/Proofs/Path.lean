import LiveDocs.Path
import Mathlib.Data.List.DropRight

/-!
# Paths below a directory

A path is at a directory or below it if the components of the directory come first among its own
(`Path.Within`). Paths are compared as texts, with one slash behind the directory, and that comes to
the same (`Path.isInTree_iff`): a slash is where one component ends, so a path that merely begins
with the name of the directory is not below it, and slashes that follow each other count.

## Main definitions

* `Path.components`: what stands between the slashes of a path.
* `Path.Within`: a path is at a directory or below it.
-/

namespace LiveDocs.Path

/-- What stands between the slashes of a path; there may be nothing between two of them. -/
def components (path : List Char) : List (List Char) := path.splitOn '/'

/-- A path is at a directory or below it. Slashes at the end of the directory do not count, and
without them the root is the empty text. -/
def Within (dir path : String) : Prop :=
  dir.toList.rdropWhile (· == '/') = [] ∨
    components (dir.toList.rdropWhile (· == '/')) <+: components path.toList

instance (dir path : String) : Decidable (Within dir path) :=
  inferInstanceAs (Decidable (_ ∨ _))

theorem components_append_slash (dir rest : List Char) :
    components (dir ++ '/' :: rest) = components dir ++ components rest :=
  List.splitOn_append_cons_self dir rest

theorem components_ne_nil (path : List Char) : components path ≠ [] := List.splitOn_ne_nil '/' path

/-- A path is made of its components. -/
theorem intercalate_components (path : List Char) : ['/'].intercalate (components path) = path :=
  List.intercalate_splitOn '/'

theorem intercalate_append {front back : List (List Char)} (hfront : front ≠ [])
    (hback : back ≠ []) :
    ['/'].intercalate (front ++ back) =
      ['/'].intercalate front ++ ['/'] ++ ['/'].intercalate back := by
  induction front with
  | nil => exact absurd rfl hfront
  | cons part front ih =>
    cases front with
    | nil =>
      rw [List.singleton_append, List.intercalate_cons_of_ne_nil hback, List.intercalate_singleton]
    | cons next front =>
      have hrest := ih (List.cons_ne_nil next front)
      rw [List.cons_append] at hrest
      rw [List.cons_append, List.cons_append, List.intercalate_cons_cons, hrest,
        List.intercalate_cons_cons]
      simp only [List.append_assoc]

/-- The components of a text come first in those of another exactly if the texts are the same or the
other goes on with a slash. -/
theorem components_prefix_iff {dir path : List Char} :
    components dir <+: components path ↔ path = dir ∨ dir ++ ['/'] <+: path := by
  constructor
  · rintro ⟨rest, hrest⟩
    by_cases hmore : rest = []
    · left
      rw [← intercalate_components path, ← hrest, hmore, List.append_nil, intercalate_components]
    · right
      refine ⟨['/'].intercalate rest, ?_⟩
      rw [← intercalate_components path, ← hrest,
        intercalate_append (components_ne_nil dir) hmore, intercalate_components]
  · rintro (rfl | ⟨rest, rfl⟩)
    · exact List.prefix_rfl
    · rw [List.append_assoc, List.singleton_append, components_append_slash]
      exact List.prefix_append _ _

theorem isInTree_iff (dir path : String) : isInTree dir path = true ↔ Within dir path := by
  simp only [isInTree, Within, components_prefix_iff, Bool.or_eq_true, List.isEmpty_iff, beq_iff_eq,
    List.isPrefixOf_iff_prefix, or_assoc]
  rfl

end LiveDocs.Path

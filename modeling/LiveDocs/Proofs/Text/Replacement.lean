import LiveDocs.Proofs.Text.Patch
import Mathlib.Data.List.Chain

/-!
# Hunks in order replace exactly their ranges

A patch *fits* a text if its hunks come in order, none before the end of the one before it, and the
text that each of them deletes stands where the hunk says (`TextPatch.Fits`). Such a patch meets the
very text it was made from: every hunk is found where it is expected, however much the hunks before
it have moved the rest of the text, and the result is the text with the range of each hunk replaced
(`TextPatch.apply_eq_replaced`).

The shift that is passed from hunk to hunk is the difference of two positions, the end of what is
done in the new text and the end of what was read of the old one. A hunk that deletes nothing may
stand behind the end of the text, at a position that is too great to count; it then inserts at the
end.

## Main definitions

* `TextPatch.Fits`: the hunks of a patch stand in a text, in order.
* `TextPatch.replaced`: the text with the range of each hunk replaced.
-/

namespace LiveDocs

namespace Hunk

/-- A position brought into range is the position or the greatest one. -/
theorem saturate_natCast (n : Nat) : saturate n = min n 0x7fffffffffffffff := by
  unfold saturate positionBound
  omega

/-- A text that stands where it is expected is found there. -/
theorem locate_append {done rest needle : List Char} (h : needle <+: rest) :
    locate (done ++ rest) needle done.length = some done.length := by
  rw [locate, List.drop_left]
  split
  · rfl
  · rw [if_pos (List.isPrefixOf_iff_prefix.mpr h)]

end Hunk

namespace TextPatch

/-- The hunks of a patch come in order, without overlap, and each deletes what stands at its
position in a text. -/
structure Fits (a : List Char) (patch : TextPatch) : Prop where
  inOrder : patch.IsChain fun h next => h.start.toNat + h.delete.length ≤ next.start.toNat
  stands : ∀ h ∈ patch, h.delete <+: a.drop h.start.toNat

/-- What is left of a text from a position on, with the range of each hunk replaced by the text it
inserts. -/
def replacedFrom (a : List Char) (i : Nat) : TextPatch → List Char
  | [] => a.drop i
  | h :: rest =>
    (a.drop i).take (h.start.toNat - i) ++ h.insert ++
      replacedFrom a (h.start.toNat + h.delete.length) rest

/-- The text with the range of each hunk replaced by the text it inserts. -/
def replaced (a : List Char) (patch : TextPatch) : List Char := replacedFrom a 0 patch

variable {a done : List Char} {i : Nat} {h : Hunk}

theorem Fits.tail {rest : TextPatch} (hfits : Fits a (h :: rest)) :
    Fits a rest ∧ ∀ next ∈ rest.head?, h.start.toNat + h.delete.length ≤ next.start.toNat := by
  obtain ⟨hnext, hrest⟩ := List.isChain_cons.mp hfits.inOrder
  exact ⟨⟨hrest, fun h' hmem => hfits.stands h' (List.mem_cons_of_mem h hmem)⟩, hnext⟩

/-! ## One hunk -/

/-- Where a hunk is expected, in a text that is done up to a position of the old text: behind what
is kept before it. If it stands behind the end of the text, everything is kept. -/
theorem expected_eq (hi : i ≤ h.start.toNat) (ha : a.length ≤ 0x7fffffffffffffff)
    (hdone : (done ++ (a.drop i).take (h.start.toNat - i)).length ≤ 0x7fffffffffffffff) :
    h.expected ((done.length : Int) - Hunk.saturate i) (done ++ a.drop i).length =
      (done ++ (a.drop i).take (h.start.toNat - i)).length := by
  simp only [List.length_append, List.length_take, List.length_drop] at hdone ⊢
  rw [Hunk.expected, Hunk.origin, Hunk.saturate_natCast, Hunk.saturate_natCast, Hunk.saturate,
    Hunk.positionBound]
  omega

/-- **What a hunk does** to a text that is done up to a position of the old text. What lies before
the hunk is kept, its range is replaced, and the shift for what follows is again the difference of
the positions reached. -/
theorem apply_hunk (hi : i ≤ h.start.toNat) (hdelete : h.delete <+: a.drop h.start.toNat)
    (ha : a.length ≤ 0x7fffffffffffffff)
    (hdone : (done ++ (a.drop i).take (h.start.toNat - i) ++ h.insert).length ≤
      0x7fffffffffffffff) :
    h.apply (done ++ a.drop i) ((done.length : Int) - Hunk.saturate i) =
      (done ++ (a.drop i).take (h.start.toNat - i) ++ h.insert ++
          a.drop (h.start.toNat + h.delete.length),
        ((done ++ (a.drop i).take (h.start.toNat - i) ++ h.insert).length : Int) -
          Hunk.saturate (h.start.toNat + h.delete.length : Nat)) := by
  have hlength : (done ++ (a.drop i).take (h.start.toNat - i)).length ≤ 0x7fffffffffffffff :=
    Nat.le_trans (List.prefix_append _ _).length_le hdone
  have hexpected := expected_eq hi ha hlength
  have hkept : done ++ a.drop i =
      done ++ (a.drop i).take (h.start.toNat - i) ++ a.drop h.start.toNat := by
    have hdrop : a.drop h.start.toNat = (a.drop i).drop (h.start.toNat - i) := by
      rw [List.drop_drop, Nat.add_sub_cancel' hi]
    rw [hdrop, List.append_assoc, List.take_append_drop]
  generalize done ++ (a.drop i).take (h.start.toNat - i) = before at *
  have hlocate : Hunk.locate (done ++ a.drop i) h.delete before.length = some before.length := by
    rw [hkept]
    exact Hunk.locate_append hdelete
  have hspliced : Hunk.splice (done ++ a.drop i) before.length h.delete.length h.insert =
      before ++ h.insert ++ a.drop (h.start.toNat + h.delete.length) := by
    rw [hkept, Hunk.splice_append, List.drop_drop]
  have hshift : Hunk.saturate ((before.length + h.insert.length : Nat) -
        Hunk.saturate (h.origin + h.delete.length)) =
      ((before ++ h.insert).length : Int) -
        Hunk.saturate (h.start.toNat + h.delete.length : Nat) := by
    rw [List.length_append] at hdone ⊢
    rw [Hunk.origin, Hunk.saturate_natCast, Hunk.saturate_natCast]
    simp only [Hunk.saturate, Hunk.positionBound]
    omega
  simp only [Hunk.apply, Hunk.site, Hunk.drift, hexpected, hlocate, hspliced, hshift]

/-! ## All hunks -/

/-- The hunks that are left of a patch, in a text that is done up to a position before them. -/
theorem applyFrom_eq_replacedFrom {patch : TextPatch} (hfits : Fits a patch)
    (hfirst : ∀ h ∈ patch.head?, i ≤ h.start.toNat) (ha : a.length ≤ 0x7fffffffffffffff)
    (hresult : (done ++ replacedFrom a i patch).length ≤ 0x7fffffffffffffff) :
    applyFrom patch (done ++ a.drop i) ((done.length : Int) - Hunk.saturate i) =
      done ++ replacedFrom a i patch := by
  induction patch generalizing i done with
  | nil => rfl
  | cons h rest ih =>
    obtain ⟨hrest, hnext⟩ := hfits.tail
    have hi : i ≤ h.start.toNat := hfirst h rfl
    have hreplaced : done ++ replacedFrom a i (h :: rest) =
        done ++ (a.drop i).take (h.start.toNat - i) ++ h.insert ++
          replacedFrom a (h.start.toNat + h.delete.length) rest := by
      simp only [replacedFrom, List.append_assoc]
    rw [hreplaced] at hresult ⊢
    have hdone := Nat.le_trans (List.prefix_append _ _).length_le hresult
    rw [applyFrom, apply_hunk hi (hfits.stands h List.mem_cons_self) ha hdone]
    exact ih hrest hnext hresult

/-- **A patch that fits a text replaces exactly the ranges of its hunks.** The bounds are those of
texts in memory. -/
theorem apply_eq_replaced (a : List Char) (patch : TextPatch) (hfits : Fits a patch)
    (ha : a.length ≤ 0x7fffffffffffffff)
    (hresult : (replaced a patch).length ≤ 0x7fffffffffffffff) :
    apply patch a = replaced a patch := by
  have hstart : ∀ h ∈ patch.head?, 0 ≤ h.start.toNat := fun _ _ => Nat.zero_le _
  have happlied : applyFrom patch ([] ++ a.drop 0) (([] : List Char).length - Hunk.saturate 0) =
      [] ++ replacedFrom a 0 patch := applyFrom_eq_replacedFrom hfits hstart ha hresult
  exact happlied

/-- Hunks that touch each other, delete nothing or nothing but text that occurs elsewhere too, and
one behind the end of the text. -/
def touchingHunks : TextPatch :=
  [⟨0, [], ['x']⟩, ⟨0, ['a', 'b'], ['b', 'a']⟩, ⟨2, ['a', 'b'], []⟩, ⟨4, [], ['a', 'b']⟩,
    ⟨5, ['b'], ['y']⟩, ⟨0xffffffffffffffff, [], ['z']⟩]

/-- Each of them replaces its own range. -/
theorem apply_touchingHunks :
    Fits ['a', 'b', 'a', 'b', 'a', 'b'] touchingHunks ∧
      apply touchingHunks ['a', 'b', 'a', 'b', 'a', 'b'] =
        ['x', 'b', 'a', 'a', 'b', 'a', 'y', 'z'] := by
  have hfits : Fits ['a', 'b', 'a', 'b', 'a', 'b'] touchingHunks := ⟨by decide, by decide⟩
  refine ⟨hfits, ?_⟩
  rw [apply_eq_replaced _ touchingHunks hfits (by decide) (by decide)]
  decide

end TextPatch

end LiveDocs

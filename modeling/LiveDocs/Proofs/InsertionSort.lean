import LiveDocs.SortedMap
import Mathlib.Data.List.Induction
import Mathlib.Data.List.Sort

/-!
# Sorting by keys

Elements are put into a list one by one, each behind those with the same key or a lower one. The
result has the same elements, with keys that do not fall, and elements with one key keep their order
(`filter_insertEach`).
-/

namespace LiveDocs

theorem OrderedKey.not_lt_trans {κ : Type} [LT κ] [DecidableEq κ] [OrderedKey κ] {a b c : κ}
    (hab : ¬ b < a) (hbc : ¬ c < b) : ¬ c < a := by
  intro hca
  by_cases hne : a = b
  · exact hbc (hne ▸ hca)
  · exact hbc (OrderedKey.trans hca (OrderedKey.lt_of_not_lt_of_ne hab (Ne.symm hne)))

variable {α κ : Type} [LT κ] [DecidableLT κ]

/-- Elements put into a list one by one by their keys. -/
def insertEach (key : α → κ) (l : List α) : List α :=
  l.foldl (fun sorted x => sorted.orderedInsert (fun a b => key a < key b) x) []

theorem insertEach_concat (key : α → κ) (l : List α) (x : α) :
    insertEach key (l ++ [x]) = (insertEach key l).orderedInsert (fun a b => key a < key b) x := by
  simp [insertEach]

theorem insertEach_perm (key : α → κ) (l : List α) : (insertEach key l).Perm l := by
  induction l using List.reverseRecOn with
  | nil => exact List.Perm.refl _
  | append_singleton l x ih =>
    rw [insertEach_concat]
    exact (List.perm_orderedInsert _ x _).trans
      ((ih.cons x).trans (List.perm_append_singleton x l).symm)

theorem pairwise_orderedInsert [DecidableEq κ] [OrderedKey κ] (key : α → κ) (x : α) {l : List α}
    (h : l.Pairwise fun a b => ¬ key b < key a) :
    (l.orderedInsert (fun a b => key a < key b) x).Pairwise fun a b => ¬ key b < key a := by
  induction l with
  | nil => exact List.pairwise_singleton _ _
  | cons y l ih =>
    obtain ⟨hy, hl⟩ := List.pairwise_cons.mp h
    rw [List.orderedInsert_cons]
    split
    · next hlt =>
      have hxy : ¬ key y < key x := fun hyx => OrderedKey.irrefl _ (OrderedKey.trans hlt hyx)
      refine List.pairwise_cons.mpr ⟨fun z hz => ?_, h⟩
      rcases List.mem_cons.mp hz with rfl | hz
      · exact hxy
      · exact OrderedKey.not_lt_trans hxy (hy z hz)
    · next hnlt =>
      refine List.pairwise_cons.mpr ⟨fun z hz => ?_, ih hl⟩
      rcases (List.mem_orderedInsert _).mp hz with rfl | hz
      · exact hnlt
      · exact hy z hz

/-- Keys do not fall. -/
theorem insertEach_sorted [DecidableEq κ] [OrderedKey κ] (key : α → κ) (l : List α) :
    (insertEach key l).Pairwise fun a b => ¬ key b < key a := by
  induction l using List.reverseRecOn with
  | nil => exact List.Pairwise.nil
  | append_singleton l x ih =>
    rw [insertEach_concat]
    exact pairwise_orderedInsert key x ih

/-- An element goes behind all those with its key. -/
theorem filter_orderedInsert [DecidableEq κ] [OrderedKey κ] (key : α → κ) (x : α) {l : List α}
    (h : l.Pairwise fun a b => ¬ key b < key a) (k : κ) :
    (l.orderedInsert (fun a b => key a < key b) x).filter (fun a => key a = k) =
      (l ++ [x]).filter fun a => key a = k := by
  induction l with
  | nil => rfl
  | cons y l ih =>
    obtain ⟨hy, hl⟩ := List.pairwise_cons.mp h
    rw [List.orderedInsert_cons]
    split
    · next hlt =>
      by_cases hx : key x = k
      · -- All that follows has a greater key than `x`.
        have hnone : (y :: l).filter (fun a => key a = k) = [] := by
          rw [List.filter_eq_nil_iff]
          intro a ha hk
          have hak : key a = key x := (of_decide_eq_true hk).trans hx.symm
          rcases List.mem_cons.mp ha with rfl | ha
          · exact OrderedKey.irrefl (key x) (hak ▸ hlt)
          · exact hy a ha (hak ▸ hlt)
        rw [List.filter_append, hnone, List.filter_cons_of_pos (by simpa using hx), hnone]
        simp [hx]
      · rw [List.filter_append, List.filter_cons_of_neg (by simpa using hx)]
        simp [hx]
    · rw [List.cons_append, List.filter_cons, List.filter_cons, ih hl]

/-- Elements with one key keep their order. -/
theorem filter_insertEach [DecidableEq κ] [OrderedKey κ] (key : α → κ) (l : List α) (k : κ) :
    (insertEach key l).filter (fun a => key a = k) = l.filter fun a => key a = k := by
  induction l using List.reverseRecOn with
  | nil => rfl
  | append_singleton l x ih =>
    rw [insertEach_concat, filter_orderedInsert key x (insertEach_sorted key l), List.filter_append,
      List.filter_append, ih]

end LiveDocs

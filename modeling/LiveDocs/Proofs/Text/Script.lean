import LiveDocs.Text.Script

/-!
# Edit scripts lead from one text to the other

A script *covers* two ranges if its operations follow each other without gaps: kept runs and
deletions in the old text, kept runs and insertions in the new one, with the same characters in
both under every kept run (`Edit.Covers`). The old position of an insertion and the new position
of a deletion do not matter for this. The script of two texts covers both (`Edit.covers_script`).

## Main definitions

* `Edit.Covers`: the operations follow each other without gaps.

## Main results

* `Edit.covers_scriptOf`, `Edit.covers_script`: the script of a box covers the box.
-/

namespace LiveDocs

namespace Edit

variable {a b : Array Char} {i j i' j' : Nat}

/-! ## Common ends -/

theorem commonStart_le (a b : Array Char) (i j count : Nat) :
    commonStart a b i j count ≤ count := by
  induction count generalizing i j with
  | zero => exact Nat.le_refl 0
  | succ count ih =>
    rw [commonStart]
    split
    · exact Nat.succ_le_succ (ih (i + 1) (j + 1))
    · exact Nat.zero_le _

theorem getElem?_commonStart {count k : Nat} (hk : k < commonStart a b i j count) :
    a[i + k]? = b[j + k]? := by
  induction count generalizing i j k with
  | zero => cases hk
  | succ count ih =>
    rw [commonStart] at hk
    split at hk
    · next hfirst =>
      cases k with
      | zero => exact hfirst
      | succ k =>
        have hrest := ih (i := i + 1) (j := j + 1) (Nat.lt_of_succ_lt_succ hk)
        rwa [Nat.add_right_comm i, Nat.add_right_comm j] at hrest
    · cases hk

theorem commonEnd_le (a b : Array Char) (i j count : Nat) : commonEnd a b i j count ≤ count := by
  induction count generalizing i j with
  | zero => exact Nat.le_refl 0
  | succ count ih =>
    rw [commonEnd]
    split
    · exact Nat.succ_le_succ (ih (i - 1) (j - 1))
    · exact Nat.zero_le _

theorem getElem?_commonEnd {count k : Nat} (hi : count ≤ i) (hj : count ≤ j)
    (hk : k < commonEnd a b i j count) :
    a[i - commonEnd a b i j count + k]? = b[j - commonEnd a b i j count + k]? := by
  induction count generalizing i j k with
  | zero => cases hk
  | succ count ih =>
    have hle := commonEnd_le a b (i - 1) (j - 1) count
    by_cases hlast : a[i - 1]? = b[j - 1]?
    · have hend : commonEnd a b i j (count + 1) = commonEnd a b (i - 1) (j - 1) count + 1 := by
        rw [commonEnd, if_pos hlast]
      rw [hend] at hk ⊢
      by_cases hkr : k = commonEnd a b (i - 1) (j - 1) count
      · -- The last of the equal characters.
        have hik : i - (commonEnd a b (i - 1) (j - 1) count + 1) + k = i - 1 := by omega
        have hjk : j - (commonEnd a b (i - 1) (j - 1) count + 1) + k = j - 1 := by omega
        rw [hik, hjk, hlast]
      · have hrest := ih (i := i - 1) (j := j - 1) (k := k) (by omega) (by omega) (by omega)
        rwa [Nat.sub_sub, Nat.sub_sub, Nat.add_comm 1] at hrest
    · rw [commonEnd, if_neg hlast] at hk
      cases hk

/-! ## Covering -/

/-- The operations lead from one pair of positions to another without gaps. -/
inductive Covers (a b : Array Char) : Nat → Nat → List Edit → Nat → Nat → Prop where
  | nil (i j : Nat) : Covers a b i j [] i j
  | keep {i j i' j' n : Nat} {rest : List Edit} (hsame : ∀ k < n, a[i + k]? = b[j + k]?)
      (h : Covers a b (i + n) (j + n) rest i' j') : Covers a b i j (⟨.keep, i, j, n⟩ :: rest) i' j'
  | delete {i j i' j' new n : Nat} {rest : List Edit} (h : Covers a b (i + n) j rest i' j') :
      Covers a b i j (⟨.delete, i, new, n⟩ :: rest) i' j'
  | insert {i j i' j' old n : Nat} {rest : List Edit} (h : Covers a b i (j + n) rest i' j') :
      Covers a b i j (⟨.insert, old, j, n⟩ :: rest) i' j'

theorem covers_append {script more : List Edit} :
    Covers a b i j (script ++ more) i' j' ↔
      ∃ p q, Covers a b i j script p q ∧ Covers a b p q more i' j' := by
  constructor
  · intro h
    induction script generalizing i j with
    | nil => exact ⟨i, j, .nil i j, h⟩
    | cons e script ih =>
      cases h with
      | keep hsame h =>
        obtain ⟨p, q, hscript, hmore⟩ := ih h
        exact ⟨p, q, .keep hsame hscript, hmore⟩
      | delete h =>
        obtain ⟨p, q, hscript, hmore⟩ := ih h
        exact ⟨p, q, .delete hscript, hmore⟩
      | insert h =>
        obtain ⟨p, q, hscript, hmore⟩ := ih h
        exact ⟨p, q, .insert hscript, hmore⟩
  · rintro ⟨p, q, hscript, hmore⟩
    induction hscript with
    | nil => exact hmore
    | keep hsame _ ih => exact .keep hsame (ih hmore)
    | delete _ ih => exact .delete (ih hmore)
    | insert _ ih => exact .insert (ih hmore)

theorem Covers.append {script more : List Edit} {p q : Nat} (h : Covers a b i j script p q)
    (hmore : Covers a b p q more i' j') : Covers a b i j (script ++ more) i' j' :=
  covers_append.mpr ⟨p, q, h, hmore⟩

theorem Covers.le {script : List Edit} (h : Covers a b i j script i' j') : i ≤ i' ∧ j ≤ j' := by
  induction h with
  | nil => exact ⟨Nat.le_refl _, Nat.le_refl _⟩
  | keep _ _ ih => omega
  | delete _ ih => omega
  | insert _ ih => omega

theorem covers_run_keep {n : Nat} (hsame : ∀ k < n, a[i + k]? = b[j + k]?) :
    Covers a b i j (run .keep i j n) (i + n) (j + n) := by
  unfold run
  split
  · next hn => exact hn ▸ .nil i j
  · exact .keep hsame (.nil _ _)

theorem covers_run_delete (i j new n : Nat) : Covers a b i j (run .delete i new n) (i + n) j := by
  unfold run
  split
  · next hn => exact hn ▸ .nil i j
  · exact .delete (.nil _ _)

theorem covers_run_insert (i j old n : Nat) : Covers a b i j (run .insert old j n) i (j + n) := by
  unfold run
  split
  · next hn => exact hn ▸ .nil i j
  · exact .insert (.nil _ _)

/-! ## Scripts -/

/-- A box is split inside it. -/
theorem Box.middle?_bounds {box : Box} {x y : Nat} (h : box.middle? a b = some (x, y)) :
    box.oldStart ≤ x ∧ x ≤ box.oldEnd ∧ box.newStart ≤ y ∧ y ≤ box.newEnd := by
  unfold Box.middle? at h
  dsimp only at h
  split at h
  · cases h
  · split at h
    · next hbounds =>
      cases h
      omega
    · cases h

/-- Everything in a box is deleted and inserted. -/
theorem covers_replace (box : Box) (hold : box.oldStart ≤ box.oldEnd)
    (hnew : box.newStart ≤ box.newEnd) :
    Covers a b box.oldStart box.newStart
      (run .delete box.oldStart box.newStart box.width ++
        run .insert box.oldStart box.newStart box.height) box.oldEnd box.newEnd := by
  have hdelete :=
    covers_run_delete (a := a) (b := b) box.oldStart box.newStart box.newStart box.width
  have hinsert :=
    covers_run_insert (a := a) (b := b) (box.oldStart + box.width) box.newStart box.oldStart
      box.height
  rw [Box.width, Box.height] at *
  rw [Nat.add_sub_cancel' hold] at hdelete hinsert
  rw [Nat.add_sub_cancel' hnew] at hinsert
  exact hdelete.append hinsert

/-- Common ends of a box are kept around what covers the rest of it. -/
theorem covers_ends {box : Box} {n m : Nat} {middle : List Edit}
    (hn : ∀ k < n, a[box.oldStart + k]? = b[box.newStart + k]?)
    (hm : ∀ k < m, a[box.oldEnd - m + k]? = b[box.newEnd - m + k]?)
    (hold : m ≤ box.oldEnd) (hnew : m ≤ box.newEnd)
    (h : Covers a b (box.oldStart + n) (box.newStart + n) middle (box.oldEnd - m)
      (box.newEnd - m)) :
    Covers a b box.oldStart box.newStart
      (run .keep box.oldStart box.newStart n ++ middle ++
        run .keep (box.oldEnd - m) (box.newEnd - m) m) box.oldEnd box.newEnd := by
  have hlast := covers_run_keep hm
  rw [Nat.sub_add_cancel hold, Nat.sub_add_cancel hnew] at hlast
  exact ((covers_run_keep hn).append h).append hlast

/-- The script of a box covers it. -/
theorem covers_scriptOf (a b : Array Char) (fuel : Nat) (box : Box)
    (hold : box.oldStart ≤ box.oldEnd) (hnew : box.newStart ≤ box.newEnd) :
    Covers a b box.oldStart box.newStart (scriptOf a b fuel box) box.oldEnd box.newEnd := by
  induction fuel generalizing box with
  | zero => exact covers_replace box hold hnew
  | succ fuel ih =>
    rw [scriptOf]
    -- The lengths of the common ends: both fit into the box, one behind the other.
    let n := commonStart a b box.oldStart box.newStart (min box.width box.height)
    have hn : n ≤ min (box.oldEnd - box.oldStart) (box.newEnd - box.newStart) :=
      commonStart_le a b _ _ _
    let m := commonEnd a b box.oldEnd box.newEnd
      (min (box.oldEnd - (box.oldStart + n)) (box.newEnd - (box.newStart + n)))
    have hm : m ≤ min (box.oldEnd - (box.oldStart + n)) (box.newEnd - (box.newStart + n)) :=
      commonEnd_le a b _ _ _
    have hmold : m ≤ box.oldEnd := by omega
    have hmnew : m ≤ box.newEnd := by omega
    refine covers_ends (fun k hk => getElem?_commonStart hk)
      (fun k hk => getElem?_commonEnd (by omega) (by omega) hk) hmold hmnew ?_
    split
    · exact covers_replace ⟨box.oldStart + n, box.oldEnd - m, box.newStart + n, box.newEnd - m⟩
        (by simp only; omega) (by simp only; omega)
    · next x y hsplit =>
      split at hsplit
      · cases hsplit
      · obtain ⟨hx, hx', hy, hy'⟩ := Box.middle?_bounds hsplit
        exact (ih ⟨box.oldStart + n, x, box.newStart + n, y⟩ hx hy).append
          (ih ⟨x, box.oldEnd - m, y, box.newEnd - m⟩ hx' hy')

/-- The script of two texts leads from one to the other. -/
theorem covers_script (a b : Array Char) : Covers a b 0 0 (script a b) a.size b.size :=
  covers_scriptOf a b _ ⟨0, a.size, 0, b.size⟩ (Nat.zero_le _) (Nat.zero_le _)

end Edit

end LiveDocs

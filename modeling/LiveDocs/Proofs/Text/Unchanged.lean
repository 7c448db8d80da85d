import LiveDocs.Proofs.Text.Compaction
import LiveDocs.Text.Diff

/-!
# Only equal texts have a patch without hunks

A script that only keeps (`Edit.KeepsAll`) is one without hunks, whatever its runs are. If such a
script covers two texts they are equal, since its runs follow each other from the start of both
texts to the end of both. For equal texts the search for a script finds a common start that is all
of the text, and compaction has nothing to move. So the patch between two texts is empty exactly if
they are equal (`TextPatch.diff_eq_nil_iff`), and no edit is lost on the way from a script to its
hunks.

## Main definitions

* `Edit.KeepsAll`: a script without deletions and insertions.
-/

namespace LiveDocs

namespace Edit

variable {a b : Array Char} {i j i' j' : Nat}

/-- A script without deletions and insertions. -/
def KeepsAll (script : List Edit) : Prop := ∀ e ∈ script, e.tag = .keep

theorem keepsAll_nil : KeepsAll [] := by
  intro e he
  cases he

theorem keepsAll_cons {e : Edit} {script : List Edit} :
    KeepsAll (e :: script) ↔ e.tag = .keep ∧ KeepsAll script :=
  List.forall_mem_cons

theorem keepsAll_run_keep (old new length : Nat) : KeepsAll (run .keep old new length) := by
  unfold run
  split
  · exact keepsAll_nil
  · exact keepsAll_cons.mpr ⟨rfl, keepsAll_nil⟩

/-- What a script covers that keeps everything is the same in both texts. -/
theorem Covers.same_of_keepsAll {script : List Edit} (h : Covers a b i j script i' j')
    (hkeeps : KeepsAll script) :
    ∃ n, i' = i + n ∧ j' = j + n ∧ ∀ k < n, a[i + k]? = b[j + k]? := by
  induction h with
  | nil i j => exact ⟨0, rfl, rfl, fun k hk => absurd hk (Nat.not_lt_zero k)⟩
  | @keep i j i' j' n rest hsame _ ih =>
    obtain ⟨m, hi, hj, hrest⟩ := ih (keepsAll_cons.mp hkeeps).2
    refine ⟨n + m, by omega, by omega, fun k hk => ?_⟩
    by_cases hkn : k < n
    · exact hsame k hkn
    · have hlater := hrest (k - n) (by omega)
      rwa [Nat.add_assoc, Nat.add_assoc, Nat.add_sub_cancel' (by omega)] at hlater
  | delete => cases (keepsAll_cons.mp hkeeps).1
  | insert => cases (keepsAll_cons.mp hkeeps).1

/-! ## The script of equal texts -/

theorem commonStart_self (a : Array Char) (i count : Nat) : commonStart a a i i count = count := by
  induction count generalizing i with
  | zero => rfl
  | succ count ih => rw [commonStart, if_pos rfl, ih]

/-- The common start of a text with itself is all of it, and nothing is left to delete or insert. -/
theorem script_self (a : Array Char) : script a a = run .keep 0 0 a.size := by
  simp [script, scriptOf, Box.width, Box.height, commonStart_self, commonEnd, run]

/-! ## Compaction -/

/-- Where everything is kept there is nothing to settle. -/
theorem Cursor.settleAll_of_keepsAll {tag : Tag} (htag : tag ≠ .keep) (fuel : Nat) (c : Cursor)
    (h : KeepsAll c.toList) : c.settleAll a b tag fuel = c.toList := by
  induction fuel generalizing c with
  | zero => rfl
  | succ fuel ih =>
    have hedit : c.edit.tag ≠ tag := by
      have hkeep : c.edit.tag = .keep := h c.edit (by simp [toList])
      rw [hkeep]
      exact htag.symm
    rw [settleAll, if_neg hedit]
    split
    · rfl
    · next next after hafter =>
      have hsame : toList ⟨c.edit :: c.before, next, after⟩ = c.toList := by
        simp [toList, hafter]
      rw [ih _ (hsame ▸ h), hsame]

theorem settleTag_of_keepsAll {tag : Tag} (htag : tag ≠ .keep) {script : List Edit}
    (h : KeepsAll script) : settleTag a b tag script = script := by
  cases script with
  | nil => rfl
  | cons e after => exact Cursor.settleAll_of_keepsAll htag _ ⟨[], e, after⟩ h

theorem compact_of_keepsAll {script : List Edit} (h : KeepsAll script) :
    compact a b script = script := by
  rw [compact, settleTag_of_keepsAll (by decide) h, settleTag_of_keepsAll (by decide) h]

end Edit

namespace TextPatch

/-! ## The hunks of a script -/

theorem hunkOf_eq_nil_iff {a b : Array Char} {deletion insertion : Option Edit} :
    hunkOf a b deletion insertion = [] ↔ deletion = none ∧ insertion = none := by
  cases deletion <;> cases insertion <;> simp [hunkOf]

theorem join_ne_none (collected : Option Edit) (e : Edit) : join collected e ≠ none := by
  cases collected <;> simp [join]

/-- There are no hunks exactly if nothing was collected and the rest of the script keeps all. -/
theorem ofScriptFrom_eq_nil_iff {a b : Array Char} {deletion insertion : Option Edit}
    {script : List Edit} :
    ofScriptFrom a b deletion insertion script = [] ↔
      (deletion = none ∧ insertion = none) ∧ Edit.KeepsAll script := by
  induction script generalizing deletion insertion with
  | nil => simp [ofScriptFrom, hunkOf_eq_nil_iff, Edit.keepsAll_nil]
  | cons e rest ih =>
    rw [Edit.keepsAll_cons]
    cases htag : e.tag with
    | keep => simp [ofScriptFrom, htag, hunkOf_eq_nil_iff, ih]
    | delete => simp [ofScriptFrom, htag, ih, join_ne_none]
    | insert => simp [ofScriptFrom, htag, ih, join_ne_none]

/-- **The patch between two texts is empty exactly if they are equal.** -/
theorem diff_eq_nil_iff {a b : List Char} : diff a b = [] ↔ a = b := by
  rw [diff, ofScript, ofScriptFrom_eq_nil_iff]
  constructor
  · rintro ⟨-, hkeeps⟩
    obtain ⟨n, ha, hb, hsame⟩ :=
      (Edit.covers_compact (Edit.covers_script a.toArray b.toArray)).same_of_keepsAll hkeeps
    -- Both texts are as long as what is kept.
    have hlength : a.length = b.length := by simpa using ha.trans hb.symm
    refine List.ext_getElem? fun k => ?_
    by_cases hk : k < a.length
    · have hchar := hsame k (by rw [List.size_toArray] at ha; omega)
      simpa using hchar
    · rw [List.getElem?_eq_none (by omega), List.getElem?_eq_none (by omega)]
  · rintro rfl
    refine ⟨⟨rfl, rfl⟩, ?_⟩
    have hkeeps := Edit.keepsAll_run_keep 0 0 a.toArray.size
    rwa [Edit.script_self, Edit.compact_of_keepsAll hkeeps]

end TextPatch

end LiveDocs

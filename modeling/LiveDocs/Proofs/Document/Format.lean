import LiveDocs.Proofs.RecordSet
import LiveDocs.Document.Format

/-!
# Laws of the document formats

What the engine needs of a format: equality of contents is an equivalence, and contents that are
equal stay equal under a patch (`Format.Lawful`). Both formats have this. Plain text is always read
back from its text; a record set made by patches is if its records are legible.
-/

namespace LiveDocs.Format

variable {δ π : Type}

/-- Equality of contents is an equivalence that patches respect. -/
structure Lawful (f : Format δ π) : Prop where
  refl : ∀ a, f.eqv a a = true
  symm : ∀ {a b}, f.eqv a b = true → f.eqv b a = true
  trans : ∀ {a b c}, f.eqv a b = true → f.eqv b c = true → f.eqv a c = true
  apply_congr : ∀ {a b}, f.eqv a b = true → ∀ p, f.eqv (f.apply a p) (f.apply b p) = true

@[simp] theorem fold_nil (f : Format δ π) (base : δ) : f.fold base [] = base := rfl

theorem fold_append (f : Format δ π) (base : δ) (patches more : List π) :
    f.fold base (patches ++ more) = f.fold (f.fold base patches) more := List.foldl_append

theorem Lawful.fold_congr {f : Format δ π} (hf : f.Lawful) {a b : δ} (h : f.eqv a b = true)
    (patches : List π) : f.eqv (f.fold a patches) (f.fold b patches) = true := by
  induction patches generalizing a b with
  | nil => exact h
  | cons p patches ih => exact ih (hf.apply_congr h p)

theorem lawful_text : text.Lawful := by
  have heq : ∀ {a b : List Char}, text.eqv a b = true ↔ a = b := by simp [text]
  refine ⟨fun a => heq.mpr rfl, fun h => heq.mpr (heq.mp h).symm,
    fun h h' => heq.mpr ((heq.mp h).trans (heq.mp h')), fun h p => heq.mpr ?_⟩
  rw [heq.mp h]

theorem lawful_records (primaryKeys : List String) : (records primaryKeys).Lawful := by
  have heq : ∀ {a b : RecordSet}, (records primaryKeys).eqv a b = true ↔
      a.unsigned = b.unsigned := RecordSet.beq_iff
  exact ⟨fun a => heq.mpr rfl, fun h => heq.mpr (heq.mp h).symm,
    fun h h' => heq.mpr ((heq.mp h).trans (heq.mp h')),
    fun h p => heq.mpr (RecordSet.unsigned_apply_congr (heq.mp h) p)⟩

/-! ## Contents that are read back -/

theorem parse_render_text (content : List Char) :
    text.parse (text.render content) = .ok content := by
  simp [text]

/-- A record set that was made by patches is tidy. -/
theorem tidy_fold (primaryKeys : List String) (patches : List RecordPatch) :
    RecordSet.Tidy ((records primaryKeys).fold (records primaryKeys).empty patches) ∧
      RecordSet.primaryKeys ((records primaryKeys).fold (records primaryKeys).empty patches) =
        primaryKeys := by
  have hfold : ∀ d : RecordSet, d.Tidy → d.primaryKeys = primaryKeys →
      RecordSet.Tidy ((records primaryKeys).fold d patches) ∧
        RecordSet.primaryKeys ((records primaryKeys).fold d patches) = primaryKeys := by
    induction patches with
    | nil => exact fun d htidy hkeys => ⟨htidy, hkeys⟩
    | cons p patches ih =>
      intro d htidy hkeys
      exact ih (d.apply p) (htidy.apply p) ((RecordSet.primaryKeys_apply d p).trans hkeys)
  exact hfold _ (RecordSet.tidy_empty primaryKeys) rfl

theorem parse_render_records {primaryKeys : List String} {patches : List RecordPatch}
    {d : RecordSet} (hd : (records primaryKeys).fold (records primaryKeys).empty patches = d)
    (h : d.Legible) :
    (records primaryKeys).parse ((records primaryKeys).render d) = .ok d := by
  subst hd
  obtain ⟨htidy, hkeys⟩ := tidy_fold primaryKeys patches
  have hparse := RecordSet.parse_render htidy h
  rw [hkeys] at hparse
  exact hparse

end LiveDocs.Format

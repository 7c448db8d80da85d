import LiveDocs.Proofs.Record
import LiveDocs.Proofs.Json.Equality
import LiveDocs.Table

/-!
# Rows of a table

What replacing a row and merging fields into it do to the rows of a table. A row stays as it is if
it would only change the sign of a zero (`Table.get?_rows_replaceRow`), so up to these signs the row
is set in any case (`Table.get?_replaceRow`). All other rows stay.
-/

namespace LiveDocs

namespace Record

theorem unsigned_merge (r s : Record) : (r.merge s).unsigned = r.unsigned.merge s.unsigned := by
  refine SortedMap.ext_get? fun key => ?_
  rw [get?_unsigned, get?_merge, get?_merge, get?_unsigned, get?_unsigned]
  cases s.get? key <;> rfl

/-- A record with all fields of another replaces it. -/
theorem merge_eq_right {r s : Record}
    (h : ∀ field, (r.get? field).isSome → (s.get? field).isSome) : r.merge s = s := by
  refine SortedMap.ext_get? fun field => ?_
  rw [get?_merge]
  cases hs : s.get? field with
  | some value => rfl
  | none =>
    cases hr : r.get? field with
    | none => rfl
    | some value => simpa [hs, hr] using h field

end Record

namespace Table

theorem sameRow_iff {a b : Option Record} :
    sameRow a b = true ↔ a.map Record.unsigned = b.map Record.unsigned := by
  cases a <;> cases b <;> simp [sameRow, Record.beq_iff]

@[simp] theorem sameRow_refl (row : Option Record) : sameRow row row = true := sameRow_iff.mpr rfl

@[simp] theorem rows_announce (key : String) (result : Table × Bool) :
    (announce key result).1.rows = result.1.rows := by
  obtain ⟨t, changed⟩ := result
  cases changed <;> rfl

@[simp] theorem schema_announce (key : String) (result : Table × Bool) :
    (announce key result).1.schema = result.1.schema := by
  obtain ⟨t, changed⟩ := result
  cases changed <;> rfl

/-- Replacing a row sets it unless it is equal already, and leaves the others. -/
theorem get?_rows_replaceRow (t : Table) (key : String) (row : Option Record) (k : String) :
    (t.replaceRow key row).1.rows.get? k =
      if k = key ∧ sameRow (t.rows.get? key) row = false then row else t.rows.get? k := by
  unfold replaceRow
  cases hsame : sameRow (t.rows.get? key) row with
  | true => simp
  | false => cases row <;> simp

/-- Replacing a row sets it, up to the signs of zeros. -/
theorem get?_replaceRow (t : Table) (key : String) (row : Option Record) (k : String) :
    ((t.replaceRow key row).1.rows.get? k).map Record.unsigned =
      (if k = key then row else t.rows.get? k).map Record.unsigned := by
  rw [get?_rows_replaceRow]
  by_cases hk : k = key
  · subst hk
    cases hsame : sameRow (t.rows.get? k) row with
    | true => simpa using sameRow_iff.mp hsame
    | false => simp
  · simp [hk]

theorem get?_mergeRow (t : Table) (key : String) (fields : Record) (k : String) :
    ((t.mergeRow key fields).1.rows.get? k).map Record.unsigned =
      (if k = key then some (((t.rows.get? key).getD .empty).merge fields)
        else t.rows.get? k).map Record.unsigned := by
  unfold mergeRow
  split
  · next row hrow => rw [get?_replaceRow, hrow, Option.getD_some]
  · next hrow =>
    have hempty : Record.merge .empty fields = fields :=
      Record.merge_eq_right fun field hfield => by simp at hfield
    rw [get?_replaceRow, hrow, Option.getD_none, hempty]

@[simp] theorem schema_replaceRow (t : Table) (key : String) (row : Option Record) :
    (t.replaceRow key row).1.schema = t.schema := by
  unfold replaceRow
  split <;> rfl

@[simp] theorem schema_mergeRow (t : Table) (key : String) (fields : Record) :
    (t.mergeRow key fields).1.schema = t.schema := by
  unfold mergeRow
  split <;> simp

end Table

end LiveDocs

import LiveDocs.Proofs.SortedMap
import LiveDocs.Query.Basic
import Mathlib.Data.Fintype.EquivFin

/-!
# Queries that are read back

A get query travels as one template, in which filters and fields to return share the names of
fields. So it does not come back as it was: fields are sorted and named once, and a field that is
filtered on is not asked for any more. Whatever a query filters on stays, and it selects the same
rows (`Query.matchesRow_ofTemplate`).

It also returns the same of each row, with one exception (`Query.parse_toJson`). A query that asks
only for fields it filters on comes back as one that asks for none, and that means whole rows.

## Main results

* `Query.get?_template`: what a template shows of a field.
* `Query.filter_ofTemplate`, `Query.mem_fields_ofTemplate`: the query of the template of a query.
* `Query.parse_toJson`: the query that is read against the query that was built.
-/

namespace LiveDocs

namespace Query

/-! ## What a query returns -/

theorem get?_project (q : Query) (schema : Schema) (row : Record) (field : String) :
    (q.project schema row).get? field =
      if q.fields.isEmpty || q.fields.contains field || q.filter.contains field ||
        schema.primaryKey.contains field then row.get? field else none := by
  unfold project
  split
  · next h => simp [h]
  · next h =>
    rw [SortedMap.get?_filter]
    cases row.get? field <;> simp [h, Option.filter]

/-- Two queries with fields to return that ask for the same ones, filters included, return the
same. -/
theorem project_congr {q q' : Query} (hq : q.fields ≠ []) (hq' : q'.fields ≠ [])
    (h : ∀ field, field ∈ q'.fields ∨ q'.filter.contains field = true ↔
      field ∈ q.fields ∨ q.filter.contains field = true) (schema : Schema) (row : Record) :
    q'.project schema row = q.project schema row := by
  refine SortedMap.ext_get? fun field => ?_
  have hasked : (q'.fields.contains field || q'.filter.contains field) =
      (q.fields.contains field || q.filter.contains field) := by
    rw [Bool.eq_iff_iff]
    simpa using h field
  simp only [get?_project, List.isEmpty_eq_false_iff.mpr hq, List.isEmpty_eq_false_iff.mpr hq',
    Bool.false_or, hasked]

/-! ## Templates -/

/-- A template shows the value of a filter, and `null` for another field to return. -/
theorem get?_template (q : Query) (field : String) :
    q.template.get? field =
      (q.filter.get? field).or (if field ∈ q.fields then some .null else none) := by
  suffices h : ∀ (fields : List String) (t : Record),
      (fields.foldl (fun t f => if t.contains f then t else t.insert f .null) t).get? field =
        (t.get? field).or (if field ∈ fields then some .null else none) from h q.fields q.filter
  intro fields
  induction fields with
  | nil => simp
  | cons f fields ih =>
    intro t
    rw [List.foldl_cons, ih]
    cases hf : t.contains f with
    | true =>
      obtain ⟨value, hvalue⟩ := SortedMap.get?_of_contains hf
      by_cases hfield : field = f
      · simp [hfield, hvalue]
      · simp [hfield]
    | false =>
      have hnone : t.get? f = none := by simpa [SortedMap.contains] using hf
      by_cases hfield : field = f
      · simp [hfield, hnone]
      · simp [hfield]

theorem parse_toJson_eq (q : Query) :
    Statement.parse q.toJson = .ok (.get (.ofTemplate q.table q.template)) := by
  simp only [toJson, Statement.parse, Json.ofRecord, Statement.ofBody, SortedMap.ofList_entries]

/-- The fields that are read from a template are in order, each of them once. -/
theorem sorted_fields_ofTemplate (table : String) (template : Record) :
    (ofTemplate table template).fields.Pairwise (· < ·) :=
  List.pairwise_map.mpr (template.filter fun _ value => value.isNull).sorted

section Filters

variable {q : Query}
  (hfilter : ∀ field value, q.filter.get? field = some value → value.isNull = false)
include hfilter

theorem filter_ofTemplate (table : String) : (ofTemplate table q.template).filter = q.filter := by
  refine SortedMap.ext_get? fun field => ?_
  rw [ofTemplate, SortedMap.get?_filter, get?_template]
  cases hvalue : q.filter.get? field with
  | some value => simp [hfilter field value hvalue]
  | none => split <;> simp [Json.isNull]

/-- The fields that are read are those selected that are not filtered on. -/
theorem mem_fields_ofTemplate (table : String) {field : String} :
    field ∈ (ofTemplate table q.template).fields ↔
      field ∈ q.fields ∧ q.filter.contains field = false := by
  rw [ofTemplate, SortedMap.mem_keys_iff, SortedMap.contains, SortedMap.get?_filter, get?_template,
    SortedMap.contains]
  cases hvalue : q.filter.get? field with
  | some value => simp [hfilter field value hvalue]
  | none => by_cases hfield : field ∈ q.fields <;> simp [hfield, Json.isNull]

/-- The query that is read selects the same rows. -/
theorem matchesRow_ofTemplate (table : String) (row : Record) :
    (ofTemplate table q.template).matchesRow row = q.matchesRow row := by
  rw [matchesRow, filter_ofTemplate hfilter, matchesRow]

theorem fields_ofTemplate_eq_nil_iff (table : String) :
    (ofTemplate table q.template).fields = [] ↔
      ∀ field ∈ q.fields, q.filter.contains field = true := by
  simp only [List.eq_nil_iff_forall_not_mem, mem_fields_ofTemplate hfilter, not_and,
    Bool.not_eq_false]

/-- A query that asks for a field it does not filter on returns the same when it is read back. -/
theorem project_ofTemplate {field : String} (hfield : field ∈ q.fields)
    (hfree : q.filter.contains field = false) (table : String) (schema : Schema) (row : Record) :
    (ofTemplate table q.template).project schema row = q.project schema row := by
  refine project_congr (List.ne_nil_of_mem hfield)
    (List.ne_nil_of_mem ((mem_fields_ofTemplate hfilter table).mpr ⟨hfield, hfree⟩)) (fun f => ?_)
    schema row
  rw [mem_fields_ofTemplate hfilter, filter_ofTemplate hfilter]
  cases q.filter.contains f <;> simp

/-- A query that asks only for fields it filters on returns less of some row than it does when it is
read back. -/
theorem exists_project_ofTemplate_ne (hfields : q.fields ≠ [])
    (hshadowed : ∀ field ∈ q.fields, q.filter.contains field = true) (table : String) :
    ∃ schema row, (ofTemplate table q.template).project schema row ≠ q.project schema row := by
  -- A row with one field that is neither filtered on nor, without a key, part of the key.
  obtain ⟨extra, hextra⟩ := Infinite.exists_notMem_finset q.filter.keys.toFinset
  have hfree : q.filter.contains extra ≠ true := by
    rwa [List.mem_toFinset, SortedMap.mem_keys_iff] at hextra
  have hunasked : extra ∉ q.fields := fun hmem => hfree (hshadowed extra hmem)
  refine ⟨⟨table, []⟩, SortedMap.empty.insert extra .null, fun heq => ?_⟩
  have hget := congrArg (SortedMap.get? · extra) heq
  simp only [get?_project, (fields_ofTemplate_eq_nil_iff hfilter table).mpr hshadowed] at hget
  simp [hfields, hunasked, hfree] at hget

end Filters

/-- **The query that is read is the query that was built.** It has the same filters and asks for
the selected fields that are not filtered on, in order and each of them once. It selects the same
rows, and it returns the same of every row exactly if nothing was selected or some field was that is
not filtered on. -/
theorem parse_toJson (q : Query)
    (hfilter : ∀ field value, q.filter.get? field = some value → value.isNull = false) :
    ∃ q', Statement.parse q.toJson = .ok (.get q') ∧ q'.table = q.table ∧ q'.filter = q.filter ∧
      (∀ field, field ∈ q'.fields ↔ field ∈ q.fields ∧ q.filter.contains field = false) ∧
      q'.fields.Pairwise (· < ·) ∧ (∀ row, q'.matchesRow row = q.matchesRow row) ∧
      ((∀ schema row, q'.project schema row = q.project schema row) ↔
        q.fields = [] ∨ ∃ field ∈ q.fields, q.filter.contains field = false) := by
  refine ⟨.ofTemplate q.table q.template, q.parse_toJson_eq, rfl, filter_ofTemplate hfilter q.table,
    fun field => mem_fields_ofTemplate hfilter q.table, sorted_fields_ofTemplate q.table q.template,
    matchesRow_ofTemplate hfilter q.table, fun hsame => ?_, ?_⟩
  · by_contra hnot
    obtain ⟨hfields, hshadowed⟩ := not_or.mp hnot
    have hshadowed : ∀ field ∈ q.fields, q.filter.contains field = true := by simpa using hshadowed
    obtain ⟨schema, row, hne⟩ := exists_project_ofTemplate_ne hfilter hfields hshadowed q.table
    exact hne (hsame schema row)
  · rintro (hfields | ⟨field, hfield, hfree⟩) schema row
    · have hnone : (ofTemplate q.table q.template).fields = [] :=
        (fields_ofTemplate_eq_nil_iff hfilter q.table).mpr (by simp [hfields])
      simp [project, hfields, hnone]
    · exact project_ofTemplate hfilter hfield hfree q.table schema row

/-- A query with a field that is filtered on and selected, one that is selected twice, and
another. -/
def overlapping : Query :=
  (((all "files").select ["size", "name"]).withFilter "name" (.str "a")).select ["size", "owner"]

theorem parse_overlapping :
    (∀ field value, overlapping.filter.get? field = some value → value.isNull = false) ∧
      ∃ q', Statement.parse overlapping.toJson = .ok (.get q') ∧ q'.fields = ["owner", "size"] ∧
        ∀ schema row, q'.project schema row = overlapping.project schema row := by
  have hfilter : ∀ field value,
      overlapping.filter.get? field = some value → value.isNull = false := by
    intro field value h
    simp only [overlapping, select, withFilter, all, SortedMap.get?_insert,
      SortedMap.get?_empty] at h
    split at h
    · cases h
      rfl
    · cases h
  obtain ⟨q', hparse, -, -, -, -, -, hproject⟩ := parse_toJson overlapping hfilter
  have hread : q' = .ofTemplate overlapping.table overlapping.template := by
    simpa [parse_toJson_eq] using hparse.symm
  refine ⟨hfilter, q', hparse, ?_, hproject.mpr (.inr ⟨"size", by decide, by decide⟩)⟩
  rw [hread]
  decide +kernel

end Query

end LiveDocs

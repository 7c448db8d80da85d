import LiveDocs.Proofs.Record
import LiveDocs.Proofs.Json.Distinct
import LiveDocs.RecordSet
import LiveDocs.Schema

/-!
# What a key tells

A key is the text of an array of values. Different values have different texts, so a key tells all
of them: records with the same key have the same values in their key fields
(`Record.get?_eq_of_key?_eq`). Values are the same if they are written the same; `1` and `1.0`
differ, and so do the two zeros among the doubles.

Rows of tables and records of record sets have the same keys, which identify them
(`Schema.key?_eq_key?_iff`).
-/

namespace LiveDocs

namespace Record

/-- Records with the same key have the same key fields. -/
theorem get?_eq_of_key?_eq {fields : List String} {r s : Record} {key : String}
    (hr : r.key? fields = some key) (hs : s.key? fields = some key) :
    ∀ f ∈ fields, r.get? f = s.get? f := by
  obtain ⟨values, hvalues, hrender⟩ := Option.map_eq_some_iff.mp hr
  obtain ⟨values', hvalues', hrender'⟩ := Option.map_eq_some_iff.mp hs
  have hsame : Json.arr values = .arr values' := Json.render_injective (hrender.trans hrender'.symm)
  cases hsame
  have hmap : fields.map r.get? = fields.map s.get? := by
    rw [get?_of_keyValues? hvalues, get?_of_keyValues? hvalues']
  exact List.map_inj_left.mp hmap

/-- A record has a key exactly if it has all key fields, and none of them is `null`. -/
theorem isSome_key?_iff {fields : List String} {r : Record} :
    (r.key? fields).isSome = true ↔
      ∀ f ∈ fields, ∃ value, r.get? f = some value ∧ value.isNull = false := by
  constructor
  · intro h
    obtain ⟨key, hkey⟩ := Option.isSome_iff_exists.mp h
    exact exists_of_key? hkey
  · intro h
    rw [key?, Option.isSome_map, keyValues?]
    induction fields with
    | nil => rfl
    | cons f fields ih =>
      obtain ⟨⟨value, hvalue, hnull⟩, hfields⟩ := List.forall_mem_cons.mp h
      obtain ⟨values, hvalues⟩ := Option.isSome_iff_exists.mp (ih hfields)
      have hfirst : r.keyValue? f = some value := by
        rw [keyValue?, hvalue]
        cases value with
        | null => cases hnull
        | _ => rfl
      simp [List.mapM_cons, hfirst, hvalues]

/-- Of records that have keys, those with the same key fields have the same key. -/
theorem key?_eq_key?_iff_get? {fields : List String} {r s : Record}
    (hr : (r.key? fields).isSome = true) :
    r.key? fields = s.key? fields ↔ ∀ f ∈ fields, r.get? f = s.get? f := by
  obtain ⟨key, hkey⟩ := Option.isSome_iff_exists.mp hr
  constructor
  · intro hsame
    exact get?_eq_of_key?_eq hkey (hsame ▸ hkey)
  · exact key?_congr

end Record

namespace Schema

/-- **Keys identify rows.** A row has a key exactly if it has all key fields, and none of them is
`null`. Rows with keys have the same key exactly if they have the same values in all key fields, and
that is so exactly if these are written the same. Record sets with these key fields give records the
same keys. -/
theorem key?_eq_key?_iff (s : Schema) :
    (∀ r : Record, (s.key? r).isSome = true ↔
      ∀ f ∈ s.primaryKey, ∃ value, r.get? f = some value ∧ value.isNull = false) ∧
    (∀ r r' : Record, (s.key? r).isSome = true → (s.key? r').isSome = true →
      (s.key? r = s.key? r' ↔ ∀ f ∈ s.primaryKey, r.get? f = r'.get? f) ∧
      (s.key? r = s.key? r' ↔
        ∀ f ∈ s.primaryKey, (r.get? f).map Json.render = (r'.get? f).map Json.render)) ∧
    ∀ d : RecordSet, d.primaryKeys = s.primaryKey → ∀ r, d.key? r = s.key? r := by
  have hwritten : ∀ v v' : Option Json, v.map Json.render = v'.map Json.render ↔ v = v' := by
    intro v v'
    exact Option.map_inj_right fun _ _ => Json.render_injective
  refine ⟨fun r => Record.isSome_key?_iff, fun r r' hr _ => ?_, fun d hkeys r => ?_⟩
  · have hiff := Record.key?_eq_key?_iff_get? (s := r') hr
    refine ⟨hiff, hiff.trans ?_⟩
    simp only [hwritten]
  · rw [RecordSet.key?, hkeys, Schema.key?]

/-- Rows with two key fields. -/
def pairs : Schema := ⟨"pairs", ["first", "second"]⟩

/-- A row of two key values and a note. -/
def pairRow (first second note : Json) : Record :=
  .ofList [("first", first), ("second", second), ("note", note)]

/-- Keys do not depend on notes. Quotes and a comma in one key value do not make two values of it,
and the two zeros are different key values. -/
theorem key?_pairRow :
    pairs.key? (pairRow (.str "a\",\"b") (.str "c") (.str "old")) =
      pairs.key? (pairRow (.str "a\",\"b") (.str "c") .null) ∧
    pairs.key? (pairRow (.str "a\",\"b") (.str "c") .null) ≠
      pairs.key? (pairRow (.str "a") (.str "b\",\"c") .null) ∧
    pairs.key? (pairRow (.num (.double (.zero false))) (.ofNat 1) .null) ≠
      pairs.key? (pairRow (.num (.double (.zero true))) (.ofNat 1) .null) := by
  obtain ⟨-, hsame, -⟩ := key?_eq_key?_iff pairs
  refine ⟨(hsame _ _ (by decide +kernel) (by decide +kernel)).2.mpr (by decide +kernel), ?_, ?_⟩
  · intro h
    have hfirst := (hsame _ _ (by decide +kernel) (by decide +kernel)).2.mp h "first" (by decide)
    revert hfirst
    decide +kernel
  · intro h
    have hfirst := (hsame _ _ (by decide +kernel) (by decide +kernel)).2.mp h "first" (by decide)
    revert hfirst
    decide +kernel

end Schema

end LiveDocs

import LiveDocs.Proofs.Record.Keys
import LiveDocs.Proofs.RecordSet

/-!
# Record sets are well keyed

However a record set was made, each of its records stands under its own key, has all key fields, and
has no `null` field (`RecordSet.Reachable.tidy`). A key tells the key values, so no two records of a
set have the same ones, and a record keeps its key values as long as it stands under its key,
whatever is assigned to it (`RecordSet.Reachable.records_keyed`).
-/

namespace LiveDocs

namespace RecordSet

/-- Records under different keys differ in a key field. -/
theorem Tidy.pairwise_values {d : RecordSet} (h : d.Tidy) :
    d.records.values.Pairwise fun r s => ∃ f ∈ d.primaryKeys, r.get? f ≠ s.get? f := by
  refine List.pairwise_map.mpr (List.Pairwise.imp_of_mem ?_ d.records.sorted)
  intro e e' he he' hlt
  have hkey : e.2.key? d.primaryKeys = some e.1 := h.keyed (SortedMap.get?_eq_some_iff.mpr he)
  have hkey' : e'.2.key? d.primaryKeys = some e'.1 := h.keyed (SortedMap.get?_eq_some_iff.mpr he')
  by_contra hsame
  have hfields : ∀ f ∈ d.primaryKeys, e.2.get? f = e'.2.get? f := by
    intro f hf
    by_contra hne
    exact hsame ⟨f, hf, hne⟩
  rw [Record.key?_congr hfields, hkey'] at hkey
  exact OrderedKey.irrefl e.1 (Option.some.inj hkey ▸ hlt)

/-- **Record sets stay well keyed.** In a set that was made by reading texts, assigning fields,
deleting records and applying patches, in any order, every record stands under the key of its own
key fields, has all of them, and has no `null` field. Two records of the set differ in a key field.
Any two such sets have the same key values under the same key, so nothing that is done to a record
changes its key fields. -/
theorem Reachable.records_keyed {primaryKeys : List String} {d : RecordSet}
    (h : Reachable primaryKeys d) :
    d.primaryKeys = primaryKeys ∧
    (∀ key r, d.records.get? key = some r →
      r.key? primaryKeys = some key ∧
      (∀ f ∈ primaryKeys, ∃ value, r.get? f = some value ∧ value.isNull = false) ∧
      ∀ f value, r.get? f = some value → value.isNull = false) ∧
    (d.records.values.Pairwise fun r s => ∃ f ∈ primaryKeys, r.get? f ≠ s.get? f) ∧
    ∀ d', Reachable primaryKeys d' → ∀ key r r', d.records.get? key = some r →
      d'.records.get? key = some r' → ∀ f ∈ primaryKeys, r.get? f = r'.get? f := by
  obtain ⟨htidy, rfl⟩ := h.tidy
  refine ⟨rfl, ?_, htidy.pairwise_values, ?_⟩
  · intro key r hget
    have hkey := htidy.keyed hget
    exact ⟨hkey, Record.exists_of_key? hkey, fun f value => htidy.filled hget⟩
  · intro d' h' key r r' hget hget'
    obtain ⟨htidy', hkeys⟩ := h'.tidy
    have hkey' := htidy'.keyed hget'
    rw [RecordSet.key?, hkeys] at hkey'
    exact Record.get?_eq_of_key?_eq (htidy.keyed hget) hkey'

/-- Two lines for one record, and one for another. -/
def repeatedLines : String :=
  "\x7b\"id\":1,\"a\":1\x7d\n\x7b\"id\":1,\"a\":null,\"b\":2\x7d\n\x7b\"id\":2\x7d"

/-- A step without a key, one with `null` for its key, a repeated one that drops a field, the
removal of a record that is not there, one that is removed and made anew, and one of a key and a
`null`. -/
def carelessSteps : RecordPatch :=
  [.set (.ofList [("a", .ofNat 3)]), .set (.ofList [("id", .null), ("a", .ofNat 3)]),
    .set (.ofList [("b", .null), ("id", .ofNat 1)]),
    .set (.ofList [("b", .null), ("id", .ofNat 1)]),
    .remove (.ofList [("id", .str "1")]), .remove (.ofList [("id", .ofNat 2)]),
    .set (.ofList [("id", .ofNat 2), ("c", .arr [.null])]),
    .set (.ofList [("id", .ofNat 3), ("c", .null)])]

/-- Careless steps on a text, an assignment and a deletion leave two records, and these are well
keyed. -/
theorem records_keyed_carelessSteps :
    ∃ read d, parse ["id"] repeatedLines = .ok read ∧
      (read.apply carelessSteps).set (.ofList [("id", .ofNat 1), ("c", .ofNat 4)]) = .ok d ∧
      (d.delete (.ofList [("id", .ofNat 3)])).records.keys = ["[1]", "[2]"] ∧
      ∀ key r, (d.delete (.ofList [("id", .ofNat 3)])).records.get? key = some r →
        r.key? ["id"] = some key ∧
        (∀ f ∈ ["id"], ∃ value, r.get? f = some value ∧ value.isNull = false) ∧
        ∀ f value, r.get? f = some value → value.isNull = false := by
  have hrun : ((parse ["id"] repeatedLines).toOption.bind fun read =>
      ((read.apply carelessSteps).set
        (.ofList [("id", .ofNat 1), ("c", .ofNat 4)])).toOption.map fun d =>
          (d.delete (.ofList [("id", .ofNat 3)])).records.keys) = some ["[1]", "[2]"] := by
    decide +kernel
  obtain ⟨read, hread, hrest⟩ := Option.bind_eq_some_iff.mp hrun
  obtain ⟨d, hset, hkeys⟩ := Option.map_eq_some_iff.mp hrest
  have hread' := eq_ok_of_toOption hread
  have hset' := eq_ok_of_toOption hset
  have hd : Reachable ["id"] d := .set (.apply (.parse hread') carelessSteps) hset'
  exact ⟨read, d, hread', hset', hkeys, (hd.delete _).records_keyed.2.1⟩

end RecordSet

end LiveDocs

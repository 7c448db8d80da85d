import LiveDocs.Document.Descriptor
import LiveDocs.Proofs.Json.Legibility

/-!
# Descriptors that are read back

Reading a descriptor never fails, so a text that could not be understood would open a record set as
a text. That does not happen to a descriptor that was written (`Descriptor.resolve_render`): its
kind and its options are found again, in the text as in the object that the text holds. Its options
are one level further down in the text, so they may be nested one level less deeply than a text.

## Main results

* `Descriptor.ofRecord_toRecord`: a descriptor is found in its object.
* `Descriptor.legible_toRecord`, `Descriptor.depth_toRecord_le`: when the object can be read.
* `Descriptor.resolve_render`: a descriptor is found in its text.
-/

namespace LiveDocs

theorem Kind.ofName_name (kind : Kind) : ofName kind.name = .ok kind := by
  cases kind <;> rfl

namespace Descriptor

theorem get?_toRecord (d : Descriptor) (key : String) :
    d.toRecord.get? key =
      if key = "opts" ∧ d.options.isEmpty = false then some (.ofRecord d.options)
      else if key = "type" then some (.str d.kind.name) else none := by
  unfold toRecord
  cases hempty : d.options.isEmpty with
  | true => simp [SortedMap.ofList]
  | false => by_cases hkey : key = "opts" <;> simp [SortedMap.ofList, hkey]

/-- A descriptor is found in its object. -/
theorem ofRecord_toRecord (d : Descriptor) : ofRecord d.toRecord = d := by
  have hkind : d.toRecord.getStr? "type" = some d.kind.name := by
    simp [Record.getStr?, get?_toRecord, Json.str?]
  have hoptions :
      (((d.toRecord.get? "opts").bind Json.record?).getD .empty : Record) = d.options := by
    rw [get?_toRecord]
    cases hempty : d.options.isEmpty with
    | true =>
      have hentries : d.options.entries = [] := List.isEmpty_iff.mp hempty
      exact SortedMap.eq_of_entries hentries.symm
    | false => simp
  simp only [ofRecord, hkind, Option.map_some, Kind.ofName_name, hoptions]

/-- Every value in the object of a descriptor is a name or the options. -/
theorem eq_of_get?_toRecord {d : Descriptor} {key : String} {value : Json}
    (h : d.toRecord.get? key = some value) :
    value = .ofRecord d.options ∨ ∃ name, value = .str name := by
  rw [get?_toRecord] at h
  split at h
  · exact .inl (Option.some.inj h).symm
  · split at h
    · exact .inr ⟨_, (Option.some.inj h).symm⟩
    · cases h

theorem legible_toRecord {d : Descriptor} (h : (Json.ofRecord d.options).Legible) :
    (Json.ofRecord d.toRecord).Legible := by
  refine Record.legible_iff.mpr fun key value hget => ?_
  rcases eq_of_get?_toRecord hget with rfl | ⟨name, rfl⟩
  · exact h
  · exact ⟨trivial, trivial⟩

theorem depth_toRecord_le {d : Descriptor} {bound : Nat}
    (h : (Json.ofRecord d.options).depth ≤ bound) :
    (Json.ofRecord d.toRecord).depth ≤ bound + 1 := by
  refine Record.depth_le_iff.mpr fun key value hget => ?_
  rcases eq_of_get?_toRecord hget with rfl | ⟨name, rfl⟩
  · exact h
  · exact Nat.zero_le bound

theorem resolve_toRecord (d : Descriptor) : resolve (some (.ofRecord d.toRecord)) = d := by
  simp only [Json.ofRecord, resolve, SortedMap.ofList_entries, ofRecord_toRecord]

/-- **A descriptor is found in its text**, and in the object that the text holds. Its options are
those of a value from outside, thus canonical, nested at most 126 containers deep, and with doubles
that are read back. -/
theorem resolve_render (d : Descriptor) (hcanonical : (Json.ofRecord d.options).Canonical)
    (hdepth : (Json.ofRecord d.options).depth ≤ 126)
    (hdoubles : ∀ x ∈ (Json.ofRecord d.options).doubles, (Number.double x).ReadsBack) :
    resolve (some (.str d.render)) = d ∧
      Json.parse? d.render = some (.ofRecord d.toRecord) ∧
      resolve (some (.ofRecord d.toRecord)) = d := by
  have hlegible := legible_toRecord (Json.legible_of_doubles hcanonical hdoubles)
  have hshallow : (Json.ofRecord d.toRecord).depth ≤ Json.nestingLimit := depth_toRecord_le hdepth
  have hparse : Json.parse? d.render = some (.ofRecord d.toRecord) :=
    Json.parse?_render hlegible hshallow
  refine ⟨?_, hparse, d.resolve_toRecord⟩
  simp only [resolve, Record.parse?, hparse, Option.bind_some, Json.record?_ofRecord,
    Option.getD_some, ofRecord_toRecord]

def quarter : Double := ⟨0x3fd0000000000000, by decide⟩

/-- A record set with two key fields. One is named like a descriptor, and another option holds
one. -/
def awkward : Descriptor where
  kind := .records
  options := .ofList
    [("opts", .obj [("opts", .arr [.obj []]), ("type", .str "string")]),
      ("primary_keys", .arr [.str "\x7b\"type\":\"string\"\x7d", .str "line\n\"é\"\\"]),
      ("scale", .arr [.num (.double quarter), .num (.negative 0), .null])]

theorem resolve_awkward :
    (Json.ofRecord awkward.options).Canonical ∧ (Json.ofRecord awkward.options).depth = 4 ∧
      (Json.ofRecord awkward.options).doubles = [quarter] ∧
      resolve (some (.str awkward.render)) = awkward := by
  have hcanonical : (Json.ofRecord awkward.options).Canonical := by
    refine Record.canonical_ofList (by decide +kernel) ?_
    simp only [List.forall_mem_cons]
    refine ⟨⟨by decide +kernel, ?_⟩, ?_, ?_, by simp⟩ <;>
      simp [Json.Canonical, Json.CanonicalItems, Json.CanonicalFields]
  have hdepth : (Json.ofRecord awkward.options).depth = 4 := by decide +kernel
  have hdoubles : (Json.ofRecord awkward.options).doubles = [quarter] := by decide +kernel
  refine ⟨hcanonical, hdepth, hdoubles, (resolve_render awkward hcanonical (by omega) ?_).1⟩
  intro x hx
  rw [hdoubles, List.mem_singleton] at hx
  rw [hx]
  change Number.ofChars? _ = some _
  decide +kernel

end Descriptor

end LiveDocs

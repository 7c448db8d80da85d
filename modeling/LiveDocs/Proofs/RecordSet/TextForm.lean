import LiveDocs.Proofs.Json.Legibility
import LiveDocs.Proofs.Json.Reading
import LiveDocs.Proofs.RecordSet.Diff

/-!
# The text form of record sets

A record set is read back from its text form, however it was made: by reading another text,
assigning fields, deleting records and applying patches in any order
(`RecordSet.parse_render_of_built`). Its records must not be nested deeper than a text may be, and
its doubles must be read back; all other values are, and each line of the text is the line of one
record.

Records are made of the values that were given to the set, so what all those values have in common
all values of the set have in common (`RecordSet.AllValues`). Values come from outside as canonical
JSON. Those that were read from a text are canonical anyway and not nested too deeply, so for a set
that was read only the doubles matter: its text form is read as the same set, and printed as the
same text.

## Main definitions

* `RecordSet.Built`: the sets that can be made of canonical values.
* `RecordSet.doubles`: the doubles in a set.
* `RecordSet.AllValues`: a property of all values of a set.
-/

namespace LiveDocs

namespace RecordSet

/-! ## All values of a set -/

/-- Every value in the records of a set has a property. -/
def AllValues (P : Json → Prop) (d : RecordSet) : Prop :=
  ∀ key r, d.records.get? key = some r → ∀ f value, r.get? f = some value → P value

section AllValues

variable {P : Json → Prop} {d d' : RecordSet}

theorem allValues_empty (primaryKeys : List String) : (empty primaryKeys).AllValues P := by
  intro key r hget
  cases hget

/-- A set whose records another one has. -/
theorem AllValues.of_records (h : d.AllValues P)
    (hold : ∀ {key r}, d'.records.get? key = some r → d.records.get? key = some r) :
    d'.AllValues P := by
  intro key r hget
  exact h key r (hold hget)

/-- The values of a merged record are old ones or those that were assigned. -/
theorem AllValues.mergeAt (h : d.AllValues P) (key : String) {fields : Record}
    (hfields : ∀ f value, fields.get? f = some value → P value) :
    (d.mergeAt key fields).AllValues P := by
  intro k r hget f value hvalue
  simp only [RecordSet.mergeAt, SortedMap.get?_insert] at hget
  split at hget
  · cases hget
    rw [Record.get?_assign] at hvalue
    split at hvalue
    · cases hold : d.records.get? key with
      | none => simp [hold] at hvalue
      | some old => exact h key old hold f value (by simpa [hold] using hvalue)
    · next assigned hassigned =>
      split at hvalue
      · cases hvalue
      · cases hvalue
        exact hfields f value hassigned
  · exact h k r hget f value hvalue

theorem AllValues.set (h : d.AllValues P) {record : Record}
    (hrecord : ∀ f value, record.get? f = some value → P value)
    (hset : d.set record = .ok d') : d'.AllValues P := by
  unfold RecordSet.set at hset
  split at hset
  · cases hset
    exact h.mergeAt _ hrecord
  · cases hset

theorem AllValues.delete (h : d.AllValues P) (filter : Record) : (d.delete filter).AllValues P := by
  refine h.of_records ?_
  intro key r hget
  rw [RecordSet.delete, SortedMap.get?_filter] at hget
  exact (Option.filter_eq_some_iff.mp hget).1

theorem AllValues.step (h : d.AllValues P) {op : RecordOp}
    (hop : ∀ f value, op.operand.get? f = some value → P value) : (d.step op).AllValues P := by
  intro key r hget
  rw [get?_step] at hget
  split at hget
  · next hkey =>
    have hmerged := h.mergeAt key hop
    cases op with
    | set fields =>
      cases hget
      exact hmerged key _ (by simp [RecordSet.mergeAt, RecordOp.operand])
    | remove record => cases hget
  · exact h key r hget

theorem AllValues.apply (h : d.AllValues P) {patch : RecordPatch}
    (hpatch : ∀ op ∈ patch, ∀ f value, op.operand.get? f = some value → P value) :
    (d.apply patch).AllValues P := by
  unfold RecordSet.apply
  induction patch generalizing d with
  | nil => exact h
  | cons op patch ih =>
    obtain ⟨hop, hpatch⟩ := List.forall_mem_cons.mp hpatch
    exact ih (h.step hop) hpatch

/-- Values that were read are those that fit below a record. -/
theorem AllValues.readLines (hP : ∀ value, value.Fits Json.nestingLimit 1 → P value)
    (h : d.AllValues P) {number : Nat} {lines : List (List Char)}
    (hread : d.readLines number lines = .ok d') : d'.AllValues P := by
  induction lines generalizing d number with
  | nil =>
    cases hread
    exact h
  | cons line lines ih =>
    simp only [RecordSet.readLines] at hread
    split at hread
    · next next hline =>
      refine ih ?_ hread
      unfold readLine at hline
      split at hline
      · cases hline
        exact h
      · split at hline
        · cases hline
        · next record hparse =>
          split at hline
          · cases hline
          · cases hline
            refine h.mergeAt _ ?_
            intro f value hvalue
            exact hP value (Record.fits_of_get? (Record.fits_of_parse? hparse) hvalue)
    · cases hread

theorem allValues_of_parse (hP : ∀ value, value.Fits Json.nestingLimit 1 → P value)
    {primaryKeys : List String} {text : String} (hparse : parse primaryKeys text = .ok d) :
    d.AllValues P :=
  (allValues_empty primaryKeys).readLines hP hparse

end AllValues

/-! ## Sets that can be made -/

/-- The record sets with some key fields that can be made of canonical values: without records, read
from a text, or made from another one by assigning fields, deleting records or applying a patch. -/
inductive Built (primaryKeys : List String) : RecordSet → Prop where
  | empty : Built primaryKeys (.empty primaryKeys)
  | parse {text : String} {d : RecordSet} (hparse : RecordSet.parse primaryKeys text = .ok d) :
      Built primaryKeys d
  | set {d d' : RecordSet} {record : Record} (hd : Built primaryKeys d)
      (hrecord : (Json.ofRecord record).Canonical) (hset : d.set record = .ok d') :
      Built primaryKeys d'
  | delete {d : RecordSet} (hd : Built primaryKeys d) (filter : Record) :
      Built primaryKeys (d.delete filter)
  | apply {d : RecordSet} (hd : Built primaryKeys d) {patch : RecordPatch}
      (hpatch : ∀ op ∈ patch, (Json.ofRecord op.operand).Canonical) :
      Built primaryKeys (d.apply patch)

section Built

variable {primaryKeys : List String} {d : RecordSet}

theorem Built.reachable (h : Built primaryKeys d) : Reachable primaryKeys d := by
  induction h with
  | empty => exact .empty
  | parse hparse => exact .parse hparse
  | set _ _ hset ih => exact .set ih hset
  | delete _ filter ih => exact .delete ih filter
  | apply _ _ ih => exact .apply ih _

theorem Built.canonical (h : Built primaryKeys d) : d.AllValues Json.Canonical := by
  induction h with
  | empty => exact allValues_empty primaryKeys
  | parse hparse => exact allValues_of_parse (fun _ hfits => hfits.canonical) hparse
  | set _ hrecord hset ih => exact ih.set (Record.canonical_iff.mp hrecord) hset
  | delete _ filter ih => exact ih.delete filter
  | apply _ hpatch ih => exact ih.apply fun op hop => Record.canonical_iff.mp (hpatch op hop)

end Built

/-! ## The text of a set -/

def doubles (d : RecordSet) : List Double :=
  d.records.values.flatMap fun r => (Json.ofRecord r).doubles

/-- Every record is nested no deeper than a text may be. -/
def Shallow (d : RecordSet) : Prop :=
  ∀ r ∈ d.records.values, (Json.ofRecord r).depth ≤ Json.nestingLimit

instance (d : RecordSet) : Decidable d.Shallow :=
  inferInstanceAs (Decidable (∀ r ∈ d.records.values, (Json.ofRecord r).depth ≤ Json.nestingLimit))

/-- A set that was read is not nested too deeply. -/
theorem shallow_of_parse {primaryKeys : List String} {text : String} {d : RecordSet}
    (hparse : parse primaryKeys text = .ok d) : d.Shallow := by
  have hvalues : d.AllValues fun value => value.depth ≤ 126 := by
    refine allValues_of_parse ?_ hparse
    intro value hfits
    have hdepth : 1 + value.depth ≤ 127 := hfits.depth
    omega
  intro r hr
  obtain ⟨key, hget⟩ := SortedMap.mem_values_iff.mp hr
  exact Record.depth_le_iff.mpr (hvalues key r hget)

/-- A set of canonical values is legible if its doubles are read back. -/
theorem legible_of_canonical {d : RecordSet} (hcanonical : d.AllValues Json.Canonical)
    (hdoubles : ∀ x ∈ d.doubles, (Number.double x).ReadsBack) (hshallow : d.Shallow) :
    d.Legible := by
  intro key r hget
  have hr : r ∈ d.records.values := SortedMap.mem_values_iff.mpr ⟨key, hget⟩
  refine ⟨Json.legible_of_doubles (Record.canonical_iff.mpr (hcanonical key r hget)) ?_,
    hshallow r hr⟩
  intro x hx
  exact hdoubles x (List.mem_flatMap.mpr ⟨r, hr, hx⟩)

theorem Built.parse_render {primaryKeys : List String} {d : RecordSet} (h : Built primaryKeys d)
    (hdoubles : ∀ x ∈ d.doubles, (Number.double x).ReadsBack) (hshallow : d.Shallow) :
    RecordSet.parse primaryKeys d.render = .ok d := by
  obtain ⟨htidy, hkeys⟩ := h.reachable.tidy
  have hparse := RecordSet.parse_render htidy (legible_of_canonical h.canonical hdoubles hshallow)
  rwa [hkeys] at hparse

/-- **The text form of a record set is faithful.** Every set that can be made, with records nested
at most 127 containers deep and doubles that are read back, is read from its text form. So what is
printed of a set that was read stays the same when it is read and printed again. -/
theorem parse_render_of_built (primaryKeys : List String) :
    (∀ d, Built primaryKeys d → (∀ x ∈ d.doubles, (Number.double x).ReadsBack) → d.Shallow →
      parse primaryKeys d.render = .ok d) ∧
    ∀ text d, parse primaryKeys text = .ok d →
      (∀ x ∈ d.doubles, (Number.double x).ReadsBack) →
        (parse primaryKeys d.render).map render = .ok d.render := by
  refine ⟨fun d hbuilt hdoubles hshallow => hbuilt.parse_render hdoubles hshallow, ?_⟩
  intro text d hparse hdoubles
  rw [(Built.parse hparse).parse_render hdoubles (shallow_of_parse hparse)]
  rfl

def oneAndHalf : Double := ⟨0x3ff8000000000000, by decide⟩

/-- Two records. The key of the first is a text with a line feed and quotes, and a list in it has a
double. -/
def quotedSteps : RecordPatch :=
  [.set (.ofList
      [("id", .str "two\n\"lines\""), ("size", .arr [.num (.double oneAndHalf), .null])]),
    .set (.ofList [("id", .ofNat 7), ("note", .str "\r\té")])]

/-- Two lines in another order than that of their keys, with blanks in them and between them. -/
def scatteredLines : String :=
  " \x7b\"size\": 1.5, \"id\": 2\x7d\n\t\n\x7b\"id\" : 1\x7d\n"

/-- The two records are read back, and so is what was read of the two lines. -/
theorem parse_render_quotedSteps :
    Built ["id"] ((empty ["id"]).apply quotedSteps) ∧
      ((empty ["id"]).apply quotedSteps).doubles = [oneAndHalf] ∧
      parse ["id"] ((empty ["id"]).apply quotedSteps).render =
        .ok ((empty ["id"]).apply quotedSteps) ∧
      ∃ d, parse ["id"] scatteredLines = .ok d ∧ d.doubles = [oneAndHalf] ∧
        (parse ["id"] d.render).map render = .ok d.render := by
  have hhalf : ∀ x ∈ [oneAndHalf], (Number.double x).ReadsBack := by
    intro x hx
    rw [List.mem_singleton.mp hx]
    change Number.ofChars? _ = some _
    decide +kernel
  have hsteps : ∀ op ∈ quotedSteps, (Json.ofRecord op.operand).Canonical := by
    simp only [quotedSteps, List.forall_mem_cons, RecordOp.operand]
    refine ⟨Record.canonical_ofList (by decide +kernel) ?_,
      Record.canonical_ofList (by decide +kernel) ?_, by simp⟩
    · simp [Json.Canonical, Json.CanonicalItems]
    · simp [Json.Canonical, Json.ofNat, Json.ofUInt64]
  have hbuilt : Built ["id"] ((empty ["id"]).apply quotedSteps) := Built.empty.apply hsteps
  have hdoubles : ((empty ["id"]).apply quotedSteps).doubles = [oneAndHalf] := by decide +kernel
  have hread : (parse ["id"] scatteredLines).toOption.map doubles = some [oneAndHalf] := by
    decide +kernel
  obtain ⟨d, hok, hd⟩ := Option.map_eq_some_iff.mp hread
  have hparse : parse ["id"] scatteredLines = .ok d := eq_ok_of_toOption hok
  refine ⟨hbuilt, hdoubles, (parse_render_of_built ["id"]).1 _ hbuilt ?_ (by decide +kernel), d,
    hparse, hd, (parse_render_of_built ["id"]).2 _ d hparse ?_⟩
  · rw [hdoubles]
    exact hhalf
  · rw [hd]
    exact hhalf

end RecordSet

end LiveDocs

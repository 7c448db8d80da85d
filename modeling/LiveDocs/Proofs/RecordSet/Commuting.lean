import LiveDocs.Proofs.Record.Keys
import LiveDocs.Proofs.RecordSet.Diff

/-!
# Patches that commute

A step reads and writes one record only, so steps with different keys commute. Two assignments to
one record commute if they give no field different values (`Record.assign_comm`), and a key field is
never such a field: the two have the same key, which tells the values of its fields.

Patches are *separate* if neither touches a record that the other removes, and there is no field
beside the key fields that both assign, or drop, in one record (`RecordPatch.Separate`). Separate
patches commute, whatever the steps of one of them do to each other
(`RecordSet.apply_comm_of_separate`).

## Main definitions

* `RecordPatch.touchedKeys`, `RecordPatch.removedKeys`, `RecordPatch.writtenFields`: the records
  and fields that a patch changes.
* `RecordPatch.Separate`: patches that do not meet.
-/

namespace LiveDocs

namespace Record

/-- Assignments commute if they agree on the fields they share. -/
theorem assign_comm (r : Record) {a b : Record}
    (h : ∀ f, a.contains f = true → b.contains f = true → a.get? f = b.get? f) :
    (r.assign a).assign b = (r.assign b).assign a := by
  refine SortedMap.ext_get? fun f => ?_
  simp only [get?_assign]
  cases ha : a.get? f with
  | none => rfl
  | some value =>
    cases hb : b.get? f with
    | none => rfl
    | some value' =>
      have hsame := h f (SortedMap.contains_of_get? ha) (SortedMap.contains_of_get? hb)
      rw [ha, hb] at hsame
      cases hsame
      rfl

end Record

namespace RecordOp

/-- The key of the record that a step removes. -/
def removedKey? (primaryKeys : List String) : RecordOp → Option String
  | set _ => none
  | remove key => key.key? primaryKeys

/-- The fields beside the key fields that a step assigns or drops, each with the key of its
record. -/
def writtenFields (primaryKeys : List String) : RecordOp → List (String × String)
  | set record =>
    match record.key? primaryKeys with
    | some key => (record.keys.filter (· ∉ primaryKeys)).map fun f => (key, f)
    | none => []
  | remove _ => []

/-- What two steps do to a record they share does not depend on which one is made first. -/
def Commutes (primaryKeys : List String) (a b : RecordOp) : Prop :=
  ∀ key, a.operand.key? primaryKeys = some key → b.operand.key? primaryKeys = some key →
    ∀ r, b.effect (a.effect r) = a.effect (b.effect r)

end RecordOp

namespace RecordPatch

variable {primaryKeys : List String} {p q : RecordPatch}

/-- The keys of the records that a patch changes or removes. -/
def touchedKeys (primaryKeys : List String) (p : RecordPatch) : List String :=
  p.filterMap fun op => op.operand.key? primaryKeys

/-- The keys of the records that a patch removes. -/
def removedKeys (primaryKeys : List String) (p : RecordPatch) : List String :=
  p.filterMap fun op => op.removedKey? primaryKeys

/-- The fields beside the key fields that a patch assigns or drops, each with the key of its
record. -/
def writtenFields (primaryKeys : List String) (p : RecordPatch) : List (String × String) :=
  p.flatMap fun op => op.writtenFields primaryKeys

/-- Neither of two patches touches a record that the other removes, and they write different
fields. -/
structure Separate (primaryKeys : List String) (p q : RecordPatch) : Prop where
  removed_left : ∀ key ∈ p.removedKeys primaryKeys, key ∉ q.touchedKeys primaryKeys
  removed_right : ∀ key ∈ q.removedKeys primaryKeys, key ∉ p.touchedKeys primaryKeys
  written : ∀ field ∈ p.writtenFields primaryKeys, field ∉ q.writtenFields primaryKeys

theorem separate_iff : p.Separate primaryKeys q ↔
    (∀ key ∈ p.removedKeys primaryKeys, key ∉ q.touchedKeys primaryKeys) ∧
    (∀ key ∈ q.removedKeys primaryKeys, key ∉ p.touchedKeys primaryKeys) ∧
    ∀ field ∈ p.writtenFields primaryKeys, field ∉ q.writtenFields primaryKeys :=
  ⟨fun h => ⟨h.removed_left, h.removed_right, h.written⟩, fun h => ⟨h.1, h.2.1, h.2.2⟩⟩

instance : Decidable (p.Separate primaryKeys q) := decidable_of_iff _ separate_iff.symm

theorem mem_touchedKeys {op : RecordOp} (hop : op ∈ p) {key : String}
    (hkey : op.operand.key? primaryKeys = some key) : key ∈ p.touchedKeys primaryKeys :=
  List.mem_filterMap.mpr ⟨op, hop, hkey⟩

theorem mem_removedKeys {record : Record} (hop : RecordOp.remove record ∈ p) {key : String}
    (hkey : record.key? primaryKeys = some key) : key ∈ p.removedKeys primaryKeys :=
  List.mem_filterMap.mpr ⟨.remove record, hop, hkey⟩

theorem mem_writtenFields {record : Record} (hop : RecordOp.set record ∈ p) {key f : String}
    (hkey : record.key? primaryKeys = some key) (hf : record.contains f = true)
    (hfield : f ∉ primaryKeys) : (key, f) ∈ p.writtenFields primaryKeys := by
  refine List.mem_flatMap.mpr ⟨.set record, hop, ?_⟩
  simp only [RecordOp.writtenFields, hkey, List.mem_map, List.mem_filter, decide_eq_true_eq]
  exact ⟨f, ⟨SortedMap.mem_keys_iff.mpr hf, hfield⟩, rfl⟩

/-- Each step of a patch commutes with each step of a separate one. -/
theorem Separate.commutes (h : p.Separate primaryKeys q) {a b : RecordOp} (ha : a ∈ p)
    (hb : b ∈ q) : a.Commutes primaryKeys b := by
  intro key hkeya hkeyb r
  cases a with
  | remove record =>
    exact absurd (mem_touchedKeys hb hkeyb) (h.removed_left key (mem_removedKeys ha hkeya))
  | set fields =>
    cases b with
    | remove record =>
      exact absurd (mem_touchedKeys ha hkeya) (h.removed_right key (mem_removedKeys hb hkeyb))
    | set fields' =>
      have hagree : ∀ f, fields.contains f = true → fields'.contains f = true →
          fields.get? f = fields'.get? f := by
        intro f hf hf'
        by_cases hfield : f ∈ primaryKeys
        · exact Record.get?_eq_of_key?_eq hkeya hkeyb f hfield
        · exact absurd (mem_writtenFields hb hkeyb hf' hfield)
            (h.written (key, f) (mem_writtenFields ha hkeya hf hfield))
      exact congrArg some (Record.assign_comm _ hagree)

end RecordPatch

namespace RecordSet

theorem ext_get? {d e : RecordSet} (hkeys : d.primaryKeys = e.primaryKeys)
    (hrecords : ∀ key, d.records.get? key = e.records.get? key) : d = e := by
  cases d
  cases e
  cases hkeys
  exact congrArg (mk _) (SortedMap.ext_get? hrecords)

theorem step_comm {d : RecordSet} {a b : RecordOp} (h : a.Commutes d.primaryKeys b) :
    (d.step a).step b = (d.step b).step a := by
  refine ext_get? (by simp) fun key => ?_
  simp only [get?_step, key?_step]
  by_cases ha : d.key? a.operand = some key
  · by_cases hb : d.key? b.operand = some key
    · simp only [ha, hb, if_true]
      exact h key ha hb (d.records.get? key)
    · simp only [ha, hb, if_true, if_false]
  · simp only [ha, if_false]

/-- A step commutes with a patch if it commutes with each step of it. -/
theorem apply_step_comm {op : RecordOp} {q : RecordPatch} {d : RecordSet}
    (h : ∀ b ∈ q, op.Commutes d.primaryKeys b) :
    (d.step op).apply q = (d.apply q).step op := by
  induction q generalizing d with
  | nil => rfl
  | cons b q ih =>
    obtain ⟨hb, hq⟩ := List.forall_mem_cons.mp h
    rw [apply_cons, apply_cons, step_comm hb]
    exact ih (by simpa using hq)

/-- Patches commute if their steps do. -/
theorem apply_comm {p q : RecordPatch} {d : RecordSet}
    (h : ∀ a ∈ p, ∀ b ∈ q, a.Commutes d.primaryKeys b) :
    (d.apply p).apply q = (d.apply q).apply p := by
  induction p generalizing d with
  | nil => rfl
  | cons a p ih =>
    obtain ⟨ha, hp⟩ := List.forall_mem_cons.mp h
    rw [apply_cons, apply_cons, ← apply_step_comm ha]
    exact ih (by simpa using hp)

/-- **Separate patches commute.** If no record that one of two patches removes is touched by the
other, and no field beside the key fields is assigned or dropped by both in one record, then the
patches make the same of any record set, whichever is applied first. -/
theorem apply_comm_of_separate (d : RecordSet) {p q : RecordPatch}
    (h : p.Separate d.primaryKeys q) : (d.apply p).apply q = (d.apply q).apply p :=
  apply_comm fun _ ha _ hb => h.commutes ha hb

/-- Makes a record, changes and drops a field of it, and replaces another record. -/
def ownerSteps : RecordPatch :=
  [.set (.ofList [("id", .ofNat 1), ("owner", .str "a"), ("size", .ofNat 1)]),
    .set (.ofList [("id", .ofNat 1), ("owner", .str "b"), ("size", .null)]),
    .remove (.ofList [("id", .ofNat 2)]),
    .set (.ofList [("id", .ofNat 2), ("note", .str "new")])]

/-- Makes the same record with another field, drops a third one, and removes a record that is not
there. -/
def colorSteps : RecordPatch :=
  [.set (.ofList [("color", .str "red"), ("id", .ofNat 1)]), .set (.ofList [("note", .str "lost")]),
    .set (.ofList [("id", .ofNat 1), ("note", .null)]), .remove (.ofList [("id", .ofNat 3)])]

/-- A set with two records. -/
def notedRecords : RecordSet := (empty ["id"]).apply
  [.set (.ofList [("id", .ofNat 1), ("note", .str "old")]), .set (.ofList [("id", .ofNat 2)])]

/-- Both patches change the first record, and all their changes are made in either order. -/
theorem apply_comm_ownerSteps_colorSteps :
    ownerSteps.Separate notedRecords.primaryKeys colorSteps ∧
      (notedRecords.apply ownerSteps).apply colorSteps =
        (notedRecords.apply colorSteps).apply ownerSteps ∧
      ((notedRecords.apply ownerSteps).apply colorSteps).render =
        "\x7b\"color\":\"red\",\"id\":1,\"owner\":\"b\"\x7d\n" ++
          "\x7b\"id\":2,\"note\":\"new\"\x7d" := by
  have hseparate : ownerSteps.Separate notedRecords.primaryKeys colorSteps := by decide +kernel
  exact ⟨hseparate, apply_comm_of_separate notedRecords hseparate, by decide +kernel⟩

end RecordSet

end LiveDocs

import LiveDocs.Proofs.Record
import LiveDocs.Document.Row

/-!
# Patches and their rows

A patch is written as a list of hunks or of steps, each an object, and empty texts of a hunk are
left out. It is read from more forms than it is written in: the parts of a hunk or of a step may
stand in a list, and fields that have no meaning are skipped. What is written is read back, whatever
the patch is (`Format.text_patchesReadBack`, `Format.records_patchesReadBack`), so writing a patch
anew in place of the form it was read from changes nothing.

The row of a patch has its id, which is read back for all times and users, and its snapshot once
there is one (`PatchRow.faithful_formats`).

## Main definitions

* `Hunk.listForm`, `RecordOp.listForm`: the other forms of hunks and steps.
* `Format.PatchesReadBack`: patches are read as they were written.
* `PatchRow.Faithful`: what is read from the rows of patches.
-/

namespace LiveDocs

/-! ## Hunks -/

namespace Hunk

/-- The parts of a hunk as a list. -/
def listForm (h : Hunk) : Json :=
  .arr [.ofUInt64 h.start, .str (String.ofList h.delete), .str (String.ofList h.insert)]

@[simp] theorem text?_str (text : List Char) :
    text? (some (.str (String.ofList text))) = some text := by
  simp [text?, Json.str?]

/-- The parts of a written hunk; a text that was left out is read as empty. -/
theorem parts_toRecord (h : Hunk) :
    h.toRecord.getNatural? "start" = some h.start ∧
    text? (h.toRecord.get? "delete") = some h.delete ∧
    text? (h.toRecord.get? "insert") = some h.insert := by
  have hnone : text? none = some [] := rfl
  have hstart : (Json.ofUInt64 h.start).natural? = some h.start := rfl
  unfold toRecord Record.getNatural?
  by_cases hdelete : h.delete = [] <;> by_cases hinsert : h.insert = [] <;>
    simp [hnone, hstart, hdelete, hinsert]

/-- A written hunk is read back. -/
theorem ofJson?_toRecord (h : Hunk) : ofJson? (.ofRecord h.toRecord) = some h := by
  obtain ⟨hstart, hdelete, hinsert⟩ := parts_toRecord h
  simp [ofJson?, Json.ofRecord, hstart, hdelete, hinsert]

theorem ofJson?_listForm (h : Hunk) : ofJson? h.listForm = some h := by
  simp [ofJson?, listForm, Json.ofUInt64, Json.natural?]

end Hunk

/-! ## Steps -/

namespace RecordOp

/-- The name and the operand of a step as a list. -/
def listForm : RecordOp → Json
  | set record => .arr [.str "set", .ofRecord record]
  | remove key => .arr [.str "remove", .ofRecord key]

/-- A written step is read back. -/
theorem ofJson?_toJson (op : RecordOp) : ofJson? op.toJson = some op := by
  cases op <;>
    simp [toJson, ofJson?, ofParts?, Record.getStr?, SortedMap.ofList, Json.str?]

theorem ofJson?_listForm (op : RecordOp) : ofJson? op.listForm = some op := by
  cases op <;> simp [listForm, ofJson?, ofParts?]

end RecordOp

/-! ## Patches -/

namespace Format

/-- Patches are read as they were written. -/
def PatchesReadBack {δ π : Type} (f : Format δ π) : Prop :=
  ∀ patch, f.decode? (f.encode patch) = some patch

theorem text_patchesReadBack : text.PatchesReadBack :=
  fun patch => Json.mapM_map_eq_some Hunk.ofJson?_toRecord patch

theorem records_patchesReadBack (primaryKeys : List String) :
    (records primaryKeys).PatchesReadBack :=
  fun patch => Json.mapM_map_eq_some RecordOp.ofJson?_toJson patch

end Format

/-! ## Rows -/

namespace PatchRow

variable {δ π : Type}

/-- What is read from the rows of patches. -/
structure Faithful (f : Format δ π) : Prop where
  /-- The row of a patch has its id and the patch, and no snapshot. -/
  encoded : ∀ stringId id patch,
    decode? f (encode f stringId id patch) = some ⟨id, ⟨patch, none⟩⟩
  /-- A text that is put into the row is its snapshot. -/
  snapshot : ∀ stringId id patch text,
    decode? f ((encode f stringId id patch).insert "snapshot" (.str text)) =
      some ⟨id, ⟨patch, some text⟩⟩
  /-- So is one that is merged into it. -/
  merged : ∀ stringId id patch text,
    decode? f ((encode f stringId id patch).merge (encodeSnapshot stringId id text)) =
      some ⟨id, ⟨patch, some text⟩⟩
  /-- A payload that is read and written anew is read as before. -/
  payload : ∀ j patch, f.decode? j = some patch → f.decode? (f.encode patch) = some patch
  /-- So is a row in which the payload is written anew. -/
  rewritten : ∀ row incoming, decode? f row = some incoming →
    decode? f (row.insert "patch" (f.encode incoming.entry.patch)) = some incoming

/-- What is read from a row, field by field. -/
theorem decode?_eq_some_iff {f : Format δ π} {row : Record} {incoming : IncomingPatch π} :
    decode? f row = some incoming ↔
      row.getNatural? "time" = some incoming.id.time ∧ userOf? row = some incoming.id.user ∧
      (row.get? "patch").bind f.decode? = some incoming.entry.patch ∧
      row.getStr? "snapshot" = incoming.entry.snapshot := by
  obtain ⟨⟨time, user⟩, ⟨patch, snapshot⟩⟩ := incoming
  simp only [decode?, Option.bind_eq_bind, Option.bind_eq_some_iff]
  constructor
  · rintro ⟨_, htime, _, huser, j, hj, _, hpatch, heq⟩
    cases heq
    exact ⟨htime, huser, ⟨j, hj, hpatch⟩, rfl⟩
  · rintro ⟨htime, huser, ⟨j, hj, hpatch⟩, rfl⟩
    exact ⟨time, htime, user, huser, j, hj, patch, hpatch, rfl⟩

/-- A row with the id of a patch and its written form is read as that patch. -/
theorem decode?_of_fields {f : Format δ π} (hf : f.PatchesReadBack) {row : Record} {id : PatchId}
    {patch : π} {snapshot : Option String} (htime : row.get? "time" = some (.ofUInt64 id.time))
    (huser : row.get? "user_id" = some (.ofUInt64 id.user.toUInt64))
    (hpatch : row.get? "patch" = some (f.encode patch))
    (hsnapshot : row.get? "snapshot" = snapshot.map Json.str) :
    decode? f row = some ⟨id, ⟨patch, snapshot⟩⟩ := by
  have hnatural : ∀ n, (Json.ofUInt64 n).natural? = some n := fun _ => rfl
  have hsmall : id.user.toNat < 0x100000000 := id.user.toNat_lt
  refine decode?_eq_some_iff.mpr ⟨?_, ?_, ?_, ?_⟩
  · simp [Record.getNatural?, htime, hnatural]
  · simp [userOf?, Record.getNatural?, huser, hnatural, hsmall]
  · simp [hpatch, hf patch]
  · cases snapshot <;> simp [Record.getStr?, hsnapshot, Json.str?]

theorem get?_encode (f : Format δ π) (stringId : String) (id : PatchId) (patch : π) :
    (encode f stringId id patch).get? "time" = some (.ofUInt64 id.time) ∧
    (encode f stringId id patch).get? "user_id" = some (.ofUInt64 id.user.toUInt64) ∧
    (encode f stringId id patch).get? "patch" = some (f.encode patch) ∧
    (encode f stringId id patch).get? "snapshot" = none := by
  simp [encode, keyFields, SortedMap.ofList]

theorem get?_encodeSnapshot (stringId : String) (id : PatchId) (text : String) :
    (encodeSnapshot stringId id text).get? "time" = some (.ofUInt64 id.time) ∧
    (encodeSnapshot stringId id text).get? "user_id" = some (.ofUInt64 id.user.toUInt64) ∧
    (encodeSnapshot stringId id text).get? "patch" = none ∧
    (encodeSnapshot stringId id text).get? "snapshot" = some (.str text) := by
  simp [encodeSnapshot, keyFields, SortedMap.ofList]

/-- The rows of a format are faithful if its patches are read back. -/
theorem Faithful.of_patchesReadBack {f : Format δ π} (hf : f.PatchesReadBack) : Faithful f where
  encoded stringId id patch := by
    obtain ⟨htime, huser, hpatch, hsnapshot⟩ := get?_encode f stringId id patch
    exact decode?_of_fields hf htime huser hpatch hsnapshot
  snapshot stringId id patch text := by
    obtain ⟨htime, huser, hpatch, -⟩ := get?_encode f stringId id patch
    refine decode?_of_fields hf ?_ ?_ ?_ ?_
    all_goals simp [htime, huser, hpatch]
  merged stringId id patch text := by
    obtain ⟨-, -, hpatch, -⟩ := get?_encode f stringId id patch
    obtain ⟨htime, huser, hnone, hsnapshot⟩ := get?_encodeSnapshot stringId id text
    refine decode?_of_fields hf ?_ ?_ ?_ ?_
    all_goals simp [htime, huser, hpatch, hnone, hsnapshot]
  payload j patch _ := hf patch
  rewritten row incoming h := by
    obtain ⟨htime, huser, hpatch, hsnapshot⟩ := decode?_eq_some_iff.mp h
    refine decode?_eq_some_iff.mpr ⟨?_, ?_, ?_, ?_⟩
    · simpa [Record.getNatural?] using htime
    · simpa [userOf?, Record.getNatural?] using huser
    · simp [hf incoming.entry.patch]
    · simpa [Record.getStr?] using hsnapshot

/-- **Rows of patches are faithful**, for texts and for record sets with any key fields: the row of
a patch is read as that patch under its id, without a snapshot or with the one that was added to it,
and a payload that can be read is read as the same patch after it is written anew. The list form of
a patch is such a payload. -/
theorem faithful_formats :
    (Faithful Format.text ∧ ∀ patch : TextPatch,
      Format.text.decode? (.arr (patch.map Hunk.listForm)) = some patch) ∧
    ∀ primaryKeys, Faithful (Format.records primaryKeys) ∧ ∀ patch : RecordPatch,
      (Format.records primaryKeys).decode? (.arr (patch.map RecordOp.listForm)) = some patch := by
  refine ⟨⟨.of_patchesReadBack Format.text_patchesReadBack, fun patch => ?_⟩, fun primaryKeys =>
    ⟨.of_patchesReadBack (Format.records_patchesReadBack primaryKeys), fun patch => ?_⟩⟩
  · exact Json.mapM_map_eq_some Hunk.ofJson?_listForm patch
  · exact Json.mapM_map_eq_some RecordOp.ofJson?_listForm patch

/-- Three hunks: a list of a position only, an object with a field that has no meaning, and a list
of all parts. -/
def mixedPayload : Json :=
  .arr [.arr [.ofUInt64 0xffffffffffffffff],
    .obj [("delete", .str "a\n"), ("note", .null), ("start", .ofNat 0)],
    .arr [.ofNat 1, .str "", .str "é"]]

/-- The hunks of that payload. -/
def mixedHunks : TextPatch :=
  [⟨0xffffffffffffffff, [], []⟩, ⟨0, ['a', '\n'], []⟩, ⟨1, [], ['é']⟩]

/-- The payload is read and written anew, and put into a row with the greatest id and a
snapshot. -/
theorem faithful_mixedHunks :
    Format.text.decode? mixedPayload = some mixedHunks ∧
    Format.text.decode? (Format.text.encode mixedHunks) = some mixedHunks ∧
    decode? Format.text ((encode Format.text "s" ⟨0xffffffffffffffff, 0xffffffff⟩ mixedHunks).insert
      "snapshot" (.str "")) = some ⟨⟨0xffffffffffffffff, 0xffffffff⟩, ⟨mixedHunks, some ""⟩⟩ := by
  have hread : Format.text.decode? mixedPayload = some mixedHunks := by decide +kernel
  obtain ⟨⟨hfaithful, -⟩, -⟩ := faithful_formats
  exact ⟨hread, hfaithful.payload _ _ hread, hfaithful.snapshot "s" _ mixedHunks ""⟩

end PatchRow

end LiveDocs

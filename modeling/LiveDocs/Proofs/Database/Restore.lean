import LiveDocs.Proofs.Record.Keys
import LiveDocs.Proofs.Journal.Encoding
import LiveDocs.Database.Basic

/-!
# Restoring tables from journal entries

One entry of a journal, read back and applied to tables, makes the change that it records. For the
entry of a row or of a deletion that is the change of one table; a snapshot makes the tables it was
taken of, whatever rows the tables had before, as long as they are the same tables.

This needs tables whose rows stand under their own keys, in tables under their own names
(`Database.Sound`), and rows that their text preserves. A snapshot puts two containers around every
row, so rows may be nested in at most 125 containers, two less than a text allows
(`Record.Storable`).

## Main definitions

* `Record.Storable`, `Database.Sound`: rows that can be restored, and tables of them.
* `Database.cleared`: tables without their rows.

## Main results

* `Database.restoreEntry_upsert`, `Database.restoreEntry_delete`, `Database.restoreEntry_snapshot`:
  what one entry does to tables.
-/

namespace LiveDocs

namespace Record

/-- A row that can be read back from a snapshot. -/
structure Storable (r : Record) : Prop where
  legible : (Json.ofRecord r).Legible
  shallow : (Json.ofRecord r).depth ≤ 125

theorem storable_empty : Storable (SortedMap.empty : Record) :=
  ⟨legible_iff.mpr (by simp), depth_le_iff.mpr (by simp)⟩

theorem Storable.merge {r s : Record} (hr : r.Storable) (hs : s.Storable) :
    (r.merge s).Storable := by
  -- Every field of the merged record comes from one of the two.
  have hfield : ∀ key value, (r.merge s).get? key = some value →
      s.get? key = some value ∨ r.get? key = some value := by
    intro key value h
    rw [get?_merge] at h
    cases hs : s.get? key with
    | none => exact .inr (by simpa [hs] using h)
    | some v => exact .inl (by simpa [hs] using h)
  refine ⟨legible_iff.mpr fun key value h => ?_, depth_le_iff.mpr fun key value h => ?_⟩
  · rcases hfield key value h with h | h
    · exact legible_iff.mp hs.legible key value h
    · exact legible_iff.mp hr.legible key value h
  · rcases hfield key value h with h | h
    · exact depth_le_iff.mp hs.shallow key value h
    · exact depth_le_iff.mp hr.shallow key value h

/-- The key fields of a record that has the key of a storable row are storable. -/
theorem Storable.keyFields {fields : List String} {row key : Record} {text : String}
    (hrow : row.Storable) (hrowKey : row.key? fields = some text)
    (hkeyKey : key.key? fields = some text) :
    (key.keyFields fields).Storable := by
  have hsame := get?_eq_of_key?_eq hkeyKey hrowKey
  have hfield : ∀ f value, (key.keyFields fields).get? f = some value →
      row.get? f = some value := by
    intro f value h
    rw [get?_keyFields] at h
    split at h
    · next hf => rw [← hsame f hf]; exact h
    · cases h
  exact ⟨legible_iff.mpr fun f value h => legible_iff.mp hrow.legible f value (hfield f value h),
    depth_le_iff.mpr fun f value h => depth_le_iff.mp hrow.shallow f value (hfield f value h)⟩

end Record

namespace JournalEntry

/-- The row in the payload of an entry is read back. -/
theorem record_make (kind : EntryKind) {row : Record} (h : row.Storable) (sequence : UInt64)
    (table : String) :
    (make sequence kind table (Bytes.ofText row.render)).record = .ok row := by
  have hshallow := h.shallow
  have hparse := Record.parse?_render h.legible (by simp only [Json.nestingLimit]; omega)
  simp [record, make, hparse]

theorem dumpOfJson?_dumpJson (dump : TableDump) : dumpOfJson? (dumpJson dump) = some dump := by
  have hsorted : (dump.entries.map fun e => (e.1, Json.arr (e.2.map Json.ofRecord))).Pairwise
      (fun a b => a.1 < b.1) := List.pairwise_map.mpr dump.sorted
  have hentries : ∀ entries : List (String × List Record),
      (entries.map fun e => (e.1, Json.arr (e.2.map Json.ofRecord))).mapM
        (fun e => e.2.items?.bind fun rows =>
          (rows.mapM Json.record?).bind fun rows => some (e.1, rows)) = some entries := by
    intro entries
    induction entries with
    | nil => rfl
    | cons e entries ih =>
      rw [List.map_cons, List.mapM_cons, ih]
      simp only [Json.items?, Option.bind_some, Json.mapM_map_eq_some Json.record?_ofRecord]
      rfl
  simp only [dumpOfJson?, dumpJson, Json.record?, Option.bind_eq_bind, Option.bind_some]
  rw [SortedMap.ofList_of_sorted hsorted]
  rw [hentries dump.entries, Option.bind_some, SortedMap.ofList_entries]

/-- Two containers stand around every row of a snapshot. -/
theorem legible_dumpJson {dump : TableDump}
    (h : ∀ e ∈ dump.entries, ∀ row ∈ e.2, row.Storable) :
    (dumpJson dump).Legible ∧ (dumpJson dump).depth ≤ Json.nestingLimit := by
  constructor
  · refine Json.legible_obj_iff.mpr ⟨List.pairwise_map.mpr dump.sorted, fun p hp => ?_⟩
    obtain ⟨e, he, rfl⟩ := List.mem_map.mp hp
    refine Json.legible_arr_iff.mpr fun j hj => ?_
    obtain ⟨row, hrow, rfl⟩ := List.mem_map.mp hj
    exact (h e he row hrow).legible
  · have hfields : Json.depthFields
        (dump.entries.map fun e => (e.1, Json.arr (e.2.map Json.ofRecord))) ≤ 126 := by
      refine Json.depthFields_le_iff.mpr fun p hp => ?_
      obtain ⟨e, he, rfl⟩ := List.mem_map.mp hp
      refine Nat.succ_le_succ (Json.depthItems_le_iff.mpr fun j hj => ?_)
      obtain ⟨row, hrow, rfl⟩ := List.mem_map.mp hj
      exact (h e he row hrow).shallow
    exact Nat.succ_le_succ hfields

/-- The tables of a snapshot are read back. -/
theorem tables_snapshot {compress : Bytes → Bytes} {dump : TableDump}
    (h : ∀ e ∈ dump.entries, ∀ row ∈ e.2, row.Storable)
    (hread : Block.ReadBack compress (dumpBytes dump)) (sequence : UInt64) :
    (snapshot compress sequence dump).tables = .ok dump := by
  obtain ⟨hlegible, hdepth⟩ := legible_dumpJson h
  have hraw : Block.decompress? (compress (dumpBytes dump)) = some (dumpBytes dump) := hread
  have htext : Bytes.text? (dumpBytes dump) = some (dumpJson dump).render := Bytes.text?_ofText _
  simp [tables, snapshot, make, hraw, htext, Json.parse?_render hlegible hdepth,
    dumpOfJson?_dumpJson]

end JournalEntry

namespace Database

/-- The tables of a database. -/
abbrev Tables := SortedMap String StoredTable

/-- Every table stands under its name and every row under its key, and all rows are storable. -/
structure Sound (tables : Tables) : Prop where
  named : ∀ {name t}, tables.get? name = some t → t.schema.name = name
  keyed : ∀ {name t}, tables.get? name = some t →
    ∀ {key row}, t.rows.get? key = some row → t.schema.key? row = some key
  storable : ∀ {name t}, tables.get? name = some t →
    ∀ {key row}, t.rows.get? key = some row → row.Storable

/-- The same tables without their rows. -/
def cleared (tables : Tables) : Tables := tables.map fun _ t => { t with rows := .empty }

@[simp] theorem get?_cleared (tables : Tables) (name : String) :
    (cleared tables).get? name = (tables.get? name).map fun t => { t with rows := .empty } := by
  simp [cleared]

/-- Changing the rows of a table leaves the tables the same. -/
theorem cleared_insert {tables : Tables} {name : String} {t : StoredTable} {rows : Rows}
    (h : tables.get? name = some t) :
    cleared (tables.insert name { t with rows }) = cleared tables := by
  refine SortedMap.ext_get? fun n => ?_
  by_cases hn : n = name
  · subst hn
    simp [h]
  · simp [hn]

/-- New tables stand under their names and have no rows. -/
theorem get?_empty {schemas : List Schema} {name : String} {t : StoredTable}
    (h : (empty schemas).tables.get? name = some t) : t.schema.name = name ∧ t.rows = .empty := by
  have hfold : ∀ (m : Tables), (∀ n u, m.get? n = some u → u.schema.name = n ∧ u.rows = .empty) →
      ∀ n u, ((schemas.map fun s => (s.name, (⟨s, .empty⟩ : StoredTable))).foldl
        (fun m p => m.insert p.1 p.2) m).get? n = some u → u.schema.name = n ∧ u.rows = .empty := by
    clear h
    induction schemas with
    | nil => exact fun m hm => hm
    | cons s schemas ih =>
      refine fun m hm => ih _ fun n u hu => ?_
      rw [SortedMap.get?_insert] at hu
      split at hu
      · next hn =>
        cases hu
        exact ⟨hn.symm, rfl⟩
      · exact hm n u hu
  exact hfold .empty (by simp) name t h

theorem cleared_empty (schemas : List Schema) :
    cleared (empty schemas).tables = (empty schemas).tables := by
  refine SortedMap.ext_get? fun name => ?_
  rw [get?_cleared]
  cases ht : (empty schemas).tables.get? name with
  | none => rfl
  | some t => rw [Option.map_some, ← (get?_empty ht).2]

theorem sound_empty (schemas : List Schema) : Sound (empty schemas).tables where
  named ht := (get?_empty ht).1
  keyed ht _ _ hrow := by simp [(get?_empty ht).2] at hrow
  storable ht _ _ hrow := by simp [(get?_empty ht).2] at hrow

/-- A sound change of one row of a table. -/
theorem Sound.insert {tables : Tables} (hs : Sound tables) {name : String} {t : StoredTable}
    (h : tables.get? name = some t) {rows : Rows}
    (hrows : ∀ {key row}, rows.get? key = some row →
      t.schema.key? row = some key ∧ row.Storable) :
    Sound (tables.insert name { t with rows }) := by
  -- A table is the changed one or one of the others.
  have hcases : ∀ {n u}, (tables.insert name { t with rows }).get? n = some u →
      (n = name ∧ u = { t with rows }) ∨ tables.get? n = some u := by
    intro n u hu
    rw [SortedMap.get?_insert] at hu
    split at hu
    · next hn => exact .inl ⟨hn, (Option.some.inj hu).symm⟩
    · exact .inr hu
  refine ⟨fun hu => ?_, fun hu key row hrow => ?_, fun hu key row hrow => ?_⟩
  · rcases hcases hu with ⟨rfl, rfl⟩ | hu
    · exact hs.named (t := t) h
    · exact hs.named hu
  · rcases hcases hu with ⟨rfl, rfl⟩ | hu
    · exact (hrows hrow).1
    · exact hs.keyed hu hrow
  · rcases hcases hu with ⟨rfl, rfl⟩ | hu
    · exact (hrows hrow).2
    · exact hs.storable hu hrow

/-! ## One entry -/

theorem restoreEntry_upsert {tables : Tables} {table key : String} {t : StoredTable} {row : Record}
    (ht : tables.get? table = some t) (hkey : t.schema.key? row = some key) (hrow : row.Storable)
    (sequence : UInt64) :
    restoreEntry tables (.upsert sequence table row) =
      .ok (tables.insert table { t with rows := t.rows.insert key row }) := by
  have hrecord := JournalEntry.record_make .upsert hrow sequence table
  simp only [restoreEntry, JournalEntry.upsert, hrecord]
  simp [JournalEntry.make, restoreRows, ht, hkey]

theorem restoreEntry_delete {tables : Tables} {table text : String} {t : StoredTable} {key : Record}
    (ht : tables.get? table = some t) (hkey : t.schema.key? key = some text)
    (hstorable : key.Storable) (sequence : UInt64) :
    restoreEntry tables (.delete sequence table key) =
      .ok (tables.insert table { t with rows := t.rows.erase text }) := by
  have hrecord := JournalEntry.record_make .delete hstorable sequence table
  simp only [restoreEntry, JournalEntry.delete, hrecord]
  simp [JournalEntry.make, restoreDelete, ht, hkey]

/-- Rows that stand under their keys are put back one by one. -/
theorem foldl_insert_keyed {schema : Schema} {entries : List (String × Record)}
    (h : ∀ e ∈ entries, schema.key? e.2 = some e.1) (rows : Rows) :
    (entries.map Prod.snd).foldl (fun m row => match schema.key? row with
      | some key => m.insert key row
      | none => m) rows = entries.foldl (fun m e => m.insert e.1 e.2) rows := by
  induction entries generalizing rows with
  | nil => rfl
  | cons e entries ih =>
    obtain ⟨he, hentries⟩ := List.forall_mem_cons.mp h
    simp only [List.map_cons, List.foldl_cons, he]
    exact ih hentries _

/-- The rows of a table with more rows put into it. -/
def withRows (t : StoredTable) (rows : List Record) : StoredTable :=
  { t with
    rows := rows.foldl (fun m row => match t.schema.key? row with
      | some key => m.insert key row
      | none => m) t.rows }

theorem get?_restoreRows (tables : Tables) (name : String) (rows : List Record) :
    (restoreRows tables name rows).get? name = (tables.get? name).map fun t => withRows t rows := by
  unfold restoreRows
  split
  · next h => simp [h]
  · next t h =>
    rw [h, SortedMap.get?_insert, if_pos rfl]
    rfl

theorem get?_restoreRows_of_ne (tables : Tables) {name other : String} (rows : List Record)
    (h : other ≠ name) : (restoreRows tables name rows).get? other = tables.get? other := by
  unfold restoreRows
  split
  · rfl
  · simp [h]

/-- The rows of several tables are put back table by table. -/
theorem get?_foldl_restoreRows (tables : Tables) {dump : List (String × List Record)}
    (h : dump.Pairwise fun a b => a.1 < b.1) (name : String) :
    (dump.foldl (fun tables d => restoreRows tables d.1 d.2) tables).get? name =
      match SortedMap.find name dump with
      | none => tables.get? name
      | some rows => (tables.get? name).map fun t => withRows t rows := by
  induction dump generalizing tables with
  | nil => rfl
  | cons d dump ih =>
    obtain ⟨n, rows⟩ := d
    obtain ⟨hhead, htail⟩ := List.pairwise_cons.mp h
    rw [List.foldl_cons, ih _ htail]
    by_cases hn : name = n
    · subst hn
      have hnone : SortedMap.find name dump = none :=
        SortedMap.find_eq_none fun q hq e => OrderedKey.irrefl name (e ▸ hhead q hq)
      simp [SortedMap.find, hnone, get?_restoreRows]
    · simp only [SortedMap.find, hn, if_false]
      cases SortedMap.find name dump with
      | none => exact get?_restoreRows_of_ne tables rows hn
      | some rows' => rw [get?_restoreRows_of_ne tables rows hn]

/-- A snapshot of sound tables makes them again from tables without rows. -/
theorem foldl_restoreRows_dump {tables : Tables} (hs : Sound tables) :
    (tables.map fun _ t => t.rows.values).entries.foldl
      (fun tables d => restoreRows tables d.1 d.2) (cleared tables) = tables := by
  refine SortedMap.ext_get? fun name => ?_
  rw [get?_foldl_restoreRows _ (SortedMap.sorted _)]
  have hfind : SortedMap.find name (tables.map fun _ t => t.rows.values).entries =
      (tables.get? name).map fun t => t.rows.values := SortedMap.get?_map tables _ name
  rw [hfind]
  cases ht : tables.get? name with
  | none => simp [ht]
  | some t =>
    have hkeyed : ∀ e ∈ t.rows.entries, t.schema.key? e.2 = some e.1 := fun e he =>
      hs.keyed ht (SortedMap.get?_eq_some_iff.mpr he)
    have hrows := foldl_insert_keyed hkeyed .empty
    have hback : t.rows.entries.foldl (fun m e => m.insert e.1 e.2) (.empty : Rows) = t.rows :=
      SortedMap.ofList_entries t.rows
    rw [hback] at hrows
    simp [withRows, ht, SortedMap.values, hrows]

theorem restoreEntry_snapshot {before tables : Tables} (hs : Sound tables)
    (hlayout : cleared before = cleared tables) {compress : Bytes → Bytes} {sequence : UInt64}
    (hread : Block.ReadBack compress
      (JournalEntry.dumpBytes (tables.map fun _ t => t.rows.values))) :
    restoreEntry before (.snapshot compress sequence (tables.map fun _ t => t.rows.values)) =
      .ok tables := by
  have hstorable : ∀ e ∈ (tables.map fun _ t => t.rows.values).entries, ∀ row ∈ e.2,
      row.Storable := by
    intro e he row hrow
    obtain ⟨e', he', rfl⟩ := List.mem_map.mp he
    obtain ⟨p, hp, rfl⟩ := List.mem_map.mp hrow
    exact hs.storable (SortedMap.get?_eq_some_iff.mpr he') (SortedMap.get?_eq_some_iff.mpr hp)
  have htables := JournalEntry.tables_snapshot hstorable hread sequence
  have hkind : (JournalEntry.snapshot compress sequence
      (tables.map fun _ t => t.rows.values)).kind = .snapshot := rfl
  have hfold := foldl_restoreRows_dump hs
  rw [← hlayout] at hfold
  simp only [restoreEntry, hkind, htables]
  exact congrArg Except.ok hfold

end Database

end LiveDocs

import LiveDocs.Proofs.Document.PatchRows
import LiveDocs.Proofs.Document.Withdrawal
import LiveDocs.Proofs.Record.Keys

/-!
# Snapshots of a document that nobody else changes

A replica is *honest* if its content is what all its patches make of the empty document, and every
snapshot in its history is the text of the patches up to it (`Replica.Honest`). Patches of its own,
snapshots of its own and rows that hold nothing but these leave it so.

A row of patches is *owned* by a document if it names a patch that the document knows, and the
snapshot in it, if there is one, is the text of the document after that patch (`Document.Owns`).
What is cut out of an owned row is owned, and so is what two rows with one key are merged to. To
take in owned rows adds no patch (`Document.Continues`).

## Main definitions

* `History.uncovered`: the patches that are newer than all snapshots.
* `History.textAt`: the text of the content after a patch.
* `Replica.Honest`: the content and the snapshots are those of the patches.
* `Document.Owns`: what a row may say of a document.
* `Document.Continues`: a document without new patches.

## Main results

* `History.sinceSnapshot_eq`: what is counted is the patches that are newer than all snapshots.
* `Document.continues_ingestRows`: owned rows add no patch and only true snapshots.
* `Document.beginCommit_spec`: a commit adds one newest patch, and its row is owned.
-/

namespace LiveDocs

variable {δ π : Type}

namespace History

/-! ## Patches newer than all snapshots -/

/-- The patches that are newer than all snapshots. -/
def uncovered (h : History π) : List PatchId :=
  h.ids.filter fun id => h.ids.all fun id' => (h.snapshot? id').isNone || decide (id' < id)

theorem mem_ids_of_get? {h : History π} {id : PatchId} {e : HistoryEntry π}
    (he : h.get? id = some e) : id ∈ h.ids :=
  SortedMap.mem_keys_iff.mpr (SortedMap.contains_of_get? he)

theorem mem_ids_of_snapshot? {h : History π} {id : PatchId} {text : String}
    (htext : h.snapshot? id = some text) : id ∈ h.ids := by
  obtain ⟨e, he, -⟩ := Option.bind_eq_some_iff.mp htext
  exact mem_ids_of_get? he

theorem isNewer_iff {h : History π} {id : PatchId} :
    (h.ids.all fun id' => (h.snapshot? id').isNone || decide (id' < id)) = true ↔
      ∀ id' text, h.snapshot? id' = some text → id' < id := by
  rw [List.all_eq_true]
  constructor
  · intro hall id' text htext
    simpa [htext] using hall id' (mem_ids_of_snapshot? htext)
  · intro hall id' _
    cases htext : h.snapshot? id' with
    | none => rfl
    | some text => simpa using hall id' text htext

theorem ids_eq (h : History π) : h.ids = h.patches.keys := by
  simp [ids, patches, SortedMap.keys, SortedMap.map, Function.comp_def]

/-- What is counted is the patches that are newer than all snapshots. -/
theorem sinceSnapshot_eq (h : History π) : h.sinceSnapshot = h.uncovered.length := by
  have hmem : ∀ {id text}, h.snapshot? id = some text →
      ∃ e, (id, e) ∈ h.entries.entries ∧ e.snapshot = some text := by
    intro id text htext
    obtain ⟨e, he, hsnapshot⟩ := Option.bind_eq_some_iff.mp htext
    exact ⟨e, SortedMap.get?_eq_some_iff.mp he, hsnapshot⟩
  rcases splitAtSnapshot_cases h.entries.entries with
    ⟨hnone, hall⟩ | ⟨front, id, entry, text, rest, hsome, hl, htext, hrest⟩
  · have hself : h.uncovered = h.ids := by
      refine List.filter_eq_self.mpr fun id _ => isNewer_iff.mpr fun id' text htext => ?_
      obtain ⟨e, he, hsnapshot⟩ := hmem htext
      cases hsnapshot.symm.trans (hall _ he)
    rw [sinceSnapshot_eq_size hnone, hself]
    simp [size, SortedMap.size, ids, SortedMap.keys]
  · have hsorted := h.entries.sorted
    rw [hl] at hsorted
    have hget : h.get? id = some entry := SortedMap.get?_eq_some_iff.mpr (by rw [hl]; simp)
    -- Newer than all snapshots is what stands behind the last one.
    have hnewer : ∀ id', (h.ids.all fun id'' => (h.snapshot? id'').isNone || decide (id'' < id')) =
        decide (id < id') := by
      intro id'
      rw [Bool.eq_iff_iff, isNewer_iff, decide_eq_true_eq]
      refine ⟨fun hall => hall id text (by simp [snapshot?, hget, htext]), ?_⟩
      intro hlt id'' text'' htext''
      obtain ⟨e, he, hsnapshot⟩ := hmem htext''
      rw [hl, List.mem_append, List.mem_cons] at he
      rcases he with he | he | he
      · have hlater := (List.pairwise_append.mp hsorted).2.2 _ he (id, entry) (by simp)
        exact OrderedKey.trans hlater hlt
      · cases he
        exact hlt
      · cases hsnapshot.symm.trans (hrest _ he)
    have hbehind : h.uncovered = rest.map Prod.fst := by
      simp only [uncovered, hnewer]
      rw [ids, SortedMap.keys, List.filter_map, hl]
      exact congrArg (List.map Prod.fst) (filter_lt_of_sorted hsorted)
    rw [sinceSnapshot_eq_length hsome, hbehind, List.length_map]

/-- More snapshots leave fewer patches behind the last one. -/
theorem sinceSnapshot_le {h h' : History π} (hids : h'.ids = h.ids) (hextends : h.Extends h') :
    h'.sinceSnapshot ≤ h.sinceSnapshot := by
  rw [sinceSnapshot_eq, sinceSnapshot_eq, uncovered, uncovered, ← List.countP_eq_length_filter,
    ← List.countP_eq_length_filter, hids]
  refine List.countP_mono_left fun id _ hnewer => isNewer_iff.mpr fun id' text htext => ?_
  rw [← hids] at hnewer
  exact isNewer_iff.mp hnewer id' text (hextends.snapshots htext)

/-- A patch without a snapshot adds none. -/
theorem snapshot?_insert_none (h : History π) (id : PatchId) (patch : π) (id' : PatchId) :
    (h.insert id ⟨patch, none⟩).snapshot? id' = h.snapshot? id' := by
  rw [snapshot?_insert]
  split
  · next hsame => rw [hsame, Option.or_none]
  · rfl

section Newest

variable {h : History π} {id : PatchId} (hid : Replica.isNewest h id = true) (patch : π)
include hid

theorem patches_insert_newest :
    (h.insert id ⟨patch, none⟩).patches.entries = h.patches.entries ++ [(id, patch)] := by
  rw [patches_insert_of_none (Replica.get?_of_isNewest hid)]
  exact SortedMap.entries_insert_of_lt _ patch (Replica.isNewest_iff.mp hid)

/-- A patch that is newer than all others goes behind them. -/
theorem ids_insert_newest : (h.insert id ⟨patch, none⟩).ids = h.ids ++ [id] := by
  rw [ids_eq, ids_eq, SortedMap.keys, patches_insert_newest hid, List.map_append]
  rfl

theorem lt_of_mem_ids {id' : PatchId} (hid' : id' ∈ h.ids) : id' < id := by
  rw [ids_eq] at hid'
  obtain ⟨e, he, rfl⟩ := List.mem_map.mp hid'
  exact Replica.isNewest_iff.mp hid e he

/-- A new patch without a snapshot is one more. -/
theorem sinceSnapshot_insert_newest :
    (h.insert id ⟨patch, none⟩).sinceSnapshot = h.sinceSnapshot + 1 := by
  have hnewer (id' : PatchId) :
      ((h.insert id ⟨patch, none⟩).ids.all fun id'' =>
        ((h.insert id ⟨patch, none⟩).snapshot? id'').isNone || decide (id'' < id')) =
      h.ids.all fun id'' => (h.snapshot? id'').isNone || decide (id'' < id') := by
    rw [Bool.eq_iff_iff, isNewer_iff, isNewer_iff]
    simp only [snapshot?_insert_none]
  have hself : (h.ids.all fun id'' => (h.snapshot? id'').isNone || decide (id'' < id)) = true :=
    isNewer_iff.mpr fun id'' text htext => lt_of_mem_ids hid (mem_ids_of_snapshot? htext)
  have huncovered : (h.insert id ⟨patch, none⟩).uncovered = h.uncovered ++ [id] := by
    rw [uncovered]
    simp only [hnewer]
    rw [ids_insert_newest hid, List.filter_append, List.filter_cons, if_pos hself]
    rfl
  rw [sinceSnapshot_eq, sinceSnapshot_eq, huncovered, List.length_append]
  rfl

end Newest

theorem not_latest_lt {h : History π} {id id' : PatchId} (hlatest : h.latest? = some id)
    (hid' : id' ∈ h.ids) : ¬ id < id' := by
  intro hlt
  have hnewest : Replica.isNewest h id' = true := by simp [Replica.isNewest, hlatest, hlt]
  exact OrderedKey.irrefl id' (lt_of_mem_ids hnewest hid')

theorem mem_ids_of_latest? {h : History π} {id : PatchId} (hlatest : h.latest? = some id) :
    id ∈ h.ids := by
  obtain ⟨e, he, rfl⟩ := Option.map_eq_some_iff.mp hlatest
  exact List.mem_map_of_mem (List.mem_of_getLast? he)

/-- A snapshot of the newest patch leaves no patch behind it. -/
theorem sinceSnapshot_eq_zero {h : History π} {id : PatchId} {text : String}
    (hlatest : h.latest? = some id) (htext : h.snapshot? id = some text) : h.sinceSnapshot = 0 := by
  rw [sinceSnapshot_eq, List.length_eq_zero_iff, uncovered, List.filter_eq_nil_iff]
  intro id' hid' hnewer
  exact not_latest_lt hlatest hid' (isNewer_iff.mp hnewer id text htext)

/-! ## Texts of a history -/

/-- The text of the content after a patch. -/
def textAt (f : Format δ π) (h : History π) (id : PatchId) : String :=
  f.render (f.fold f.empty (patchesOf (h.upTo (some id))))

theorem patchesOf_upTo (h : History π) (bound : Option PatchId) :
    patchesOf (h.upTo bound) =
      (h.patches.entries.takeWhile fun e => within bound e.1).map Prod.snd := by
  simp [patchesOf, upTo, patches, SortedMap.map, List.takeWhile_map, Function.comp_def]

/-- Texts depend on patches only. -/
theorem textAt_congr {h h' : History π} (hpatches : h'.patches = h.patches) (f : Format δ π) :
    h'.textAt f = h.textAt f := by
  funext id
  rw [textAt, textAt, patchesOf_upTo, patchesOf_upTo, hpatches]

/-- A new patch does not change the texts before it. -/
theorem textAt_insert_newest {h : History π} {id id' : PatchId}
    (hid : Replica.isNewest h id = true) (hid' : id' ∈ h.ids) (patch : π) (f : Format δ π) :
    (h.insert id ⟨patch, none⟩).textAt f id' = h.textAt f id' := by
  have hout : within (some id') id = false := by
    simpa [within, PatchId.le_iff] using lt_of_mem_ids hid hid'
  have htake : (h.patches.entries ++ [(id, patch)]).takeWhile (fun e => within (some id') e.1) =
      h.patches.entries.takeWhile fun e => within (some id') e.1 := by
    rw [List.takeWhile_append]
    split
    · next hall => rw [List.takeWhile_cons_of_neg (by simpa using hout), List.append_nil,
        List.IsPrefix.eq_of_length (List.takeWhile_prefix _) hall]
    · rfl
  rw [textAt, textAt, patchesOf_upTo, patchesOf_upTo, patches_insert_newest hid, htake]

/-- The text after the newest patch is that of the whole history. -/
theorem textAt_latest {h : History π} {id : PatchId} (hlatest : h.latest? = some id)
    (f : Format δ π) : h.textAt f id = f.render (h.replay f none) := by
  have hall : h.upTo (some id) = h.upTo none := by
    rw [upTo_none]
    refine List.takeWhile_eq_self_iff.mpr fun e he => ?_
    have hin : e.1 ∈ h.ids := List.mem_map_of_mem he
    simpa [within, PatchId.le_iff] using not_latest_lt hlatest hin
  rw [textAt, hall]
  rfl

/-- At most one snapshot is added, and none is replaced. -/
theorem snapshot?_setSnapshot {h : History π} {id id' : PatchId} {text text' : String}
    (h' : (h.setSnapshot id text).snapshot? id' = some text') :
    h.snapshot? id' = some text' ∨ id' = id ∧ text' = text := by
  rw [snapshot?, get?_setSnapshot] at h'
  split at h'
  · next hsame =>
    subst hsame
    obtain ⟨e, he, hsnapshot⟩ := Option.bind_eq_some_iff.mp h'
    obtain ⟨old, hold, rfl⟩ := Option.map_eq_some_iff.mp he
    cases hown : old.snapshot with
    | none =>
      rw [hown] at hsnapshot
      exact .inr ⟨rfl, by simpa using hsnapshot.symm⟩
    | some text'' =>
      rw [hown] at hsnapshot
      exact .inl (by simpa [snapshot?, hold, hown] using hsnapshot)
  · exact .inl h'

/-- A patch that is there has a snapshot once one was set. -/
theorem exists_snapshot?_setSnapshot {h : History π} {id : PatchId} (hid : id ∈ h.ids)
    (text : String) : ∃ text', (h.setSnapshot id text).snapshot? id = some text' := by
  obtain ⟨old, hold⟩ := SortedMap.get?_of_contains (SortedMap.mem_keys_iff.mp hid)
  have hget : h.get? id = some old := hold
  refine ⟨old.snapshot.getD text, ?_⟩
  rw [snapshot?, get?_setSnapshot, if_pos rfl, hget]
  cases hold' : old.snapshot <;> simp [hold']

end History

/-! ## Honest replicas -/

namespace Replica

/-- The content is what all patches make of the empty document, and every snapshot is the text of
the patches up to it. -/
structure Honest (f : Format δ π) (r : Replica δ π) : Prop where
  live : r.live = r.history.replay f none
  faithful : r.history.Faithful f

theorem honest_empty (f : Format δ π) : (empty f).Honest f := ⟨rfl, fun _ _ h => by cases h⟩

namespace Honest

variable {f : Format δ π} {r r' : Replica δ π}

theorem snapshot (h : r.Honest f) {id : PatchId} {text : String}
    (htext : r.history.snapshot? id = some text) : text = r.history.textAt f id :=
  h.faithful id text htext

/-- The same patches with true snapshots. -/
theorem of_patches (h : r.Honest f) (hlive : r'.live = r.live)
    (hpatches : r'.history.patches = r.history.patches)
    (hsnapshots : ∀ id text, r'.history.snapshot? id = some text → text = r.history.textAt f id) :
    r'.Honest f where
  live := by rw [hlive, h.live, History.replay_none, History.replay_none, hpatches]
  faithful := by
    intro id text htext
    have hsame := congrFun (History.textAt_congr hpatches f) id
    exact (hsnapshots id text htext).trans hsame.symm

/-- A newest patch. -/
theorem commit (h : r.Honest f) {id : PatchId} (hid : isNewest r.history id = true) (patch : π) :
    (r.commit f id patch).Honest f where
  live := by
    have hvalues : (r.history.insert id ⟨patch, none⟩).patches.values =
        r.history.patches.values ++ [patch] := by
      rw [SortedMap.values, SortedMap.values, History.patches_insert_newest hid, List.map_append]
      rfl
    simp only [Replica.commit, h.live, History.replay_none, hvalues, Format.fold_append]
    rfl
  faithful := by
    intro id' text htext
    simp only [Replica.commit, History.snapshot?_insert_none] at htext
    have hknown := History.mem_ids_of_snapshot? htext
    exact (h.snapshot htext).trans (History.textAt_insert_newest hid hknown patch f).symm

/-- A snapshot may be noted if it is the text after its patch. -/
theorem recordSnapshot (h : r.Honest f) {id : PatchId} {text : String}
    (htext : text = r.history.textAt f id) : (r.recordSnapshot id text).Honest f := by
  refine h.of_patches rfl (History.patches_setSnapshot _ _ _) fun id' text' htext' => ?_
  rcases History.snapshot?_setSnapshot htext' with hold | ⟨rfl, rfl⟩
  · exact h.snapshot hold
  · exact htext

end Honest

/-- A batch says nothing new: its patches are known, and its snapshots are true. -/
def Repeats (f : Format δ π) (r : Replica δ π) (batch : List (IncomingPatch π)) : Prop :=
  ∀ p ∈ batch, p.id ∈ r.history.ids ∧
    ∀ text, p.entry.snapshot = some text → text = r.history.textAt f p.id

section Repeats

variable {f : Format δ π} {r : Replica δ π} {batch : List (IncomingPatch π)}
  (hbatch : r.Repeats f batch)
include hbatch

theorem newPatches_of_repeats : newPatches r.history (sortById batch) = [] := by
  refine List.eq_nil_iff_forall_not_mem.mpr fun p hp => ?_
  obtain ⟨hmem, hnew⟩ := mem_newPatches hp
  obtain ⟨q, hq⟩ := mem_ids_iff.mp (hbatch p (mem_sortById.mp hmem)).1
  simp [hnew] at hq

/-- Rows of known patches add no patch, whatever else is in them. -/
theorem patches_ingest_of_repeats : (r.ingest f batch).1.history.patches = r.history.patches := by
  rw [ingest_history, patches_insertAll, newPatches_of_repeats hbatch]
  rfl

theorem Honest.ingest (h : r.Honest f) : (r.ingest f batch).1.Honest f := by
  have hlive : (r.ingest f batch).1.live = r.live := by
    simp [Replica.ingest, newPatches_of_repeats hbatch]
  refine h.of_patches hlive (patches_ingest_of_repeats hbatch) fun id text htext => ?_
  rw [ingest_history, snapshot?_insertAll] at htext
  rcases Option.or_eq_some_iff.mp htext with hold | ⟨-, hnew⟩
  · exact h.snapshot hold
  · obtain ⟨p, hp, hfound⟩ := List.exists_of_findSome?_eq_some hnew
    split at hfound
    · next hid =>
      subst hid
      exact (hbatch p (mem_sortById.mp hp)).2 text hfound
    · cases hfound

end Repeats

end Replica

namespace Document

/-! ## Rows of a document -/

def textAt (d : Document) (id : PatchId) : String := d.replica.history.textAt d.format id

/-- The content and the snapshots are those of the patches. -/
def Honest (d : Document) : Prop := d.replica.Honest d.format

/-- A row that says nothing but what a document knows. If it names a patch, the document has it, and
the snapshot in the row is the text after that patch. -/
def Owns (d : Document) (row : Record) : Prop :=
  ∀ id : PatchId, row.getNatural? "time" = some id.time → PatchRow.userOf? row = some id.user →
    id ∈ d.versions ∧ ∀ text, row.getStr? "snapshot" = some text → text = d.textAt id

/-- A document that was just made has no patches. -/
theorem honest_new (kind : Kind) (o : DocumentOptions) (stringId : String) (client : ClientId)
    (strings patches : TableId) : (new kind o stringId client strings patches).Honest :=
  Replica.honest_empty _

variable {d d' d'' : Document} {row row' : Record}

/-- A row without a time names no patch. -/
theorem owns_of_timeless (d : Document) (h : row.get? "time" = none) : d.Owns row := by
  intro id htime
  simp [Record.getNatural?, h] at htime

/-- What is cut out of an owned row is owned. -/
theorem Owns.part (h : d.Owns row)
    (hpart : ∀ field value, row'.get? field = some value → row.get? field = some value) :
    d.Owns row' := by
  have hread {α : Type} {read : Json → Option α} {field : String} {x : α}
      (hx : (row'.get? field).bind read = some x) : (row.get? field).bind read = some x := by
    obtain ⟨value, hvalue, hread⟩ := Option.bind_eq_some_iff.mp hx
    rw [hpart field value hvalue, Option.bind_some, hread]
  intro id htime huser
  obtain ⟨hknown, htrue⟩ := h id (hread htime) <| by
    obtain ⟨n, hn, hsmall⟩ := Option.bind_eq_some_iff.mp huser
    rw [PatchRow.userOf?, Record.getNatural?, hread hn, Option.bind_some, hsmall]
  exact ⟨hknown, fun text htext => htrue text (hread htext)⟩

/-- Owned rows of one patch are merged to an owned row. -/
theorem Owns.merge (h : d.Owns row) (h' : d.Owns row') {key : String}
    (hkey : Schema.patches.key? row = some key) (hkey' : Schema.patches.key? row' = some key) :
    d.Owns (row.merge row') := by
  have hsame := Record.get?_eq_of_key?_eq hkey hkey'
  have htimes : row.get? "time" = row'.get? "time" := hsame "time" (by decide)
  have husers : row.get? "user_id" = row'.get? "user_id" := hsame "user_id" (by decide)
  have hmerged {field : String} (hf : row.get? field = row'.get? field) :
      (row.merge row').get? field = row'.get? field := by
    rw [Record.get?_merge, hf, Option.or_self]
  intro id htime huser
  rw [Record.getNatural?, hmerged htimes] at htime
  rw [PatchRow.userOf?, Record.getNatural?, hmerged husers] at huser
  obtain ⟨hknown, htrue'⟩ := h' id htime huser
  rw [← htimes] at htime
  rw [← husers] at huser
  refine ⟨hknown, fun text htext => ?_⟩
  rw [Record.getStr?, Record.get?_merge] at htext
  cases hown : row'.get? "snapshot" with
  | some value =>
    rw [hown] at htext
    exact htrue' text (by simpa [Record.getStr?, hown] using htext)
  | none =>
    rw [hown] at htext
    exact (h id htime huser).2 text htext

/-! ## Documents that go on -/

/-- A document goes on: it stays where it is, loses no patch and keeps the texts after its
patches. -/
structure Advances (d d' : Document) : Prop where
  strings : d'.strings = d.strings
  patches : d'.patches = d.patches
  settings : d'.settings = d.settings
  known : ∀ id ∈ d.versions, id ∈ d'.versions ∧ d'.textAt id = d.textAt id
  honest : d'.Honest

/-- A document goes on without new patches and with the same commits under way. -/
structure Continues (d d' : Document) : Prop extends Advances d d' where
  turns : d'.turns = d.turns
  nextTicket : d'.nextTicket = d.nextTicket
  versions : d'.versions = d.versions
  since : d'.replica.history.sinceSnapshot ≤ d.replica.history.sinceSnapshot

theorem Advances.trans (h : d.Advances d') (h' : d'.Advances d'') : d.Advances d'' where
  strings := h'.strings.trans h.strings
  patches := h'.patches.trans h.patches
  settings := h'.settings.trans h.settings
  known := by
    intro id hid
    obtain ⟨hid', htext⟩ := h.known id hid
    obtain ⟨hid'', htext'⟩ := h'.known id hid'
    exact ⟨hid'', htext'.trans htext⟩
  honest := h'.honest

theorem Continues.trans (h : d.Continues d') (h' : d'.Continues d'') : d.Continues d'' where
  toAdvances := h.toAdvances.trans h'.toAdvances
  turns := h'.turns.trans h.turns
  nextTicket := h'.nextTicket.trans h.nextTicket
  versions := h'.versions.trans h.versions
  since := Nat.le_trans h'.since h.since

/-- What was owned stays owned. -/
theorem Advances.owns (h : d.Advances d') (hrow : d.Owns row) : d'.Owns row := by
  intro id htime huser
  obtain ⟨hknown, htrue⟩ := hrow id htime huser
  obtain ⟨hknown', hsame⟩ := h.known id hknown
  exact ⟨hknown', fun text htext => (htrue text htext).trans hsame.symm⟩

/-- The same patches with true snapshots, and whatever state, user, saved text and events. -/
theorem continues_of_replica {replica : Replica d.kind.Content d.kind.Patch}
    (hreplica : replica.Honest d.format)
    (hpatches : replica.history.patches = d.replica.history.patches)
    (hextends : d.replica.history.Extends replica.history) (state : DocumentState)
    (user : Option UInt32) (saved failure : Option String) (events : EventBus DocumentEvent) :
    d.Continues { d with replica, state, user, saved, failure, events } := by
  have hids : replica.history.ids = d.replica.history.ids := by
    rw [History.ids_eq, History.ids_eq, hpatches]
  exact
    { strings := rfl
      patches := rfl
      settings := rfl
      known := fun id hid =>
        ⟨by rw [versions, hids]; exact hid, congrFun (History.textAt_congr hpatches d.format) id⟩
      honest := hreplica
      turns := rfl
      nextTicket := rfl
      versions := hids
      since := History.sinceSnapshot_le hids hextends }

section Honest

variable (h : d.Honest)
include h

theorem Honest.continues (state : DocumentState) (user : Option UInt32)
    (saved failure : Option String) (events : EventBus DocumentEvent) :
    d.Continues { d with state, user, saved, failure, events } :=
  continues_of_replica h rfl (.refl _) state user saved failure events

theorem continues_refl : d.Continues d := h.continues d.state d.user d.saved d.failure d.events

theorem continues_transition (source target : DocumentState) :
    d.Continues (d.transition source target).1 := by
  unfold transition
  split
  · exact h.continues _ _ _ _ _
  · exact continues_refl h

theorem continues_fail (detail : String) : d.Continues (d.fail detail).1 := by
  unfold fail
  split
  · exact continues_refl h
  · exact h.continues _ _ _ _ _

theorem continues_close : d.Continues d.close.1 := by
  unfold close
  split
  · exact continues_refl h
  · exact h.continues _ _ _ _ _

theorem continues_becomeReady : d.Continues d.becomeReady.1 := by
  unfold becomeReady
  split
  · exact h.continues _ _ _ _ _
  · exact continues_refl h

/-- Looking at the row may fail the document, which leaves patches and commits alone. -/
theorem continues_checkRow (row : Option Record) : d.Continues (d.checkRow row).1 := by
  unfold checkRow
  split
  · exact continues_fail h _
  · split
    · exact continues_fail h _
    · exact continues_refl h

/-- Owned rows add no patch and only true snapshots. -/
theorem continues_ingestRows {rows : Rows}
    (hrows : ∀ key row, rows.get? key = some row → d.Owns row)
    (keys : List String) : d.Continues (d.ingestRows rows keys).1 := by
  have hbatch : d.replica.Repeats d.format (d.incoming rows keys) := by
    intro p hp
    obtain ⟨key, -, hread⟩ := List.mem_filterMap.mp hp
    obtain ⟨row, hrow, hdecode⟩ := Option.bind_eq_some_iff.mp hread
    obtain ⟨htime, huser, -, hsnapshot⟩ := PatchRow.decode?_eq_some_iff.mp hdecode
    obtain ⟨hknown, htrue⟩ := hrows key row hrow p.id htime huser
    exact ⟨hknown, fun text htext => htrue text (hsnapshot.trans htext)⟩
  obtain ⟨state, failure, events, heq⟩ := d.ingestRows_eq rows keys
  rw [heq]
  exact continues_of_replica (Replica.Honest.ingest hbatch h)
    (Replica.patches_ingest_of_repeats hbatch) (Replica.extends_ingest _ _ _) state d.user d.saved
    failure events

/-- A true snapshot is noted. -/
theorem continues_recordSnapshot {id : PatchId} {text : String} (htext : text = d.textAt id) :
    d.Continues (d.recordSnapshot id text) :=
  continues_of_replica (Replica.Honest.recordSnapshot h htext) (History.patches_setSnapshot _ _ _)
    (History.extends_setSnapshot _ _ _) d.state d.user d.saved d.failure d.events

end Honest

/-! ## Commits -/

/-- The number of patches after which a snapshot is taken. -/
def interval (d : Document) : Nat := max d.settings.snapshotInterval.toNat 1

theorem Advances.interval (h : d.Advances d') : d'.interval = d.interval := by
  rw [Document.interval, Document.interval, h.settings]

/-- A row with the id of a known patch and no false snapshot is owned. -/
theorem owns_of_fields {id : PatchId} (hid : id ∈ d.versions)
    (htime : row.get? "time" = some (.ofUInt64 id.time))
    (huser : row.get? "user_id" = some (.ofUInt64 id.user.toUInt64))
    (hsnapshot : ∀ text, row.getStr? "snapshot" = some text → text = d.textAt id) : d.Owns row := by
  have hnatural : ∀ n, (Json.ofUInt64 n).natural? = some n := fun _ => rfl
  have hsmall : id.user.toNat < 0x100000000 := id.user.toNat_lt
  rintro ⟨time, user⟩ htime' huser'
  have htimes : id.time = time := by simpa [Record.getNatural?, htime, hnatural] using htime'
  have husers : id.user = user := by
    simpa [PatchRow.userOf?, Record.getNatural?, huser, hnatural, hsmall] using huser'
  subst htimes husers
  exact ⟨hid, hsnapshot⟩

/-- The row of a known patch says nothing new. -/
theorem owns_encode {id : PatchId} (hid : id ∈ d.versions) (f : Format δ π) (stringId : String)
    (patch : π) : d.Owns (PatchRow.encode f stringId id patch) := by
  obtain ⟨htime, huser, -, hsnapshot⟩ := PatchRow.get?_encode f stringId id patch
  exact owns_of_fields hid htime huser fun text htext => by
    simp [Record.getStr?, hsnapshot] at htext

theorem owns_encodeSnapshot {id : PatchId} (hid : id ∈ d.versions) (stringId : String) :
    d.Owns (PatchRow.encodeSnapshot stringId id (d.textAt id)) := by
  obtain ⟨htime, huser, -, hsnapshot⟩ := PatchRow.get?_encodeSnapshot stringId id (d.textAt id)
  refine owns_of_fields hid htime huser fun text htext => ?_
  simpa [Record.getStr?, hsnapshot, Json.str?] using htext.symm

/-- The snapshot that is due is one of the newest patch and true. -/
theorem dueSnapshot?_eq_some (h : d.Honest) {id : PatchId} {text : String}
    (hdue : d.dueSnapshot? = some (id, text)) :
    d.replica.history.latest? = some id ∧ text = d.textAt id := by
  unfold dueSnapshot? Replica.dueSnapshot? at hdue
  split at hdue
  · cases hdue
  · obtain ⟨latest, hlatest, heq⟩ := Option.map_eq_some_iff.mp hdue
    cases heq
    exact ⟨hlatest, by rw [textAt, History.textAt_latest hlatest, h.live]⟩

/-- Without a snapshot that is due there are few patches behind the last one. -/
theorem since_lt_of_dueSnapshot? (hdue : d.dueSnapshot? = none) :
    d.replica.history.sinceSnapshot < d.interval := by
  unfold dueSnapshot? Replica.dueSnapshot? at hdue
  split at hdue
  · next hlt => exact hlt
  · next hle =>
    have hnone : d.replica.history.ids = [] := by
      rw [Option.map_eq_none_iff, History.latest?, Option.map_eq_none_iff, SortedMap.last?,
        List.getLast?_eq_none_iff] at hdue
      rw [History.ids, SortedMap.keys, hdue, List.map_nil]
    rw [History.sinceSnapshot_eq, History.uncovered, hnone]
    exact Nat.lt_of_lt_of_le Nat.zero_lt_one (Nat.le_max_right _ _)

/-- A newest patch is added. -/
theorem advances_commit (h : d.Honest) {id : PatchId}
    (hid : Replica.isNewest d.replica.history id = true) (patch : d.kind.Patch)
    (state : DocumentState) (failure : Option String) (events : EventBus DocumentEvent) :
    d.Advances (d.withReplica (d.replica.commit d.format id patch) state failure events) ∧
      id ∈ (d.withReplica (d.replica.commit d.format id patch) state failure events).versions := by
  have hids : (d.withReplica (d.replica.commit d.format id patch) state failure events).versions =
      d.versions ++ [id] := History.ids_insert_newest hid patch
  rw [hids]
  refine ⟨⟨rfl, rfl, rfl, fun id' hid' => ⟨?_, ?_⟩, Replica.Honest.commit h hid patch⟩, by simp⟩
  · rw [hids]
    exact List.mem_append_left _ hid'
  · exact History.textAt_insert_newest hid hid' patch d.format

/-- **A commit adds one newest patch**, whose row is owned. -/
theorem beginCommit_spec (h : d.Honest) (htimes : ∀ id ∈ d.versions, id.time < 0xffffffffffffffff)
    {clock : UInt64} {edit : UserEdit} {p : LocalPatch}
    (hcommit : d.beginCommit clock edit = .ok (some (d', p))) :
    d.Advances d' ∧ d'.turns = d.turns ∧ d'.nextTicket = d.nextTicket ∧ d'.Owns p.row ∧
      d'.replica.history.sinceSnapshot = d.replica.history.sinceSnapshot + 1 := by
  obtain ⟨user, target, -, -, hid, hrow, rfl⟩ := beginCommit_encodes hcommit
  have hnewest := Replica.isNewest_nextId htimes clock user
  rw [← hid] at hnewest
  obtain ⟨hadvances, hin⟩ := advances_commit h hnewest (d.format.diff d.replica.live target) d.state
    d.failure (d.events.emit .change)
  refine ⟨hadvances, rfl, rfl, ?_, History.sinceSnapshot_insert_newest hnewest _⟩
  rw [hrow]
  exact owns_encode hin d.format d.stringId _

end Document

end LiveDocs

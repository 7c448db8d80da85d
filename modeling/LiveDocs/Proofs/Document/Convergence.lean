import LiveDocs.Proofs.Document.Replica

/-!
# When replicas converge

Two replicas that have taken in the same rows, in whatever batches and orders and with whatever
repetitions, have the same history (`Replica.history_deliver`). Their contents may still differ: one
may have applied all patches in order, and the other may have begun with a snapshot that was taken
before an earlier patch was known. The contents of all replicas agree exactly if every snapshot,
with the patches behind it, gives what all patches give (`Replica.converges_iff_snapshotsAgree`);
a history of a single row has no other order.

## Main definitions

* `Replica.Delivers`, `Replica.deliver`: batches that bring some rows, and a replica after them.
* `Replica.Converges`: the contents of replicas agree.
* `History.SnapshotsAgree`: every snapshot leads to what all patches give.
-/

namespace LiveDocs

variable {δ π : Type}

namespace History

/-- Every snapshot, with the patches behind it, gives what all patches give. -/
def SnapshotsAgree (f : Format δ π) (rows : History π) : Prop :=
  ∀ id text base, rows.snapshot? id = some text → f.parse text = .ok base →
    f.eqv (f.fold base (rows.patchesAfter (some id))) (rows.replay f none) = true

/-- The rows with only the snapshot of one of them. -/
def withOnly (rows : History π) (id : PatchId) : History π :=
  ⟨rows.entries.map fun id' e => if id' = id then e else { e with snapshot := none }⟩

theorem get?_withOnly (rows : History π) (id id' : PatchId) :
    (rows.withOnly id).get? id' =
      (rows.get? id').map fun e => if id' = id then e else { e with snapshot := none } :=
  SortedMap.get?_map rows.entries _ id'

theorem patches_withOnly (rows : History π) (id : PatchId) :
    (rows.withOnly id).patches = rows.patches := by
  refine SortedMap.ext_get? fun id' => ?_
  rw [get?_patches, get?_withOnly, get?_patches]
  cases rows.get? id' with
  | none => rfl
  | some e => by_cases hid : id' = id <;> simp [hid]

theorem snapshot?_withOnly (rows : History π) (id id' : PatchId) :
    (rows.withOnly id).snapshot? id' = if id' = id then rows.snapshot? id else none := by
  rw [snapshot?, get?_withOnly]
  by_cases hid : id' = id
  · subst hid
    cases hget : rows.get? id' <;> simp [snapshot?, hget]
  · cases rows.get? id' <;> simp [hid]

end History

namespace Replica

/-! ## Delivery -/

/-- A row as it may be seen: with its patch, and with its snapshot or without one. -/
def Shows (rows : History π) (p : IncomingPatch π) : Prop :=
  ∃ e, rows.get? p.id = some e ∧ p.entry.patch = e.patch ∧
    (p.entry.snapshot = none ∨ p.entry.snapshot = e.snapshot)

/-- Batches that show only some rows, and each of them at least once with its snapshot. -/
structure Delivers (rows : History π) (batches : List (List (IncomingPatch π))) : Prop where
  shown : ∀ batch ∈ batches, ∀ p ∈ batch, Shows rows p
  complete : ∀ id e, rows.get? id = some e →
    ∃ batch ∈ batches, ∃ p ∈ batch, p.id = id ∧ p.entry.snapshot = e.snapshot

/-- The replica that has taken in some batches, from the empty document. -/
def deliver (f : Format δ π) (batches : List (List (IncomingPatch π))) : Replica δ π :=
  batches.foldl (fun r batch => (r.ingest f batch).1) (empty f)

/-- All replicas that have taken in the same rows have the same content. -/
def Converges (f : Format δ π) (rows : History π) : Prop :=
  ∀ batches batches', Delivers rows batches → Delivers rows batches' →
    f.eqv (deliver f batches).live (deliver f batches').live = true

theorem deliver_concat (f : Format δ π) (batches : List (List (IncomingPatch π)))
    (batch : List (IncomingPatch π)) :
    deliver f (batches ++ [batch]) = ((deliver f batches).ingest f batch).1 := by
  simp [deliver]

/-- A history of rows, some of them perhaps still without their snapshots. -/
def Within (h rows : History π) : Prop :=
  ∀ id e, h.get? id = some e → Shows rows ⟨id, e⟩

theorem Within.insert {h rows : History π} (hh : Within h rows) {p : IncomingPatch π}
    (hp : Shows rows p) : Within (h.insert p.id p.entry) rows := by
  intro id e he
  rw [History.get?_insert] at he
  split at he
  · next hid =>
    subst hid
    cases hold : h.get? p.id with
    | none =>
      rw [hold] at he
      cases he
      exact hp
    | some old =>
      rw [hold] at he
      cases he
      -- The row is known already; at most its snapshot is filled in.
      obtain ⟨row, hrow, hpatch, hsnapshot⟩ := hh p.id old hold
      obtain ⟨row', hrow', -, hsnapshot'⟩ := hp
      cases hrow.symm.trans hrow'
      refine ⟨row, hrow, hpatch, ?_⟩
      cases hknown : old.snapshot with
      | none => simpa [hknown] using hsnapshot'
      | some text =>
        have hsame : old.snapshot = row.snapshot := hsnapshot.resolve_left (by simp [hknown])
        exact .inr (by simpa [hknown] using hsame)
  · exact hh id e he

theorem Within.insertAll {h rows : History π} (hh : Within h rows)
    {batch : List (IncomingPatch π)} (hbatch : ∀ p ∈ batch, Shows rows p) :
    Within (insertAll h batch) rows := by
  unfold Replica.insertAll
  induction batch generalizing h with
  | nil => exact hh
  | cons p rest ih =>
    obtain ⟨hp, hrest⟩ := List.forall_mem_cons.mp hbatch
    exact ih (hh.insert hp) hrest

/-- Whatever was delivered, the history holds nothing that the rows do not show. -/
theorem within_deliver (f : Format δ π) {rows : History π}
    {batches : List (List (IncomingPatch π))}
    (hshown : ∀ batch ∈ batches, ∀ p ∈ batch, Shows rows p) :
    Within (deliver f batches).history rows := by
  induction batches using List.reverseRecOn with
  | nil =>
    intro id e he
    simp [deliver, empty] at he
  | append_singleton batches batch ih =>
    rw [deliver_concat, ingest_history]
    refine (ih fun b hb => hshown b (by simp [hb])).insertAll fun p hp => ?_
    exact hshown batch (by simp) p (mem_sortById.mp hp)

/-- A history has a patch that was seen, and a snapshot if it was seen with one. -/
structure Knows (h : History π) (p : IncomingPatch π) : Prop where
  patch : ∃ q, h.patches.get? p.id = some q
  snapshot : p.entry.snapshot.isSome = true → ∃ text, h.snapshot? p.id = some text

theorem Knows.extends {h h' : History π} (hh : h.Extends h') {p : IncomingPatch π}
    (hp : Knows h p) : Knows h' p := by
  refine ⟨?_, fun hsome => ?_⟩
  · obtain ⟨q, hq⟩ := hp.patch
    exact ⟨q, hh.patches hq⟩
  · obtain ⟨text, htext⟩ := hp.snapshot hsome
    exact ⟨text, hh.snapshots htext⟩

theorem knows_insert (h : History π) (p : IncomingPatch π) : Knows (h.insert p.id p.entry) p := by
  refine ⟨?_, fun hsome => ?_⟩
  · simp [History.get?_insert]
  · obtain ⟨text, htext⟩ := Option.isSome_iff_exists.mp hsome
    rw [History.snapshot?_insert, if_pos rfl, htext]
    cases h.snapshot? p.id with
    | none => exact ⟨text, rfl⟩
    | some old => exact ⟨old, rfl⟩

theorem knows_insertAll (h : History π) {batch : List (IncomingPatch π)} {p : IncomingPatch π}
    (hp : p ∈ batch) : Knows (insertAll h batch) p := by
  induction batch generalizing h with
  | nil => cases hp
  | cons first rest ih =>
    rcases List.mem_cons.mp hp with rfl | hp
    · exact (knows_insert h p).extends (extends_insertAll (h.insert p.id p.entry) rest)
    · exact ih (h.insert first.id first.entry) hp

/-- What was delivered once is known in the end. -/
theorem knows_deliver (f : Format δ π) {batches : List (List (IncomingPatch π))}
    {batch : List (IncomingPatch π)} (hbatch : batch ∈ batches) {p : IncomingPatch π}
    (hp : p ∈ batch) : Knows (deliver f batches).history p := by
  induction batches using List.reverseRecOn with
  | nil => cases hbatch
  | append_singleton batches last ih =>
    rw [deliver_concat]
    rcases List.mem_append.mp hbatch with hbatch | hbatch
    · exact (ih hbatch).extends (extends_ingest f _ last)
    · rw [List.mem_singleton.mp hbatch] at hp
      rw [ingest_history]
      exact knows_insertAll _ (mem_sortById.mpr hp)

/-- Replicas that have taken in the same rows have the same history: the rows. -/
theorem history_deliver (f : Format δ π) {rows : History π}
    {batches : List (List (IncomingPatch π))} (h : Delivers rows batches) :
    (deliver f batches).history = rows := by
  have hwithin := within_deliver f h.shown
  refine History.ext_get? fun id => ?_
  cases hrow : rows.get? id with
  | none =>
    refine Option.eq_none_iff_forall_ne_some.mpr fun e he => ?_
    obtain ⟨row, hrow', -⟩ := hwithin id e he
    cases hrow.symm.trans hrow'
  | some row =>
    obtain ⟨batch, hbatch, p, hp, rfl, hsnapshot⟩ := h.complete id row hrow
    have hknows := knows_deliver f hbatch hp
    obtain ⟨q, hq⟩ := hknows.patch
    obtain ⟨e, he, -⟩ := Option.map_eq_some_iff.mp ((History.get?_patches _ _).symm.trans hq)
    obtain ⟨row', hrow', hpatch, hseen⟩ := hwithin p.id e he
    cases hrow.symm.trans hrow'
    -- The snapshot is that of the row: it was seen at least once if there is one.
    have hsame : e.snapshot = row.snapshot := by
      rcases hseen with hnone | hsame
      · cases hsome : row.snapshot with
        | none => exact hnone
        | some text =>
          obtain ⟨text', htext'⟩ := hknows.snapshot (by rw [hsnapshot, hsome]; rfl)
          simp [History.snapshot?, he, show e.snapshot = none from hnone] at htext'
      · exact hsame
    obtain ⟨patch, snapshot⟩ := e
    obtain ⟨patch', snapshot'⟩ := row
    simp_all

/-! ## Agreement is enough -/

theorem deliver_grounded {f : Format δ π} (hf : f.Lawful)
    (batches : List (List (IncomingPatch π))) :
    (deliver f batches).Grounded f ∨ (deliver f batches).history.Unreadable f := by
  induction batches using List.reverseRecOn with
  | nil => exact .inl ⟨none, f.empty, groundedAt_empty hf⟩
  | append_singleton batches batch ih =>
    rw [deliver_concat]
    rcases ih with hgrounded | ⟨id, text, e, htext, hparse⟩
    · exact ingest_grounded hf hgrounded batch
    · exact .inr ⟨id, text, e, (extends_ingest f _ batch).snapshots htext, hparse⟩

/-- A replica that has never begun with a snapshot has applied all patches. -/
theorem GroundedAt.replay {f : Format δ π} {rows : History π}
    {batches : List (List (IncomingPatch π))} (hdelivers : Delivers rows batches)
    (hground : (deliver f batches).GroundedAt f none f.empty) :
    f.eqv (deliver f batches).live (rows.replay f none) = true := by
  have hlive := hground.live
  rwa [history_deliver f hdelivers, History.patchesAfter, ← History.replay_none] at hlive

/-- Snapshots that agree make no difference. -/
theorem deliver_replay_of_agree {f : Format δ π} (hf : f.Lawful) {rows : History π}
    (hreadable : ¬ rows.Unreadable f) (hagree : rows.SnapshotsAgree f)
    {batches : List (List (IncomingPatch π))} (h : Delivers rows batches) :
    f.eqv (deliver f batches).live (rows.replay f none) = true := by
  have hhistory := history_deliver f h
  obtain ⟨start, base, horigin, hlive⟩ :=
    (deliver_grounded hf batches).resolve_right (by rwa [hhistory])
  rw [hhistory] at horigin hlive
  cases start with
  | none =>
    rw [History.replay_none]
    rwa [show base = f.empty from horigin] at hlive
  | some id =>
    obtain ⟨text, htext, hparse⟩ := horigin
    exact hf.trans hlive (hagree id text base htext hparse)

theorem eq_of_size_le_one {rows : History π} (hsize : rows.size ≤ 1) {id id' : PatchId}
    {e e' : HistoryEntry π} (he : rows.get? id = some e) (he' : rows.get? id' = some e') :
    id = id' := by
  have hmem := SortedMap.get?_eq_some_iff.mp he
  have hmem' := SortedMap.get?_eq_some_iff.mp he'
  unfold History.size SortedMap.size at hsize
  cases hentries : rows.entries.entries with
  | nil => simp [hentries] at hmem
  | cons first rest =>
    have hrest : rest = [] := by
      rw [hentries, List.length_cons] at hsize
      exact List.length_eq_zero_iff.mp (by omega)
    rw [hentries, hrest, List.mem_singleton] at hmem hmem'
    rw [← hmem] at hmem'
    exact (Prod.mk.inj hmem').1.symm

/-- With a single row there is never an earlier patch to come. -/
theorem deliver_replay_of_size_le_one {f : Format δ π} (hf : f.Lawful) {rows : History π}
    (hsize : rows.size ≤ 1) {batches : List (List (IncomingPatch π))} (h : Delivers rows batches) :
    f.eqv (deliver f batches).live (rows.replay f none) = true := by
  have hground : ∀ batches : List (List (IncomingPatch π)),
      (∀ batch ∈ batches, ∀ p ∈ batch, Shows rows p) →
      (deliver f batches).GroundedAt f none f.empty := by
    intro batches
    induction batches using List.reverseRecOn with
    | nil => exact fun _ => groundedAt_empty hf
    | append_singleton batches batch ih =>
      intro hshown
      have hshown' : ∀ b ∈ batches, ∀ p ∈ b, Shows rows p := fun b hb => hshown b (by simp [hb])
      rw [deliver_concat]
      refine (ih hshown').ingest hf fun p hp => isNewest_iff.mpr fun q hq => ?_
      -- The row is new, but the only row is known.
      obtain ⟨hmem, hnone⟩ := mem_newPatches hp
      obtain ⟨row, hrow, -⟩ := hshown batch (by simp) p (mem_sortById.mp hmem)
      obtain ⟨e, he, -⟩ := Option.map_eq_some_iff.mp
        ((History.get?_patches _ _).symm.trans (SortedMap.get?_eq_some_iff.mpr hq))
      obtain ⟨row', hrow', -⟩ := within_deliver f hshown' q.1 e he
      have hid : q.1 = p.id := eq_of_size_le_one hsize hrow' hrow
      rw [hid, hnone] at he
      cases he
  exact GroundedAt.replay h (hground batches h.shown)

/-! ## Agreement is needed -/

def rowsOf (rows : History π) : List (IncomingPatch π) :=
  rows.entries.entries.map fun e => ⟨e.1, e.2⟩

theorem mem_rowsOf {rows : History π} {p : IncomingPatch π} :
    p ∈ rowsOf rows ↔ rows.get? p.id = some p.entry := by
  rw [History.get?, SortedMap.get?_eq_some_iff, rowsOf, List.mem_map]
  constructor
  · rintro ⟨e, he, rfl⟩
    exact he
  · exact fun hp => ⟨(p.id, p.entry), hp, rfl⟩

theorem shows_of_mem_rowsOf {rows : History π} {p : IncomingPatch π} (hp : p ∈ rowsOf rows) :
    Shows rows p :=
  ⟨p.entry, mem_rowsOf.mp hp, rfl, .inr rfl⟩

/-- A batch with all rows completes any delivery. -/
theorem delivers_concat_rowsOf {rows : History π} {batches : List (List (IncomingPatch π))}
    (hshown : ∀ batch ∈ batches, ∀ p ∈ batch, Shows rows p) :
    Delivers rows (batches ++ [rowsOf rows]) := by
  refine ⟨fun batch hbatch p hp => ?_, fun id e he => ?_⟩
  · rcases List.mem_append.mp hbatch with hbatch | hbatch
    · exact hshown batch hbatch p hp
    · rw [List.mem_singleton.mp hbatch] at hp
      exact shows_of_mem_rowsOf hp
  · exact ⟨rowsOf rows, by simp, ⟨id, e⟩, mem_rowsOf.mpr he, rfl, rfl⟩

/-- A replica that takes in all rows at once applies all patches. -/
theorem deliver_rowsOf {f : Format δ π} (hf : f.Lawful) (rows : History π) :
    Delivers rows [rowsOf rows] ∧
      f.eqv (deliver f [rowsOf rows]).live (rows.replay f none) = true := by
  have hdelivers : Delivers rows [rowsOf rows] :=
    delivers_concat_rowsOf fun batch hbatch => absurd hbatch List.not_mem_nil
  have hground : (deliver f [rowsOf rows]).GroundedAt f none f.empty :=
    (groundedAt_empty hf).ingest hf fun p _ => isNewest_iff.mpr fun e he => by cases he
  exact ⟨hdelivers, GroundedAt.replay hdelivers hground⟩

/-- The content of rows of which only one has its snapshot. -/
theorem content_withOnly {f : Format δ π} {rows : History π} {id : PatchId} {text : String}
    {base : δ} (htext : rows.snapshot? id = some text) (hparse : f.parse text = .ok base) :
    (rows.withOnly id).content f none = .ok (f.fold base (rows.patchesAfter (some id))) := by
  have honly := rows.snapshot?_withOnly id
  have hafter : (rows.withOnly id).patchesAfter (some id) = rows.patchesAfter (some id) := by
    rw [History.patchesAfter, History.patchesAfter, History.patches_withOnly]
  rcases (rows.withOnly id).content_cases f with ⟨hnone, -⟩ | ⟨id', text', htext', -, hcontent⟩
  · have hid := hnone id
    rw [honly, if_pos rfl, htext] at hid
    cases hid
  · rw [honly] at htext'
    split at htext'
    · next hid =>
      subst hid
      rw [htext] at htext'
      cases htext'
      rw [hcontent, hparse, hafter]
      rfl
    · cases htext'

theorem shows_withOnly {rows : History π} {id : PatchId} {p : IncomingPatch π}
    (hp : Shows (rows.withOnly id) p) : Shows rows p := by
  obtain ⟨e, he, hpatch, hsnapshot⟩ := hp
  rw [History.get?_withOnly] at he
  obtain ⟨row, hrow, rfl⟩ := Option.map_eq_some_iff.mp he
  by_cases hid : p.id = id
  · exact ⟨row, hrow, by simpa [hid] using hpatch, by simpa [hid] using hsnapshot⟩
  · exact ⟨row, hrow, by simpa [hid] using hpatch, .inl (by simpa [hid] using hsnapshot)⟩

/-- Of two or more rows one is newer than another. -/
theorem exists_lt_of_one_lt_size {rows : History π} (hsize : 1 < rows.size) :
    ∃ id e id' e', rows.get? id = some e ∧ rows.get? id' = some e' ∧ id < id' := by
  have hsorted := rows.entries.sorted
  unfold History.size SortedMap.size at hsize
  cases hentries : rows.entries.entries with
  | nil => simp [hentries] at hsize
  | cons first rest =>
    cases rest with
    | nil => simp [hentries] at hsize
    | cons second rest =>
      rw [hentries] at hsorted
      exact ⟨first.1, first.2, second.1, second.2,
        SortedMap.get?_eq_some_iff.mpr (by rw [hentries]; simp),
        SortedMap.get?_eq_some_iff.mpr (by rw [hentries]; simp),
        (List.pairwise_cons.mp hsorted).1 second List.mem_cons_self⟩

/-- A replica that knows one row takes in all others, and an earlier one among them makes it begin
with the only snapshot there is. -/
theorem exists_deliver_withOnly {f : Format δ π} (hf : f.Lawful) {rows : History π}
    (hsize : 1 < rows.size) {id : PatchId} {text : String} {base : δ}
    (htext : rows.snapshot? id = some text) (hparse : f.parse text = .ok base) :
    ∃ batches, Delivers (rows.withOnly id) batches ∧
      f.eqv (deliver f batches).live (f.fold base (rows.patchesAfter (some id))) = true := by
  obtain ⟨earlier, e, later, e', hearlier, hlater, hlt⟩ := exists_lt_of_one_lt_size hsize
  let first : IncomingPatch π := ⟨later, e'.patch, none⟩
  have hshown : ∀ batch ∈ [[first]], ∀ p ∈ batch, Shows (rows.withOnly id) p := by
    have hfirst : Shows (rows.withOnly id) first := by
      refine ⟨_, by rw [History.get?_withOnly, hlater]; rfl, ?_, .inl rfl⟩
      split <;> rfl
    simpa using hfirst
  have hdelivers := delivers_concat_rowsOf hshown
  refine ⟨_, hdelivers, ?_⟩
  have hknown : (deliver f [[first]]).history = History.empty.insert later ⟨e'.patch, none⟩ :=
    ingest_history f (empty f) [first]
  have hhistory := history_deliver f hdelivers
  rw [deliver_concat, ingest_history] at hhistory
  -- The earlier row is new to the replica, and not newest.
  let row : IncomingPatch π := ⟨earlier, if earlier = id then e else { e with snapshot := none }⟩
  have hrow : row ∈ rowsOf (rows.withOnly id) :=
    mem_rowsOf.mpr (by rw [History.get?_withOnly, hearlier]; rfl)
  have hne : earlier ≠ later := fun hid => OrderedKey.irrefl later (hid ▸ hlt)
  have hnew : (deliver f [[first]]).history.get? row.id = none := by
    rw [hknown, History.get?_insert, if_neg hne]
    rfl
  obtain ⟨q, hq, hqid⟩ := exists_newPatch (mem_sortById.mpr hrow) hnew
  have hold : ¬ isNewest (deliver f [[first]]).history q.id = true := by
    intro hnewest
    have hmem : (later, e'.patch) ∈ (deliver f [[first]]).history.patches.entries := by
      refine SortedMap.get?_eq_some_iff.mp ?_
      rw [History.get?_patches, hknown, History.get?_insert, if_pos rfl]
      rfl
    have hgt := isNewest_iff.mp hnewest _ hmem
    rw [hqid] at hgt
    exact OrderedKey.irrefl later (OrderedKey.trans hgt hlt)
  rw [deliver_concat]
  exact ingest_refold hf hq hold (by rw [hhistory, content_withOnly htext hparse])

/-- If there is more than one row, some replica begins with a given snapshot. -/
theorem exists_deliver_from_snapshot {f : Format δ π} (hf : f.Lawful) {rows : History π}
    (hsize : 1 < rows.size) {id : PatchId} {text : String} {base : δ}
    (htext : rows.snapshot? id = some text) (hparse : f.parse text = .ok base) :
    ∃ batches, Delivers rows batches ∧
      f.eqv (deliver f batches).live (f.fold base (rows.patchesAfter (some id))) = true := by
  obtain ⟨batches, hdelivers, hlive⟩ := exists_deliver_withOnly hf hsize htext hparse
  refine ⟨_, delivers_concat_rowsOf fun batch hbatch p hp =>
    shows_withOnly (hdelivers.shown batch hbatch p hp), ?_⟩
  -- The other snapshots come in last, when no patch is new.
  have hnews : newPatches (deliver f batches).history (sortById (rowsOf rows)) = [] := by
    refine List.eq_nil_iff_forall_not_mem.mpr fun p hp => ?_
    obtain ⟨hmem, hnone⟩ := mem_newPatches hp
    rw [history_deliver f hdelivers, History.get?_withOnly,
      mem_rowsOf.mp (mem_sortById.mp hmem)] at hnone
    cases hnone
  have hnone : ∀ p ∈ newPatches (deliver f batches).history (sortById (rowsOf rows)),
      isNewest (deliver f batches).history p.id = true := by
    rw [hnews]
    exact fun p hp => absurd hp List.not_mem_nil
  have hlast := ingest_newest hf hnone
  rw [hnews] at hlast
  rw [deliver_concat]
  exact hf.trans hlast hlive

/-! ## The condition -/

theorem converges_iff {f : Format δ π} (hf : f.Lawful) {rows : History π}
    (hreadable : ¬ rows.Unreadable f) :
    Converges f rows ↔ rows.size ≤ 1 ∨ rows.SnapshotsAgree f := by
  constructor
  · intro hconverges
    by_cases hsize : rows.size ≤ 1
    · exact .inl hsize
    · refine .inr fun id text base htext hparse => ?_
      obtain ⟨batches, hdelivers, hlive⟩ :=
        exists_deliver_from_snapshot hf (Nat.not_le.mp hsize) htext hparse
      obtain ⟨hall, hreplay⟩ := deliver_rowsOf hf rows
      exact hf.trans (hf.symm hlive) (hf.trans (hconverges _ _ hdelivers hall) hreplay)
  · intro hagree batches batches' hdelivers hdelivers'
    have hreplay : ∀ {batches}, Delivers rows batches →
        f.eqv (deliver f batches).live (rows.replay f none) = true := by
      intro batches hdelivers
      rcases hagree with hsize | hagree
      · exact deliver_replay_of_size_le_one hf hsize hdelivers
      · exact deliver_replay_of_agree hf hreadable hagree hdelivers
    exact hf.trans (hreplay hdelivers) (hf.symm (hreplay hdelivers'))

/-- All replicas that have taken in the same rows have the same content exactly if there is a single
row or every snapshot, with the patches behind it, gives what all patches give. The snapshots of
record sets must be readable; those of plain text always are. -/
theorem converges_iff_snapshotsAgree (texts : History TextPatch) (primaryKeys : List String)
    (records : History RecordPatch) (hreadable : ¬ records.Unreadable (.records primaryKeys)) :
    (Converges .text texts ↔ texts.size ≤ 1 ∨ texts.SnapshotsAgree .text) ∧
      (Converges (.records primaryKeys) records ↔
        records.size ≤ 1 ∨ records.SnapshotsAgree (.records primaryKeys)) := by
  refine ⟨converges_iff Format.lawful_text ?_,
    converges_iff (Format.lawful_records primaryKeys) hreadable⟩
  rintro ⟨id, text, e, -, hparse⟩
  cases hparse

/-- Two insertions at the beginning of a text, the second with a snapshot of itself alone. -/
def lateText : History TextPatch :=
  ⟨.ofList [(⟨500, 7⟩, ⟨[⟨0, [], ['A']⟩], none⟩), (⟨1000, 0⟩, ⟨[⟨0, [], ['B']⟩], some "B"⟩)]⟩

/-- Two records, the second with a snapshot of itself alone. -/
def lateRecords : History RecordPatch :=
  ⟨.ofList [(⟨3, 1⟩, ⟨[.set (sampleRecord 2)], none⟩),
    (⟨5, 0⟩, ⟨[.set (sampleRecord 1)], some "\x7b\"id\":1\x7d"⟩)]⟩

/-- Replicas do not converge if a snapshot is taken by one that does not know an earlier row yet. -/
theorem late_rows_diverge :
    (deliver .text [[⟨⟨1000, 0⟩, [⟨0, [], ['B']⟩], none⟩]]).dueSnapshot? .text 1 =
        some (⟨1000, 0⟩, "B") ∧ lateText.snapshot? ⟨1000, 0⟩ = some "B" ∧
      ¬ Converges .text lateText ∧
      ¬ lateRecords.Unreadable (.records ["id"]) ∧ ¬ Converges (.records ["id"]) lateRecords := by
  have hreadable : ¬ lateRecords.Unreadable (.records ["id"]) := by
    rintro ⟨id, text, e, htext, hparse⟩
    have hall : ∀ x ∈ lateRecords.entries.entries,
        (x.2.snapshot.all fun text => ((Format.records ["id"]).parse text).isOk) = true := by
      decide +kernel
    obtain ⟨entry, hentry, hsnapshot⟩ := Option.bind_eq_some_iff.mp htext
    have hok := hall _ (SortedMap.get?_eq_some_iff.mp hentry)
    simp [hsnapshot, hparse, Except.isOk, Except.toBool] at hok
  obtain ⟨hiff, hiff'⟩ := converges_iff_snapshotsAgree lateText ["id"] lateRecords hreadable
  refine ⟨by decide +kernel, by decide +kernel, ?_, hreadable, ?_⟩
  · rw [hiff]
    rintro (hsize | hagree)
    · exact absurd hsize (by decide +kernel)
    · have h := hagree ⟨1000, 0⟩ "B" ['B'] (by decide +kernel) (by decide +kernel)
      revert h
      decide +kernel
  · rw [hiff']
    rintro (hsize | hagree)
    · exact absurd hsize (by decide +kernel)
    · have h := hagree ⟨5, 0⟩ "\x7b\"id\":1\x7d" _ (by decide +kernel) rfl
      revert h
      decide +kernel

end Replica

end LiveDocs

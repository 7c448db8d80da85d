import LiveDocs.Proofs.Document.Ingest

/-!
# The content of a replica follows from its history

A replica takes in batches of patches, adds patches of its own and notes snapshots. Its content is
kept up to date in two ways: patches that are newer than all others are applied to it, and after any
other patch it is made again from the history. At any time the content is *grounded*: it is the
empty document or a snapshot in the history, with all patches behind that applied
(`Replica.run_grounded`). The one exception is a history with a snapshot that cannot be read.

If every snapshot is the text of the patches up to it, a grounded content is the content of the
history (`Replica.live_eq_content`). Snapshots need not be so on the way: a snapshot may arrive
before a patch that it covers.

## Main definitions

* `Replica.Step`, `Replica.run`: what a replica does, and a replica after some steps.
* `Replica.Grounded`: what the content of a replica is made of.
* `History.Faithful`: every snapshot is the text of the patches up to it.
-/

namespace LiveDocs

variable {δ π : Type}

namespace History

/-- Where the making of a content may begin: with the empty document before all patches, or with a
snapshot behind its patch. -/
def Origin (f : Format δ π) (h : History π) : Option PatchId → δ → Prop
  | none, base => base = f.empty
  | some id, base => ∃ text, h.snapshot? id = some text ∧ f.parse text = .ok base

/-- A snapshot cannot be read. -/
def Unreadable (f : Format δ π) (h : History π) : Prop :=
  ∃ id text e, h.snapshot? id = some text ∧ f.parse text = .error e

/-- Every snapshot is the text of the patches up to it. -/
def Faithful (f : Format δ π) (h : History π) : Prop :=
  ∀ id text, h.snapshot? id = some text →
    text = f.render (f.fold f.empty (patchesOf (h.upTo (some id))))

theorem faithful_iff {f : Format δ π} {h : History π} :
    h.Faithful f ↔ ∀ e ∈ h.entries.entries, (e.2.snapshot.all fun text =>
      text == f.render (f.fold f.empty (patchesOf (h.upTo (some e.1))))) = true := by
  constructor
  · rintro hfaithful ⟨id, e⟩ he
    have hget : h.get? id = some e := SortedMap.get?_eq_some_iff.mpr he
    cases htext : e.snapshot with
    | none => rfl
    | some text => simpa [Option.all] using hfaithful id text (by simp [snapshot?, hget, htext])
  · intro hall id text htext
    obtain ⟨e, he, hsnapshot⟩ := Option.bind_eq_some_iff.mp htext
    simpa [hsnapshot] using hall (id, e) (SortedMap.get?_eq_some_iff.mp he)

instance {f : Format δ π} {h : History π} : Decidable (h.Faithful f) :=
  decidable_of_iff' _ faithful_iff

/-- What the content starts from is still there when the history grows. -/
theorem Origin.extends {f : Format δ π} {h h' : History π} (hh : h.Extends h')
    {start : Option PatchId} {base : δ} (ho : h.Origin f start base) : h'.Origin f start base := by
  cases start with
  | none => exact ho
  | some id =>
    obtain ⟨text, htext, hparse⟩ := ho
    exact ⟨text, hh.snapshots htext, hparse⟩

/-- The content begins somewhere, unless a snapshot cannot be read. -/
theorem content_origin (f : Format δ π) (h : History π) :
    (∃ start base, h.Origin f start base ∧
      h.content f none = .ok (f.fold base (h.patchesAfter start))) ∨ h.Unreadable f := by
  rcases h.content_cases f with ⟨-, hcontent⟩ | ⟨id, text, htext, -, hcontent⟩
  · exact .inl ⟨none, f.empty, rfl, by rw [hcontent, replay_none]; rfl⟩
  · cases hparse : f.parse text with
    | ok base => exact .inl ⟨some id, base, ⟨text, htext, hparse⟩, by rw [hcontent, hparse]; rfl⟩
    | error e => exact .inr ⟨id, text, e, htext, hparse⟩

/-- Patches at the end stand behind every origin. -/
theorem patchesAfter_append {f : Format δ π} {h h' : History π} {start : Option PatchId} {base : δ}
    (ho : h.Origin f start base) {added : List (PatchId × π)}
    (hentries : h'.patches.entries = h.patches.entries ++ added) :
    h'.patchesAfter start = h.patchesAfter start ++ added.map Prod.snd := by
  cases start with
  | none => simp [patchesAfter, SortedMap.values, hentries]
  | some id =>
    obtain ⟨text, htext, -⟩ := ho
    obtain ⟨e, he, -⟩ := Option.bind_eq_some_iff.mp htext
    have hmem : (id, e.patch) ∈ h.patches.entries :=
      SortedMap.get?_eq_some_iff.mp (by rw [get?_patches, he]; rfl)
    have hsorted := h'.patches.sorted
    rw [hentries] at hsorted
    have hadded : added.filter (fun e => id < e.1) = added :=
      List.filter_eq_self.mpr fun q hq => by
        simpa using (List.pairwise_append.mp hsorted).2.2 (id, e.patch) hmem q hq
    simp [patchesAfter, hentries, List.filter_append, hadded]

/-- With faithful snapshots that can be read, every beginning leads to all patches. -/
theorem Origin.fold_eq {f : Format δ π} {h : History π}
    (hread : ∀ id text, h.snapshot? id = some text →
      f.parse text = .ok (f.fold f.empty (patchesOf (h.upTo (some id)))))
    {start : Option PatchId} {base : δ} (ho : h.Origin f start base) :
    f.fold base (h.patchesAfter start) = h.replay f none := by
  rw [replay_none]
  cases start with
  | none =>
    rw [show base = f.empty from ho]
    rfl
  | some id =>
    obtain ⟨text, htext, hparse⟩ := ho
    rw [hread id text htext] at hparse
    rw [← Except.ok.inj hparse, ← Format.fold_append, patchesOf_upTo_append]

end History

namespace Replica

/-- What a replica does: it takes in a batch, adds a patch of its own at a time of its clock, or
notes a snapshot. -/
inductive Step (π : Type) where
  | ingest (batch : List (IncomingPatch π))
  | commit (clock : UInt64) (user : UInt32) (patch : π)
  | snapshot (id : PatchId) (text : String)

def advance (f : Format δ π) (r : Replica δ π) : Step π → Replica δ π
  | .ingest batch => (r.ingest f batch).1
  | .commit clock user patch => r.commit f (r.nextId clock user) patch
  | .snapshot id text => r.recordSnapshot id text

/-- The replica after some steps, from the empty document. -/
def run (f : Format δ π) (steps : List (Step π)) : Replica δ π :=
  steps.foldl (advance f) (empty f)

/-- The content is an origin with all patches behind it. -/
structure GroundedAt (f : Format δ π) (r : Replica δ π) (start : Option PatchId) (base : δ) :
    Prop where
  origin : r.history.Origin f start base
  live : f.eqv r.live (f.fold base (r.history.patchesAfter start)) = true

/-- The content is some origin with all patches behind it. -/
def Grounded (f : Format δ π) (r : Replica δ π) : Prop := ∃ start base, r.GroundedAt f start base

theorem groundedAt_empty {f : Format δ π} (hf : f.Lawful) : (empty f).GroundedAt f none f.empty :=
  ⟨rfl, hf.refl _⟩

/-- Patches at the end that are applied to the content leave it grounded. -/
theorem GroundedAt.append {f : Format δ π} (hf : f.Lawful) {r r' : Replica δ π}
    {start : Option PatchId} {base : δ} (h : r.GroundedAt f start base)
    (hextends : r.history.Extends r'.history) {added : List (PatchId × π)}
    (hentries : r'.history.patches.entries = r.history.patches.entries ++ added)
    (hlive : f.eqv r'.live (f.fold r.live (added.map Prod.snd)) = true) :
    r'.GroundedAt f start base := by
  refine ⟨h.origin.extends hextends, hf.trans hlive ?_⟩
  rw [History.patchesAfter_append h.origin hentries, Format.fold_append]
  exact hf.fold_congr h.live _

/-! ## One step -/

theorem extends_ingest (f : Format δ π) (r : Replica δ π) (batch : List (IncomingPatch π)) :
    r.history.Extends (r.ingest f batch).1.history := by
  rw [ingest_history]
  exact extends_insertAll r.history _

/-- New patches that are all newest leave the content grounded where it was. -/
theorem GroundedAt.ingest {f : Format δ π} (hf : f.Lawful) {r : Replica δ π}
    {start : Option PatchId} {base : δ} (h : r.GroundedAt f start base)
    {batch : List (IncomingPatch π)}
    (hnewest : ∀ p ∈ newPatches r.history (sortById batch), isNewest r.history p.id = true) :
    (r.ingest f batch).1.GroundedAt f start base := by
  have hentries := entries_insertAll (sortById_sorted batch) hnewest
  rw [← ingest_history f r batch] at hentries
  refine h.append hf (extends_ingest f r batch) hentries ?_
  rw [List.map_map]
  exact ingest_newest hf hnewest

/-- The step lemma for batches: the content is worked out anew or the new patches come behind all
others. -/
theorem ingest_grounded {f : Format δ π} (hf : f.Lawful) {r : Replica δ π} (h : r.Grounded f)
    (batch : List (IncomingPatch π)) :
    (r.ingest f batch).1.Grounded f ∨ (r.ingest f batch).1.history.Unreadable f := by
  by_cases hnewest : ∀ p ∈ newPatches r.history (sortById batch), isNewest r.history p.id = true
  · obtain ⟨start, base, hground⟩ := h
    exact .inl ⟨start, base, hground.ingest hf hnewest⟩
  · obtain ⟨p, hp⟩ := Classical.not_forall.mp hnewest
    obtain ⟨hp, hold⟩ := Classical.not_imp.mp hp
    rw [ingest_history]
    rcases (insertAll r.history (sortById batch)).content_origin f with
      ⟨start, base, horigin, hcontent⟩ | hunreadable
    · left
      refine ⟨start, base, ?_, ?_⟩
      · rwa [ingest_history]
      · rw [ingest_history]
        exact ingest_refold hf hp hold hcontent
    · exact .inr hunreadable

/-- The id of a patch that a replica adds is newest, unless the last time was reached. -/
theorem isNewest_nextId {r : Replica δ π}
    (htimes : ∀ id ∈ r.history.ids, id.time < 0xffffffffffffffff) (clock : UInt64) (user : UInt32) :
    isNewest r.history (r.nextId clock user) = true := by
  unfold isNewest nextId nextTime
  cases hlatest : r.history.latest? with
  | none => rfl
  | some latest =>
    have hmem : latest ∈ r.history.ids := by
      obtain ⟨e, he, rfl⟩ := Option.map_eq_some_iff.mp hlatest
      exact List.mem_map_of_mem (List.mem_of_getLast? he)
    have hlast := htimes latest hmem
    have hlater : latest.time < if clock ≤ latest.time then timeAfter latest.time else clock := by
      split
      · have hne : latest.time ≠ 0xffffffffffffffff := by
          intro heq
          rw [heq] at hlast
          exact absurd hlast (by decide)
        rw [timeAfter, if_neg hne]
        rw [UInt64.lt_iff_toNat_lt] at hlast ⊢
        rw [UInt64.toNat_add, UInt64.toNat_one]
        have hmax : (0xffffffffffffffff : UInt64).toNat = 0xffffffffffffffff := by decide
        omega
      · next hclock => exact UInt64.not_le.mp hclock
    simpa using PatchId.lt_iff.mpr (.inl hlater)

/-- An id that is newest is not known yet. -/
theorem get?_of_isNewest {h : History π} {id : PatchId} (hid : isNewest h id = true) :
    h.get? id = none := by
  refine Option.eq_none_iff_forall_ne_some.mpr fun e he => ?_
  have hmem : (id, e.patch) ∈ h.patches.entries :=
    SortedMap.get?_eq_some_iff.mp (by rw [History.get?_patches, he]; rfl)
  exact OrderedKey.irrefl id (isNewest_iff.mp hid _ hmem)

/-- A local patch is newer than all others, so it is applied to the content as it is. -/
theorem commit_grounded {f : Format δ π} (hf : f.Lawful) {r : Replica δ π} (h : r.Grounded f)
    {id : PatchId} (hid : isNewest r.history id = true) (patch : π) :
    (r.commit f id patch).Grounded f := by
  obtain ⟨start, base, hground⟩ := h
  have hnone := get?_of_isNewest hid
  have hentries : (r.commit f id patch).history.patches.entries =
      r.history.patches.entries ++ [(id, patch)] := by
    rw [commit, History.patches_insert_of_none hnone]
    exact SortedMap.entries_insert_of_lt _ patch (isNewest_iff.mp hid)
  exact ⟨start, base,
    hground.append hf (History.extends_insert r.history id _) hentries (hf.refl _)⟩

theorem recordSnapshot_grounded {f : Format δ π} (hf : f.Lawful) {r : Replica δ π}
    (h : r.Grounded f) (id : PatchId) (text : String) : (r.recordSnapshot id text).Grounded f := by
  obtain ⟨start, base, hground⟩ := h
  have hentries : (r.recordSnapshot id text).history.patches.entries =
      r.history.patches.entries ++ [] := by
    rw [recordSnapshot, History.patches_setSnapshot, List.append_nil]
  exact ⟨start, base,
    hground.append hf (History.extends_setSnapshot r.history id text) hentries (hf.refl _)⟩

theorem extends_advance (f : Format δ π) (r : Replica δ π) (s : Step π) :
    r.history.Extends (r.advance f s).history := by
  cases s with
  | ingest batch => exact extends_ingest f r batch
  | commit clock user patch => exact History.extends_insert r.history _ _
  | snapshot id text => exact History.extends_setSnapshot r.history id text

/-- The step lemma for all steps. The premise on times is what gives a local patch an id of its
own. -/
theorem advance_grounded {f : Format δ π} (hf : f.Lawful) {r : Replica δ π} (h : r.Grounded f)
    (htimes : ∀ id ∈ r.history.ids, id.time < 0xffffffffffffffff) (s : Step π) :
    (r.advance f s).Grounded f ∨ (r.advance f s).history.Unreadable f := by
  cases s with
  | ingest batch => exact ingest_grounded hf h batch
  | commit clock user patch =>
    exact .inl (commit_grounded hf h (isNewest_nextId htimes clock user) patch)
  | snapshot id text => exact .inl (recordSnapshot_grounded hf h id text)

/-! ## All steps -/

theorem mem_ids_iff {h : History π} {id : PatchId} :
    id ∈ h.ids ↔ ∃ p, h.patches.get? id = some p := by
  rw [History.ids, SortedMap.mem_keys_iff, SortedMap.contains, Option.isSome_iff_exists]
  simp [History.get?]

theorem run_concat (f : Format δ π) (steps : List (Step π)) (s : Step π) :
    run f (steps ++ [s]) = (run f steps).advance f s := by
  simp [run]

/-- The content of a replica is grounded at all times, or a snapshot cannot be read. -/
theorem run_grounded {f : Format δ π} (hf : f.Lawful) {steps : List (Step π)}
    (htimes : ∀ id ∈ (run f steps).history.ids, id.time < 0xffffffffffffffff) :
    (run f steps).Grounded f ∨ (run f steps).history.Unreadable f := by
  induction steps using List.reverseRecOn with
  | nil => exact .inl ⟨none, f.empty, groundedAt_empty hf⟩
  | append_singleton steps s ih =>
    rw [run_concat] at htimes ⊢
    have hextends := extends_advance f (run f steps) s
    have htimes' : ∀ id ∈ (run f steps).history.ids, id.time < 0xffffffffffffffff := by
      intro id hid
      obtain ⟨p, hp⟩ := mem_ids_iff.mp hid
      exact htimes id (mem_ids_iff.mpr ⟨p, hextends.patches hp⟩)
    rcases ih htimes' with hgrounded | ⟨id, text, e, htext, hparse⟩
    · exact advance_grounded hf hgrounded htimes' s
    · exact .inr ⟨id, text, e, hextends.snapshots htext, hparse⟩

/-- With snapshots that are read as the patches up to them, the content of a replica is the content
of its history. -/
theorem run_content {f : Format δ π} (hf : f.Lawful) {steps : List (Step π)}
    (htimes : ∀ id ∈ (run f steps).history.ids, id.time < 0xffffffffffffffff)
    (hread : ∀ id text, (run f steps).history.snapshot? id = some text → f.parse text =
      .ok (f.fold f.empty (History.patchesOf ((run f steps).history.upTo (some id))))) :
    ∃ doc, (run f steps).history.content f none = .ok doc ∧
      f.eqv (run f steps).live doc = true := by
  have hreadable : ¬ (run f steps).history.Unreadable f := by
    rintro ⟨id, text, e, htext, hparse⟩
    rw [hread id text htext] at hparse
    cases hparse
  obtain ⟨start, base, horigin, hcontent⟩ :=
    ((run f steps).history.content_origin f).resolve_right hreadable
  obtain ⟨start', base', hground⟩ := (run_grounded hf htimes).resolve_right hreadable
  have hlive := hground.live
  rw [hground.origin.fold_eq hread] at hlive
  rw [horigin.fold_eq hread] at hcontent
  exact ⟨_, hcontent, hlive⟩

/-- Whatever a replica takes in, adds and notes, its content is the content of its history as soon
as every snapshot in the history is the text of the patches up to it, provided the times of patches
stay below the last one. Record sets must be legible where a snapshot is taken of them. -/
theorem live_eq_content :
    (∀ steps : List (Step TextPatch),
      (∀ id ∈ (run .text steps).history.ids, id.time < 0xffffffffffffffff) →
      (run .text steps).history.Faithful .text →
      (run .text steps).history.content .text none = .ok (run .text steps).live) ∧
    ∀ (primaryKeys : List String) (steps : List (Step RecordPatch)),
      (∀ id ∈ (run (.records primaryKeys) steps).history.ids, id.time < 0xffffffffffffffff) →
      (run (.records primaryKeys) steps).history.Faithful (.records primaryKeys) →
      (∀ id text, (run (.records primaryKeys) steps).history.snapshot? id = some text →
        RecordSet.Legible ((Format.records primaryKeys).fold (.empty primaryKeys)
          (History.patchesOf ((run (.records primaryKeys) steps).history.upTo (some id))))) →
      ∃ doc, (run (.records primaryKeys) steps).history.content (.records primaryKeys) none =
          .ok doc ∧ ((run (.records primaryKeys) steps).live == doc) = true := by
  constructor
  · intro steps htimes hfaithful
    obtain ⟨doc, hcontent, heqv⟩ := run_content Format.lawful_text htimes fun id text htext => by
      rw [hfaithful id text htext, Format.parse_render_text]
    rw [hcontent, show (run .text steps).live = doc by simpa [Format.text] using heqv]
  · intro primaryKeys steps htimes hfaithful hlegible
    exact run_content (Format.lawful_records primaryKeys) htimes fun id text htext => by
      rw [hfaithful id text htext, Format.parse_render_records rfl (hlegible id text htext)]

/-- A patch comes in behind a later one, with a snapshot, and another is added. -/
def sampleEdits : List (Step TextPatch) :=
  [.ingest [⟨⟨1000, 0⟩, [⟨0, [], ['B']⟩], none⟩], .ingest [⟨⟨500, 7⟩, [⟨0, [], ['A']⟩], some "A"⟩],
    .commit 700 3 [⟨0, [], ['C']⟩]]

def sampleRecord (n : Nat) : Record := SortedMap.empty.insert "id" (.ofNat n)

/-- A snapshot comes in before one of the two patches that it covers. -/
def sampleChanges : List (Step RecordPatch) :=
  [.ingest [⟨⟨5, 0⟩, [.set (sampleRecord 1)], some "\x7b\"id\":1\x7d\n\x7b\"id\":2\x7d"⟩],
    .ingest [⟨⟨3, 1⟩, [.set (sampleRecord 2)], none⟩]]

theorem legible_sampleChanges (id : PatchId) (text : String)
    (htext : (run (.records ["id"]) sampleChanges).history.snapshot? id = some text) :
    RecordSet.Legible ((Format.records ["id"]).fold (.empty ["id"])
      (History.patchesOf ((run (.records ["id"]) sampleChanges).history.upTo (some id)))) := by
  have honly : ∀ id ∈ (run (.records ["id"]) sampleChanges).history.ids,
      ((run (.records ["id"]) sampleChanges).history.snapshot? id).isSome = true → id = ⟨5, 0⟩ := by
    decide +kernel
  have hmem : id ∈ (run (.records ["id"]) sampleChanges).history.ids := by
    obtain ⟨e, he, -⟩ := Option.bind_eq_some_iff.mp htext
    exact mem_ids_iff.mpr ⟨e.patch, by rw [History.get?_patches, he]; rfl⟩
  have hlegible : ∀ n, (Json.ofRecord (sampleRecord n)).Legible ∧
      (Json.ofRecord (sampleRecord n)).depth ≤ Json.nestingLimit := by
    intro n
    obtain ⟨hlegible, hdepth⟩ := Record.legible_single "id" n
    exact ⟨hlegible, Nat.le_trans hdepth (by decide)⟩
  rw [honly id hmem (by rw [htext]; rfl)]
  intro key r hr
  have hentries : (key, r) ∈ [("[1]", sampleRecord 1), ("[2]", sampleRecord 2)] :=
    SortedMap.get?_eq_some_iff.mp hr
  simp only [List.mem_cons, Prod.mk.injEq, List.not_mem_nil, or_false] at hentries
  rcases hentries with ⟨-, rfl⟩ | ⟨-, rfl⟩
  · exact hlegible 1
  · exact hlegible 2

/-- Both samples end with the content of their histories. -/
theorem live_eq_content_samples :
    ((∀ id ∈ (run .text sampleEdits).history.ids, id.time < 0xffffffffffffffff) ∧
      (run .text sampleEdits).history.Faithful .text ∧
      (run .text sampleEdits).live = ['C', 'B', 'A'] ∧
      (run .text sampleEdits).history.content .text none = .ok (run .text sampleEdits).live) ∧
    (∀ id ∈ (run (.records ["id"]) sampleChanges).history.ids, id.time < 0xffffffffffffffff) ∧
      (run (.records ["id"]) sampleChanges).history.Faithful (.records ["id"]) ∧
      (run (.records ["id"]) sampleChanges).live.records.keys = ["[1]", "[2]"] ∧
      ∃ doc,
        (run (.records ["id"]) sampleChanges).history.content (.records ["id"]) none = .ok doc ∧
        ((run (.records ["id"]) sampleChanges).live == doc) = true := by
  have hedits : (run .text sampleEdits).history.Faithful .text := by decide +kernel
  have hchanges : (run (.records ["id"]) sampleChanges).history.Faithful (.records ["id"]) := by
    decide +kernel
  exact ⟨⟨by decide +kernel, hedits, by decide +kernel,
      live_eq_content.1 sampleEdits (by decide +kernel) hedits⟩,
    by decide +kernel, hchanges, by decide +kernel,
    live_eq_content.2 ["id"] sampleChanges (by decide +kernel) hchanges legible_sampleChanges⟩

end Replica

end LiveDocs

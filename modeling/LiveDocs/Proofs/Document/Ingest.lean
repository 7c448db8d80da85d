import LiveDocs.Proofs.History
import LiveDocs.Proofs.InsertionSort
import LiveDocs.Document.Replica

/-!
# Taking in patches

What a batch does to the history of a replica and to its content. The new patches of a batch come
out in the order of their ids, each once (`Replica.newPatches_increasing`), and the history gets
just these (`Replica.patches_insertAll`). So new patches that are all newer than the history stand
at its end, in the order in which they are applied to the content.

## Main results

* `Replica.entries_insertAll`: the history after a batch of new patches that are all newest.
* `Replica.ingest_newest`, `Replica.ingest_refold`: the content after a batch.
-/

namespace LiveDocs

namespace Replica

variable {δ π : Type}

/-! ## The order of a batch -/

theorem insertById_eq (p : IncomingPatch π) (batch : List (IncomingPatch π)) :
    insertById p batch = batch.orderedInsert (fun a b => a.id < b.id) p := by
  induction batch with
  | nil => rfl
  | cons first rest ih => rw [insertById, List.orderedInsert_cons, ih]

theorem sortById_eq (batch : List (IncomingPatch π)) :
    sortById batch = insertEach IncomingPatch.id batch := by
  simp only [sortById, insertEach, insertById_eq]

@[simp] theorem mem_sortById {p : IncomingPatch π} {batch : List (IncomingPatch π)} :
    p ∈ sortById batch ↔ p ∈ batch := by
  rw [sortById_eq]
  exact (insertEach_perm _ batch).mem_iff

theorem sortById_sorted (batch : List (IncomingPatch π)) :
    (sortById batch).Pairwise fun a b => ¬ b.id < a.id := by
  rw [sortById_eq]
  exact insertEach_sorted _ batch

/-! ## New patches -/

theorem mem_newPatches {h : History π} {batch : List (IncomingPatch π)} {p : IncomingPatch π}
    (hp : p ∈ newPatches h batch) : p ∈ batch ∧ h.get? p.id = none := by
  induction batch generalizing h with
  | nil => cases hp
  | cons first rest ih =>
    have hrest : p ∈ newPatches (h.insert first.id first.entry) rest →
        p ∈ first :: rest ∧ h.get? p.id = none := by
      intro hp
      obtain ⟨hmem, hnone⟩ := ih hp
      rw [History.get?_insert] at hnone
      split at hnone
      · cases hnone
      · exact ⟨List.mem_cons_of_mem _ hmem, hnone⟩
    simp only [newPatches] at hp
    split at hp
    · next hnew =>
      rcases List.mem_cons.mp hp with rfl | hp
      · exact ⟨List.mem_cons_self, Option.isNone_iff_eq_none.mp hnew⟩
      · exact hrest hp
    · exact hrest hp

/-- Every id of a batch that is not known yet is among the new ones. -/
theorem exists_newPatch {h : History π} {batch : List (IncomingPatch π)} {p : IncomingPatch π}
    (hp : p ∈ batch) (hnew : h.get? p.id = none) : ∃ q ∈ newPatches h batch, q.id = p.id := by
  induction batch generalizing h with
  | nil => cases hp
  | cons first rest ih =>
    by_cases hid : p.id = first.id
    · refine ⟨first, ?_, hid.symm⟩
      simp [newPatches, ← hid, hnew]
    · have hrest : p ∈ rest := by
        rcases List.mem_cons.mp hp with rfl | hp
        · exact absurd rfl hid
        · exact hp
      obtain ⟨q, hq, hqid⟩ := ih (h := h.insert first.id first.entry) hrest
        (by rw [History.get?_insert, if_neg hid, hnew])
      refine ⟨q, ?_, hqid⟩
      simp only [newPatches]
      split
      · exact List.mem_cons_of_mem _ hq
      · exact hq

/-- Of several rows of one patch only the first counts as new, so no id comes twice. -/
theorem newPatches_increasing {h : History π} {batch : List (IncomingPatch π)}
    (hbatch : batch.Pairwise fun a b => ¬ b.id < a.id) :
    (newPatches h batch).Pairwise fun a b => a.id < b.id := by
  induction batch generalizing h with
  | nil => exact List.Pairwise.nil
  | cons first rest ih =>
    obtain ⟨hfirst, hrest⟩ := List.pairwise_cons.mp hbatch
    simp only [newPatches]
    split
    · refine List.pairwise_cons.mpr ⟨fun p hp => ?_, ih hrest⟩
      obtain ⟨hmem, hnone⟩ := mem_newPatches hp
      have hne : p.id ≠ first.id := by
        intro hid
        simp [History.get?_insert, hid] at hnone
      exact OrderedKey.lt_of_not_lt_of_ne (hfirst p hmem) hne
    · exact ih hrest

/-! ## The history after a batch -/

/-- Taking in a batch loses neither patches nor snapshots. -/
theorem extends_insertAll (h : History π) (batch : List (IncomingPatch π)) :
    h.Extends (insertAll h batch) := by
  unfold insertAll
  induction batch generalizing h with
  | nil => exact History.Extends.refl h
  | cons p rest ih => exact (History.extends_insert h p.id p.entry).trans (ih _)

/-- A batch adds its new patches. -/
theorem patches_insertAll (h : History π) (batch : List (IncomingPatch π)) :
    (insertAll h batch).patches =
      (newPatches h batch).foldl (fun m p => m.insert p.id p.entry.patch) h.patches := by
  unfold insertAll
  induction batch generalizing h with
  | nil => rfl
  | cons p rest ih =>
    rw [List.foldl_cons, ih]
    cases hold : h.get? p.id with
    | none => simp [newPatches, hold, History.patches_insert_of_none hold]
    | some old => simp [newPatches, hold, History.patches_insert_of_some hold]

/-- An id is newest if it is greater than all ids of the history. -/
theorem isNewest_iff {h : History π} {id : PatchId} :
    isNewest h id = true ↔ ∀ e ∈ h.patches.entries, e.1 < id := by
  have hmem : (∀ e ∈ h.patches.entries, e.1 < id) ↔ ∀ e ∈ h.entries.entries, e.1 < id :=
    List.forall_mem_map
  rw [hmem, isNewest, History.latest?, SortedMap.last?]
  have hsorted := h.entries.sorted
  generalize h.entries.entries = entries at hsorted
  induction entries using List.reverseRecOn with
  | nil => simp
  | append_singleton entries last =>
    have hlast := (List.pairwise_append.mp hsorted).2.2
    simp only [List.getLast?_concat, Option.map_some, decide_eq_true_eq, List.mem_append,
      List.mem_singleton]
    constructor
    · rintro hlt e (he | rfl)
      · exact OrderedKey.trans (hlast e he last (by simp)) hlt
      · exact hlt
    · exact fun hall => hall last (.inr rfl)

/-- New patches that are all newest stand at the end of the history. -/
theorem entries_insertAll {h : History π} {batch : List (IncomingPatch π)}
    (hbatch : batch.Pairwise fun a b => ¬ b.id < a.id)
    (hnewest : ∀ p ∈ newPatches h batch, isNewest h p.id = true) :
    (insertAll h batch).patches.entries =
      h.patches.entries ++ (newPatches h batch).map fun p => (p.id, p.entry.patch) := by
  have hsorted : (h.patches.entries ++ (newPatches h batch).map fun p =>
      (p.id, p.entry.patch)).Pairwise fun a b => a.1 < b.1 := by
    refine List.pairwise_append.mpr ⟨h.patches.sorted,
      List.pairwise_map.mpr (newPatches_increasing hbatch), fun e he q hq => ?_⟩
    obtain ⟨p, hp, rfl⟩ := List.mem_map.mp hq
    exact isNewest_iff.mp (hnewest p hp) e he
  rw [patches_insertAll, ← SortedMap.entries_foldl_insert h.patches _ hsorted, List.foldl_map]

/-! ## The content after a batch -/

theorem ingest_history (f : Format δ π) (r : Replica δ π) (batch : List (IncomingPatch π)) :
    (ingest f r batch).1.history = insertAll r.history (sortById batch) := by
  simp only [ingest]
  split
  · rfl
  · split
    · rfl
    · split <;> rfl

/-- A new content that is equal to the old one is not taken over. -/
theorem ingest_eqv {f : Format δ π} (hf : f.Lawful) {r : Replica δ π}
    {batch : List (IncomingPatch π)} {doc : δ}
    (hcontent : contentAfter f r (insertAll r.history (sortById batch))
      (newPatches r.history (sortById batch)) = .ok doc)
    (hnews : newPatches r.history (sortById batch) ≠ []) :
    f.eqv (ingest f r batch).1.live doc = true := by
  simp only [ingest, hcontent, List.isEmpty_iff, hnews, if_false]
  split
  · next hsame => exact hf.symm hsame
  · exact hf.refl doc

/-- New patches that are all newest are applied to the content. -/
theorem ingest_newest {f : Format δ π} (hf : f.Lawful) {r : Replica δ π}
    {batch : List (IncomingPatch π)}
    (hnewest : ∀ p ∈ newPatches r.history (sortById batch), isNewest r.history p.id = true) :
    f.eqv (ingest f r batch).1.live
      (f.fold r.live ((newPatches r.history (sortById batch)).map (·.entry.patch))) = true := by
  by_cases hnews : newPatches r.history (sortById batch) = []
  · simp only [ingest, hnews, List.isEmpty_nil, if_true, List.map_nil, Format.fold_nil]
    exact hf.refl r.live
  · refine ingest_eqv hf ?_ hnews
    rw [contentAfter, if_pos (List.all_eq_true.mpr hnewest)]

/-- Otherwise the content is made again from the history. -/
theorem ingest_refold {f : Format δ π} (hf : f.Lawful) {r : Replica δ π}
    {batch : List (IncomingPatch π)} {p : IncomingPatch π} {doc : δ}
    (hp : p ∈ newPatches r.history (sortById batch)) (hold : ¬ isNewest r.history p.id = true)
    (hcontent : (insertAll r.history (sortById batch)).content f none = .ok doc) :
    f.eqv (ingest f r batch).1.live doc = true := by
  refine ingest_eqv hf ?_ (List.ne_nil_of_mem hp)
  rw [contentAfter, if_neg fun hall => hold (List.all_eq_true.mp hall p hp), hcontent]

end Replica

end LiveDocs

import LiveDocs.Proofs.Document.Replica

/-!
# What a history does not depend on

The content of a history is made from the newest snapshot within a bound. Snapshots only save work:
if each of them is the text of the patches up to it, the content up to a time is what the patches
with times up to then make of the empty document (`History.content_of_faithful`). An id within the
last id of a time is one of that time or an earlier one, so ties on time and bounds between two
patches need no care.

A history does not depend on the order of arrival either. Insertion keeps the first patch and the
first snapshot of an id (`Replica.get?_patches_insertAll`, `Replica.snapshot?_insertAll`); if all
deliveries of an id agree, the first one is as good as any other
(`Replica.insertAll_of_same_deliveries`).

## Main definitions

* `History.patchesUntil`: the patches with times up to a time.
* `Replica.Consistent`: deliveries that agree on each id.
-/

namespace LiveDocs

variable {δ π : Type}

namespace History

/-! ## Bounds -/

/-- The patches with times up to a time, all of them if none is given, in the order of their ids. -/
def patchesUntil (h : History π) (time : Option UInt64) : List π :=
  (h.patches.entries.filter fun e => time.all fun t => e.1.time ≤ t).map Prod.snd

theorem within_lastAt (time : Option UInt64) (id : PatchId) :
    within (time.map PatchId.lastAt) id = time.all fun t => id.time ≤ t := by
  cases time with
  | none => rfl
  | some t => simp [within, PatchId.le_lastAt_iff]

theorem replay_eq_fold (f : Format δ π) (h : History π) (time : Option UInt64) :
    h.replay f time = f.fold f.empty (h.patchesUntil time) := by
  rw [replay, upTo_eq_filter]
  simp only [within_lastAt, patchesUntil, patches, SortedMap.map, patchesOf, List.filter_map,
    List.map_map, Function.comp_def]

/-- The entries up to an id that is there end with it. -/
theorem upTo_of_split {h : History π} {front rest : List (PatchId × HistoryEntry π)} {id : PatchId}
    {entry : HistoryEntry π} (hsplit : h.entries.entries = front ++ (id, entry) :: rest) :
    h.upTo (some id) = front ++ [(id, entry)] := by
  have hsorted := h.entries.sorted
  rw [hsplit] at hsorted
  obtain ⟨-, hback, hfront⟩ := List.pairwise_append.mp hsorted
  have hbefore : ∀ e ∈ front, within (some id) e.1 = true := by
    intro e he
    have hlt : e.1 < id := hfront e he (id, entry) List.mem_cons_self
    simpa [within, PatchId.le_iff] using
      fun hgt => OrderedKey.irrefl id (OrderedKey.trans hgt hlt)
  have hself : within (some id) id = true := by
    simpa [within, PatchId.le_iff] using OrderedKey.irrefl id
  have hbehind : rest.takeWhile (fun e => within (some id) e.1) = [] := by
    cases rest with
    | nil => rfl
    | cons e rest =>
      have hlt : id < e.1 := (List.pairwise_cons.mp hback).1 e List.mem_cons_self
      simp [within, PatchId.le_iff, hlt]
  rw [upTo, hsplit, List.takeWhile_append_of_pos hbefore, List.takeWhile_cons, if_pos hself,
    hbehind]

/-! ## Snapshots -/

/-- With snapshots that are read as the patches up to them, the content up to a time is made of the
patches up to then. -/
theorem content_eq_replay {f : Format δ π} {h : History π}
    (hread : ∀ id text, h.snapshot? id = some text →
      f.parse text = .ok (f.fold f.empty (patchesOf (h.upTo (some id)))))
    (time : Option UInt64) : h.content f time = .ok (h.replay f time) := by
  rcases splitAtSnapshot_cases (h.upTo (time.map PatchId.lastAt)) with
    ⟨hnone, -⟩ | ⟨front, id, entry, text, rest, hsome, hupTo, htext, -⟩
  · simp only [content_eq, contentOf, hnone, replay]
  · -- What is within the bound is the beginning of all entries.
    obtain ⟨tail, htail⟩ : h.upTo (time.map PatchId.lastAt) <+: h.entries.entries :=
      List.takeWhile_prefix _
    have hsplit : h.entries.entries = front ++ (id, entry) :: (rest ++ tail) := by
      rw [← htail, hupTo, List.append_assoc, List.cons_append]
    have hget : h.get? id = some entry := SortedMap.get?_eq_some_iff.mpr (by rw [hsplit]; simp)
    have hparse := hread id text (by simp [snapshot?, hget, htext])
    rw [upTo_of_split hsplit] at hparse
    have hfold : f.fold (f.fold f.empty (patchesOf (front ++ [(id, entry)]))) (patchesOf rest) =
        h.replay f time := by
      rw [replay, hupTo, ← Format.fold_append]
      simp [patchesOf]
    simp only [content_eq, contentOf, hsome, hparse, Except.map, hfold]

/-- **Snapshots do not change the content.** If every snapshot is the text of the patches up to it,
the content up to a time is what the patches with times up to then, in order, make of the empty
document. Record sets must be legible where a snapshot is taken of them. -/
theorem content_of_faithful :
    (∀ (h : History TextPatch) (time : Option UInt64), h.Faithful .text →
      h.content .text time = .ok (Format.text.fold [] (h.patchesUntil time))) ∧
    ∀ (primaryKeys : List String) (h : History RecordPatch) (time : Option UInt64),
      h.Faithful (.records primaryKeys) →
      (∀ id text, h.snapshot? id = some text →
        RecordSet.Legible ((Format.records primaryKeys).fold (.empty primaryKeys)
          (patchesOf (h.upTo (some id))))) →
      h.content (.records primaryKeys) time =
        .ok ((Format.records primaryKeys).fold (.empty primaryKeys) (h.patchesUntil time)) := by
  constructor
  · intro h time hfaithful
    have hread : ∀ id text, h.snapshot? id = some text → Format.text.parse text =
        .ok (Format.text.fold Format.text.empty (patchesOf (h.upTo (some id)))) := by
      intro id text htext
      rw [hfaithful id text htext, Format.parse_render_text]
    rw [content_eq_replay hread, replay_eq_fold]
    rfl
  · intro primaryKeys h time hfaithful hlegible
    have hread : ∀ id text, h.snapshot? id = some text → (Format.records primaryKeys).parse text =
        .ok ((Format.records primaryKeys).fold (Format.records primaryKeys).empty
          (patchesOf (h.upTo (some id)))) := by
      intro id text htext
      rw [hfaithful id text htext, Format.parse_render_records rfl (hlegible id text htext)]
    rw [content_eq_replay hread, replay_eq_fold]
    rfl

/-- Two patches of one time, the second with a snapshot of both, and a later one. -/
def tiedTexts : History TextPatch :=
  ⟨.ofList [(⟨5, 1⟩, ⟨[⟨0, [], ['A']⟩], none⟩), (⟨5, 2⟩, ⟨[⟨0, [], ['B']⟩], some "BA"⟩),
    (⟨9, 0⟩, ⟨[⟨0, [], ['C']⟩], none⟩)]⟩

/-- A bound between the patches, for a text and for records. -/
theorem content_of_tiedTexts :
    (tiedTexts.Faithful .text ∧ tiedTexts.content .text (some 7) = .ok ['B', 'A']) ∧
    ((Replica.run (.records ["id"]) Replica.sampleChanges).history.Faithful (.records ["id"]) ∧
      (Replica.run (.records ["id"]) Replica.sampleChanges).history.content (.records ["id"])
        (some 4) = .ok ((Format.records ["id"]).fold (.empty ["id"])
          [[.set (Replica.sampleRecord 2)]])) := by
  have htexts : tiedTexts.Faithful .text := by decide +kernel
  have hrecords : (Replica.run (.records ["id"]) Replica.sampleChanges).history.Faithful
      (.records ["id"]) := by decide +kernel
  refine ⟨⟨htexts, ?_⟩, hrecords, ?_⟩
  · rw [content_of_faithful.1 tiedTexts (some 7) htexts]
    decide +kernel
  · rw [content_of_faithful.2 ["id"] _ (some 4) hrecords Replica.legible_sampleChanges]
    rfl

end History

namespace Replica

/-! ## The order of arrival -/

/-- Deliveries of one id have the same patch, and those with a snapshot the same snapshot. -/
def Consistent (deliveries : List (IncomingPatch π)) : Prop :=
  ∀ p ∈ deliveries, ∀ q ∈ deliveries, p.id = q.id →
    p.entry.patch = q.entry.patch ∧
      ∀ text text', p.entry.snapshot = some text → q.entry.snapshot = some text' → text = text'

/-- The patch of an id is the one that was known, or the first that was delivered. -/
theorem get?_patches_insertAll (h : History π) (deliveries : List (IncomingPatch π))
    (id : PatchId) :
    (insertAll h deliveries).patches.get? id =
      (h.patches.get? id).or
        (deliveries.findSome? fun p => if p.id = id then some p.entry.patch else none) := by
  unfold insertAll
  induction deliveries generalizing h with
  | nil => simp
  | cons p rest ih =>
    rw [List.foldl_cons, ih, History.get?_patches_insert, List.findSome?_cons]
    by_cases hid : p.id = id
    · subst hid
      cases h.patches.get? p.id <;> simp
    · simp [hid, Ne.symm hid]

/-- The snapshot of an id is the one that was known, or the first that was delivered. -/
theorem snapshot?_insertAll (h : History π) (deliveries : List (IncomingPatch π)) (id : PatchId) :
    (insertAll h deliveries).snapshot? id =
      (h.snapshot? id).or
        (deliveries.findSome? fun p => if p.id = id then p.entry.snapshot else none) := by
  unfold insertAll
  induction deliveries generalizing h with
  | nil => simp
  | cons p rest ih =>
    rw [List.foldl_cons, ih, History.snapshot?_insert, List.findSome?_cons]
    by_cases hid : p.id = id
    · subst hid
      cases h.snapshot? p.id <;> cases p.entry.snapshot <;> simp
    · simp [hid, Ne.symm hid]

/-- What is found first does not depend on the order, if all that could be found is the same. -/
theorem findSome?_of_mem_iff {α β : Type} {l l' : List α} {find : α → Option β}
    (hmem : ∀ a, a ∈ l ↔ a ∈ l')
    (hfind : ∀ a ∈ l, ∀ b ∈ l, ∀ x y, find a = some x → find b = some y → x = y) :
    l.findSome? find = l'.findSome? find := by
  cases hl : l.findSome? find with
  | none =>
    rw [List.findSome?_eq_none_iff] at hl
    exact (List.findSome?_eq_none_iff.mpr fun a ha => hl a ((hmem a).mpr ha)).symm
  | some x =>
    obtain ⟨a, ha, hx⟩ := List.exists_of_findSome?_eq_some hl
    cases hl' : l'.findSome? find with
    | none =>
      rw [List.findSome?_eq_none_iff] at hl'
      rw [hl' a ((hmem a).mp ha)] at hx
      cases hx
    | some y =>
      obtain ⟨b, hb, hy⟩ := List.exists_of_findSome?_eq_some hl'
      rw [hfind a ha b ((hmem b).mpr hb) x y hx hy]

theorem insertAll_eq_of_mem_iff {h : History π} {deliveries deliveries' : List (IncomingPatch π)}
    (hconsistent : Consistent deliveries) (hmem : ∀ p, p ∈ deliveries ↔ p ∈ deliveries') :
    insertAll h deliveries = insertAll h deliveries' := by
  refine History.ext_patches (fun id => ?_) fun id => ?_
  · rw [get?_patches_insertAll, get?_patches_insertAll, findSome?_of_mem_iff hmem]
    intro p hp q hq x y hx hy
    simp only [Option.ite_none_right_eq_some, Option.some.injEq] at hx hy
    obtain ⟨rfl, rfl⟩ := hx
    obtain ⟨hid, rfl⟩ := hy
    exact (hconsistent p hp q hq hid.symm).1
  · rw [snapshot?_insertAll, snapshot?_insertAll, findSome?_of_mem_iff hmem]
    intro p hp q hq x y hx hy
    simp only [Option.ite_none_right_eq_some] at hx hy
    obtain ⟨rfl, hx⟩ := hx
    obtain ⟨hid, hy⟩ := hy
    exact (hconsistent p hp q hq hid.symm).2 x y hx hy

/-- **A history does not depend on the order of arrival.** The same consistent deliveries, in any
order and with any repetitions, make the same history of a history, with the same content up to any
time; and neither an insertion nor a snapshot ever changes a patch or a snapshot that is there. -/
theorem insertAll_of_same_deliveries :
    (∀ (h : History π) (deliveries deliveries' : List (IncomingPatch π)),
      Consistent deliveries → (∀ p, p ∈ deliveries ↔ p ∈ deliveries') →
      insertAll h deliveries = insertAll h deliveries' ∧
        ∀ (f : Format δ π) (time : Option UInt64),
          (insertAll h deliveries).content f time = (insertAll h deliveries').content f time) ∧
    (∀ (h : History π) (id : PatchId) (e : HistoryEntry π), h.Extends (h.insert id e)) ∧
    ∀ (h : History π) (id : PatchId) (text : String), h.Extends (h.setSnapshot id text) := by
  refine ⟨fun h deliveries deliveries' hconsistent hmem => ?_, History.extends_insert,
    History.extends_setSnapshot⟩
  have hsame : insertAll h deliveries = insertAll h deliveries' :=
    insertAll_eq_of_mem_iff hconsistent hmem
  refine ⟨hsame, fun f time => ?_⟩
  rw [hsame]

/-- A patch as it is seen first, without its snapshot. -/
def bareRow : IncomingPatch TextPatch := ⟨⟨5, 1⟩, [⟨0, [], ['A']⟩], none⟩

/-- The same patch with its snapshot. -/
def fullRow : IncomingPatch TextPatch := ⟨⟨5, 1⟩, [⟨0, [], ['A']⟩], some "A"⟩

/-- A later patch. -/
def laterRow : IncomingPatch TextPatch := ⟨⟨9, 0⟩, [⟨0, [], ['B']⟩], none⟩

theorem consistent_rows : Consistent [bareRow, fullRow, laterRow] := by
  intro p hp q hq hid
  simp only [List.mem_cons, List.not_mem_nil, or_false] at hp hq
  rcases hp with rfl | rfl | rfl <;> rcases hq with rfl | rfl | rfl <;>
    simp_all [bareRow, fullRow, laterRow]

/-- The snapshot may come before or behind the bare patch, and rows may come twice. -/
theorem insertAll_rows :
    Consistent [bareRow, fullRow, laterRow] ∧
      (insertAll .empty [bareRow, fullRow, laterRow]).snapshot? ⟨5, 1⟩ = some "A" ∧
      insertAll .empty [bareRow, fullRow, laterRow] =
        insertAll .empty [laterRow, fullRow, laterRow, bareRow] ∧
      (insertAll .empty [bareRow, fullRow, laterRow]).content .text (some 7) =
        (insertAll .empty [laterRow, fullRow, laterRow, bareRow]).content .text (some 7) := by
  obtain ⟨hsame, hcontent⟩ := insertAll_of_same_deliveries.1 .empty
    [bareRow, fullRow, laterRow] [laterRow, fullRow, laterRow, bareRow] consistent_rows
    fun p => by simp only [List.mem_cons, List.not_mem_nil]; tauto
  exact ⟨consistent_rows, by decide +kernel, hsame, hcontent .text (some 7)⟩

end Replica

end LiveDocs

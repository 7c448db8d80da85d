import LiveDocs.Proofs.Document.Format
import LiveDocs.History
import Mathlib.Data.List.TakeWhile

/-!
# Patches and snapshots of a history

A history is its patches by id and the snapshots of some of them. Inserting a patch that is known
leaves the patches as they are and at most adds a snapshot; nothing is ever lost
(`History.Extends`).

The content is found by scans: one from the end for the newest snapshot, one from there on for the
patches behind it. Together they see what a single cut at the bound leaves (`History.content_eq`),
so the content is that of the newest snapshot with all later patches applied
(`History.content_cases`).

## Main definitions

* `History.patches`, `History.snapshot?`: the patches by id, and the snapshot of a patch.
* `History.patchesAfter`: the patches behind a place.
* `History.Extends`: the relation of a history to what it grows into.
* `History.contentOf`: the content that some entries make.

## Main results

* `History.nearestSnapshot?_cases`: what the search for a snapshot finds.
* `History.content_eq`: the content in one cut.
-/

namespace LiveDocs

theorem PatchId.le_lastAt_iff {id : PatchId} {time : UInt64} :
    id ≤ lastAt time ↔ id.time ≤ time := by
  rw [le_iff, lt_iff]
  have huser : ¬ (0xffffffff : UInt32) < id.user := by
    have hmax := id.user.toNat_lt
    rw [UInt32.lt_iff_toNat_lt, show (0xffffffff : UInt32).toNat = 0xffffffff from rfl]
    omega
  simp [lastAt, huser]

/-- No id is greater than the greatest one. -/
theorem PatchId.le_last (id : PatchId) : id ≤ last := by
  refine le_lastAt_iff.mpr (UInt64.le_iff_toNat_le.mpr ?_)
  have hmax := id.time.toNat_lt
  rw [show (0xffffffffffffffff : UInt64).toNat = 0xffffffffffffffff from rfl]
  omega

namespace History

variable {δ π : Type}

/-- The patches by id. -/
def patches (h : History π) : SortedMap PatchId π := h.entries.map fun _ e => e.patch

/-- The snapshot that a patch carries. -/
def snapshot? (h : History π) (id : PatchId) : Option String := (h.get? id).bind (·.snapshot)

/-- The patches behind a place, all of them if none is given. -/
def patchesAfter (h : History π) : Option PatchId → List π
  | none => h.patches.values
  | some id => (h.patches.entries.filter fun e => id < e.1).map Prod.snd

@[simp] theorem get?_patches (h : History π) (id : PatchId) :
    h.patches.get? id = (h.get? id).map (·.patch) := SortedMap.get?_map h.entries _ id

@[simp] theorem get?_empty (id : PatchId) : (empty : History π).get? id = none := rfl

theorem ext_get? {h h' : History π} (hget : ∀ id, h.get? id = h'.get? id) : h = h' := by
  have hentries : h.entries = h'.entries := SortedMap.ext_get? hget
  cases h
  cases h'
  simpa using hentries

/-- A history is its patches and their snapshots. -/
theorem ext_patches {h h' : History π} (hpatches : ∀ id, h.patches.get? id = h'.patches.get? id)
    (hsnapshots : ∀ id, h.snapshot? id = h'.snapshot? id) : h = h' := by
  refine ext_get? fun id => ?_
  have hpatch := hpatches id
  have hsnapshot := hsnapshots id
  rw [get?_patches, get?_patches] at hpatch
  cases hget : h.get? id with
  | none =>
    rw [hget, Option.map_none, eq_comm, Option.map_eq_none_iff] at hpatch
    exact hpatch.symm
  | some e =>
    rw [hget, Option.map_some, eq_comm] at hpatch
    obtain ⟨e', he', hsame⟩ := Option.map_eq_some_iff.mp hpatch
    have hsame' : e.snapshot = e'.snapshot := by simpa [snapshot?, hget, he'] using hsnapshot
    rw [he']
    cases e
    cases e'
    simp_all

/-! ## Inserting -/

theorem get?_insert (h : History π) (id id' : PatchId) (e : HistoryEntry π) :
    (h.insert id e).get? id' =
      if id' = id then
        some (match h.get? id with
          | none => e
          | some old => { old with snapshot := old.snapshot.or e.snapshot })
      else h.get? id' := by
  unfold insert
  cases hold : h.get? id with
  | none => exact SortedMap.get?_insert h.entries id id' e
  | some old =>
    obtain ⟨patch, snapshot⟩ := old
    cases snapshot with
    | none =>
      cases hnew : e.snapshot with
      | none =>
        by_cases hid : id' = id
        · simp [hid, hold]
        · simp [hid]
      | some text => exact SortedMap.get?_insert h.entries id id' _
    | some text =>
      by_cases hid : id' = id
      · simp [hid, hold]
      · simp [hid]

theorem snapshot?_insert (h : History π) (id id' : PatchId) (e : HistoryEntry π) :
    (h.insert id e).snapshot? id' =
      if id' = id then (h.snapshot? id).or e.snapshot else h.snapshot? id' := by
  rw [snapshot?, get?_insert]
  split
  · cases hold : h.get? id <;> simp [snapshot?, hold]
  · rfl

theorem get?_patches_insert (h : History π) (id id' : PatchId) (e : HistoryEntry π) :
    (h.insert id e).patches.get? id' =
      if id' = id then (h.patches.get? id).or (some e.patch) else h.patches.get? id' := by
  rw [get?_patches, get?_insert]
  split
  · rw [get?_patches]
    cases h.get? id <;> rfl
  · rw [get?_patches]

/-- A patch that is not known yet is added. -/
theorem patches_insert_of_none {h : History π} {id : PatchId} (hid : h.get? id = none)
    (e : HistoryEntry π) : (h.insert id e).patches = h.patches.insert id e.patch := by
  have hnone : h.patches.get? id = none := by simp [hid]
  refine SortedMap.ext_get? fun id' => ?_
  rw [get?_patches_insert, SortedMap.get?_insert, hnone, Option.none_or]

/-- A patch that is known stays as it is. -/
theorem patches_insert_of_some {h : History π} {id : PatchId} {old : HistoryEntry π}
    (hid : h.get? id = some old) (e : HistoryEntry π) : (h.insert id e).patches = h.patches := by
  have hsome : h.patches.get? id = some old.patch := by simp [hid]
  refine SortedMap.ext_get? fun id' => ?_
  rw [get?_patches_insert, hsome, Option.some_or]
  split
  · next hsame => rw [hsame, hsome]
  · rfl

theorem get?_setSnapshot (h : History π) (id id' : PatchId) (text : String) :
    (h.setSnapshot id text).get? id' =
      if id' = id then
        (h.get? id).map fun old => { old with snapshot := old.snapshot.or (some text) }
      else h.get? id' := by
  unfold setSnapshot
  cases hold : h.get? id with
  | none =>
    by_cases hid : id' = id
    · simp [hid, hold]
    · simp [hid]
  | some old =>
    obtain ⟨patch, snapshot⟩ := old
    cases snapshot with
    | none => exact SortedMap.get?_insert h.entries id id' _
    | some text' =>
      by_cases hid : id' = id
      · simp [hid, hold]
      · simp [hid]

theorem patches_setSnapshot (h : History π) (id : PatchId) (text : String) :
    (h.setSnapshot id text).patches = h.patches := by
  refine SortedMap.ext_get? fun id' => ?_
  rw [get?_patches, get?_setSnapshot, get?_patches]
  split
  · next hsame => cases hold : h.get? id <;> simp [hsame, hold]
  · rfl

/-! ## Growing -/

/-- A history grows into another that keeps its patches and their snapshots. -/
structure Extends (h h' : History π) : Prop where
  patches : ∀ {id p}, h.patches.get? id = some p → h'.patches.get? id = some p
  snapshots : ∀ {id text}, h.snapshot? id = some text → h'.snapshot? id = some text

theorem Extends.refl (h : History π) : h.Extends h := ⟨id, id⟩

theorem Extends.trans {h h' h'' : History π} (hh : h.Extends h') (hh' : h'.Extends h'') :
    h.Extends h'' :=
  ⟨fun hp => hh'.patches (hh.patches hp), fun ht => hh'.snapshots (hh.snapshots ht)⟩

theorem extends_insert (h : History π) (id : PatchId) (e : HistoryEntry π) :
    h.Extends (h.insert id e) := by
  refine ⟨fun {id' p} hp => ?_, fun {id' text} ht => ?_⟩
  · cases hold : h.get? id with
    | none =>
      have hne : id' ≠ id := by
        rintro rfl
        simp [hold] at hp
      rw [patches_insert_of_none hold, SortedMap.get?_insert, if_neg hne, hp]
    | some old => rw [patches_insert_of_some hold, hp]
  · rw [snapshot?_insert]
    split
    · next hsame =>
      subst hsame
      simp [ht]
    · exact ht

theorem extends_setSnapshot (h : History π) (id : PatchId) (text : String) :
    h.Extends (h.setSnapshot id text) := by
  refine ⟨fun hp => by rw [patches_setSnapshot, hp], fun {id' text'} ht => ?_⟩
  rw [snapshot?, get?_setSnapshot]
  split
  · next hsame =>
    subst hsame
    obtain ⟨old, hold, hsnapshot⟩ := Option.bind_eq_some_iff.mp ht
    simp [hold, hsnapshot]
  · exact ht

/-! ## The content -/

theorem values_patches (h : History π) : h.patches.values = patchesOf h.entries.entries := by
  simp [patches, SortedMap.values, SortedMap.map, patchesOf, Function.comp_def]

@[simp] theorem upTo_none (h : History π) : h.upTo none = h.entries.entries :=
  List.takeWhile_eq_self_iff.mpr fun _ _ => rfl

theorem replay_none (f : Format δ π) (h : History π) :
    h.replay f none = f.fold f.empty h.patches.values := by
  rw [replay, Option.map_none, upTo_none, values_patches]

theorem patchesAfter_some (h : History π) (id : PatchId) :
    h.patchesAfter (some id) = patchesOf (h.entries.entries.filter fun e => id < e.1) := by
  simp [patchesAfter, patches, SortedMap.map, patchesOf, List.filter_map, Function.comp_def]

/-- Behind an entry stands what follows it. -/
theorem filter_lt_of_sorted {α : Type} {front rest : List (PatchId × α)} {id : PatchId} {x : α}
    (h : (front ++ (id, x) :: rest).Pairwise fun a b => a.1 < b.1) :
    (front ++ (id, x) :: rest).filter (fun e => id < e.1) = rest := by
  obtain ⟨-, hback, hfront⟩ := List.pairwise_append.mp h
  have hbefore : front.filter (fun e => id < e.1) = [] :=
    List.filter_eq_nil_iff.mpr fun e he => by
      have hlt : e.1 < id := hfront e he (id, x) List.mem_cons_self
      simpa using fun hgt => OrderedKey.irrefl id (OrderedKey.trans hgt hlt)
  have hbehind : rest.filter (fun e => id < e.1) = rest :=
    List.filter_eq_self.mpr fun e he => by simpa using (List.pairwise_cons.mp hback).1 e he
  have hself : ¬ id < id := OrderedKey.irrefl id
  simp [List.filter_append, hbefore, hbehind, hself]

/-- The patches up to a place and those behind it are all patches. -/
theorem patchesOf_upTo_append (h : History π) (id : PatchId) :
    patchesOf (h.upTo (some id)) ++ h.patchesAfter (some id) = h.patches.values := by
  have hsplit : ∀ l : List (PatchId × HistoryEntry π), l.Pairwise (fun a b => a.1 < b.1) →
      l.takeWhile (fun e => within (some id) e.1) ++ l.filter (fun e => id < e.1) = l := by
    intro l
    induction l with
    | nil => intro _; rfl
    | cons e l ih =>
      intro hl
      obtain ⟨hhead, htail⟩ := List.pairwise_cons.mp hl
      by_cases he : id < e.1
      · -- All entries stand behind the place.
        have hall : ∀ e' ∈ l, id < e'.1 := fun e' he' => OrderedKey.trans he (hhead e' he')
        have hfilter : l.filter (fun e' => decide (id < e'.1)) = l :=
          List.filter_eq_self.mpr fun e' he' => by simpa using hall e' he'
        simp [within, PatchId.le_iff, he, hfilter]
      · simpa [within, PatchId.le_iff, he] using ih htail
  rw [values_patches, patchesAfter_some, patchesOf, patchesOf, ← List.map_append]
  exact congrArg patchesOf (hsplit h.entries.entries h.entries.sorted)

/-- In sorted entries, those up to a bound come first. -/
theorem upTo_eq_filter (h : History π) (bound : Option PatchId) :
    h.upTo bound = h.entries.entries.filter fun e => within bound e.1 := by
  have hprefix : ∀ l : List (PatchId × HistoryEntry π), l.Pairwise (fun a b => a.1 < b.1) →
      l.takeWhile (fun e => within bound e.1) = l.filter fun e => within bound e.1 := by
    intro l
    induction l with
    | nil => intro _; rfl
    | cons e l ih =>
      intro hl
      obtain ⟨hhead, htail⟩ := List.pairwise_cons.mp hl
      by_cases he : within bound e.1 = true
      · simp [he, ih htail]
      · -- An id behind one that is out of bounds is out of bounds.
        have hnone : l.filter (fun e => within bound e.1) = [] := by
          refine List.filter_eq_nil_iff.mpr fun e' he' hin => he ?_
          cases bound with
          | none => rfl
          | some b =>
            simp only [within, decide_eq_true_eq, PatchId.le_iff] at hin ⊢
            exact fun hlt => hin (OrderedKey.trans hlt (hhead e' he'))
        simp [he, hnone]
  exact hprefix h.entries.entries h.entries.sorted

/-! ## Scanning -/

/-- An id is within a bound if it is none greater than the bound, or than the greatest id. -/
theorem within_eq (bound : Option PatchId) (id : PatchId) :
    within bound id = decide ¬ bound.getD .last < id := by
  cases bound with
  | none => simpa [within] using PatchId.le_iff.mp id.le_last
  | some b => rfl

/-- The search range of a bound is what a scan from the front takes. -/
theorem rangeTo_eq_upTo (h : History π) (bound : Option PatchId) :
    h.entries.rangeTo (bound.getD .last) = h.upTo bound := by
  rw [upTo_eq_filter, SortedMap.rangeTo]
  simp only [within_eq]

/-- From an entry on there is the entry and what follows it. -/
theorem rangeFrom_of_split {h : History π} {front rest : List (PatchId × HistoryEntry π)}
    {id : PatchId} {entry : HistoryEntry π}
    (hsplit : h.entries.entries = front ++ (id, entry) :: rest) :
    h.entries.rangeFrom id = (id, entry) :: rest := by
  have hsorted := h.entries.sorted
  rw [hsplit] at hsorted
  obtain ⟨-, hback, hfront⟩ := List.pairwise_append.mp hsorted
  have hbefore : front.filter (fun e => ¬ e.1 < id) = [] :=
    List.filter_eq_nil_iff.mpr fun e he => by
      simpa using hfront e he (id, entry) List.mem_cons_self
  have hbehind : rest.filter (fun e => ¬ e.1 < id) = rest := by
    refine List.filter_eq_self.mpr fun e he => ?_
    have hlt : id < e.1 := (List.pairwise_cons.mp hback).1 e he
    simpa using fun hgt => OrderedKey.irrefl id (OrderedKey.trans hlt hgt)
  have hself : ¬ id < id := OrderedKey.irrefl id
  rw [SortedMap.rangeFrom, hsplit, List.filter_append, hbefore, List.nil_append,
    List.filter_cons_of_pos (by simpa using hself), hbehind]

/-- Of some entries the last one with a snapshot, and what follows it. -/
def splitAtSnapshot : List (PatchId × HistoryEntry π) →
    Option (PatchId × String × List (PatchId × HistoryEntry π))
  | [] => none
  | (id, entry) :: rest =>
    match splitAtSnapshot rest with
    | some found => some found
    | none => entry.snapshot.map fun text => (id, text, rest)

/-- The content that some entries make. The last snapshot replaces the patches up to it. -/
def contentOf (f : Format δ π) (entries : List (PatchId × HistoryEntry π)) :
    Except DocumentError δ :=
  match splitAtSnapshot entries with
  | none => .ok (f.fold f.empty (patchesOf entries))
  | some (_, text, rest) => (f.parse text).map fun base => f.fold base (patchesOf rest)

/-- The last entry with a snapshot, and what follows it. -/
theorem splitAtSnapshot_cases (l : List (PatchId × HistoryEntry π)) :
    (splitAtSnapshot l = none ∧ ∀ e ∈ l, e.2.snapshot = none) ∨
      ∃ front id entry text rest, splitAtSnapshot l = some (id, text, rest) ∧
        l = front ++ (id, entry) :: rest ∧ entry.snapshot = some text ∧
        ∀ e ∈ rest, e.2.snapshot = none := by
  induction l with
  | nil => exact .inl ⟨rfl, by simp⟩
  | cons e l ih =>
    obtain ⟨id, entry⟩ := e
    rcases ih with ⟨hnone, hl⟩ | ⟨front, id', entry', text, rest, hsome, hl, htext, hrest⟩
    · cases hentry : entry.snapshot with
      | none => exact .inl ⟨by simp [splitAtSnapshot, hnone, hentry], by simpa [hentry] using hl⟩
      | some text =>
        exact .inr ⟨[], id, entry, text, l, by simp [splitAtSnapshot, hnone, hentry], rfl, hentry,
          hl⟩
    · exact .inr ⟨(id, entry) :: front, id', entry', text, rest, by simp [splitAtSnapshot, hsome],
        by rw [hl, List.cons_append], htext, hrest⟩

/-- **The search for a snapshot** goes from the end of what is within the bound, so it finds the
last one there, and a scan that begins behind it ends where the bound does. -/
theorem nearestSnapshot?_cases (h : History π) (bound : Option PatchId) :
    (h.nearestSnapshot? bound = none ∧ splitAtSnapshot (h.upTo bound) = none) ∨
      ∃ id entry text rest, h.nearestSnapshot? bound = some (id, entry) ∧
        entry.snapshot = some text ∧ splitAtSnapshot (h.upTo bound) = some (id, text, rest) ∧
        ((h.entries.rangeFrom id).drop 1).takeWhile (fun e => within bound e.1) = rest := by
  rw [nearestSnapshot?, rangeTo_eq_upTo]
  rcases splitAtSnapshot_cases (h.upTo bound) with
    ⟨hnone, hall⟩ | ⟨front, id, entry, text, rest, hsome, hupTo, htext, hrest⟩
  · refine .inl ⟨List.find?_eq_none.mpr fun e he => ?_, hnone⟩
    simp [hall e (List.mem_reverse.mp he)]
  · have hnoneBehind : (rest.reverse.find? fun e => e.2.snapshot.isSome) = none :=
      List.find?_eq_none.mpr fun e he => by simp [hrest e (List.mem_reverse.mp he)]
    refine .inr ⟨id, entry, text, rest, ?_, htext, hsome, ?_⟩
    · rw [hupTo]
      simp [List.find?_append, hnoneBehind, htext]
    · -- The scan of all entries passes the snapshot and stops at the same place.
      have hwithin : ∀ e ∈ h.upTo bound, within bound e.1 = true := fun e he => by
        simpa using List.mem_takeWhile_imp he
      rw [hupTo] at hwithin
      obtain ⟨tail, htail⟩ : h.upTo bound <+: h.entries.entries := List.takeWhile_prefix _
      have hsplit : h.entries.entries = front ++ (id, entry) :: (rest ++ tail) := by
        rw [← htail, hupTo, List.append_assoc, List.cons_append]
      have hscan : h.upTo bound = front ++
          (id, entry) :: (rest ++ tail).takeWhile fun e => within bound e.1 := by
        rw [upTo, hsplit, List.takeWhile_append_of_pos fun e he => hwithin e (by simp [he]),
          List.takeWhile_cons, if_pos (hwithin (id, entry) (by simp))]
      rw [rangeFrom_of_split hsplit, List.drop_one, List.tail_cons]
      rw [hupTo] at hscan
      exact (List.cons_inj_right _).mp (List.append_cancel_left hscan.symm)

/-- **The content in one cut.** The scans together see what is within the bound, and nothing
else. -/
theorem content_eq (f : Format δ π) (h : History π) (time : Option UInt64) :
    h.content f time = contentOf f (h.upTo (time.map PatchId.lastAt)) := by
  unfold content contentOf
  rcases h.nearestSnapshot?_cases (time.map PatchId.lastAt) with
    ⟨hnone, hsplit⟩ | ⟨id, entry, text, rest, hsome, htext, hsplit, hrest⟩
  · simp only [hnone, hsplit]
  · simp only [hsome, hsplit, htext, hrest, Option.getD_some]
    cases f.parse text <;> rfl

theorem sinceSnapshot_eq_size {h : History π} (hnone : splitAtSnapshot h.entries.entries = none) :
    h.sinceSnapshot = h.size := by
  rw [← upTo_none] at hnone
  rcases h.nearestSnapshot?_cases none with ⟨hfound, -⟩ | ⟨id, entry, text, rest, -, -, hsplit, -⟩
  · rw [sinceSnapshot, hfound]
  · cases hnone.symm.trans hsplit

/-- The number of patches behind the newest snapshot, in one cut. -/
theorem sinceSnapshot_eq_length {h : History π} {id : PatchId} {text : String}
    {rest : List (PatchId × HistoryEntry π)}
    (hsome : splitAtSnapshot h.entries.entries = some (id, text, rest)) :
    h.sinceSnapshot = rest.length := by
  rw [← upTo_none] at hsome
  rcases h.nearestSnapshot?_cases none with
    ⟨-, hsplit⟩ | ⟨id', entry, text', rest', hfound, -, hsplit, hrest⟩
  · cases hsome.symm.trans hsplit
  · cases hsome.symm.trans hsplit
    have hall : rest = (h.entries.rangeFrom id).drop 1 :=
      hrest.symm.trans (List.takeWhile_eq_self_iff.mpr fun _ _ => rfl)
    simp only [sinceSnapshot, hfound, hall, List.length_drop]

/-- The content is made from the newest snapshot and the patches behind it, or from all patches if
there are no snapshots. -/
theorem content_cases (f : Format δ π) (h : History π) :
    ((∀ id, h.snapshot? id = none) ∧ h.content f none = .ok (h.replay f none)) ∨
      ∃ id text, h.snapshot? id = some text ∧ (∀ id', id < id' → h.snapshot? id' = none) ∧
        h.content f none =
          (f.parse text).map fun base => f.fold base (h.patchesAfter (some id)) := by
  have hmem : ∀ {id text}, h.snapshot? id = some text →
      ∃ e ∈ h.entries.entries, e.1 = id ∧ e.2.snapshot = some text := by
    intro id text ht
    obtain ⟨e, he, hsnapshot⟩ := Option.bind_eq_some_iff.mp ht
    exact ⟨(id, e), SortedMap.get?_eq_some_iff.mp he, rfl, hsnapshot⟩
  rcases splitAtSnapshot_cases h.entries.entries with
    ⟨hnone, hall⟩ | ⟨front, id, entry, text, rest, hsome, hl, htext, hrest⟩
  · refine .inl ⟨fun id => Option.eq_none_iff_forall_ne_some.mpr fun text ht => ?_, ?_⟩
    · obtain ⟨e, he, -, hsnapshot⟩ := hmem ht
      simp [hall e he] at hsnapshot
    · simp [content_eq, contentOf, hnone, replay]
  · have hrestEq : h.entries.entries.filter (fun e => id < e.1) = rest := by
      rw [hl]
      exact filter_lt_of_sorted (hl ▸ h.entries.sorted)
    have hget : h.get? id = some entry := SortedMap.get?_eq_some_iff.mpr (by rw [hl]; simp)
    refine .inr ⟨id, text, by simp [snapshot?, hget, htext], fun id' hid => ?_, ?_⟩
    · refine Option.eq_none_iff_forall_ne_some.mpr fun text' ht => ?_
      obtain ⟨e, he, rfl, hsnapshot⟩ := hmem ht
      have hin : e ∈ rest := hrestEq ▸ List.mem_filter.mpr ⟨he, by simpa using hid⟩
      simp [hrest e hin] at hsnapshot
    · rw [patchesAfter_some, hrestEq]
      simp only [content_eq, contentOf, Option.map_none, upTo_none, hsome]

end History

end LiveDocs

import LiveDocs.Proofs.Text.Compaction
import LiveDocs.Proofs.Text.Patch
import LiveDocs.Text.Diff

/-!
# When the patch from one text to another makes the other text

The hunks of a diff stand for sites that lead from the old text to the new one
(`TextPatch.path_sites`), so the patch is right but for its positions. A hunk that deletes
something stands where its site is. A hunk that only inserts stands where the insertion was before
deletions moved past it, and the text it makes depends on whether it still lands. The patch from
`ab` to `bba` makes `bab` of `ab`.

## Main definitions

* `TextPatch.sites`: the hunks of a diff with the positions they stand for.

## Main results

* `TextPatch.path_sites`: the sites lead from the old text to the new one.
* `TextPatch.apply_diff_iff_lands`: when the patch makes the new text.
-/

namespace LiveDocs

namespace TextPatch

/-! ## Sites of a script -/

/-- The number of characters of an operation that may be absent. -/
def span (e : Option Edit) : Nat := (e.map Edit.length).getD 0

/-- The sites of a script, given what was collected since the last kept run and the positions at
which that begins. -/
def sitesFrom (a b : Array Char) (i j : Nat) (deletion insertion : Option Edit) :
    List Edit → List Site
  | [] => (hunkOf a b deletion insertion).map (Site.mk i j)
  | e :: rest =>
    match e.tag with
    | .keep => (hunkOf a b deletion insertion).map (Site.mk i j) ++
        sitesFrom a b (i + span deletion + e.length) (j + span insertion + e.length) none none rest
    | .delete => sitesFrom a b i j (join deletion e) insertion rest
    | .insert => sitesFrom a b i j deletion (join insertion e) rest

/-- The hunks of the diff of two texts with the positions they stand for. -/
def sites (a b : List Char) : List Site :=
  sitesFrom a.toArray b.toArray 0 0 none none
    (Edit.compact a.toArray b.toArray (Edit.script a.toArray b.toArray))

theorem map_hunk_sitesFrom (a b : Array Char) (i j : Nat) (deletion insertion : Option Edit)
    (script : List Edit) :
    (sitesFrom a b i j deletion insertion script).map Site.hunk =
      ofScriptFrom a b deletion insertion script := by
  induction script generalizing i j deletion insertion with
  | nil => simp [sitesFrom, ofScriptFrom, Function.comp_def]
  | cons e rest ih =>
    cases htag : e.tag <;> simp [sitesFrom, ofScriptFrom, htag, ih, Function.comp_def]

theorem map_hunk_sites (a b : List Char) : (sites a b).map Site.hunk = diff a b :=
  map_hunk_sitesFrom _ _ _ _ _ _ _

theorem span_join (collected : Option Edit) (e : Edit) :
    span (join collected e) = span collected + e.length := by
  cases collected <;> simp [span, join]

/-- The characters of a run that covers a range. -/
theorem toList_extract_eq (a : Array Char) (i n : Nat) :
    (a.extract i (i + n)).toList = (a.toList.drop i).take n := by
  rw [Array.toList_extract, List.extract_eq_take_drop, Nat.add_sub_cancel_left]

theorem take_drop_eq {a b : Array Char} {i j n : Nat} (h : ∀ k < n, a[i + k]? = b[j + k]?) :
    (a.toList.drop i).take n = (b.toList.drop j).take n := by
  refine List.ext_getElem? fun k => ?_
  by_cases hk : k < n
  · rw [List.getElem?_take_of_lt hk, List.getElem?_take_of_lt hk, List.getElem?_drop,
      List.getElem?_drop, Array.getElem?_toList, Array.getElem?_toList, h k hk]
  · rw [List.getElem?_take, List.getElem?_take, if_neg hk, if_neg hk]

/-! ## The sites lead to the new text -/

/-- What was collected since the last kept run: deletions begin where it ends in the old text, and
insertions where it ends in the new one. -/
structure Collected (i j : Nat) (deletion insertion : Option Edit) : Prop where
  old : ∀ {d}, deletion = some d → d.old = i
  new : ∀ {e}, insertion = some e → e.new = j

theorem Collected.none (i j : Nat) : Collected i j none none :=
  ⟨nofun, nofun⟩

/-- A deletion that follows those collected joins them. -/
theorem Collected.join_delete {i j new n : Nat} {deletion insertion : Option Edit}
    (h : Collected i j deletion insertion) :
    Collected i j (join deletion ⟨.delete, i + span deletion, new, n⟩) insertion := by
  refine ⟨fun hd => ?_, h.new⟩
  cases deletion with
  | none =>
    cases hd
    rfl
  | some first =>
    cases hd
    have hold : first.old = i := h.old rfl
    exact hold

/-- An insertion that follows those collected joins them. -/
theorem Collected.join_insert {i j old n : Nat} {deletion insertion : Option Edit}
    (h : Collected i j deletion insertion) :
    Collected i j deletion (join insertion ⟨.insert, old, j + span insertion, n⟩) := by
  refine ⟨h.old, fun he => ?_⟩
  cases insertion with
  | none =>
    cases he
    rfl
  | some first =>
    cases he
    have hnew : first.new = j := h.new rfl
    exact hnew

/-- The hunk of what was collected, if there is something. It stands where the deletion begins; only
without a deletion it may stand elsewhere. -/
theorem hunkOf_eq {a b : Array Char} {i j : Nat} {deletion insertion : Option Edit}
    (h : Collected i j deletion insertion) :
    hunkOf a b deletion insertion = [] ∧ span deletion = 0 ∧ span insertion = 0 ∨
      ∃ start, hunkOf a b deletion insertion =
          [⟨start, (a.toList.drop i).take (span deletion),
            (b.toList.drop j).take (span insertion)⟩] ∧
        (span deletion ≠ 0 → start = UInt64.ofNat i) := by
  cases deletion with
  | none =>
    cases insertion with
    | none => exact .inl ⟨rfl, rfl, rfl⟩
    | some e =>
      refine .inr ⟨UInt64.ofNat e.old, ?_, fun hspan => absurd rfl hspan⟩
      simp only [hunkOf, toList_extract_eq, h.new rfl]
      rfl
  | some d =>
    refine .inr ⟨UInt64.ofNat i, ?_, fun _ => rfl⟩
    cases insertion with
    | none =>
      simp only [hunkOf, toList_extract_eq, h.old rfl]
      rfl
    | some e =>
      simp only [hunkOf, toList_extract_eq, h.old rfl, h.new rfl]
      rfl

/-- What was collected is a step of a path, or nothing but kept characters lie behind. -/
theorem Path.of_collected {a b : Array Char} {i j n i₀ j₀ : Nat} {deletion insertion : Option Edit}
    (ha : a.size ≤ 0x7fffffffffffffff) (hc : Collected i j deletion insertion)
    (hi : i = i₀ + n) (hj : j = j₀ + n)
    (hkept : (a.toList.drop i₀).take n = (b.toList.drop j₀).take n)
    (hdelete : i + span deletion ≤ a.size) (hinsert : j + span insertion ≤ b.size)
    {rest : List Site}
    (h : ∀ i₁ j₁ m, i + span deletion = i₁ + m → j + span insertion = j₁ + m →
      (a.toList.drop i₁).take m = (b.toList.drop j₁).take m → Path a.toList b.toList i₁ j₁ rest) :
    Path a.toList b.toList i₀ j₀ ((hunkOf a b deletion insertion).map (Site.mk i j) ++ rest) := by
  rcases hunkOf_eq (a := a) (b := b) hc with ⟨hnone, hd, hn⟩ | ⟨start, hhunk, hstart⟩
  · rw [hnone]
    exact h i₀ j₀ n (by omega) (by omega) hkept
  · have hdeleted : ((a.toList.drop i).take (span deletion)).length = span deletion := by
      rw [List.length_take, List.length_drop, Array.length_toList]
      omega
    have hinserted : ((b.toList.drop j).take (span insertion)).length = span insertion := by
      rw [List.length_take, List.length_drop, Array.length_toList]
      omega
    rw [hhunk]
    refine .cons hi hj hkept (by simp only [hdeleted]) (by simp only [hinserted]) ?_ ?_
    · intro hne
      have hspan : span deletion ≠ 0 := fun hzero => hne (by simp [hzero])
      simp only [hstart hspan]
      exact UInt64.toNat_ofNat_of_lt' (by simp only [UInt64.size]; omega)
    · simp only [hdeleted, hinserted]
      exact h (i + span deletion) (j + span insertion) 0 rfl rfl (by simp)

/-- The sites of a script that covers two texts lead from one to the other. -/
theorem path_sitesFrom {a b : Array Char} (ha : a.size ≤ 0x7fffffffffffffff) {script : List Edit}
    {i j n i₀ j₀ : Nat} {deletion insertion : Option Edit}
    (hscript : Edit.Covers a b (i + span deletion) (j + span insertion) script a.size b.size)
    (hc : Collected i j deletion insertion) (hi : i = i₀ + n) (hj : j = j₀ + n)
    (hkept : (a.toList.drop i₀).take n = (b.toList.drop j₀).take n) :
    Path a.toList b.toList i₀ j₀ (sitesFrom a b i j deletion insertion script) := by
  obtain ⟨hdelete, hinsert⟩ := hscript.le
  induction script generalizing i j n i₀ j₀ deletion insertion with
  | nil =>
    generalize hasize : a.size = asize at hscript
    generalize hbsize : b.size = bsize at hscript
    cases hscript
    rw [sitesFrom, ← List.append_nil (List.map _ _)]
    refine Path.of_collected ha hc hi hj hkept hdelete hinsert fun i₁ j₁ m hi₁ hj₁ hsame => ?_
    rw [List.take_of_length_le (by rw [List.length_drop, Array.length_toList]; omega),
      List.take_of_length_le (by rw [List.length_drop, Array.length_toList]; omega)] at hsame
    exact .nil (by rw [Array.length_toList]; omega) (by rw [Array.length_toList]; omega) hsame
  | cons e rest ih =>
    cases hscript with
    | @keep _ _ _ _ n' _ hsame h =>
      refine Path.of_collected ha hc hi hj hkept hdelete hinsert fun i₁ j₁ m hi₁ hj₁ hrun => ?_
      -- The run joins what was kept since the last site.
      have hlater := h.le
      refine ih (n := m + n') h (.none _ _) (by simp only; omega) (by simp only; omega) ?_
        hlater.1 hlater.2
      rw [List.take_add, List.take_add, hrun, List.drop_drop, List.drop_drop, ← hi₁, ← hj₁,
        take_drop_eq hsame]
    | @delete _ _ _ _ new n' _ h =>
      have hspan := span_join deletion ⟨.delete, i + span deletion, new, n'⟩
      rw [Nat.add_assoc, ← hspan] at h
      exact ih h hc.join_delete hi hj hkept h.le.1 h.le.2
    | @insert _ _ _ _ old n' _ h =>
      have hspan := span_join insertion ⟨.insert, old, j + span insertion, n'⟩
      rw [Nat.add_assoc, ← hspan] at h
      exact ih h hc.join_insert hi hj hkept h.le.1 h.le.2

/-- The sites of a diff lead from the old text to the new one. -/
theorem path_sites (a b : List Char) (ha : a.length ≤ 0x7fffffffffffffff) :
    Path a b 0 0 (sites a b) :=
  path_sitesFrom (a := a.toArray) (b := b.toArray) (n := 0) ha
    (Edit.covers_compact (Edit.covers_script a.toArray b.toArray)) (.none 0 0) rfl rfl rfl

/-! ## When the patch is right -/

/-- A path stays a path if its hunks are put where their sites are. -/
theorem Path.mended {a b : List Char} {i j : Nat} {sites : List Site} (h : Path a b i j sites)
    (ha : a.length ≤ 0x7fffffffffffffff) :
    Path a b i j (sites.map fun s => { s with hunk := s.mended }) ∧
      ∀ s ∈ sites.map (fun s => { s with hunk := s.mended }), s.hunk.start.toNat = s.old := by
  induction h with
  | nil hi hj hrest => exact ⟨.nil hi hj hrest, by simp⟩
  | @cons i j n s rest hold hnew hkept hdelete hinsert hstart h ih =>
    have hmended : s.mended.start.toNat = s.old := by
      have := h.bounds
      exact UInt64.toNat_ofNat_of_lt' (by simp only [UInt64.size]; omega)
    refine ⟨.cons hold hnew hkept hdelete hinsert (fun _ => hmended) ih.1, ?_⟩
    exact List.forall_mem_cons.mpr ⟨hmended, ih.2⟩

theorem Path.insert_eq {a b : List Char} {i j : Nat} {sites : List Site} (h : Path a b i j sites) :
    ∀ s ∈ sites, s.hunk.insert = (b.drop s.new).take s.hunk.insert.length ∧
      (s.hunk.delete ≠ [] → s.hunk.start.toNat = s.old) := by
  induction h with
  | nil => simp
  | cons _ _ _ _ hinsert hstart _ ih => exact List.forall_mem_cons.mpr ⟨⟨hinsert, hstart⟩, ih⟩

/-- **When the patch from one text to another makes the other text.** With every hunk at the
position it stands for it does, and only hunks that delete nothing may stand elsewhere. If they
all land, the patch makes the new text. If no hunk stands before the end of the one before it,
they must. The bounds are those of texts in memory. -/
theorem apply_diff_iff_lands (a b : List Char) (ha : a.length ≤ 0x7fffffffffffffff)
    (hb : b.length ≤ 0x7fffffffffffffff) :
    (sites a b).map Site.hunk = diff a b ∧
      apply ((sites a b).map Site.mended) a = b ∧
      (∀ s ∈ sites a b, s.hunk.delete ≠ [] → s.mended = s.hunk) ∧
      ((∀ s ∈ sites a b, s.hunk.delete = [] → s.Lands b) → apply (diff a b) a = b) ∧
      (Near 0 (sites a b) → (apply (diff a b) a = b ↔
        ∀ s ∈ sites a b, s.hunk.delete = [] → s.Lands b)) := by
  have hpath := path_sites a b ha
  have hlands : (∀ s ∈ sites a b, s.hunk.delete = [] → s.Lands b) → apply (diff a b) a = b := by
    intro hlands
    rw [← map_hunk_sites]
    exact hpath.applyFrom_eq ha hb hlands
  refine ⟨map_hunk_sites a b, ?_, fun s hs hne => ?_, hlands, fun hnear => ⟨fun heq => ?_, hlands⟩⟩
  · obtain ⟨hmended, hstart⟩ := hpath.mended ha
    have happly := hmended.applyFrom_eq ha hb fun s hs _ =>
      Site.lands_of_start (hstart s hs) (hmended.insert_eq s hs).1
    rwa [List.map_map] at happly
  · rw [Site.mended, ← (hpath.insert_eq s hs).2 hne, UInt64.ofNat_toNat]
  · rw [← map_hunk_sites] at heq
    exact fun s hs _ => hpath.lands_of_applyFrom_eq ha hb hnear heq s hs

/-- The insertion at the end of `bba` does not land: it is to stand behind the kept `b` and stands
before it. That in `bb` stands before its site, too, and makes no difference. -/
theorem apply_diff_misses :
    apply (diff ['a', 'b'] ['b', 'b', 'a']) ['a', 'b'] = ['b', 'a', 'b'] ∧
      Near 0 (sites ['a', 'b'] ['b', 'b', 'a']) ∧
      (¬∀ s ∈ sites ['a', 'b'] ['b', 'b', 'a'],
        s.hunk.delete = [] → s.Lands ['b', 'b', 'a']) ∧
      (∃ s ∈ sites ['a', 'b'] ['b', 'b'], s.mended ≠ s.hunk) ∧
      (∀ s ∈ sites ['a', 'b'] ['b', 'b'], s.hunk.delete = [] → s.Lands ['b', 'b']) ∧
      apply (diff ['a', 'b'] ['b', 'b']) ['a', 'b'] = ['b', 'b'] := by
  have hmade : apply (diff ['a', 'b'] ['b', 'b', 'a']) ['a', 'b'] = ['b', 'a', 'b'] := by
    decide +kernel
  have hnear : Near 0 (sites ['a', 'b'] ['b', 'b', 'a']) := by decide +kernel
  have hlands : ∀ s ∈ sites ['a', 'b'] ['b', 'b'], s.hunk.delete = [] → s.Lands ['b', 'b'] := by
    decide +kernel
  refine ⟨hmade, hnear, fun hall => ?_, by decide +kernel, hlands,
    (apply_diff_iff_lands ['a', 'b'] ['b', 'b'] (by decide) (by decide)).2.2.2.1 hlands⟩
  have hright := ((apply_diff_iff_lands ['a', 'b'] ['b', 'b', 'a'] (by decide)
    (by decide)).2.2.2.2 hnear).mpr hall
  rw [hmade] at hright
  exact absurd hright (by decide)

end TextPatch

end LiveDocs

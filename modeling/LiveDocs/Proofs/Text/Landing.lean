import LiveDocs.Proofs.Text.Replacement

/-!
# Where hunks land

A hunk may meet a text that it was not made for, and may carry any position. It then does one of two
things (`Hunk.Lands`). If the text that it deletes stands anywhere, the place nearest to where it is
expected is taken, the leftmost of two that are equally near, and the text there is replaced. If it
stands nowhere, nothing is deleted, and the insertion is made where the hunk is expected. Applying a
patch does this for one hunk after the other, and nothing else (`TextPatch.makes_iff`).

Taking and dropping characters is total, so that a bad position would go unnoticed.
`TextPatch.applyChecked` gives up at a position behind the end of the text instead. It never does
(`TextPatch.applyFromChecked_eq`).

## Main definitions

* `Hunk.StandsAt`, `Hunk.Nearest`: a place of a text in another, and the one nearest to a position.
* `Hunk.Lands`: what one hunk does.
* `TextPatch.Makes`: what the hunks of a patch do in turn.
* `TextPatch.applyChecked`: the application of a patch that checks all positions.
-/

namespace LiveDocs

namespace Hunk

variable {needle text : List Char} {expected pos : Nat}

/-! ## Places -/

/-- A text stands in another at a position. -/
def StandsAt (needle text : List Char) (pos : Nat) : Prop :=
  ∃ before after, text = before ++ needle ++ after ∧ before.length = pos

theorem standsAt_iff : StandsAt needle text pos ↔ pos ≤ text.length ∧ needle <+: text.drop pos := by
  constructor
  · rintro ⟨before, after, rfl, rfl⟩
    simp [List.append_assoc]
  · rintro ⟨hpos, after, hafter⟩
    refine ⟨text.take pos, after, ?_, List.length_take_of_le hpos⟩
    rw [List.append_assoc, hafter, List.take_append_drop]

theorem StandsAt.add_length_le (h : StandsAt needle text pos) :
    pos + needle.length ≤ text.length := by
  obtain ⟨before, after, rfl, rfl⟩ := h
  simp only [List.length_append]
  omega

/-- The listed positions are those at which a text stands, counted from a first one. -/
theorem mem_occurrences_iff_exists (hne : needle ≠ []) {first p : Nat} :
    p ∈ occurrences needle first text ↔ ∃ pos, p = first + pos ∧ StandsAt needle text pos := by
  simp only [standsAt_iff]
  induction text generalizing first with
  | nil => simp [occurrences, hne]
  | cons c rest ih =>
    -- A text stands at the front or in the rest, one position further on.
    have hsplit : (∃ pos, p = first + pos ∧ pos ≤ (c :: rest).length ∧
          needle <+: (c :: rest).drop pos) ↔
        (p = first ∧ needle <+: c :: rest) ∨
          ∃ pos, p = first + 1 + pos ∧ pos ≤ rest.length ∧ needle <+: rest.drop pos := by
      rw [← Nat.or_exists_add_one]
      simp [Nat.add_assoc, Nat.add_comm 1]
    rw [hsplit, ← ih, occurrences]
    by_cases hfront : needle <+: c :: rest
    · simp [hfront]
    · simp [hfront]

theorem mem_occurrences_iff (hne : needle ≠ []) :
    pos ∈ occurrences needle 0 text ↔ StandsAt needle text pos := by
  simp [mem_occurrences_iff_exists hne]

theorem sorted_occurrences (needle text : List Char) (first : Nat) :
    (occurrences needle first text).Pairwise (· < ·) ∧
      ∀ p ∈ occurrences needle first text, first ≤ p := by
  induction text generalizing first with
  | nil => simp [occurrences]
  | cons c rest ih =>
    obtain ⟨hsorted, hfirst⟩ := ih (first + 1)
    have hlt : ∀ p ∈ occurrences needle (first + 1) rest, first < p := hfirst
    rw [occurrences]
    split
    · exact ⟨List.pairwise_cons.mpr ⟨hlt, hsorted⟩,
        List.forall_mem_cons.mpr ⟨Nat.le_refl first, fun p hp => Nat.le_of_lt (hlt p hp)⟩⟩
    · exact ⟨hsorted, fun p hp => Nat.le_of_lt (hlt p hp)⟩

/-! ## The nearest place -/

/-- Positions in the order of their distance from one of them, and from left to right at the same
distance. -/
def Closer (expected p q : Nat) : Prop :=
  ((p : Int) - expected).natAbs < ((q : Int) - expected).natAbs ∨
    ((p : Int) - expected).natAbs = ((q : Int) - expected).natAbs ∧ p ≤ q

/-- The place of a text that is nearest to a position, and the leftmost of two such. -/
structure Nearest (needle text : List Char) (expected pos : Nat) : Prop where
  stands : StandsAt needle text pos
  closer : ∀ q, StandsAt needle text q → Closer expected pos q

theorem Nearest.unique {p q : Nat} (hp : Nearest needle text expected p)
    (hq : Nearest needle text expected q) : p = q := by
  have hpq := hp.closer q hq.stands
  have hqp := hq.closer p hp.stands
  unfold Closer at hpq hqp
  omega

/-- A text that stands where it is expected stands nowhere nearer. -/
theorem nearest_self (h : StandsAt needle text expected) :
    Nearest needle text expected expected := by
  refine ⟨h, fun q _ => ?_⟩
  unfold Closer
  omega

theorem closer_trans_distance {p q r : Nat} (hpq : distance p expected ≤ distance q expected)
    (hqr : Closer expected q r) (hpr : p < r) : Closer expected p r := by
  unfold Closer distance at *
  omega

theorem nearest_eq_none_iff {l : List Nat} : nearest expected l = none ↔ l = [] := by
  cases l with
  | nil => simp [nearest]
  | cons a rest =>
    rw [nearest]
    split
    · simp
    · split <;> simp

/-- In an increasing list a position gives way only to one that is strictly nearer, so of two at the
same distance the left one is found. -/
theorem nearest_eq_some {l : List Nat} (hsorted : l.Pairwise (· < ·)) {p : Nat}
    (h : nearest expected l = some p) : p ∈ l ∧ ∀ q ∈ l, Closer expected p q := by
  induction l generalizing p with
  | nil => simp [nearest] at h
  | cons a rest ih =>
    obtain ⟨ha, hrest⟩ := List.pairwise_cons.mp hsorted
    have hself : Closer expected a a := .inr ⟨rfl, Nat.le_refl a⟩
    rw [nearest] at h
    split at h
    · next hnone =>
      cases h
      rw [nearest_eq_none_iff.mp hnone]
      simpa using hself
    · next q hq =>
      obtain ⟨hmem, hcloser⟩ := ih hrest hq
      split at h
      · next hlt =>
        cases h
        refine ⟨List.mem_cons_of_mem a hmem, List.forall_mem_cons.mpr ⟨.inl ?_, hcloser⟩⟩
        unfold distance at hlt
        omega
      · next hle =>
        cases h
        refine ⟨List.mem_cons_self, List.forall_mem_cons.mpr ⟨hself, fun r hr => ?_⟩⟩
        exact closer_trans_distance (Nat.le_of_not_lt hle) (hcloser r hr) (ha r hr)

/-- What is found is the nearest place. -/
theorem nearest_of_locate (hexpected : expected ≤ text.length)
    (h : locate text needle expected = some pos) : Nearest needle text expected pos := by
  unfold locate at h
  split at h
  · next hempty =>
    cases h
    exact nearest_self (standsAt_iff.mpr ⟨hexpected, by simp [List.isEmpty_iff.mp hempty]⟩)
  · next hempty =>
    have hne : needle ≠ [] := fun hnil => hempty (List.isEmpty_iff.mpr hnil)
    split at h
    · next hthere =>
      cases h
      exact nearest_self (standsAt_iff.mpr ⟨hexpected, List.isPrefixOf_iff_prefix.mp hthere⟩)
    · obtain ⟨hmem, hcloser⟩ := nearest_eq_some (sorted_occurrences needle text 0).1 h
      refine ⟨(mem_occurrences_iff hne).mp hmem, fun q hq => ?_⟩
      exact hcloser q ((mem_occurrences_iff hne).mpr hq)

/-- What is not found stands nowhere. -/
theorem not_standsAt_of_locate (h : locate text needle expected = none) (q : Nat) :
    ¬ StandsAt needle text q := by
  unfold locate at h
  split at h
  · cases h
  · next hempty =>
    have hne : needle ≠ [] := fun hnil => hempty (List.isEmpty_iff.mpr hnil)
    split at h
    · cases h
    · intro hq
      have hmem := (mem_occurrences_iff hne).mpr hq
      rw [nearest_eq_none_iff.mp h] at hmem
      cases hmem

/-! ## One hunk -/

/-- What a hunk does to a text in which it is expected at a position: it lands at a position and
leaves a text. -/
inductive Lands (h : Hunk) (expected : Nat) (text : List Char) : Nat → List Char → Prop where
  /-- The deleted text is replaced at its nearest place. -/
  | found (before after : List Char) (htext : text = before ++ h.delete ++ after)
      (hnearest : Nearest h.delete text expected before.length) :
      Lands h expected text before.length (before ++ h.insert ++ after)
  /-- The deleted text stands nowhere, and the insertion is made where the hunk is expected. -/
  | missing (before after : List Char) (htext : text = before ++ after)
      (hnone : ∀ pos, ¬ StandsAt h.delete text pos) (hexpected : before.length = expected) :
      Lands h expected text before.length (before ++ h.insert ++ after)

/-- A hunk lands in one way only. -/
theorem Lands.unique {h : Hunk} {p q : Nat} {next other : List Char}
    (hp : h.Lands expected text p next) (hq : h.Lands expected text q other) :
    p = q ∧ next = other := by
  cases hp with
  | found before after htext hnearest =>
    cases hq with
    | found before' after' htext' hnearest' =>
      have hlength := hnearest.unique hnearest'
      rw [htext, List.append_assoc, List.append_assoc] at htext'
      obtain ⟨rfl, hrest⟩ := List.append_inj htext' hlength
      rw [List.append_cancel_left hrest]
      exact ⟨rfl, rfl⟩
    | missing _ _ _ hnone => exact absurd hnearest.stands (hnone _)
  | missing before after htext hnone hexpected =>
    cases hq with
    | found _ _ _ hnearest => exact absurd hnearest.stands (hnone _)
    | missing before' after' htext' _ hexpected' =>
      rw [htext] at htext'
      obtain ⟨rfl, rfl⟩ := List.append_inj htext' (hexpected.trans hexpected'.symm)
      exact ⟨rfl, rfl⟩

theorem expected_le (h : Hunk) (shift : Int) (length : Nat) : h.expected shift length ≤ length :=
  Nat.min_le_right _ _

/-- The position at which a hunk is expected: its own, moved by the hunks before it and brought into
the text. -/
theorem expected_eq_clamp (h : Hunk) (shift : Int) (length : Nat) :
    (h.expected shift length : Int) =
      max 0 (min (min (h.start.toNat : Int) positionBound + shift) (min positionBound length)) := by
  unfold expected origin saturate positionBound
  omega

/-- A hunk is applied inside of the text. -/
theorem site_le (h : Hunk) (hexpected : expected ≤ text.length) :
    (h.site text expected).1 + (h.site text expected).2 ≤ text.length := by
  unfold site
  split
  · next pos hpos => exact (nearest_of_locate hexpected hpos).stands.add_length_le
  · exact hexpected

theorem lands_site (h : Hunk) (hexpected : expected ≤ text.length) :
    h.Lands expected text (h.site text expected).1
      (splice text (h.site text expected).1 (h.site text expected).2 h.insert) := by
  unfold site
  split
  · next pos hpos =>
    have hnearest := nearest_of_locate hexpected hpos
    obtain ⟨before, after, htext, rfl⟩ := hnearest.stands
    have hsplice : splice text before.length h.delete.length h.insert =
        before ++ h.insert ++ after := by
      rw [htext, List.append_assoc, splice_append, List.drop_left]
    rw [hsplice]
    exact .found before after htext hnearest
  · next hnone =>
    have hlength : (text.take expected).length = expected := List.length_take_of_le hexpected
    have hland := Lands.missing (h := h) (text.take expected) (text.drop expected)
      (List.take_append_drop expected text).symm (not_standsAt_of_locate hnone) hlength
    rwa [hlength] at hland

end Hunk

namespace TextPatch

/-! ## All hunks -/

/-- What the hunks of a patch do in turn. Each is expected at its position, moved by the hunk before
it and brought into the text as it is then. -/
inductive Makes : TextPatch → Int → List Char → List Char → Prop where
  | nil (shift : Int) (text : List Char) : Makes [] shift text text
  | cons {h : Hunk} {rest : TextPatch} {shift : Int} {text next final : List Char}
      {expected pos : Nat}
      (hexpected : (expected : Int) =
        max 0 (min (min (h.start.toNat : Int) Hunk.positionBound + shift)
          (min Hunk.positionBound text.length)))
      (hlands : h.Lands expected text pos next) (hrest : Makes rest (h.drift pos) next final) :
      Makes (h :: rest) shift text final

/-- **A patch makes exactly one text**, the one that it is applied to give. -/
theorem makes_iff {patch : TextPatch} {shift : Int} {text final : List Char} :
    Makes patch shift text final ↔ final = applyFrom patch text shift := by
  induction patch generalizing shift text with
  | nil =>
    constructor
    · rintro ⟨⟩
      rfl
    · rintro rfl
      exact .nil shift _
  | cons h rest ih =>
    have hlands := h.lands_site (h.expected_le shift text.length)
    rw [applyFrom, Hunk.apply]
    constructor
    · intro hmakes
      cases hmakes with
      | cons hexpected hlands' hrest =>
        rw [← h.expected_eq_clamp, Int.natCast_inj] at hexpected
        subst hexpected
        obtain ⟨rfl, rfl⟩ := hlands'.unique hlands
        exact ih.mp hrest
    · intro hfinal
      exact .cons (h.expected_eq_clamp shift text.length) hlands (ih.mpr hfinal)

/-- Makes the replacements one after the other, and gives up at a position that is not in the
text. -/
def applyFromChecked : TextPatch → List Char → Int → Option (List Char)
  | [], text, _ => some text
  | h :: rest, text, shift =>
    let expected := h.expected shift text.length
    if text.length < expected then none
    else
      let (pos, removed) := h.site text expected
      if text.length < pos + removed then none
      else applyFromChecked rest (Hunk.splice text pos removed h.insert) (h.drift pos)

/-- The text after a patch, with all positions checked. -/
def applyChecked (patch : TextPatch) (text : List Char) : Option (List Char) :=
  applyFromChecked patch text 0

/-- No position is outside of the text. -/
theorem applyFromChecked_eq (patch : TextPatch) (text : List Char) (shift : Int) :
    applyFromChecked patch text shift = some (applyFrom patch text shift) := by
  induction patch generalizing text shift with
  | nil => rfl
  | cons h rest ih =>
    have hexpected := h.expected_le shift text.length
    have hsite := h.site_le hexpected
    rw [applyFromChecked, applyFrom, Hunk.apply]
    simp only [if_neg (Nat.not_lt.mpr hexpected), if_neg (Nat.not_lt.mpr hsite), ih]

/-- **Any patch can be applied to any text**, whatever the positions of its hunks. No position is
outside of the text, and each hunk in turn lands in exactly one way. -/
theorem applyChecked_makes (patch : TextPatch) (text : List Char) :
    applyChecked patch text = some (apply patch text) ∧
      ∀ final, Makes patch 0 text final ↔ final = apply patch text :=
  ⟨applyFromChecked_eq patch text 0, fun _ => makes_iff⟩

-- The left of two places at the same distance is taken; then a position behind the end.
example : apply [⟨2, ['a'], ['x']⟩, ⟨0xffffffffffffffff, ['b'], ['y']⟩] ['a', '-', '-', '-', 'a'] =
    ['x', '-', '-', '-', 'a', 'y'] := by
  decide

end TextPatch

end LiveDocs

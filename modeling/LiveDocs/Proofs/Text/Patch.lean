import LiveDocs.Text.Patch

/-!
# Where the hunks of a patch land

A *site* is a hunk together with the positions in both texts that it stands for. If the sites lead
from one text to another (`TextPatch.Path`), every hunk that stands where its site is makes its
part of the new text. A hunk without deleted text lands wherever it says: if it stands before its
site, its text ends up among characters that are to be kept, and the result is right only if these
happen to agree (`TextPatch.Site.Lands`).

## Main definitions

* `TextPatch.Site`, `TextPatch.Path`: hunks with their positions, and how they lead to the new text.
* `TextPatch.Site.Lands`: a hunk makes its part of the new text from where it stands.
* `TextPatch.Near`: no hunk stands before the end of the one before it.

## Main results

* `TextPatch.Site.apply`: what one hunk does.
* `TextPatch.Path.applyFrom_eq`: hunks that land make the new text.
* `TextPatch.Path.lands_of_applyFrom_eq`: if hunks stand near their sites and make the new text,
  they land.
-/

namespace LiveDocs

namespace Hunk

/-- Numbers in the range of positions stay as they are. -/
theorem saturate_eq {n : Int} (hlow : -0x8000000000000000 ≤ n) (hhigh : n ≤ 0x7fffffffffffffff) :
    saturate n = n := by
  unfold saturate positionBound
  omega

@[simp] theorem length_splice_zero (text : List Char) (pos : Nat) (inserted : List Char) :
    (splice text pos 0 inserted).length = text.length + inserted.length := by
  simp only [splice, List.length_append, List.length_take, List.length_drop]
  omega

/-- An insertion changes nothing before it. -/
theorem take_splice {text : List Char} {pos count : Nat} (hpos : pos ≤ text.length)
    (h : count ≤ pos) (removed : Nat) (inserted : List Char) :
    (splice text pos removed inserted).take count = text.take count := by
  rw [splice, List.append_assoc, List.take_append_of_le_length (by rw [List.length_take]; omega),
    List.take_take, Nat.min_eq_left h]

/-- An insertion into the first of two texts. -/
theorem splice_append_left {text : List Char} {pos : Nat} (hpos : pos ≤ text.length)
    (inserted rest : List Char) :
    splice (text ++ rest) pos 0 inserted = splice text pos 0 inserted ++ rest := by
  simp only [splice, Nat.add_zero, List.take_append_of_le_length hpos,
    List.drop_append_of_le_length hpos, List.append_assoc]

/-- A replacement at the start of the second of two texts. -/
theorem splice_append (text rest : List Char) (removed : Nat) (inserted : List Char) :
    splice (text ++ rest) text.length removed inserted = text ++ inserted ++ rest.drop removed := by
  simp [splice, List.drop_append]

end Hunk

namespace TextPatch

/-- A hunk and the positions in the old and the new text that it stands for. -/
structure Site where
  old : Nat
  new : Nat
  hunk : Hunk

namespace Site

/-- Where the hunk stands in the new text. -/
def place (s : Site) : Nat := s.hunk.start.toNat + s.new - s.old

/-- The hunk at its position in the old text. -/
def mended (s : Site) : Hunk := { s.hunk with start := UInt64.ofNat s.old }

/-- From where it stands, the hunk makes its part of the new text. -/
def Lands (b : List Char) (s : Site) : Prop :=
  s.hunk.start.toNat ≤ s.old ∧ s.old ≤ s.hunk.start.toNat + s.new ∧
    Hunk.splice (b.take s.new) s.place 0 s.hunk.insert = b.take (s.new + s.hunk.insert.length)

instance (b : List Char) (s : Site) : Decidable (s.Lands b) :=
  inferInstanceAs (Decidable (_ ∧ _ ∧ _))

/-- What a hunk does to a text that has been made new up to its site. It is found where it stands,
and the shift is right for what follows. -/
theorem apply {s : Site} {done rest : List Char} (hdone : done.length = s.new)
    (hdelete : s.hunk.delete <+: rest)
    (hstart : s.hunk.delete ≠ [] → s.hunk.start.toNat = s.old)
    (hle : s.hunk.start.toNat ≤ s.old) (hplace : s.old ≤ s.hunk.start.toNat + s.new)
    (hold : s.old + s.hunk.delete.length ≤ 0x7fffffffffffffff)
    (hnew : s.new + s.hunk.insert.length ≤ 0x7fffffffffffffff) :
    s.hunk.apply (done ++ rest) ((s.new : Int) - s.old) =
      (Hunk.splice done s.place 0 s.hunk.insert ++ rest.drop s.hunk.delete.length,
        ((s.new + s.hunk.insert.length : Nat) : Int) - (s.old + s.hunk.delete.length : Nat)) := by
  have hpos : s.place ≤ done.length := by
    unfold place
    omega
  have horigin : s.hunk.origin = s.hunk.start.toNat := Hunk.saturate_eq (by omega) (by omega)
  have hexpected : s.hunk.expected ((s.new : Int) - s.old) (done ++ rest).length = s.place := by
    rw [Hunk.expected, horigin, Hunk.saturate_eq (by omega) (by omega), List.length_append]
    unfold place at hpos ⊢
    omega
  have hend : Hunk.saturate (s.hunk.origin + s.hunk.delete.length) =
      (s.hunk.start.toNat + s.hunk.delete.length : Nat) := by
    rw [horigin, Hunk.saturate_eq (by omega) (by omega)]
    omega
  have hshift : Hunk.saturate ((s.place + s.hunk.insert.length : Nat) -
        (s.hunk.start.toNat + s.hunk.delete.length : Nat)) =
      ((s.new + s.hunk.insert.length : Nat) : Int) - (s.old + s.hunk.delete.length : Nat) := by
    rw [Hunk.saturate_eq (by unfold place; omega) (by unfold place; omega)]
    unfold place
    omega
  by_cases hempty : s.hunk.delete = []
  · have hlocate : Hunk.locate (done ++ rest) s.hunk.delete s.place = some s.place := by
      rw [Hunk.locate, hempty]
      rfl
    simp only [Hunk.apply, Hunk.site, Hunk.drift, hexpected, hlocate, hend, hshift]
    rw [hempty, List.length_nil, List.drop_zero, Hunk.splice_append_left hpos]
  · -- The deleted text stands where the hunk is expected.
    have hat : s.place = done.length := by
      unfold place
      rw [hstart hempty]
      omega
    have hlocate : Hunk.locate (done ++ rest) s.hunk.delete s.place = some s.place := by
      rw [Hunk.locate, if_neg (by simpa using hempty), hat, List.drop_left,
        if_pos (List.isPrefixOf_iff_prefix.mpr hdelete)]
    simp only [Hunk.apply, Hunk.site, Hunk.drift, hexpected, hlocate, hend, hshift]
    rw [hat, Hunk.splice_append]
    simp [Hunk.splice]

end Site

/-- The sites lead from one text to another: what lies between them is the same in both texts, and
each replaces its part of the old text by its part of the new one. A hunk that deletes something
stands where its site is. -/
inductive Path (a b : List Char) : Nat → Nat → List Site → Prop where
  | nil {i j : Nat} (hi : i ≤ a.length) (hj : j ≤ b.length) (hrest : a.drop i = b.drop j) :
      Path a b i j []
  | cons {i j n : Nat} {s : Site} {rest : List Site} (hold : s.old = i + n) (hnew : s.new = j + n)
      (hkept : (a.drop i).take n = (b.drop j).take n)
      (hdelete : s.hunk.delete = (a.drop s.old).take s.hunk.delete.length)
      (hinsert : s.hunk.insert = (b.drop s.new).take s.hunk.insert.length)
      (hstart : s.hunk.delete ≠ [] → s.hunk.start.toNat = s.old)
      (h : Path a b (s.old + s.hunk.delete.length) (s.new + s.hunk.insert.length) rest) :
      Path a b i j (s :: rest)

/-- No hunk stands before the end of the one before it, nor behind its own site. -/
def Near (floor : Nat) : List Site → Prop
  | [] => True
  | s :: rest => s.hunk.start.toNat ≤ s.old ∧ s.old + floor ≤ s.hunk.start.toNat + s.new ∧
      Near (s.new + s.hunk.insert.length) rest

/-- Whether hunks stand near can be decided site by site. -/
def Near.decidable : (floor : Nat) → (sites : List Site) → Decidable (Near floor sites)
  | _, [] => .isTrue trivial
  | _, s :: rest =>
    have := decidable (s.new + s.hunk.insert.length) rest
    inferInstanceAs (Decidable (_ ∧ _ ∧ _))

instance (floor : Nat) (sites : List Site) : Decidable (Near floor sites) :=
  Near.decidable floor sites

variable {a b : List Char} {i j : Nat} {sites : List Site}

theorem Path.bounds (h : Path a b i j sites) : i ≤ a.length ∧ j ≤ b.length := by
  induction h with
  | nil hi hj _ => exact ⟨hi, hj⟩
  | cons hold hnew _ _ _ _ _ ih => omega

/-- A hunk that stands where its site is lands. -/
theorem Site.lands_of_start {s : Site} (hstart : s.hunk.start.toNat = s.old)
    (hinsert : s.hunk.insert = (b.drop s.new).take s.hunk.insert.length) : s.Lands b := by
  have hplace : s.place = s.new := by
    unfold place
    omega
  refine ⟨by omega, by omega, ?_⟩
  rw [hplace, Hunk.splice, Nat.add_zero, List.take_take, Nat.min_self, List.drop_take_self,
    List.append_nil, List.take_add, ← hinsert]

/-! ## Applying a path -/

/-- The first hunk of a path, in a text of which the first `j` characters are done. They need not be
the right ones. -/
theorem Path.applyFrom_cons {s : Site} {rest : List Site} {n : Nat} {done : List Char}
    (ha : a.length ≤ 0x7fffffffffffffff) (hb : b.length ≤ 0x7fffffffffffffff)
    (hdone : done.length = j) (hold : s.old = i + n) (hnew : s.new = j + n)
    (hdelete : s.hunk.delete = (a.drop s.old).take s.hunk.delete.length)
    (hstart : s.hunk.delete ≠ [] → s.hunk.start.toNat = s.old)
    (h : Path a b (s.old + s.hunk.delete.length) (s.new + s.hunk.insert.length) rest)
    (hle : s.hunk.start.toNat ≤ s.old) (hplace : s.old ≤ s.hunk.start.toNat + s.new) :
    applyFrom ((s :: rest).map Site.hunk) (done ++ a.drop i) ((j : Int) - i) =
      applyFrom (rest.map Site.hunk)
        (Hunk.splice (done ++ (a.drop i).take n) s.place 0 s.hunk.insert ++
          a.drop (s.old + s.hunk.delete.length))
        (((s.new + s.hunk.insert.length : Nat) : Int) - (s.old + s.hunk.delete.length : Nat)) := by
  have hbounds := h.bounds
  have hkeep : done ++ a.drop i = (done ++ (a.drop i).take n) ++ a.drop s.old := by
    rw [hold, ← List.drop_drop, List.append_assoc, List.take_append_drop]
  have hlength : (done ++ (a.drop i).take n).length = s.new := by
    rw [List.length_append, List.length_take, List.length_drop]
    omega
  have hshift : (j : Int) - i = (s.new : Int) - s.old := by omega
  have hprefix : s.hunk.delete <+: a.drop s.old := hdelete ▸ List.take_prefix _ _
  rw [hkeep, hshift, List.map_cons, applyFrom,
    Site.apply hlength hprefix hstart hle hplace (by omega) (by omega), List.drop_drop]

/-- What is done and then kept is the new text up to the site. -/
theorem take_append_kept {n : Nat} (hkept : (a.drop i).take n = (b.drop j).take n) :
    b.take j ++ (a.drop i).take n = b.take (j + n) := by
  rw [hkept, List.take_add]

/-- **Hunks that land make the new text.** -/
theorem Path.applyFrom_eq (h : Path a b i j sites) (ha : a.length ≤ 0x7fffffffffffffff)
    (hb : b.length ≤ 0x7fffffffffffffff)
    (hlands : ∀ s ∈ sites, s.hunk.delete = [] → s.Lands b) :
    applyFrom (sites.map Site.hunk) (b.take j ++ a.drop i) ((j : Int) - i) = b := by
  have hbounds := h.bounds
  induction h with
  | nil _ _ hrest => rw [List.map_nil, applyFrom, hrest, List.take_append_drop]
  | @cons i j n s rest hold hnew hkept hdelete hinsert hstart h ih =>
    obtain ⟨hle, hplace, hsplice⟩ : s.Lands b := by
      by_cases hempty : s.hunk.delete = []
      · exact hlands s List.mem_cons_self hempty
      · exact Site.lands_of_start (hstart hempty) hinsert
    have hdone : (b.take j).length = j := List.length_take_of_le hbounds.2
    rw [Path.applyFrom_cons ha hb hdone hold hnew hdelete hstart h hle hplace,
      take_append_kept hkept, ← hnew, hsplice]
    exact ih (fun t ht => hlands t (List.mem_cons_of_mem s ht)) h.bounds

/-- Hunks that stand near change nothing of what is done before the first of them. -/
theorem Path.take_applyFrom (h : Path a b i j sites) (ha : a.length ≤ 0x7fffffffffffffff)
    (hb : b.length ≤ 0x7fffffffffffffff) {floor : Nat} (hnear : Near floor sites)
    (hfloor : floor ≤ j) {done : List Char} (hdone : done.length = j) :
    (applyFrom (sites.map Site.hunk) (done ++ a.drop i) ((j : Int) - i)).take floor =
      done.take floor := by
  induction h generalizing floor done with
  | nil => rw [List.map_nil, applyFrom, List.take_append_of_le_length (hdone ▸ hfloor)]
  | @cons i j n s rest hold hnew hkept hdelete hinsert hstart h ih =>
    obtain ⟨hle, hplace, hrest⟩ := hnear
    have hbounds := h.bounds
    rw [Path.applyFrom_cons ha hb hdone hold hnew hdelete hstart h hle (by omega)]
    have hkeep : (done ++ (a.drop i).take n).length = s.new := by
      rw [List.length_append, List.length_take, List.length_drop]
      omega
    have hat : floor ≤ s.place := by
      unfold Site.place
      omega
    have hpos : s.place ≤ (done ++ (a.drop i).take n).length := by
      rw [hkeep]
      unfold Site.place
      omega
    -- What the hunk leaves is what the later ones find done.
    generalize hspliced : Hunk.splice (done ++ (a.drop i).take n) s.place 0 s.hunk.insert = spliced
    have hlength : spliced.length = s.new + s.hunk.insert.length := by
      rw [← hspliced, Hunk.length_splice_zero, hkeep]
    have hlater := ih hrest (Nat.le_refl _) hlength
    have hshort : floor ≤ s.new + s.hunk.insert.length := by omega
    calc
      _ = (List.take (s.new + s.hunk.insert.length) _).take floor := by
        rw [List.take_take, Nat.min_eq_left hshort]
      _ = spliced.take floor := by rw [hlater, List.take_take, Nat.min_eq_left hshort]
      _ = done.take floor := by
        rw [← hspliced, Hunk.take_splice hpos hat,
          List.take_append_of_le_length (by rw [hdone]; exact hfloor)]

/-- **If hunks stand near their sites and make the new text, each of them lands.** -/
theorem Path.lands_of_applyFrom_eq (h : Path a b i j sites) (ha : a.length ≤ 0x7fffffffffffffff)
    (hb : b.length ≤ 0x7fffffffffffffff) {floor : Nat} (hnear : Near floor sites)
    (hresult : applyFrom (sites.map Site.hunk) (b.take j ++ a.drop i) ((j : Int) - i) = b) :
    ∀ s ∈ sites, s.Lands b := by
  have hbounds := h.bounds
  induction h generalizing floor with
  | nil => simp
  | @cons i j n s rest hold hnew hkept hdelete hinsert hstart h ih =>
    obtain ⟨hle, hplace, hrest⟩ := hnear
    have hdone : (b.take j).length = j := List.length_take_of_le hbounds.2
    rw [Path.applyFrom_cons ha hb hdone hold hnew hdelete hstart h hle (by omega),
      take_append_kept hkept, ← hnew] at hresult
    -- Nothing after this hunk reaches back to what it has made, so that must be right already.
    have hspliced : Hunk.splice (b.take s.new) s.place 0 s.hunk.insert =
        b.take (s.new + s.hunk.insert.length) := by
      have hlength : (Hunk.splice (b.take s.new) s.place 0 s.hunk.insert).length =
          s.new + s.hunk.insert.length := by
        rw [Hunk.length_splice_zero, List.length_take_of_le (by have := h.bounds; omega)]
      have hkept := h.take_applyFrom ha hb hrest (Nat.le_refl _) hlength
      rw [hresult, ← hlength, List.take_length] at hkept
      rw [← hkept, hlength]
    have hlands : s.Lands b := ⟨hle, by omega, hspliced⟩
    rw [hspliced] at hresult
    intro t ht
    rcases List.mem_cons.mp ht with rfl | ht
    · exact hlands
    · exact ih hrest hresult h.bounds t ht

end TextPatch

end LiveDocs

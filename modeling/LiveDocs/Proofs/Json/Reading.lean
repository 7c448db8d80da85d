import LiveDocs.Proofs.Record

/-!
# Values that were read

A value that was read from a text is canonical, whatever the text: the members of an object are put
into a sorted map, so each of its objects lists them in key order. And it is nested no deeper than
the limit, since no container is opened beyond it (`Json.fits_of_parseNested?`).

Tokens carry no containers, so a container comes about only when the reader closes one. What the
reader keeps is an invariant of its stack: the values in a container at some level fit below that
level (`Reader.Fits`). It is kept by every token (`Reader.Fits.take?`).

## Main definitions

* `Json.Fits`: canonical values that fit below a level.
* `Token.Flat`, `Reader.Fits`: tokens without containers, and readers whose values fit.

## Main results

* `Json.fits_of_parseNested?`, `Record.fits_of_parse?`: what was read fits.
-/

namespace LiveDocs

/-! ## Tokens -/

/-- A token that carries no container. -/
def Token.Flat : Token → Prop
  | .atom value => value.depth = 0
  | _ => True

namespace Scan

/-- All tokens so far carry no container. -/
def Flat (s : Scan) : Prop := ∀ t ∈ s.tokens, t.Flat

theorem flat_start : start.Flat := by
  intro t ht
  cases ht

theorem Flat.push {s : Scan} (h : s.Flat) {t : Token} (ht : t.Flat) : (s.push t).Flat :=
  List.forall_mem_cons.mpr ⟨ht, h⟩

theorem depth_of_word? {chars : List Char} {j : Json} (h : word? chars = some j) : j.depth = 0 := by
  unfold word? at h
  split at h <;> cases h <;> rfl

theorem Flat.finish? {s s' : Scan} (h : s.Flat) (hfinish : s.finish? = some s') : s'.Flat := by
  unfold Scan.finish? at hfinish
  split at hfinish
  · cases hfinish
    exact h
  · obtain ⟨n, -, rfl⟩ := Option.map_eq_some_iff.mp hfinish
    exact h.push rfl
  · obtain ⟨j, hword, rfl⟩ := Option.map_eq_some_iff.mp hfinish
    exact h.push (depth_of_word? hword)
  · cases hfinish

/-- A choice between scans. -/
theorem flat_of_ite {p : Prop} [Decidable p] {s s' : Scan} {other : Option Scan} (h : s.Flat)
    (hother : other = some s' → s'.Flat) (hchoice : (if p then some s else other) = some s') :
    s'.Flat := by
  split at hchoice
  · cases hchoice
    exact h
  · exact hother hchoice

theorem Flat.begin? {s s' : Scan} (h : s.Flat) {c : Char} (hbegin : s.begin? c = some s') :
    s'.Flat := by
  revert hbegin
  unfold Scan.begin?
  -- A character is skipped, is a token of its own, or begins one.
  refine flat_of_ite h ?_
  iterate 6 refine flat_of_ite (h.push (by trivial)) ?_
  iterate 3 refine flat_of_ite h ?_
  simp

/-- The end of a token and the beginning of what follows it. -/
theorem Flat.resume? {s s' : Scan} (h : s.Flat) {c : Char}
    (hresume : (s.finish?.bind fun t => t.begin? c) = some s') : s'.Flat := by
  obtain ⟨t, hfinish, hbegin⟩ := Option.bind_eq_some_iff.mp hresume
  exact (h.finish? hfinish).begin? hbegin

/-- The step lemma for characters: whatever state the scan is in, the token that it completes is
flat. -/
theorem Flat.feed? {s s' : Scan} (h : s.Flat) {c : Char} (hfeed : s.feed? c = some s') :
    s'.Flat := by
  unfold Scan.feed? at hfeed
  split at hfeed
  · exact h.begin? hfeed
  · revert hfeed
    exact flat_of_ite h h.resume?
  · revert hfeed
    exact flat_of_ite h h.resume?
  · -- Within a string only the closing quote makes a token.
    split at hfeed
    · cases hfeed
      exact h.push rfl
    · repeat' split at hfeed
      all_goals cases hfeed
      all_goals exact h
  · split at hfeed
    · cases hfeed
      exact h
    · obtain ⟨e, -, rfl⟩ := Option.map_eq_some_iff.mp hfeed
      exact h
  · obtain ⟨value, -, hdigits⟩ := Option.bind_eq_some_iff.mp hfeed
    split at hdigits
    · obtain ⟨mode, -, rfl⟩ := Option.map_eq_some_iff.mp hdigits
      exact h
    · cases hdigits
      exact h
  · repeat' split at hfeed
    all_goals cases hfeed
    all_goals exact h

theorem Flat.feedAll? {s s' : Scan} (h : s.Flat) {cs : List Char}
    (hfeed : s.feedAll? cs = some s') : s'.Flat := by
  induction cs generalizing s with
  | nil =>
    cases hfeed
    exact h
  | cons c cs ih =>
    obtain ⟨t, hc, hcs⟩ := Option.bind_eq_some_iff.mp hfeed
    exact ih (h.feed? hc) hcs

end Scan

/-- No token of a text carries a container. -/
theorem Token.flat_of_scan? {cs : List Char} {ts : List Token} (h : scan? cs = some ts) :
    ∀ t ∈ ts, t.Flat := by
  obtain ⟨s, hscan, rfl⟩ := Option.map_eq_some_iff.mp h
  obtain ⟨s', hfeed, hfinish⟩ := Option.bind_eq_some_iff.mp hscan
  intro t ht
  exact (Scan.flat_start.feedAll? hfeed).finish? hfinish t (List.mem_reverse.mp ht)

/-! ## Values -/

namespace Json

/-- A canonical value that fits below a level: with all that is nested in it, it stays within the
limit. -/
structure Fits (limit level : Nat) (j : Json) : Prop where
  canonical : j.Canonical
  depth : level + j.depth ≤ limit

theorem fits_of_flat {j : Json} (h : j.depth = 0) {limit level : Nat} (hlevel : level ≤ limit) :
    j.Fits limit level := by
  refine ⟨?_, by omega⟩
  cases j with
  | arr items => simp [Json.depth] at h
  | obj fields => simp [Json.depth] at h
  | _ => trivial

/-- A container fits one level above its items. -/
theorem fits_arr {items : List Json} {limit level : Nat} (hlevel : level + 1 ≤ limit)
    (h : ∀ j ∈ items, j.Fits limit (level + 1)) : (arr items).Fits limit level := by
  refine ⟨canonicalItems_iff.mpr fun j hj => (h j hj).canonical, ?_⟩
  have hdepth : depthItems items ≤ limit - (level + 1) := by
    rw [depthItems_le_iff]
    intro j hj
    have hj := (h j hj).depth
    omega
  rw [Json.depth]
  omega

theorem fits_ofRecord {r : Record} {limit level : Nat} (hlevel : level + 1 ≤ limit)
    (h : ∀ p ∈ r.entries, p.2.Fits limit (level + 1)) : (ofRecord r).Fits limit level := by
  refine ⟨⟨r.sorted, canonicalFields_iff.mpr fun p hp => (h p hp).canonical⟩, ?_⟩
  have hdepth : depthFields r.entries ≤ limit - (level + 1) := by
    rw [depthFields_le_iff]
    intro p hp
    have hp := (h p hp).depth
    omega
  rw [ofRecord, Json.depth]
  omega

end Json

/-! ## Readers -/

namespace Reader

/-- The values in a container fit below its level. -/
def Open.Fits (limit level : Nat) : Open → Prop
  | .array items => ∀ j ∈ items, j.Fits limit level
  | .object fields _ => ∀ p ∈ fields.entries, p.2.Fits limit level

/-- The containers of a stack stand within the limit, and the values in them fit. -/
def StackFits (limit : Nat) : List Open → Prop
  | [] => True
  | container :: rest =>
    rest.length + 1 ≤ limit ∧ container.Fits limit (rest.length + 1) ∧ StackFits limit rest

/-- All values of a reader fit. -/
structure Fits (limit : Nat) (r : Reader) : Prop where
  stack : StackFits limit r.stack
  value : ∀ value, r.expect = .nothing value → value.Fits limit 0

variable {limit : Nat}

/-- A stack stays within the limit. -/
theorem StackFits.length_le {stack : List Open} (h : StackFits limit stack) :
    stack.length ≤ limit := by
  cases stack with
  | nil => exact Nat.zero_le limit
  | cons container rest => exact h.1

/-- A value that fits is put into the innermost container. -/
theorem fits_place {stack : List Open} (h : StackFits limit stack) {value : Json}
    (hvalue : value.Fits limit stack.length) : (place stack value).Fits limit := by
  unfold place
  split
  · refine ⟨trivial, ?_⟩
    intro v hv
    cases hv
    exact hvalue
  · obtain ⟨hlevel, hitems, hrest⟩ := h
    exact ⟨⟨hlevel, List.forall_mem_cons.mpr ⟨hvalue, hitems⟩, hrest⟩, by simp⟩
  · obtain ⟨hlevel, hfields, hrest⟩ := h
    refine ⟨⟨hlevel, ?_, hrest⟩, by simp⟩
    intro p hp
    rcases SortedMap.mem_insertEntry hp with rfl | hp
    · exact hvalue
    · exact hfields p hp

/-- A container that is closed becomes a value of the one around it. -/
theorem fits_place_array {items : List Json} {rest : List Open}
    (h : StackFits limit (.array items :: rest)) :
    (place rest (.arr items.reverse)).Fits limit := by
  obtain ⟨hlevel, hitems, hrest⟩ := h
  exact fits_place hrest (Json.fits_arr hlevel fun j hj => hitems j (List.mem_reverse.mp hj))

theorem fits_place_object {fields : Record} {key : String} {rest : List Open}
    (h : StackFits limit (.object fields key :: rest)) :
    (place rest (.ofRecord fields)).Fits limit := by
  obtain ⟨hlevel, hfields, hrest⟩ := h
  exact fits_place hrest (Json.fits_ofRecord hlevel hfields)

/-- A container is opened only below the limit. -/
theorem Fits.openContainer? {r r' : Reader} (h : r.Fits limit) {container : Open} {expect : Expect}
    (hempty : ∀ level, container.Fits limit level) (hexpect : ∀ value, expect ≠ .nothing value)
    (hopen : r.openContainer? limit container expect = some r') : r'.Fits limit := by
  unfold Reader.openContainer? at hopen
  split at hopen
  · next hroom =>
    cases hopen
    exact ⟨⟨hroom, hempty _, h.stack⟩, fun value hvalue => absurd hvalue (hexpect value)⟩
  · cases hopen

/-- Every token that carries no container keeps a reader's values fitting. -/
theorem Fits.take? {r r' : Reader} (h : r.Fits limit) {t : Token} (ht : t.Flat)
    (htake : r.take? limit t = some r') : r'.Fits limit := by
  have hstack := h.stack
  unfold Reader.take? at htake
  split at htake
  · cases htake
    exact fits_place hstack (Json.fits_of_flat ht hstack.length_le)
  · exact h.openContainer? (by simp [Open.Fits]) (by simp) htake
  · exact h.openContainer? (by simp [Open.Fits, SortedMap.empty]) (by simp) htake
  · next hcontainers =>
    rw [hcontainers] at hstack
    cases htake
    exact fits_place_array hstack
  · next hcontainers =>
    rw [hcontainers] at hstack
    cases htake
    exact ⟨hstack, by simp⟩
  · next hcontainers =>
    rw [hcontainers] at hstack
    cases htake
    exact fits_place_object hstack
  · cases htake
    exact ⟨hstack, by simp⟩
  · next hcontainers =>
    rw [hcontainers] at hstack
    cases htake
    exact ⟨hstack, by simp⟩
  · next hcontainers =>
    rw [hcontainers] at hstack
    cases htake
    exact ⟨hstack, by simp⟩
  · next hcontainers =>
    rw [hcontainers] at hstack
    cases htake
    exact fits_place_array hstack
  · next hcontainers =>
    rw [hcontainers] at hstack
    cases htake
    exact fits_place_object hstack
  · cases htake

/-- The run lemma for tokens, from `Fits.take?`. -/
theorem Fits.takeAll? {r r' : Reader} (h : r.Fits limit) {ts : List Token}
    (hts : ∀ t ∈ ts, t.Flat) (htake : r.takeAll? limit ts = some r') : r'.Fits limit := by
  induction ts generalizing r with
  | nil =>
    cases htake
    exact h
  | cons t ts ih =>
    obtain ⟨ht, hts⟩ := List.forall_mem_cons.mp hts
    obtain ⟨next, hnext, hrest⟩ := Option.bind_eq_some_iff.mp htake
    exact ih (h.take? ht hnext) hts hrest

end Reader

/-- A value that was read is canonical and within the limit. -/
theorem Json.fits_of_parseNested? {limit : Nat} {text : String} {j : Json}
    (h : parseNested? limit text = some j) : j.Fits limit 0 := by
  obtain ⟨ts, hscan, hread⟩ := Option.bind_eq_some_iff.mp h
  obtain ⟨r, htake, hvalue⟩ := Option.bind_eq_some_iff.mp hread
  have hstart : Reader.start.Fits limit := ⟨trivial, by simp [Reader.start]⟩
  have hfits := hstart.takeAll? (Token.flat_of_scan? hscan) htake
  unfold Reader.value? at hvalue
  split at hvalue
  · next value hexpect =>
    cases hvalue
    exact hfits.value j hexpect
  · cases hvalue

/-- So is a record. -/
theorem Record.fits_of_parse? {text : String} {r : Record} (h : Record.parse? text = some r) :
    (Json.ofRecord r).Fits Json.nestingLimit 0 := by
  obtain ⟨j, hparse, hrecord⟩ := Option.bind_eq_some_iff.mp h
  have hfits := Json.fits_of_parseNested? hparse
  cases j with
  | obj fields =>
    cases hrecord
    have hsorted := SortedMap.ofList_of_sorted hfits.canonical.1
    rw [Json.ofRecord, hsorted]
    exact hfits
  | _ => cases hrecord

/-- The values of a record that fits at the outermost level fit one level below. -/
theorem Record.fits_of_get? {r : Record} {limit : Nat} (h : (Json.ofRecord r).Fits limit 0)
    {f : String} {value : Json} (hvalue : r.get? f = some value) : value.Fits limit 1 := by
  have hmem := SortedMap.get?_eq_some_iff.mp hvalue
  have hdepth : value.depth ≤ Json.depthFields r.entries :=
    Json.depthFields_le_iff.mp (Nat.le_refl _) (f, value) hmem
  refine ⟨Json.canonicalFields_iff.mp h.canonical.2 (f, value) hmem, ?_⟩
  have hrecord := h.depth
  rw [Json.ofRecord, Json.depth] at hrecord
  omega

end LiveDocs

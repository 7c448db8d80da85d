import LiveDocs.Proofs.Json.RoundTrip

/-!
# Fields and keys of records

What merging does to the fields of a record, which fields its key depends on, and when a record is
legible: its values are, whatever its keys. The bound on the nesting of a record is one more than
the bound on its values.

## Main results

* `Record.get?_merge`, `Record.get?_assign`, `Record.get?_keyFields`: lookups after merging and
  assigning, and in the key fields.
* `Record.key?_congr`, `Record.key?_merge`, `Record.key?_assign`, `Record.key?_keyFields`: the key
  of a record.
* `Record.legible_iff`, `Record.depth_le_iff`: legibility and nesting field by field.
-/

namespace LiveDocs

namespace SortedMap

variable {κ α : Type} [LT κ] [DecidableLT κ] [DecidableEq κ] [OrderedKey κ]

/-- Entries with different keys are put in independently of one another. -/
theorem get?_foldl_insert (m : SortedMap κ α) {l : List (κ × α)}
    (h : l.Pairwise (fun a b => a.1 < b.1)) (k : κ) :
    (l.foldl (fun m p => m.insert p.1 p.2) m).get? k = (find k l).or (m.get? k) := by
  induction l generalizing m with
  | nil => rfl
  | cons p l ih =>
    obtain ⟨k', x⟩ := p
    obtain ⟨hhead, htail⟩ := List.pairwise_cons.mp h
    rw [List.foldl_cons, ih _ htail, get?_insert]
    by_cases hk : k = k'
    · subst hk
      have hnone : find k l = none :=
        find_eq_none fun q hq e => OrderedKey.irrefl k (e ▸ hhead q hq)
      simp [find, hnone]
    · simp [find, hk]

end SortedMap

namespace Json

theorem canonicalItems_iff {items : List Json} :
    CanonicalItems items ↔ ∀ j ∈ items, j.Canonical := by
  induction items with
  | nil => simp [CanonicalItems]
  | cons j items ih => simp [CanonicalItems, ih]

theorem canonicalFields_iff {fields : List (String × Json)} :
    CanonicalFields fields ↔ ∀ p ∈ fields, p.2.Canonical := by
  induction fields with
  | nil => simp [CanonicalFields]
  | cons p fields ih => simp [CanonicalFields, ih]

theorem readsBackItems_iff {items : List Json} :
    ReadsBackItems items ↔ ∀ j ∈ items, j.ReadsBack := by
  induction items with
  | nil => simp [ReadsBackItems]
  | cons j items ih => simp [ReadsBackItems, ih]

theorem readsBackFields_iff {fields : List (String × Json)} :
    ReadsBackFields fields ↔ ∀ p ∈ fields, p.2.ReadsBack := by
  induction fields with
  | nil => simp [ReadsBackFields]
  | cons p fields ih => simp [ReadsBackFields, ih]

theorem depthItems_le_iff {items : List Json} {bound : Nat} :
    depthItems items ≤ bound ↔ ∀ j ∈ items, j.depth ≤ bound := by
  induction items with
  | nil => simp [depthItems]
  | cons j items ih => rw [depthItems, Nat.max_le, ih, List.forall_mem_cons]

theorem depthFields_le_iff {fields : List (String × Json)} {bound : Nat} :
    depthFields fields ≤ bound ↔ ∀ p ∈ fields, p.2.depth ≤ bound := by
  induction fields with
  | nil => simp [depthFields]
  | cons p fields ih => rw [depthFields, Nat.max_le, ih, List.forall_mem_cons]

/-- An array is legible if its items are. -/
theorem legible_arr_iff {items : List Json} :
    (arr items).Legible ↔ ∀ j ∈ items, j.Legible := by
  constructor
  · rintro ⟨hc, hr⟩ j hj
    exact ⟨canonicalItems_iff.mp hc j hj, readsBackItems_iff.mp hr j hj⟩
  · intro h
    exact ⟨canonicalItems_iff.mpr fun j hj => (h j hj).canonical,
      readsBackItems_iff.mpr fun j hj => (h j hj).readsBack⟩

/-- An object with its members in key order is legible if their values are. -/
theorem legible_obj_iff {fields : List (String × Json)} :
    (obj fields).Legible ↔
      fields.Pairwise (fun a b => a.1 < b.1) ∧ ∀ p ∈ fields, p.2.Legible := by
  constructor
  · rintro ⟨⟨hs, hc⟩, hr⟩
    exact ⟨hs, fun p hp => ⟨canonicalFields_iff.mp hc p hp, readsBackFields_iff.mp hr p hp⟩⟩
  · rintro ⟨hs, h⟩
    exact ⟨⟨hs, canonicalFields_iff.mpr fun p hp => (h p hp).canonical⟩,
      readsBackFields_iff.mpr fun p hp => (h p hp).readsBack⟩

end Json

namespace Record

/-- A record is legible if its values are. -/
theorem legible_iff {r : Record} :
    (Json.ofRecord r).Legible ↔ ∀ key value, r.get? key = some value → value.Legible := by
  rw [Json.ofRecord, Json.legible_obj_iff]
  constructor
  · rintro ⟨-, h⟩ key value hget
    exact h (key, value) (SortedMap.get?_eq_some_iff.mp hget)
  · intro h
    exact ⟨r.sorted, fun p hp => h p.1 p.2 (SortedMap.get?_eq_some_iff.mpr hp)⟩

/-- A record is nested one level deeper than its values. -/
theorem depth_le_iff {r : Record} {bound : Nat} :
    (Json.ofRecord r).depth ≤ bound + 1 ↔
      ∀ key value, r.get? key = some value → value.depth ≤ bound := by
  rw [Json.ofRecord, Json.depth, Nat.add_le_add_iff_right, Json.depthFields_le_iff]
  constructor
  · intro h key value hget
    exact h (key, value) (SortedMap.get?_eq_some_iff.mp hget)
  · intro h p hp
    exact h p.1 p.2 (SortedMap.get?_eq_some_iff.mpr hp)

/-- A record with one natural number is legible. -/
theorem legible_single (field : String) (n : Nat) :
    (Json.ofRecord (SortedMap.empty.insert field (.ofNat n))).Legible ∧
      (Json.ofRecord (SortedMap.empty.insert field (.ofNat n))).depth ≤ 1 := by
  have hvalue : ∀ key value, (SortedMap.empty.insert field (Json.ofNat n)).get? key = some value →
      value = .ofNat n := by
    intro key value h
    rw [SortedMap.get?_insert] at h
    split at h
    · exact (Option.some.inj h).symm
    · cases h
  constructor
  · refine legible_iff.mpr fun key value h => ?_
    rw [hvalue key value h]
    exact ⟨trivial, Number.readsBack_natural _⟩
  · refine depth_le_iff.mpr fun key value h => ?_
    rw [hvalue key value h]
    exact Nat.le_refl 0

/-- Of two merged records the second wins. -/
@[simp] theorem get?_merge (r s : Record) (key : String) :
    (r.merge s).get? key = (s.get? key).or (r.get? key) :=
  SortedMap.get?_foldl_insert r s.sorted key

/-- Steps that each give one field a value, if there is one for it, give all of them theirs. -/
theorem get?_foldl_take {v : String → Option Json} {take : Record → String → Record}
    (htake : ∀ m f key,
      (take m f).get? key = if key = f then (v f).or (m.get? key) else m.get? key)
    (fields : List String) (m : Record) (key : String) :
    (fields.foldl take m).get? key =
      if key ∈ fields then (v key).or (m.get? key) else m.get? key := by
  induction fields generalizing m with
  | nil => simp
  | cons f fields ih =>
    rw [List.foldl_cons, ih, htake]
    by_cases hf : key = f
    · subst hf
      cases v key <;> simp
    · simp [hf]

/-- The key fields of a record are those it has. -/
@[simp] theorem get?_keyFields (fields : List String) (r : Record) (key : String) :
    (r.keyFields fields).get? key = if key ∈ fields then r.get? key else none := by
  rw [keyFields, get?_foldl_take (v := r.get?), SortedMap.get?_empty, Option.or_none]
  intro m f key
  cases r.get? f with
  | none => simp
  | some value => rw [SortedMap.get?_insert, Option.some_or]

/-- The key depends on the key fields only. -/
theorem key?_congr {fields : List String} {r s : Record}
    (h : ∀ f ∈ fields, r.get? f = s.get? f) : r.key? fields = s.key? fields := by
  have hvalues : r.keyValues? fields = s.keyValues? fields := by
    simp only [keyValues?]
    induction fields with
    | nil => rfl
    | cons f fields ih =>
      obtain ⟨hf, hfields⟩ := List.forall_mem_cons.mp h
      have hvalue : r.keyValue? f = s.keyValue? f := by simp only [keyValue?, hf]
      rw [List.mapM_cons, List.mapM_cons, hvalue, ih hfields]
  rw [key?, key?, hvalues]

theorem keyValue?_eq_some {r : Record} {f : String} {value : Json}
    (h : r.keyValue? f = some value) : r.get? f = some value ∧ value.isNull = false := by
  simp only [keyValue?] at h
  split at h
  · cases h
  · cases h
  · next hnull hget =>
    cases h
    refine ⟨hget, ?_⟩
    cases value with
    | null => exact absurd rfl hnull
    | _ => rfl

/-- A record with a key has all key fields, and none of them is `null`. -/
theorem exists_of_key? {fields : List String} {r : Record} {key : String}
    (h : r.key? fields = some key) :
    ∀ f ∈ fields, ∃ value, r.get? f = some value ∧ value.isNull = false := by
  obtain ⟨values, hvalues, -⟩ := Option.map_eq_some_iff.mp h
  clear h
  simp only [keyValues?] at hvalues
  induction fields generalizing values with
  | nil => simp
  | cons f fields ih =>
    simp only [List.mapM_cons, Option.bind_eq_bind, Option.bind_eq_some_iff] at hvalues
    obtain ⟨value, hvalue, rest, hrest, -⟩ := hvalues
    exact List.forall_mem_cons.mpr ⟨⟨value, keyValue?_eq_some hvalue⟩, ih rest hrest⟩

/-- Merging a row that has a key gives a row with that key. -/
theorem key?_merge {fields : List String} (r : Record) {s : Record} {key : String}
    (h : s.key? fields = some key) : (r.merge s).key? fields = some key := by
  rw [← h]
  refine key?_congr fun f hf => ?_
  obtain ⟨value, hvalue, -⟩ := exists_of_key? h f hf
  simp [hvalue]

/-- Of assigned fields a `null` drops the field. -/
theorem get?_assign (r s : Record) (key : String) :
    (r.assign s).get? key =
      match s.get? key with
      | none => r.get? key
      | some value => if value.isNull then none else some value := by
  have hfold : ∀ (l : List (String × Json)), l.Pairwise (fun a b => a.1 < b.1) → ∀ m : Record,
      (l.foldl (fun m e => m.assignField e.1 e.2) m).get? key =
        match SortedMap.find key l with
        | none => m.get? key
        | some value => if value.isNull then none else some value := by
    intro l
    induction l with
    | nil => intro _ m; rfl
    | cons e l ih =>
      intro hl m
      obtain ⟨k, x⟩ := e
      obtain ⟨hhead, htail⟩ := List.pairwise_cons.mp hl
      rw [List.foldl_cons, ih htail]
      by_cases hk : key = k
      · subst hk
        have hnone : SortedMap.find key l = none :=
          SortedMap.find_eq_none fun q hq e => OrderedKey.irrefl key (e ▸ hhead q hq)
        cases hx : x.isNull <;> simp [SortedMap.find, hnone, assignField, hx]
      · cases hx : x.isNull <;> simp [SortedMap.find, hk, assignField, hx]
  exact hfold s.entries s.sorted r

/-- A record without `null` fields is what its fields make of the empty record. -/
theorem assign_empty {r : Record}
    (h : ∀ {f value}, r.get? f = some value → value.isNull = false) : assign .empty r = r := by
  refine SortedMap.ext_get? fun f => ?_
  rw [get?_assign]
  cases hf : r.get? f with
  | none => rfl
  | some value => simp [h hf]

/-- Assigning fields that have a key gives a record with that key. -/
theorem key?_assign {fields : List String} (r : Record) {s : Record} {key : String}
    (h : s.key? fields = some key) : (r.assign s).key? fields = some key := by
  rw [← h]
  refine key?_congr fun f hf => ?_
  obtain ⟨value, hvalue, hnull⟩ := exists_of_key? h f hf
  simp [get?_assign, hvalue, hnull]

@[simp] theorem key?_keyFields (fields : List String) (r : Record) :
    (r.keyFields fields).key? fields = r.key? fields :=
  key?_congr fun f hf => by simp [hf]

/-- The key values of a record are values of its fields. -/
theorem get?_of_keyValues? {fields : List String} {r : Record} {values : List Json}
    (h : r.keyValues? fields = some values) : fields.map r.get? = values.map some := by
  simp only [keyValues?] at h
  induction fields generalizing values with
  | nil =>
    cases h
    rfl
  | cons f fields ih =>
    simp only [List.mapM_cons, Option.bind_eq_bind, Option.bind_eq_some_iff] at h
    obtain ⟨value, hvalue, rest, hrest, hvalues⟩ := h
    cases hvalues
    rw [List.map_cons, List.map_cons, (keyValue?_eq_some hvalue).1, ih hrest]

end Record

end LiveDocs

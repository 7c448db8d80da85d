import LiveDocs.SortedMap

/-!
# Building sorted maps

What insertion does to the list of entries. A new greatest key goes to the end
(`SortedMap.entries_insert_of_lt`), so a map is rebuilt from its entries in order
(`SortedMap.ofList_entries`).

A map whose keys are the numbers below its size is *numbered* (`SortedMap.Numbered`): its size is
the next free number, and it stays numbered when that number is taken or a value is replaced.
-/

namespace LiveDocs.SortedMap

variable {κ α β : Type} [LT κ] [DecidableLT κ] [DecidableEq κ]

theorem insertEntry_of_lt [OrderedKey κ] {k : κ} (x : α) {l : List (κ × α)}
    (h : ∀ p ∈ l, p.1 < k) : insertEntry k x l = l ++ [(k, x)] := by
  induction l with
  | nil => rfl
  | cons p l ih =>
    obtain ⟨k', x'⟩ := p
    have hlt : k' < k := h (k', x') List.mem_cons_self
    have hnlt : ¬ k < k' := fun hk => OrderedKey.irrefl k (OrderedKey.trans hk hlt)
    have hne : k ≠ k' := fun e => OrderedKey.irrefl k (e ▸ hlt)
    simp only [insertEntry, hnlt, hne, if_false, List.cons_append]
    rw [ih fun p hp => h p (List.mem_cons_of_mem _ hp)]

variable [OrderedKey κ]

omit [DecidableLT κ] in
/-- The keys are those with a value. -/
theorem mem_keys_iff {m : SortedMap κ α} {k : κ} : k ∈ m.keys ↔ m.contains k = true := by
  rw [keys, List.mem_map, contains, Option.isSome_iff_exists]
  constructor
  · rintro ⟨⟨k', x⟩, hmem, rfl⟩
    exact ⟨x, get?_eq_some_iff.mpr hmem⟩
  · rintro ⟨x, hx⟩
    exact ⟨(k, x), get?_eq_some_iff.mp hx, rfl⟩

omit [DecidableLT κ] in
theorem mem_values_iff {m : SortedMap κ α} {x : α} : x ∈ m.values ↔ ∃ k, m.get? k = some x := by
  simp only [values, List.mem_map, get?_eq_some_iff]
  constructor
  · rintro ⟨⟨k, _⟩, hmem, rfl⟩
    exact ⟨k, hmem⟩
  · rintro ⟨k, hmem⟩
    exact ⟨(k, x), hmem, rfl⟩

/-- A key greater than all others goes to the end. -/
theorem entries_insert_of_lt (m : SortedMap κ α) {k : κ} (x : α) (h : ∀ p ∈ m.entries, p.1 < k) :
    (m.insert k x).entries = m.entries ++ [(k, x)] :=
  insertEntry_of_lt x h

/-- Sorted entries that all come behind those of a map go to its end. -/
theorem entries_foldl_insert (m : SortedMap κ α) (l : List (κ × α))
    (h : (m.entries ++ l).Pairwise (fun a b => a.1 < b.1)) :
    (l.foldl (fun m p => m.insert p.1 p.2) m).entries = m.entries ++ l := by
  induction l generalizing m with
  | nil => simp
  | cons p l ih =>
    have hp : ∀ q ∈ m.entries, q.1 < p.1 := fun q hq =>
      (List.pairwise_append.mp h).2.2 q hq p List.mem_cons_self
    have hinsert := entries_insert_of_lt m p.2 hp
    rw [List.foldl_cons, ih, hinsert]
    · simp
    · rw [hinsert]
      simpa using h

/-- A map is rebuilt from its entries. -/
theorem ofList_of_sorted {l : List (κ × α)} (h : l.Pairwise (fun a b => a.1 < b.1)) :
    (ofList l).entries = l :=
  entries_foldl_insert empty l (by simpa [empty] using h)

@[simp] theorem ofList_entries (m : SortedMap κ α) : ofList m.entries = m :=
  eq_of_entries (ofList_of_sorted m.sorted)

/-- What the map of a list has under a key comes from the list. -/
theorem mem_of_get?_ofList {l : List (κ × α)} {k : κ} {x : α} (h : (ofList l).get? k = some x) :
    (k, x) ∈ l := by
  have hfold (m : SortedMap κ α)
      (hm : (l.foldl (fun m p => m.insert p.1 p.2) m).get? k = some x) :
      (k, x) ∈ l ∨ m.get? k = some x := by
    clear h
    induction l generalizing m with
    | nil => exact .inr hm
    | cons p l ih =>
      rcases ih _ hm with hmem | hget
      · exact .inl (List.mem_cons_of_mem p hmem)
      · rw [get?_insert] at hget
        split at hget
        · next hk =>
          cases hget
          subst hk
          exact .inl List.mem_cons_self
        · exact .inr hget
  exact (hfold .empty h).resolve_right (by simp)

@[simp] theorem contains_insert (m : SortedMap κ α) (k k' : κ) (x : α) :
    (m.insert k x).contains k' = (decide (k' = k) || m.contains k') := by
  by_cases h : k' = k <;> simp [contains, h]

omit [DecidableLT κ] [OrderedKey κ] in
theorem contains_of_get? {m : SortedMap κ α} {k : κ} {x : α} (h : m.get? k = some x) :
    m.contains k = true := by
  simp [contains, h]

omit [DecidableLT κ] [OrderedKey κ] in
theorem get?_of_contains {m : SortedMap κ α} {k : κ} (h : m.contains k = true) :
    ∃ x, m.get? k = some x :=
  Option.isSome_iff_exists.mp h

theorem insert_get? {m : SortedMap κ α} {k : κ} {x : α} (h : m.get? k = some x) :
    m.insert k x = m := by
  refine ext_get? fun k' => ?_
  by_cases hk : k' = k <;> simp [hk, h]

/-! ## Numbered entries -/

theorem length_insertEntry (k : κ) (x : α) {l : List (κ × α)}
    (hs : l.Pairwise (fun a b => a.1 < b.1)) :
    (insertEntry k x l).length = l.length + if (find k l).isSome then 0 else 1 := by
  induction l with
  | nil => rfl
  | cons p l ih =>
    obtain ⟨k', x'⟩ := p
    have ⟨hhead, htail⟩ := List.pairwise_cons.mp hs
    by_cases hlt : k < k'
    · have hnone : find k ((k', x') :: l) = none := find_eq_none fun q hq hk => by
        rcases List.mem_cons.mp hq with rfl | hq
        · exact OrderedKey.irrefl k (hk ▸ hlt)
        · exact OrderedKey.irrefl k (OrderedKey.trans hlt (hk ▸ hhead q hq))
      simp [insertEntry, hlt, hnone]
    · by_cases hk : k = k'
      · simp [insertEntry, find, hk, OrderedKey.irrefl]
      · simp only [insertEntry, find, hlt, hk, if_false, List.length_cons, ih htail]
        omega

theorem size_insert (m : SortedMap κ α) (k : κ) (x : α) :
    (m.insert k x).size = m.size + if m.contains k then 0 else 1 :=
  length_insertEntry k x m.sorted

theorem size_le_size_insert (m : SortedMap κ α) (k : κ) (x : α) :
    m.size ≤ (m.insert k x).size := by
  rw [size_insert]
  omega

/-- The keys are the numbers below the size. -/
def Numbered (m : SortedMap Nat α) : Prop := ∀ k, m.contains k = true ↔ k < m.size

theorem numbered_empty : (empty : SortedMap Nat α).Numbered := by
  intro k
  simp [contains, size, empty, get?, find]

namespace Numbered

variable {m : SortedMap Nat α}

theorem get?_size (h : m.Numbered) : m.get? m.size = none := by
  have hsize : m.contains m.size ≠ true := fun hc => Nat.lt_irrefl _ ((h m.size).mp hc)
  simpa [contains] using hsize

/-- A numbered map stays so when a value is replaced or the next number is taken. -/
theorem insert (h : m.Numbered) {k : Nat} (x : α) (hk : m.contains k = true ∨ k = m.size) :
    (m.insert k x).Numbered := by
  intro k'
  rw [contains_insert, size_insert, Bool.or_eq_true, decide_eq_true_eq, h k']
  rcases hk with hk | hk
  · have hlt := (h k).mp hk
    simp only [hk, if_true]
    omega
  · have hfree : m.contains k = false := by simp [hk, contains, h.get?_size]
    simp only [hfree, Bool.false_eq_true, if_false]
    omega

end Numbered

end LiveDocs.SortedMap

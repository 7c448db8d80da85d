/-!
# Sorted maps

Finite maps from ordered keys, kept as the list of their entries in strictly increasing key order.
The order is part of the type, so a map has exactly one representation: two maps with the same
lookups are equal (`SortedMap.ext_get?`), and the order in which entries were inserted is forgotten.

## Main definitions

* `OrderedKey`: a key type with a strict total order.
* `SortedMap`: the map itself, with `get?`, `insert`, `erase`, `filter`, `map` and `ofList`.
* `SortedMap.rangeTo`, `SortedMap.rangeFrom`: the entries on one side of a key.
-/

namespace LiveDocs

/-- Keys whose `<` is a strict total order. -/
class OrderedKey (κ : Type) [LT κ] : Prop where
  trans : ∀ {a b c : κ}, a < b → b < c → a < c
  irrefl : ∀ a : κ, ¬ a < a
  lt_of_not_lt_of_ne : ∀ {a b : κ}, ¬ a < b → a ≠ b → b < a

instance : OrderedKey String where
  trans := String.lt_trans
  irrefl := String.lt_irrefl
  lt_of_not_lt_of_ne h hne := String.not_le.mp fun h' =>
    hne (String.le_antisymm h' (String.not_lt.mp h))

instance : OrderedKey Nat where
  trans := Nat.lt_trans
  irrefl := Nat.lt_irrefl
  lt_of_not_lt_of_ne h hne := by omega

/-- A finite map, as its entries in strictly increasing key order. -/
structure SortedMap (κ α : Type) [LT κ] where
  entries : List (κ × α)
  sorted : entries.Pairwise (fun a b => a.1 < b.1)

namespace SortedMap

variable {κ α β : Type}

section Entries

variable [DecidableEq κ]

/-- The value of the first entry with key `k` in a list of entries. -/
def find (k : κ) : List (κ × α) → Option α
  | [] => none
  | (k', x) :: rest => if k = k' then some x else find k rest

theorem find_eq_none {k : κ} {l : List (κ × α)} (h : ∀ p ∈ l, p.1 ≠ k) : find k l = none := by
  induction l with
  | nil => rfl
  | cons p l ih =>
    obtain ⟨k', x⟩ := p
    have hne : k ≠ k' := fun e => h (k', x) List.mem_cons_self e.symm
    simp only [find, hne, if_false]
    exact ih fun q hq => h q (List.mem_cons_of_mem _ hq)

theorem mem_of_find {k : κ} {x : α} {l : List (κ × α)} (h : find k l = some x) : (k, x) ∈ l := by
  induction l with
  | nil => simp [find] at h
  | cons p l ih =>
    obtain ⟨k', x'⟩ := p
    simp only [find] at h
    split at h
    · next e => cases h; subst e; exact List.mem_cons_self
    · exact List.mem_cons_of_mem _ (ih h)

theorem find_map (f : κ → α → β) (k : κ) (l : List (κ × α)) :
    find k (l.map (fun e => (e.1, f e.1 e.2))) = (find k l).map (f k) := by
  induction l with
  | nil => rfl
  | cons q l ih =>
    obtain ⟨k', x⟩ := q
    by_cases e : k = k'
    · subst e; simp [find]
    · simp [find, e, ih]

end Entries

variable [LT κ]

/-- Two maps with the same entries are the same map. -/
theorem eq_of_entries {m n : SortedMap κ α} (h : m.entries = n.entries) : m = n := by
  cases m; cases n; cases h; rfl

instance [DecidableEq κ] [DecidableEq α] : DecidableEq (SortedMap κ α) := fun m n =>
  if h : m.entries = n.entries then isTrue (eq_of_entries h)
  else isFalse (fun e => h (e ▸ rfl))

def empty : SortedMap κ α := ⟨[], List.Pairwise.nil⟩

instance : EmptyCollection (SortedMap κ α) := ⟨empty⟩

instance : Inhabited (SortedMap κ α) := ⟨empty⟩

def keys (m : SortedMap κ α) : List κ := m.entries.map Prod.fst

/-- The values, in the order of their keys. -/
def values (m : SortedMap κ α) : List α := m.entries.map Prod.snd

def size (m : SortedMap κ α) : Nat := m.entries.length

def isEmpty (m : SortedMap κ α) : Bool := m.entries.isEmpty

def last? (m : SortedMap κ α) : Option (κ × α) := m.entries.getLast?

/-- The entries with keys up to a bound, in order. -/
def rangeTo [DecidableLT κ] (m : SortedMap κ α) (bound : κ) : List (κ × α) :=
  m.entries.filter fun e => ¬ bound < e.1

/-- The entries with keys from a bound on, in order. -/
def rangeFrom [DecidableLT κ] (m : SortedMap κ α) (bound : κ) : List (κ × α) :=
  m.entries.filter fun e => ¬ e.1 < bound

section Lookup

variable [DecidableEq κ]

def get? (m : SortedMap κ α) (k : κ) : Option α := find k m.entries

def contains (m : SortedMap κ α) (k : κ) : Bool := (m.get? k).isSome

@[simp] theorem get?_empty (k : κ) : (empty : SortedMap κ α).get? k = none := rfl

theorem find_of_mem [OrderedKey κ] {k : κ} {x : α} {l : List (κ × α)}
    (hs : l.Pairwise (fun a b => a.1 < b.1)) (h : (k, x) ∈ l) : find k l = some x := by
  induction l with
  | nil => cases h
  | cons p l ih =>
    obtain ⟨k', x'⟩ := p
    simp only [find]
    rcases List.mem_cons.mp h with e | h
    · cases e; simp
    · have hlt : k' < k := (List.pairwise_cons.mp hs).1 _ h
      have hne : k ≠ k' := fun e => OrderedKey.irrefl k' (e ▸ hlt)
      simp only [hne, if_false]
      exact ih (List.pairwise_cons.mp hs).2 h

/-- A key has a value exactly when the pair is among the entries. -/
theorem get?_eq_some_iff [OrderedKey κ] {m : SortedMap κ α} {k : κ} {x : α} :
    m.get? k = some x ↔ (k, x) ∈ m.entries :=
  ⟨mem_of_find, find_of_mem m.sorted⟩

end Lookup

section Insert

variable [DecidableLT κ] [DecidableEq κ]

/-- Puts an entry at its place among sorted entries, replacing one with the same key. -/
def insertEntry (k : κ) (x : α) : List (κ × α) → List (κ × α)
  | [] => [(k, x)]
  | (k', x') :: rest =>
    if k < k' then (k, x) :: (k', x') :: rest
    else if k = k' then (k, x) :: rest
    else (k', x') :: insertEntry k x rest

theorem mem_insertEntry {k : κ} {x : α} {p : κ × α} {l : List (κ × α)}
    (h : p ∈ insertEntry k x l) : p = (k, x) ∨ p ∈ l := by
  induction l with
  | nil => simpa [insertEntry] using h
  | cons q l ih =>
    obtain ⟨k', x'⟩ := q
    simp only [insertEntry] at h
    split at h
    · simpa using h
    · split at h
      · rcases List.mem_cons.mp h with e | h
        · exact .inl e
        · exact .inr (List.mem_cons_of_mem _ h)
      · rcases List.mem_cons.mp h with e | h
        · exact .inr (e ▸ List.mem_cons_self)
        · exact (ih h).imp id (List.mem_cons_of_mem _)

theorem sorted_insertEntry [OrderedKey κ] (k : κ) (x : α) {l : List (κ × α)}
    (hs : l.Pairwise (fun a b => a.1 < b.1)) :
    (insertEntry k x l).Pairwise (fun a b => a.1 < b.1) := by
  induction l with
  | nil => simp [insertEntry]
  | cons q l ih =>
    obtain ⟨k', x'⟩ := q
    have ⟨hhead, htail⟩ := List.pairwise_cons.mp hs
    simp only [insertEntry]
    split
    · next hlt =>
      refine List.pairwise_cons.mpr ⟨fun p hp => ?_, hs⟩
      rcases List.mem_cons.mp hp with e | hp
      · exact e ▸ hlt
      · exact OrderedKey.trans hlt (hhead p hp)
    · next hnlt =>
      split
      · next e => subst e; exact List.pairwise_cons.mpr ⟨fun p hp => hhead p hp, htail⟩
      · next hne =>
        refine List.pairwise_cons.mpr ⟨fun p hp => ?_, ih htail⟩
        rcases mem_insertEntry hp with e | hp
        · exact e ▸ OrderedKey.lt_of_not_lt_of_ne hnlt hne
        · exact hhead p hp

variable [OrderedKey κ]

/-- The map with `x` under `k`, replacing what was there. -/
def insert (m : SortedMap κ α) (k : κ) (x : α) : SortedMap κ α :=
  ⟨insertEntry k x m.entries, sorted_insertEntry k x m.sorted⟩

/-- The map of a list of entries; of several with one key the last stays. -/
def ofList (l : List (κ × α)) : SortedMap κ α := l.foldl (fun m p => m.insert p.1 p.2) empty

omit [OrderedKey κ] in
theorem find_insertEntry (k k' : κ) (x : α) (l : List (κ × α)) :
    find k' (insertEntry k x l) = if k' = k then some x else find k' l := by
  induction l with
  | nil => rfl
  | cons q l ih =>
    obtain ⟨k₀, x₀⟩ := q
    simp only [insertEntry]
    split
    · rfl
    · split
      · next e =>
        subst e
        simp only [find]
        split <;> rfl
      · next hne =>
        simp only [find, ih]
        by_cases h₁ : k' = k
        · subst h₁; simp [hne]
        · simp [h₁]

@[simp] theorem get?_insert (m : SortedMap κ α) (k k' : κ) (x : α) :
    (m.insert k x).get? k' = if k' = k then some x else m.get? k' :=
  find_insertEntry k k' x m.entries

end Insert

section Sublists

def filter (m : SortedMap κ α) (p : κ → α → Bool) : SortedMap κ α :=
  ⟨m.entries.filter (fun e => p e.1 e.2), m.sorted.filter _⟩

def erase [DecidableEq κ] (m : SortedMap κ α) (k : κ) : SortedMap κ α :=
  m.filter (fun k' _ => k' ≠ k)

def map (m : SortedMap κ α) (f : κ → α → β) : SortedMap κ β :=
  ⟨m.entries.map (fun e => (e.1, f e.1 e.2)), List.pairwise_map.mpr m.sorted⟩

theorem find_filter [DecidableEq κ] [OrderedKey κ] (p : κ → α → Bool) (k : κ) {l : List (κ × α)}
    (hs : l.Pairwise (fun a b => a.1 < b.1)) :
    find k (l.filter (fun e => p e.1 e.2)) = (find k l).filter (p k) := by
  induction l with
  | nil => rfl
  | cons q l ih =>
    obtain ⟨k', x⟩ := q
    have ⟨hhead, htail⟩ := List.pairwise_cons.mp hs
    by_cases e : k = k'
    · subst e
      have hnone : find k (l.filter (fun e => p e.1 e.2)) = none :=
        find_eq_none fun q hq e => OrderedKey.irrefl k (e ▸ hhead q ((List.mem_filter.mp hq).1))
      cases hp : p k x <;> simp [hp, find, hnone, Option.filter]
    · cases hp : p k' x <;> simp [hp, find, e, ih htail]

@[simp] theorem get?_filter [DecidableEq κ] [OrderedKey κ] (m : SortedMap κ α) (p : κ → α → Bool)
    (k : κ) : (m.filter p).get? k = (m.get? k).filter (p k) :=
  find_filter p k m.sorted

@[simp] theorem get?_erase [DecidableEq κ] [OrderedKey κ] (m : SortedMap κ α) (k k' : κ) :
    (m.erase k).get? k' = if k' = k then none else m.get? k' := by
  simp only [erase, get?_filter]
  by_cases h : k' = k
  · cases m.get? k' <;> simp [h, Option.filter]
  · cases m.get? k' <;> simp [h, Option.filter]

@[simp] theorem get?_map [DecidableEq κ] (m : SortedMap κ α) (f : κ → α → β) (k : κ) :
    (m.map f).get? k = (m.get? k).map (f k) :=
  find_map f k m.entries

end Sublists

section Extensionality

variable [DecidableEq κ] [OrderedKey κ]

private theorem entries_ext {l l' : List (κ × α)} (hs : l.Pairwise (fun a b => a.1 < b.1))
    (hs' : l'.Pairwise (fun a b => a.1 < b.1)) (h : ∀ k, find k l = find k l') : l = l' := by
  induction l generalizing l' with
  | nil =>
    cases l' with
    | nil => rfl
    | cons q l' => have := h q.1; simp [find] at this
  | cons p l ih =>
    obtain ⟨k, x⟩ := p
    cases l' with
    | nil => have := h k; simp [find] at this
    | cons q l' =>
      obtain ⟨k', x'⟩ := q
      have ⟨hhead, htail⟩ := List.pairwise_cons.mp hs
      have ⟨hhead', htail'⟩ := List.pairwise_cons.mp hs'
      -- The least keys agree: each of them is found on the other side, at or after its least key.
      have hk : k = k' := by
        rcases Decidable.em (k = k') with e | hne
        · exact e
        · have h₁ := h k
          have h₂ := h k'
          simp only [find, if_true, hne, if_false, Ne.symm hne] at h₁ h₂
          have m₁ := hhead' _ (mem_of_find h₁.symm)
          have m₂ := hhead _ (mem_of_find h₂)
          exact absurd (OrderedKey.trans m₁ m₂) (OrderedKey.irrefl k')
      subst hk
      have hx : x = x' := by simpa [find] using h k
      subst hx
      have hrest : l = l' := by
        refine ih htail htail' fun j => ?_
        by_cases e : j = k
        · subst e
          rw [find_eq_none fun q hq (e : q.1 = j) => OrderedKey.irrefl j (e ▸ hhead q hq),
            find_eq_none fun q hq (e : q.1 = j) => OrderedKey.irrefl j (e ▸ hhead' q hq)]
        · simpa [find, e] using h j
      rw [hrest]

/-- A map is determined by its lookups. -/
theorem ext_get? {m n : SortedMap κ α} (h : ∀ k, m.get? k = n.get? k) : m = n :=
  eq_of_entries (entries_ext m.sorted n.sorted h)

end Extensionality

end SortedMap

end LiveDocs

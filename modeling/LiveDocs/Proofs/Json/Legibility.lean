import LiveDocs.Proofs.Record

/-!
# Which values are legible

A value is read back from its text if it is canonical and its doubles are
(`Json.legible_of_doubles`): all other numbers are read back anyway. A record is canonical if its
values are.

## Main definitions

* `Json.doubles`: the doubles in a value.
-/

namespace LiveDocs

namespace Json

mutual

/-- The doubles in a value. -/
def doubles : Json → List Double
  | num (.double x) => [x]
  | arr items => doublesItems items
  | obj fields => doublesFields fields
  | _ => []

def doublesItems : List Json → List Double
  | [] => []
  | item :: rest => doubles item ++ doublesItems rest

def doublesFields : List (String × Json) → List Double
  | [] => []
  | (_, value) :: rest => doubles value ++ doublesFields rest

end

mutual

/-- Integers are read back, so a value is legible as far as its doubles are. -/
theorem readsBack_of_doubles : (j : Json) → (∀ x ∈ j.doubles, (Number.double x).ReadsBack) →
    j.ReadsBack
  | null, _ => trivial
  | bool _, _ => trivial
  | str _, _ => trivial
  | num (.natural n), _ => Number.readsBack_natural n
  | num (.negative n), _ => Number.readsBack_negative n
  | num (.double x), h => h x List.mem_cons_self
  | arr items, h => readsBackItems_of_doubles items h
  | obj fields, h => readsBackFields_of_doubles fields h

theorem readsBackItems_of_doubles : (items : List Json) →
    (∀ x ∈ doublesItems items, (Number.double x).ReadsBack) → ReadsBackItems items
  | [], _ => trivial
  | item :: rest, h =>
    ⟨readsBack_of_doubles item fun x hx => h x (List.mem_append_left _ hx),
      readsBackItems_of_doubles rest fun x hx => h x (List.mem_append_right _ hx)⟩

theorem readsBackFields_of_doubles : (fields : List (String × Json)) →
    (∀ x ∈ doublesFields fields, (Number.double x).ReadsBack) → ReadsBackFields fields
  | [], _ => trivial
  | (_, value) :: rest, h =>
    ⟨readsBack_of_doubles value fun x hx => h x (List.mem_append_left _ hx),
      readsBackFields_of_doubles rest fun x hx => h x (List.mem_append_right _ hx)⟩

end

theorem legible_of_doubles {j : Json} (hcanonical : j.Canonical)
    (hdoubles : ∀ x ∈ j.doubles, (Number.double x).ReadsBack) : j.Legible :=
  ⟨hcanonical, readsBack_of_doubles j hdoubles⟩

end Json

namespace Record

/-- A record is canonical if its values are. -/
theorem canonical_iff {r : Record} :
    (Json.ofRecord r).Canonical ↔ ∀ f value, r.get? f = some value → value.Canonical := by
  constructor
  · rintro ⟨-, h⟩ f value hget
    exact Json.canonicalFields_iff.mp h (f, value) (SortedMap.get?_eq_some_iff.mp hget)
  · intro h
    refine ⟨r.sorted, Json.canonicalFields_iff.mpr ?_⟩
    intro p hp
    exact h p.1 p.2 (SortedMap.get?_eq_some_iff.mpr hp)

theorem canonical_ofList {fields : List (String × Json)}
    (hsorted : fields.Pairwise fun a b => a.1 < b.1) (hvalues : ∀ p ∈ fields, p.2.Canonical) :
    (Json.ofRecord (.ofList fields)).Canonical := by
  refine ⟨SortedMap.sorted _, Json.canonicalFields_iff.mpr ?_⟩
  rw [SortedMap.ofList_of_sorted hsorted]
  exact hvalues

end Record

end LiveDocs

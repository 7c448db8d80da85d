import LiveDocs.Proofs.SortedMap
import LiveDocs.Record

/-!
# Equality of JSON values

Two values are equal if they are the same but for the signs of zeros. With the signs of all zeros
dropped, equality is sameness (`Json.eqv_iff`), so it is an equivalence, and what depends on a
record only up to signs of zeros does not tell equal records apart.

## Main definitions

* `Json.unsigned`, `Record.unsigned`: values and records with the signs of zeros dropped.

## Main results

* `Json.eqv_iff`, `Record.beq_iff`: equality, in terms of these.
* `Record.unsigned_assign_congr`: fields assigned to equal records give equal records.
-/

namespace LiveDocs

namespace Double

/-- A double where both zeros are `0.0`. -/
def unsigned (d : Double) : Double := if d.isZero then zero false else d

theorem isZero_unsigned (d : Double) : d.unsigned.isZero = d.isZero := by
  unfold unsigned
  split
  · next h => rw [h]; decide
  · rfl

/-- Doubles are numerically equal if they are so after the sign of a zero is dropped. -/
theorem numEq_iff {a b : Double} : a.numEq b = true ↔ a.unsigned = b.unsigned := by
  have hbits : a.bits = b.bits ↔ a = b := ⟨fun h => by cases a; cases b; simp_all, fun h => h ▸ rfl⟩
  simp only [numEq, Bool.or_eq_true, Bool.and_eq_true, beq_iff_eq, hbits]
  constructor
  · rintro (rfl | ⟨ha, hb⟩)
    · rfl
    · rw [unsigned, unsigned, if_pos ha, if_pos hb]
  · intro h
    by_cases ha : a.isZero = true
    · exact .inr ⟨ha, by rw [← isZero_unsigned b, ← h, isZero_unsigned, ha]⟩
    · have hb : ¬ b.isZero = true := by rwa [← isZero_unsigned b, ← h, isZero_unsigned]
      rw [unsigned, unsigned, if_neg ha, if_neg hb] at h
      exact .inl h

end Double

namespace Number

/-- A number where both zeros among the doubles are `0.0`. -/
def unsigned : Number → Number
  | double d => double d.unsigned
  | n => n

theorem eqv_iff {a b : Number} : a.eqv b = true ↔ a.unsigned = b.unsigned := by
  cases a <;> cases b <;> simp [eqv, unsigned, Double.numEq_iff]

end Number

namespace Json

mutual

/-- A value with the signs of zeros dropped. -/
def unsigned : Json → Json
  | num n => num n.unsigned
  | arr items => arr (unsignedItems items)
  | obj fields => obj (unsignedFields fields)
  | j => j

def unsignedItems : List Json → List Json
  | [] => []
  | item :: rest => unsigned item :: unsignedItems rest

def unsignedFields : List (String × Json) → List (String × Json)
  | [] => []
  | (key, value) :: rest => (key, unsigned value) :: unsignedFields rest

end

mutual

/-- Equality is sameness but for the signs of zeros. -/
theorem eqv_iff : (a b : Json) → (a.eqv b = true ↔ a.unsigned = b.unsigned)
  | null, b | bool _, b | str _, b => by cases b <;> simp [eqv, unsigned]
  | num m, b => by cases b <;> simp [eqv, unsigned, Number.eqv_iff]
  | arr items, b => by cases b <;> simp [eqv, unsigned, eqvItems_iff items]
  | obj fields, b => by cases b <;> simp [eqv, unsigned, eqvFields_iff fields]

/-- Arrays are compared item by item, and of different lengths they are never equal. -/
theorem eqvItems_iff : (as bs : List Json) →
    (eqvItems as bs = true ↔ unsignedItems as = unsignedItems bs)
  | [], bs => by cases bs <;> simp [eqvItems, unsignedItems]
  | a :: as, bs => by cases bs <;> simp [eqvItems, unsignedItems, eqv_iff a, eqvItems_iff as]

theorem eqvFields_iff : (as bs : List (String × Json)) →
    (eqvFields as bs = true ↔ unsignedFields as = unsignedFields bs)
  | [], bs => by cases bs <;> simp [eqvFields, unsignedFields]
  | (key, a) :: as, bs => by
    cases bs with
    | nil => simp [eqvFields, unsignedFields]
    | cons q bs => simp [eqvFields, unsignedFields, eqv_iff a, eqvFields_iff as, and_assoc]

end

theorem unsignedFields_eq_map (fields : List (String × Json)) :
    unsignedFields fields = fields.map fun p => (p.1, p.2.unsigned) := by
  induction fields with
  | nil => rfl
  | cons p fields ih => simp [unsignedFields, ih]

end Json

namespace Record

/-- A record with the signs of zeros dropped. -/
def unsigned (r : Record) : Record := r.map fun _ value => value.unsigned

theorem entries_unsigned (r : Record) : r.unsigned.entries = Json.unsignedFields r.entries :=
  (Json.unsignedFields_eq_map r.entries).symm

/-- Records are equal if their fields are, up to the signs of zeros. -/
theorem beq_iff {r s : Record} : (r == s) = true ↔ r.unsigned = s.unsigned := by
  have hentries : r.unsigned = s.unsigned ↔ r.unsigned.entries = s.unsigned.entries :=
    ⟨fun h => h ▸ rfl, SortedMap.eq_of_entries⟩
  rw [hentries, entries_unsigned, entries_unsigned]
  exact Json.eqvFields_iff r.entries s.entries

@[simp] theorem get?_unsigned (r : Record) (key : String) :
    r.unsigned.get? key = (r.get? key).map Json.unsigned := SortedMap.get?_map r _ key

/-- A field can be put into either of two equal records. -/
theorem unsigned_assignField_congr {r s : Record} (h : r.unsigned = s.unsigned) (key : String)
    (value : Json) : (r.assignField key value).unsigned = (s.assignField key value).unsigned := by
  refine SortedMap.ext_get? fun k => ?_
  have hk : (r.get? k).map Json.unsigned = (s.get? k).map Json.unsigned := by
    rw [← get?_unsigned, h, get?_unsigned]
  rw [get?_unsigned, get?_unsigned]
  unfold assignField
  split
  · by_cases hkey : k = key
    · simp [hkey]
    · simpa [hkey] using hk
  · by_cases hkey : k = key
    · simp [hkey]
    · simpa [hkey] using hk

/-- Fields assigned to equal records give equal records. -/
theorem unsigned_assign_congr {r s : Record} (h : r.unsigned = s.unsigned) (fields : Record) :
    (r.assign fields).unsigned = (s.assign fields).unsigned := by
  unfold assign
  induction fields.entries generalizing r s with
  | nil => exact h
  | cons e entries ih => exact ih (unsigned_assignField_congr h e.1 e.2)

end Record

end LiveDocs

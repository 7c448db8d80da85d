import LiveDocs.Double.Shortest
import LiveDocs.SortedMap

/-!
# JSON values

JSON values with three kinds of numbers: naturals below `2 ^ 64`, negative integers down to
`-2 ^ 63`, and finite doubles. Numbers of different kinds are never equal, so `1` is not `1.0`;
doubles are compared by value, so `0.0` equals `-0.0`.

The members of an object are a list of fields. Values that were read, and values made of records,
list them in strictly increasing key order; `Json.Canonical` says so for all levels of a value.

## Main definitions

* `Number`, `Json`: numbers and values.
* `Json.eqv`: equality of values, also written `==`.
* `Record`: the members of an object, as a sorted map.
* `Json.Canonical`, `Json.depth`: sortedness at every level, and the number of nested containers.
-/

namespace LiveDocs

/-- A number: a natural, the negative integer `-(below + 1)`, or a double. -/
inductive Number where
  | natural (value : UInt64)
  | negative (below : Fin 0x8000000000000000)
  | double (value : Double)
deriving DecidableEq

namespace Number

/-- Equality of numbers: kinds never mix, and doubles are compared by value. -/
def eqv : Number → Number → Bool
  | natural a, natural b => a == b
  | negative a, negative b => a == b
  | double a, double b => a.numEq b
  | _, _ => false

end Number

inductive Json where
  | null
  | bool (value : Bool)
  | num (value : Number)
  | str (value : String)
  | arr (items : List Json)
  | obj (fields : List (String × Json))

instance : Inhabited Json := ⟨.null⟩

/-- The members of a JSON object by key. -/
abbrev Record := SortedMap String Json

namespace Json

mutual

/-- Equality of values: the same structure, with numbers compared by `Number.eqv`. -/
def eqv : Json → Json → Bool
  | null, null => true
  | bool a, bool b => a == b
  | num a, num b => a.eqv b
  | str a, str b => a == b
  | arr a, arr b => eqvItems a b
  | obj a, obj b => eqvFields a b
  | _, _ => false

def eqvItems : List Json → List Json → Bool
  | [], [] => true
  | a :: as, b :: bs => eqv a b && eqvItems as bs
  | _, _ => false

def eqvFields : List (String × Json) → List (String × Json) → Bool
  | [], [] => true
  | (k, a) :: as, (l, b) :: bs => k == l && eqv a b && eqvFields as bs
  | _, _ => false

end

instance : BEq Json := ⟨eqv⟩

mutual

/-- Every object, at every level, lists its members in strictly increasing key order. -/
def Canonical : Json → Prop
  | arr items => CanonicalItems items
  | obj fields => fields.Pairwise (fun a b => a.1 < b.1) ∧ CanonicalFields fields
  | _ => True

def CanonicalItems : List Json → Prop
  | [] => True
  | item :: rest => Canonical item ∧ CanonicalItems rest

def CanonicalFields : List (String × Json) → Prop
  | [] => True
  | (_, value) :: rest => Canonical value ∧ CanonicalFields rest

end

mutual

/-- The number of containers nested in one another. -/
def depth : Json → Nat
  | arr items => depthItems items + 1
  | obj fields => depthFields fields + 1
  | _ => 0

def depthItems : List Json → Nat
  | [] => 0
  | item :: rest => max (depth item) (depthItems rest)

def depthFields : List (String × Json) → Nat
  | [] => 0
  | (_, value) :: rest => max (depth value) (depthFields rest)

end

def ofUInt64 (n : UInt64) : Json := num (.natural n)

/-- The value of a natural number below `2 ^ 64`. -/
def ofNat (n : Nat) : Json := ofUInt64 (UInt64.ofNat n)

def ofRecord (r : Record) : Json := obj r.entries

def isNull : Json → Bool
  | null => true
  | _ => false

def record? : Json → Option Record
  | obj fields => some (SortedMap.ofList fields)
  | _ => none

def items? : Json → Option (List Json)
  | arr items => some items
  | _ => none

def str? : Json → Option String
  | str s => some s
  | _ => none

def bool? : Json → Option Bool
  | bool b => some b
  | _ => none

def natural? : Json → Option UInt64
  | num (.natural n) => some n
  | _ => none

end Json

end LiveDocs

import LiveDocs.Double.Shortest
import Mathlib.Algebra.Order.Field.Rat
import Mathlib.Data.Rat.Cast.Order
import Mathlib.Order.Monotone.Basic
import Mathlib.Tactic.Ring
import Mathlib.Tactic.Linarith

/-!
# Numbers that round to a double

All numbers in an interval around a double are rounded to it. Counted in quarter units, the interval
of a double begins where that of the double below it ends (`Double.lowAt_succ`), and of two
neighbours one has an even significand and the other an odd one. The common bound belongs to the
even one, so no number is rounded to two doubles (`Double.Covers.magnitude_eq`).

## Main definitions

* `Double.significandAt`, `Double.stepAt`, `Double.lowAt`, `Double.highAt`: the parts of a double
  and the bounds of its interval, by magnitude.
* `Double.Covers`: a number rounds to a double.
-/

namespace LiveDocs

namespace Double

/-! ## Magnitudes -/

/-- The significand of the doubles with magnitude `m`. -/
def significandAt (m : Nat) : Nat :=
  if m / exponentUnit = 0 then m % exponentUnit else exponentUnit + m % exponentUnit

/-- The distance of a double with magnitude `m` from the one above it, in units. -/
def stepAt (m : Nat) : Nat := powerOfTwo (m / exponentUnit - 1)

/-- Where the interval of the doubles with magnitude `m` begins, in quarter units. -/
def lowAt (m : Nat) : Nat :=
  4 * (significandAt m * stepAt m) -
    if significandAt m = exponentUnit ∧ 0 < m / exponentUnit - 1 then stepAt m else 2 * stepAt m

/-- Where it ends. -/
def highAt (m : Nat) : Nat := 4 * (significandAt m * stepAt m) + 2 * stepAt m

theorem interval_eq (d : Double) : d.interval = (lowAt d.magnitude, highAt d.magnitude) := rfl

theorem stepAt_pos (m : Nat) : 0 < stepAt m := Nat.pow_pos (by decide)

/-- The next double is one step away. Where the exponent grows, the steps above are twice as
long. -/
theorem significandAt_succ (m : Nat) :
    (significandAt (m + 1) = significandAt m + 1 ∧ stepAt (m + 1) = stepAt m ∧
      (significandAt (m + 1) = exponentUnit → (m + 1) / exponentUnit - 1 = 0)) ∨
    (significandAt (m + 1) = exponentUnit ∧ significandAt m + 1 = 2 * exponentUnit ∧
      stepAt (m + 1) = 2 * stepAt m ∧ 0 < (m + 1) / exponentUnit - 1) := by
  unfold significandAt stepAt exponentUnit
  by_cases hcarry : m % 0x10000000000000 + 1 = 0x10000000000000 ∧ 0 < m / 0x10000000000000
  · right
    have hexp : (m + 1) / 0x10000000000000 - 1 = (m / 0x10000000000000 - 1) + 1 := by omega
    rw [if_neg (by omega), if_neg (by omega), hexp]
    refine ⟨by omega, by omega, ?_, by omega⟩
    exact Nat.pow_succ'
  · left
    have hexp : (m + 1) / 0x10000000000000 - 1 = m / 0x10000000000000 - 1 := by omega
    rw [hexp]
    refine ⟨?_, rfl, ?_⟩
    · split <;> split <;> omega
    · split <;> omega

/-- The interval of a double begins where that of the double below ends. -/
theorem lowAt_succ (m : Nat) : lowAt (m + 1) = highAt m := by
  unfold lowAt highAt
  rcases significandAt_succ m with ⟨hsig, hstep, hexp⟩ | ⟨hsig, hcarry, hstep, hexp⟩
  · rw [hstep, if_neg (fun h => absurd (hexp h.1) (by omega)), hsig, Nat.add_mul]
    omega
  · have hunits : exponentUnit * (2 * stepAt m) = significandAt m * stepAt m + stepAt m := by
      rw [Nat.mul_left_comm, ← Nat.mul_assoc, ← hcarry, Nat.add_mul, Nat.one_mul]
    rw [if_pos ⟨hsig, hexp⟩, hsig, hstep, hunits]
    omega

theorem highAt_lt_succ (m : Nat) : highAt m < highAt (m + 1) := by
  have hpos := stepAt_pos (m + 1)
  have hlow : lowAt (m + 1) < highAt (m + 1) := by
    unfold lowAt highAt
    omega
  rwa [lowAt_succ] at hlow

theorem highAt_strictMono : StrictMono highAt := strictMono_nat_of_lt_succ highAt_lt_succ

/-- Of two neighbours one has an even significand and the other an odd one. -/
theorem significandAt_succ_mod (m : Nat) : (significandAt (m + 1) + significandAt m) % 2 = 1 := by
  have hunit : exponentUnit = 0x10000000000000 := rfl
  rcases significandAt_succ m with ⟨hsig, -, -⟩ | ⟨hsig, hcarry, -, -⟩ <;> omega

/-! ## Numbers that round to a double -/

/-- The number `x` rounds to `d`, signs apart. The bounds of the interval belong to the doubles with
an even significand. -/
def Covers (d : Double) (x : ℚ) : Prop :=
  if d.significand % 2 = 0 then
    d.interval.1 ≤ x * powerOfTwo 1076 ∧ x * powerOfTwo 1076 ≤ d.interval.2
  else d.interval.1 < x * powerOfTwo 1076 ∧ x * powerOfTwo 1076 < d.interval.2

theorem Covers.bounds {d : Double} {x : ℚ} (h : d.Covers x) :
    (lowAt d.magnitude : ℚ) ≤ x * powerOfTwo 1076 ∧ x * powerOfTwo 1076 ≤ highAt d.magnitude := by
  unfold Covers at h
  split at h
  · exact h
  · exact ⟨h.1.le, h.2.le⟩

/-- A number at a bound of the interval rounds to a double with an even significand only. -/
theorem Covers.even_of_bound {d : Double} {x : ℚ} (h : d.Covers x)
    (hx : x * powerOfTwo 1076 = lowAt d.magnitude ∨ x * powerOfTwo 1076 = highAt d.magnitude) :
    significandAt d.magnitude % 2 = 0 := by
  unfold Covers at h
  split at h
  · assumption
  · rcases hx with hx | hx
    · exact absurd h.1 (by rw [hx]; exact lt_irrefl _)
    · exact absurd h.2 (by rw [hx]; exact lt_irrefl _)

theorem not_covers_of_lt {a b : Double} {x : ℚ} (hlt : a.magnitude < b.magnitude)
    (ha : a.Covers x) : ¬ b.Covers x := by
  intro hb
  obtain ⟨m, hm⟩ : ∃ m, b.magnitude = m + 1 := ⟨b.magnitude - 1, by omega⟩
  have hmono : highAt a.magnitude ≤ highAt m := highAt_strictMono.monotone (by omega)
  have hbelow : x * powerOfTwo 1076 ≤ highAt a.magnitude := ha.bounds.2
  have habove : (highAt m : ℚ) ≤ x * powerOfTwo 1076 := by
    have hlow := hb.bounds.1
    rwa [hm, lowAt_succ] at hlow
  -- The intervals have a point in common, so the doubles are neighbours and it is a bound of both.
  have hsame : highAt a.magnitude = highAt m :=
    le_antisymm hmono (by exact_mod_cast habove.trans hbelow)
  have hbound : x * powerOfTwo 1076 = highAt m :=
    le_antisymm (hsame ▸ hbelow) habove
  have hmag : a.magnitude = m := highAt_strictMono.injective hsame
  have heven := ha.even_of_bound (.inr (hmag ▸ hbound))
  have heven' := hb.even_of_bound (.inl (by rw [hm, lowAt_succ, hbound]))
  have hodd := significandAt_succ_mod m
  rw [hm] at heven'
  rw [hmag] at heven
  omega

/-- No number rounds to doubles of different magnitude. -/
theorem Covers.magnitude_eq {a b : Double} {x : ℚ} (ha : a.Covers x) (hb : b.Covers x) :
    a.magnitude = b.magnitude := by
  rcases Nat.lt_trichotomy a.magnitude b.magnitude with hlt | heq | hlt
  · exact absurd hb (not_covers_of_lt hlt ha)
  · exact heq
  · exact absurd ha (not_covers_of_lt hlt hb)

/-- A double is its sign and its magnitude. -/
theorem ext_magnitude {a b : Double} (hsign : a.negative = b.negative)
    (hmag : a.magnitude = b.magnitude) : a = b := by
  have hbits : a.bits = b.bits := by
    refine UInt64.toNat_inj.mp ?_
    have ha := a.bits.toNat_lt
    have hb := b.bits.toNat_lt
    have hside := decide_eq_decide.mp hsign
    simp only [magnitude, signBit] at hside hmag
    omega
  cases a
  cases b
  cases hbits
  rfl

end Double

end LiveDocs

import LiveDocs.Proofs.Double.Interval
import LiveDocs.Proofs.Json.Numerals
import Mathlib.Algebra.Order.Field.Power
import Mathlib.Tactic.FieldSimp
import Mathlib.Tactic.Positivity

/-!
# Shortest decimals round to their doubles

The decimal point of a double is found from its binary logarithm (`Double.zpow_decimalPoint_le`), so
the grid of decimals with seventeen digits is finer than the doubles around it: of the two decimals
next to the double one rounds to it (`Double.digitsOn?_seventeen`). The search for the shortest
decimal therefore ends with one that rounds to the double (`Double.shortest_covers`).

## Main definitions

* `Double.value`, `Decimal.value`: the numbers that doubles, signs apart, and decimals stand for.
* `Double.within`, `Double.downOn`: the test of a candidate, and the lower of the two candidates.
* `Decimal.Normal`: decimals without leading zeros.
-/

namespace LiveDocs

/-! ## Powers of ten -/

theorem cast_powerOfTen (n : Nat) : ((powerOfTen n : Nat) : ℚ) = 10 ^ n := Nat.cast_pow 10 n

theorem cast_powerOfTwo (n : Nat) : ((powerOfTwo n : Nat) : ℚ) = 2 ^ n := Nat.cast_pow 2 n

theorem powerOfTen_pos (n : Nat) : (0 : ℚ) < powerOfTen n := by
  rw [cast_powerOfTen]
  positivity

theorem powerOfTwo_pos (n : Nat) : (0 : ℚ) < powerOfTwo n := by
  rw [cast_powerOfTwo]
  positivity

/-- A power of ten is a ratio of two whole ones. -/
theorem zpow_mul_powerOfTen (e : Int) :
    (10 : ℚ) ^ e * powerOfTen (-e).toNat = powerOfTen e.toNat := by
  rw [cast_powerOfTen, cast_powerOfTen, ← zpow_natCast, ← zpow_natCast, ← zpow_add₀ (by norm_num)]
  congr 1
  omega

/-- The number `1233 / 4096` is so close below the decimal logarithm of two that it gives the order
of magnitude of every power of two that is not too small, or the one below it. -/
theorem zpow_estimate_le {e : Int} (h : -4096 ≤ e) :
    (10 : ℚ) ^ (e * 1233 / 4096 - 1) ≤ 2 ^ e := by
  have hbelow : (10 : ℚ) ^ 1233 ≤ 2 ^ 4096 := by
    have hle : powerOfTen 1233 ≤ powerOfTwo 4096 := by decide +kernel
    rw [← cast_powerOfTen, ← cast_powerOfTwo]
    exact_mod_cast hle
  have habove : (2 : ℚ) ^ 4096 ≤ 10 ^ 1234 := by
    have hle : powerOfTwo 4096 ≤ powerOfTen 1234 := by decide +kernel
    rw [← cast_powerOfTen, ← cast_powerOfTwo]
    exact_mod_cast hle
  refine le_of_pow_le_pow_left₀ (n := 4096) (by decide) (by positivity) ?_
  obtain ⟨k, rfl | rfl⟩ := e.eq_nat_or_neg
  · calc ((10 : ℚ) ^ ((k : Int) * 1233 / 4096 - 1)) ^ 4096
        = 10 ^ (((k : Int) * 1233 / 4096 - 1) * 4096) := by rw [zpow_mul]; rfl
      _ ≤ 10 ^ ((1233 * k : Nat) : Int) := zpow_le_zpow_right₀ (by norm_num) (by omega)
      _ = (10 ^ 1233) ^ k := by rw [zpow_natCast, pow_mul]
      _ ≤ (2 ^ 4096) ^ k := pow_le_pow_left₀ (by positivity) hbelow k
      _ = (2 ^ (k : Int)) ^ 4096 := by rw [zpow_natCast, pow_right_comm]
  · calc ((10 : ℚ) ^ (-(k : Int) * 1233 / 4096 - 1)) ^ 4096
        = 10 ^ ((-(k : Int) * 1233 / 4096 - 1) * 4096) := by rw [zpow_mul]; rfl
      _ ≤ 10 ^ (-((1234 * k : Nat) : Int)) := zpow_le_zpow_right₀ (by norm_num) (by omega)
      _ = ((10 ^ 1234) ^ k)⁻¹ := by rw [zpow_neg, zpow_natCast, pow_mul]
      _ ≤ ((2 ^ 4096) ^ k)⁻¹ :=
        inv_anti₀ (by positivity) (pow_le_pow_left₀ (by positivity) habove k)
      _ = (2 ^ (-(k : Int))) ^ 4096 := by rw [zpow_neg, zpow_natCast, inv_pow, pow_right_comm]

namespace Double

/-! ## The place of the point -/

def value (d : Double) : ℚ := d.units / powerOfTwo 1074

theorem significand_pos {d : Double} (h : d.isZero = false) : 0 < d.significand := by
  have hmag : d.magnitude ≠ 0 := of_decide_eq_false h
  unfold significand exponentUnit
  split <;> omega

theorem significand_lt (d : Double) : d.significand < 2 * exponentUnit := by
  unfold significand exponentUnit
  split <;> omega

theorem units_pos {d : Double} (h : d.isZero = false) : 0 < d.units :=
  Nat.mul_pos (significand_pos h) (Nat.pow_pos (by decide))

/-- The estimate of the place of the point from the binary logarithm. -/
def estimate (d : Double) : Int := ((d.units.log2 : Int) - 1074) * 1233 / 4096

def below (d : Double) (p : Int) : Bool :=
  d.units * powerOfTen (-p).toNat < powerOfTen p.toNat * powerOfTwo 1074

theorem decimalPoint_eq (d : Double) :
    d.decimalPoint = ([d.estimate - 1, d.estimate, d.estimate + 1].find? d.below).getD
      (d.estimate + 2) := rfl

/-- A double has at least the order of magnitude that the estimate says. -/
theorem zpow_estimate_le_value {d : Double} (h : d.isZero = false) :
    (10 : ℚ) ^ (d.estimate - 1) ≤ d.value := by
  have hlog : ((2 : ℚ) ^ d.units.log2) ≤ d.units := by
    exact_mod_cast Nat.log2_self_le (units_pos h).ne'
  calc (10 : ℚ) ^ (d.estimate - 1)
      ≤ 2 ^ ((d.units.log2 : Int) - 1074) := zpow_estimate_le (by omega)
    _ = 2 ^ d.units.log2 / powerOfTwo 1074 := by
      rw [zpow_sub₀ (by norm_num), zpow_natCast, zpow_ofNat, cast_powerOfTwo]
    _ ≤ d.value := div_le_div_of_nonneg_right hlog (powerOfTwo_pos 1074).le

theorem zpow_le_value {d : Double} {p : Int} (h : d.below p = false) : (10 : ℚ) ^ p ≤ d.value := by
  have hle : (powerOfTen p.toNat : ℚ) * powerOfTwo 1074 ≤ d.units * powerOfTen (-p).toNat := by
    exact_mod_cast Nat.not_lt.mp (of_decide_eq_false h)
  rw [← zpow_mul_powerOfTen, mul_right_comm] at hle
  rw [value, le_div_iff₀ (powerOfTwo_pos 1074)]
  exact le_of_mul_le_mul_right hle (powerOfTen_pos _)

/-- The first digit of a double stands directly behind its decimal point, or further left. -/
theorem zpow_decimalPoint_le {d : Double} (h : d.isZero = false) :
    (10 : ℚ) ^ (d.decimalPoint - 1) ≤ d.value := by
  have hestimate := zpow_estimate_le_value h
  rw [decimalPoint_eq]
  cases hfirst : d.below (d.estimate - 1) with
  | true =>
    have hprev : (10 : ℚ) ^ (d.estimate - 1 - 1) ≤ 10 ^ (d.estimate - 1) :=
      zpow_le_zpow_right₀ (by norm_num) (by omega)
    simpa [hfirst] using hprev.trans hestimate
  | false =>
    cases hsecond : d.below d.estimate with
    | true => simpa [hfirst, hsecond] using hestimate
    | false =>
      cases hthird : d.below (d.estimate + 1) with
      | true => simpa [hfirst, hsecond, hthird] using zpow_le_value hsecond
      | false => simpa [hfirst, hsecond, hthird, Int.add_sub_assoc] using zpow_le_value hthird

/-! ## Seventeen digits -/

/-- Whether `n` times a power of ten is in the interval of a double. -/
def within (d : Double) (last : Int) (n : Nat) : Bool :=
  let factor := powerOfTen (-last).toNat
  let grid := powerOfTen last.toNat * powerOfTwo 1076
  if d.significand % 2 = 0 then
    d.interval.1 * factor ≤ n * grid && n * grid ≤ d.interval.2 * factor
  else d.interval.1 * factor < n * grid && n * grid < d.interval.2 * factor

/-- The multiple of a power of ten below a double. -/
def downOn (d : Double) (last : Int) : Nat :=
  4 * d.units * powerOfTen (-last).toNat / (powerOfTen last.toNat * powerOfTwo 1076)

/-- The width of a grid as a ratio of whole numbers. -/
theorem grid_mul_powerOfTen (last : Int) :
    (10 : ℚ) ^ last * powerOfTwo 1076 * powerOfTen (-last).toNat =
      ((powerOfTen last.toNat * powerOfTwo 1076 : Nat) : ℚ) := by
  rw [mul_right_comm, zpow_mul_powerOfTen, Nat.cast_mul]

/-- The test in whole numbers says that the rounding interval covers the decimal. -/
theorem within_iff {d : Double} {last : Int} {n : Nat} :
    d.within last n = true ↔ d.Covers (n * 10 ^ last) := by
  have hgrid : (n : ℚ) * 10 ^ last * powerOfTwo 1076 * powerOfTen (-last).toNat =
      ((n * (powerOfTen last.toNat * powerOfTwo 1076) : Nat) : ℚ) := by
    rw [Nat.cast_mul, ← grid_mul_powerOfTen, ← mul_assoc, ← mul_assoc]
  have hlow : ∀ bound : Nat, (bound : ℚ) ≤ n * 10 ^ last * powerOfTwo 1076 ↔
      bound * powerOfTen (-last).toNat ≤ n * (powerOfTen last.toNat * powerOfTwo 1076) := by
    intro bound
    rw [← mul_le_mul_iff_of_pos_right (powerOfTen_pos (-last).toNat), hgrid]
    norm_cast
  have hhigh : ∀ bound : Nat, n * 10 ^ last * powerOfTwo 1076 ≤ (bound : ℚ) ↔
      n * (powerOfTen last.toNat * powerOfTwo 1076) ≤ bound * powerOfTen (-last).toNat := by
    intro bound
    rw [← mul_le_mul_iff_of_pos_right (powerOfTen_pos (-last).toNat), hgrid]
    norm_cast
  unfold within Covers
  split
  · simp only [Bool.and_eq_true, decide_eq_true_eq, hlow, hhigh]
  · simp only [Bool.and_eq_true, decide_eq_true_eq, ← not_le, hlow, hhigh]

/-- Only decimals that the rounding interval covers are ever taken. -/
theorem digitsOn?_eq_some {d : Double} {point : Int} {count : Nat} {n : Nat} {last : Int}
    (h : d.digitsOn? point count = some (n, last)) : d.within last n = true := by
  unfold digitsOn? at h
  obtain ⟨m, hchosen, heq⟩ := Option.map_eq_some_iff.mp h
  cases heq
  split at hchosen
  · next hdown hup =>
    split at hchosen
    · cases hchosen; exact hdown
    split at hchosen
    · cases hchosen; exact hup
    split at hchosen
    · cases hchosen; exact hdown
    · cases hchosen; exact hup
  · next hdown _ => cases hchosen; exact hdown
  · next _ hup => cases hchosen; exact hup
  · cases hchosen

/-- If nothing is taken, neither of the two neighbours on the grid is covered. -/
theorem digitsOn?_eq_none {d : Double} {point : Int} {count : Nat}
    (h : d.digitsOn? point count = none) :
    d.within (point - count) (d.downOn (point - count)) = false ∧
      d.within (point - count) (d.downOn (point - count) + 1) = false := by
  unfold digitsOn? at h
  have hchosen := Option.map_eq_none_iff.mp h
  split at hchosen
  · split at hchosen
    · cases hchosen
    split at hchosen
    · cases hchosen
    split at hchosen <;> cases hchosen
  · cases hchosen
  · cases hchosen
  · next hdown hup => exact ⟨hdown, hup⟩

/-- The two multiples of a power of ten next to a double. -/
theorem downOn_bounds (d : Double) (last : Int) :
    (d.downOn last : ℚ) * (10 ^ last * powerOfTwo 1076) ≤ 4 * d.units ∧
      4 * d.units < ((d.downOn last + 1 : Nat) : ℚ) * (10 ^ last * powerOfTwo 1076) := by
  have hfactor := powerOfTen_pos (-last).toNat
  have hgrid := grid_mul_powerOfTen last
  have hpos : 0 < powerOfTen last.toNat * powerOfTwo 1076 := by
    exact_mod_cast mul_pos (powerOfTen_pos last.toNat) (powerOfTwo_pos 1076)
  constructor
  · rw [← mul_le_mul_iff_of_pos_right hfactor, mul_assoc, hgrid]
    exact_mod_cast Nat.div_mul_le_self _ _
  · rw [← mul_lt_mul_iff_of_pos_right hfactor, mul_assoc (_ + 1 : Nat).cast, hgrid]
    exact_mod_cast (Nat.div_lt_iff_lt_mul hpos).mp (Nat.lt_succ_self _)

/-- What lies strictly between the bounds rounds to a double, whatever its significand. -/
theorem covers_of_lt {d : Double} {x : ℚ} (hlow : (lowAt d.magnitude : ℚ) < x * powerOfTwo 1076)
    (hhigh : x * powerOfTwo 1076 < highAt d.magnitude) : d.Covers x := by
  unfold Covers
  split
  · exact ⟨hlow.le, hhigh.le⟩
  · exact ⟨hlow, hhigh⟩

theorem cast_highAt (d : Double) :
    (highAt d.magnitude : ℚ) = 4 * d.units + 2 * stepAt d.magnitude := by
  exact_mod_cast (rfl : highAt d.magnitude = 4 * d.units + 2 * stepAt d.magnitude)

theorem cast_lowAt_le (d : Double) : (lowAt d.magnitude : ℚ) ≤ 4 * d.units := by
  exact_mod_cast (Nat.sub_le _ _ : lowAt d.magnitude ≤ 4 * d.units)

theorem cast_lowAt {d : Double} (h : d.isZero = false)
    (hpower : ¬ (d.significand = exponentUnit ∧ 0 < d.scale)) :
    (lowAt d.magnitude : ℚ) = 4 * d.units - 2 * stepAt d.magnitude := by
  have hlow : lowAt d.magnitude = 4 * d.units - 2 * stepAt d.magnitude :=
    congrArg (4 * d.units - ·) (if_neg hpower)
  have hle : stepAt d.magnitude ≤ d.units := Nat.le_mul_of_pos_left _ (significand_pos h)
  rw [hlow, Nat.cast_sub (by omega)]
  push_cast
  ring

/-- One of two neighbours on a grid rounds to a double if the grid is fine enough for seventeen
digits. Their distances from the double add up to the width of the grid, which is less than two half
steps. Below a power of two the interval is narrower, but there the upper one is near enough. -/
theorem within_or_within_succ {d : Double} (h : d.isZero = false) {last : Int}
    (hfine : (10 : ℚ) ^ last * 10 ^ 16 ≤ d.value) :
    d.within last (d.downOn last) = true ∨ d.within last (d.downOn last + 1) = true := by
  obtain ⟨hdown, hup⟩ := d.downOn_bounds last
  have hhigh := d.cast_highAt
  have hstep : (0 : ℚ) < stepAt d.magnitude := by exact_mod_cast stepAt_pos _
  have hunits : (d.units : ℚ) = d.significand * stepAt d.magnitude := by
    exact_mod_cast (rfl : d.units = d.significand * stepAt d.magnitude)
  have hgrid : (10 : ℚ) ^ last * powerOfTwo 1076 * 10 ^ 16 ≤ 4 * d.units := by
    have hfour : (powerOfTwo 1076 : ℚ) = 4 * powerOfTwo 1074 := by
      exact_mod_cast (by decide +kernel : powerOfTwo 1076 = 4 * powerOfTwo 1074)
    rw [value, le_div_iff₀ (powerOfTwo_pos 1074)] at hfine
    rw [hfour]
    linarith
  have hcovers : ∀ n : Nat, (lowAt d.magnitude : ℚ) < n * (10 ^ last * powerOfTwo 1076) →
      n * (10 ^ last * powerOfTwo 1076) < (highAt d.magnitude : ℚ) → d.within last n = true := by
    intro n hlow hhigh
    rw [← mul_assoc] at hlow hhigh
    exact within_iff.mpr (covers_of_lt hlow hhigh)
  have hsucc : ((d.downOn last + 1 : Nat) : ℚ) * (10 ^ last * powerOfTwo 1076) =
      d.downOn last * (10 ^ last * powerOfTwo 1076) + 10 ^ last * powerOfTwo 1076 := by
    push_cast
    ring
  generalize (10 : ℚ) ^ last * powerOfTwo 1076 = grid at *
  by_cases hpower : d.significand = exponentUnit ∧ 0 < d.scale
  · right
    have hsig : (d.significand : ℚ) = 4503599627370496 := by exact_mod_cast hpower.1
    rw [hsig] at hunits
    exact hcovers _ (d.cast_lowAt_le.trans_lt hup) (by linarith)
  · have hsig : (d.significand : ℚ) < 9007199254740992 := by exact_mod_cast significand_lt d
    have hwidth : (d.units : ℚ) < 9007199254740992 * stepAt d.magnitude := by
      rw [hunits]
      exact mul_lt_mul_of_pos_right hsig hstep
    have hlow := cast_lowAt h hpower
    rcases lt_or_ge (4 * d.units - d.downOn last * grid) (2 * (stepAt d.magnitude : ℚ)) with
      hnear | hfar
    · left
      exact hcovers _ (by linarith) (by linarith)
    · right
      exact hcovers _ (by linarith) (by linarith)

/-- Seventeen digits are enough for every double. -/
theorem digitsOn?_seventeen {d : Double} (h : d.isZero = false) :
    d.digitsOn? d.decimalPoint 17 ≠ none := by
  intro hnone
  obtain ⟨hdown, hup⟩ := digitsOn?_eq_none hnone
  have hfine : (10 : ℚ) ^ (d.decimalPoint - (17 : Nat)) * 10 ^ 16 ≤ d.value := by
    have hpoint : d.decimalPoint - (17 : Nat) = d.decimalPoint - 1 - (16 : Nat) := by omega
    rw [hpoint, zpow_sub₀ (by norm_num), zpow_natCast, div_mul_cancel₀ _ (by norm_num)]
    exact zpow_decimalPoint_le h
  rcases within_or_within_succ h hfine with hwithin | hwithin
  · exact Bool.false_ne_true (hdown.symm.trans hwithin)
  · exact Bool.false_ne_true (hup.symm.trans hwithin)

end Double

namespace Decimal

def value (d : Decimal) : ℚ := Numeral.digitsValue d.digits * 10 ^ (d.point - d.digits.length)

/-- Digits that begin with one that is not zero. -/
structure Normal (d : Decimal) : Prop where
  nonempty : d.digits ≠ []
  digits : ∀ c ∈ d.digits, c.isDigit = true
  lead : d.digits.head? ≠ some '0'

end Decimal

namespace Double

/-- The digits of a number are those of a decimal and zeros. -/
theorem toDigits_eq_append (n : Nat) (last : Int) :
    ∃ zeros, Nat.toDigits 10 n = (decimalOf n last).digits ++ List.replicate zeros '0' := by
  refine ⟨((Nat.toDigits 10 n).reverse.takeWhile (· == '0')).length, ?_⟩
  have hzeros : (Nat.toDigits 10 n).reverse.takeWhile (· == '0') =
      List.replicate ((Nat.toDigits 10 n).reverse.takeWhile (· == '0')).length '0' := by
    refine List.eq_replicate_iff.mpr ⟨rfl, fun c hc => ?_⟩
    simpa using List.all_eq_true.mp List.all_takeWhile c hc
  have hsplit :=
    List.takeWhile_append_dropWhile (p := (· == '0')) (l := (Nat.toDigits 10 n).reverse)
  have hreverse := congrArg List.reverse hsplit
  rw [List.reverse_append, List.reverse_reverse, hzeros, List.reverse_replicate] at hreverse
  exact hreverse.symm

theorem value_decimalOf (n : Nat) (last : Int) :
    (decimalOf n last).value = n * 10 ^ last := by
  obtain ⟨zeros, hdigits⟩ := toDigits_eq_append n last
  have hvalue : n = powerOfTen zeros * Numeral.digitsValue (decimalOf n last).digits := by
    have hn := Numeral.digitsValue_toDigits n
    rw [hdigits, Numeral.digitsValue_append, List.length_replicate, Numeral.digitsValue_zeros] at hn
    exact hn.symm
  have hpoint : (decimalOf n last).point - (decimalOf n last).digits.length = zeros + last := by
    have hlength := congrArg List.length hdigits
    rw [List.length_append, List.length_replicate] at hlength
    have hdef : (decimalOf n last).point = (Nat.toDigits 10 n).length + last := rfl
    omega
  rw [Decimal.value, hpoint, zpow_add₀ (by norm_num), zpow_natCast]
  conv_rhs => rw [hvalue]
  rw [Nat.cast_mul, cast_powerOfTen]
  ring

/-- Zeros are dropped at the end only, so the first digit is that of the number. -/
theorem normal_decimalOf {n : Nat} (hn : 0 < n) (last : Int) : (decimalOf n last).Normal := by
  obtain ⟨zeros, hdigits⟩ := toDigits_eq_append n last
  have hlead := Numeral.head?_toDigits_ne_zero hn
  have hall := Numeral.all_isDigit_toDigits n
  rw [hdigits] at hlead hall
  have hnonempty : (decimalOf n last).digits ≠ [] := by
    intro hnil
    rw [hnil, List.nil_append] at hdigits hlead
    cases zeros with
    | zero => exact Nat.toDigits_ne_nil hdigits
    | succ zeros => exact hlead rfl
  refine ⟨hnonempty, fun c hc => hall c (List.mem_append_left _ hc), ?_⟩
  rwa [List.head?_append_of_ne_nil _ hnonempty] at hlead

theorem lowAt_pos {d : Double} (h : d.isZero = false) : 0 < lowAt d.magnitude := by
  have hmag : d.magnitude ≠ 0 := of_decide_eq_false h
  obtain ⟨m, hm⟩ := Nat.exists_eq_succ_of_ne_zero hmag
  rw [hm, lowAt_succ]
  have hstep := stepAt_pos m
  unfold highAt
  omega

/-- What rounds to a double that is not zero is positive. -/
theorem Covers.pos {d : Double} {x : ℚ} (h : d.isZero = false) (hx : d.Covers x) : 0 < x := by
  have hlow : (0 : ℚ) < lowAt d.magnitude := by exact_mod_cast lowAt_pos h
  exact pos_of_mul_pos_left (hlow.trans_le hx.bounds.1) (powerOfTwo_pos 1076).le

/-- **The shortest decimal of a double rounds to the double**, and begins with a digit that is not
zero. -/
theorem shortest_covers {d : Double} (h : d.isZero = false) :
    d.shortest.Normal ∧ d.Covers d.shortest.value := by
  cases hfound : (List.range' 1 17).findSome? (d.digitsOn? d.decimalPoint) with
  | none =>
    have hnone := List.findSome?_eq_none_iff.mp hfound 17 (by decide)
    exact absurd hnone (digitsOn?_seventeen h)
  | some found =>
    obtain ⟨n, last⟩ := found
    obtain ⟨count, -, hdigits⟩ := List.exists_of_findSome?_eq_some hfound
    have hcovers := within_iff.mp (digitsOn?_eq_some hdigits)
    have hn : 0 < n := by
      refine Nat.pos_of_ne_zero fun hzero => ?_
      have hpos := hcovers.pos h
      simp [hzero] at hpos
    simp only [shortest, hfound]
    refine ⟨normal_decimalOf hn last, ?_⟩
    rwa [value_decimalOf]

end Double

end LiveDocs

/-!
# Finite doubles

A finite IEEE 754 double is kept by its bits. Its absolute value is a whole number of *units* of
`2 ^ (-1074)`, the least positive double, so products, quotients and roundings are exact arithmetic
on natural numbers followed by one rounding to the nearest double, ties to even.

## Main definitions

* `Double`: a finite double.
* `Double.units`: its absolute value in units of `2 ^ (-1074)`.
* `Double.nearest?`: the double nearest to a ratio, `none` beyond the greatest double.
* `Double.mul?`, `Double.div`: the rounded product and quotient.
-/

namespace LiveDocs

def powerOfTwo (n : Nat) : Nat := Nat.pow 2 n

def powerOfTen (n : Nat) : Nat := Nat.pow 10 n

/-- The value `2 ^ 63` of the sign bit. -/
def signBit : Nat := 0x8000000000000000

/-- The value `2 ^ 52` of the least exponent bit. -/
def exponentUnit : Nat := 0x10000000000000

/-- Bits of a double up to this bound, sign apart, stand for a finite number. -/
def finiteBound : Nat := 0x7ff * exponentUnit

/-- A finite double by its 64 bits: sign, 11 exponent bits, 52 fraction bits. -/
structure Double where
  bits : UInt64
  finite : bits.toNat % signBit < finiteBound
deriving DecidableEq

namespace Double

/-- The sign bit. It is also set for the zero `-0.0`. -/
def negative (d : Double) : Bool := signBit ≤ d.bits.toNat

/-- Exponent and fraction bits as one number; the order of magnitudes is the order of doubles. -/
def magnitude (d : Double) : Nat := d.bits.toNat % signBit

def isZero (d : Double) : Bool := d.magnitude = 0

/-- The significand, a number below `2 ^ 53`. -/
def significand (d : Double) : Nat :=
  if d.magnitude / exponentUnit = 0 then d.magnitude % exponentUnit
  else exponentUnit + d.magnitude % exponentUnit

/-- The power of two that multiplies the significand, counted from `2 ^ (-1074)`. -/
def scale (d : Double) : Nat := d.magnitude / exponentUnit - 1

/-- The absolute value in units of `2 ^ (-1074)`. -/
def units (d : Double) : Nat := d.significand * powerOfTwo d.scale

/-- Numeric equality: equal bits, or two zeros of any sign. -/
def numEq (a b : Double) : Bool := a.bits == b.bits || (a.isZero && b.isZero)

/-- The double of a sign and a magnitude, `none` if the magnitude is not that of a finite one. -/
def ofMagnitude? (negative : Bool) (magnitude : Nat) : Option Double :=
  if h : magnitude < finiteBound then
    some
      { bits := UInt64.ofNat (magnitude + if negative then signBit else 0)
        finite := by
          have hb : finiteBound < signBit := by decide
          cases negative <;> simp [UInt64.toNat_ofNat', signBit] at * <;> omega }
  else none

/-- The zero of a sign. -/
def zero (negative : Bool) : Double :=
  { bits := if negative then 0x8000000000000000 else 0
    finite := by cases negative <;> decide }

/-- The quotient of two numbers rounded to a whole one, a half to the even neighbour. -/
def roundDiv (num den : Nat) : Nat :=
  let q := num / den
  let r := num % den
  if 2 * r < den then q
  else if den < 2 * r then q + 1
  else if q % 2 = 0 then q else q + 1

/-- The magnitude of the double nearest to `num / den`. The scale is the least one that leaves the
significand below `2 ^ 53`; a significand that rounds up to `2 ^ 53` carries into the exponent. -/
def nearestMagnitude (num den : Nat) : Nat :=
  let num := num * powerOfTwo 1074
  let scale := (num / den).log2 - 52
  scale * exponentUnit + roundDiv num (den * powerOfTwo scale)

/-- The double nearest to `num / den` with the given sign, `none` if it would be infinite. -/
def nearest? (negative : Bool) (num den : Nat) : Option Double :=
  ofMagnitude? negative (nearestMagnitude num den)

/-- The rounded product, with the sign of the first factor; the second is taken as positive. -/
def mul? (a b : Double) : Option Double :=
  nearest? a.negative (a.units * b.units) (powerOfTwo 2148)

/-- The rounded quotient, with the sign of the dividend; the divisor is at least one, so the
quotient is always finite. -/
def div (a b : Double) : Double :=
  (nearest? a.negative a.units b.units).getD (zero a.negative)

def ofUInt64 (n : UInt64) : Double := (nearest? false n.toNat 1).getD (zero false)

/-- The same number with the sign bit set. -/
def neg (d : Double) : Double := (ofMagnitude? true d.magnitude).getD (zero true)

end Double

end LiveDocs

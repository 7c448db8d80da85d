import LiveDocs.Double.Basic
/-!
# Shortest decimals

The shortest decimal that reads back as a given double. A double stands for all reals that round to
it, an interval around its value. For one, two, … digits the two neighbours of the value on the
grid of decimals with that many digits are tried; the first grid with a neighbour in the interval
gives the answer, the nearer neighbour if both are in it.

## Main definitions

* `Decimal`: digits and the place of the decimal point.
* `Double.shortest`: the shortest decimal of a positive double.
* `Double.render`: its text, positional between `1e-5` and `1e16` and scientific outside.
-/

namespace LiveDocs

/-- The decimal number `0.d₁d₂… × 10 ^ point`. -/
structure Decimal where
  digits : List Char
  point : Int

namespace Double

/-- The bounds of the interval of reals that round to a double, in quarter units. Below a power of
two doubles lie twice as close, so the lower half of the interval is half as wide there. -/
def interval (d : Double) : Nat × Nat :=
  let step := powerOfTwo d.scale
  let below := if d.significand = exponentUnit ∧ 0 < d.scale then step else 2 * step
  (4 * d.units - below, 4 * d.units + 2 * step)

/-- The power `p` of ten with `10 ^ (p - 1) ≤ d < 10 ^ p`, for a positive double. The binary
logarithm gives it up to a few steps. -/
def decimalPoint (d : Double) : Int :=
  let estimate : Int := ((d.units.log2 : Int) - 1074) * 1233 / 4096
  let above (p : Int) : Bool :=
    d.units * powerOfTen (-p).toNat < powerOfTen p.toNat * powerOfTwo 1074
  ([estimate - 1, estimate, estimate + 1].find? above).getD (estimate + 2)

/-- The decimal with `count` digits that reads back as `d` and is nearest to it, if there is one:
its digits as a number, and the power of ten of the last. -/
def digitsOn? (d : Double) (point : Int) (count : Nat) : Option (Nat × Int) :=
  let last := point - count
  let factor := powerOfTen (-last).toNat
  let grid := powerOfTen last.toNat * powerOfTwo 1076
  let (low, high) := d.interval
  let value := 4 * d.units * factor
  let down := value / grid
  let up := down + 1
  let closed := d.significand % 2 = 0
  let within (n : Nat) : Bool :=
    if closed then low * factor ≤ n * grid && n * grid ≤ high * factor
    else low * factor < n * grid && n * grid < high * factor
  let downGap := value - down * grid
  let upGap := up * grid - value
  let chosen :=
    match within down, within up with
    | true, true =>
      if downGap < upGap then some down
      else if upGap < downGap then some up
      else if down % 2 = 0 then some down else some up
    | true, false => some down
    | false, true => some up
    | false, false => none
  chosen.map (·, last)

/-- The digits of a number without the zeros at the end, and the place of the point. -/
def decimalOf (digits : Nat) (last : Int) : Decimal :=
  let all := Nat.toDigits 10 digits
  { digits := (all.reverse.dropWhile (· == '0')).reverse
    point := all.length + last }

/-- The shortest decimal that reads back as a positive double; seventeen digits always do. -/
def shortest (d : Double) : Decimal :=
  let point := d.decimalPoint
  match (List.range' 1 17).findSome? (d.digitsOn? point) with
  | some (digits, last) => decimalOf digits last
  | none => ⟨['0'], 0⟩

/-- A decimal with its point among the digits and at least one digit on both sides. -/
def positional (d : Decimal) : List Char :=
  if d.point ≤ 0 then
    '0' :: '.' :: List.replicate (-d.point).toNat '0' ++ d.digits
  else
    let whole := d.point.toNat
    let padded := d.digits ++ List.replicate (whole - d.digits.length) '0'
    match padded.drop whole with
    | [] => padded ++ ['.', '0']
    | fraction => padded.take whole ++ '.' :: fraction

/-- A decimal with one digit before the point and a signed exponent. -/
def scientific (d : Decimal) : List Char :=
  let exponent := d.point - 1
  let mark := if exponent < 0 then ['e', '-'] else ['e', '+']
  let tail := mark ++ Nat.toDigits 10 exponent.natAbs
  match d.digits with
  | [] => tail
  | [digit] => digit :: tail
  | digit :: rest => digit :: '.' :: rest ++ tail

/-- The text of a double: the shortest digits that read back, positional from `1e-5` up to `1e16`,
and a sign in front of every double with a sign bit, zero included. -/
def chars (d : Double) : List Char :=
  let sign := if d.negative then ['-'] else []
  if d.isZero then sign ++ ['0', '.', '0']
  else
    let decimal := d.shortest
    sign ++
      if -4 ≤ decimal.point ∧ decimal.point ≤ 16 then positional decimal else scientific decimal

/-- The text of a double, see `Double.chars`. -/
def render (d : Double) : String := String.ofList d.chars

end Double

end LiveDocs

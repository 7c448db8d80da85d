import LiveDocs.Json.Printer

/-!
# Reading numerals

A numeral is an optional minus, a whole part without leading zeros, an optional fraction and an
optional exponent. Without fraction and exponent it is an integer as long as it fits 64 bits.
Everything else is a double.

The digits of a double are collected into a 64-bit significand. Digits that no longer fit are
dropped: one of the whole part raises the decimal exponent, one of the fraction counts for nothing.
The significand is then rounded to a double and multiplied or divided by a power of ten, so a
numeral of many digits may be read as a neighbour of the double nearest to it.

## Main definitions

* `Numeral`, `Numeral.ofChars?`: the parts of a numeral.
* `Numeral.number?`: its value; `none` if it is too large for a double.
-/

namespace LiveDocs

/-- The parts of a numeral; the digits of fraction and exponent are empty if the part is absent. -/
structure Numeral where
  negative : Bool
  whole : List Char
  fraction : List Char
  exponentNegative : Bool
  exponent : List Char

namespace Numeral

def digitValue (c : Char) : Nat := c.toNat - '0'.toNat

def digitsValue (digits : List Char) : Nat := digits.foldl (fun n c => 10 * n + digitValue c) 0

/-- Reads an exponent, the rest of a numeral; `none` if it is anything else. -/
def exponentOfChars? (numeral : Numeral) : List Char → Option Numeral
  | [] => some numeral
  | mark :: rest =>
    if mark = 'e' ∨ mark = 'E' then
      let (negative, digits) :=
        match rest with
        | '+' :: digits => (false, digits)
        | '-' :: digits => (true, digits)
        | digits => (false, digits)
      if digits.isEmpty || !digits.all Char.isDigit then none
      else some { numeral with exponentNegative := negative, exponent := digits }
    else none

/-- The parts of a numeral, `none` if the characters are not one. -/
def ofChars? (chars : List Char) : Option Numeral :=
  let (negative, chars) :=
    match chars with
    | '-' :: rest => (true, rest)
    | rest => (false, rest)
  let whole := chars.takeWhile Char.isDigit
  let rest := chars.dropWhile Char.isDigit
  let numeral : Numeral := ⟨negative, whole, [], false, []⟩
  if whole.isEmpty || (whole.length != 1 && whole.head? == some '0') then none
  else
    match rest with
    | '.' :: rest =>
      let fraction := rest.takeWhile Char.isDigit
      if fraction.isEmpty then none
      else exponentOfChars? { numeral with fraction := fraction } (rest.dropWhile Char.isDigit)
    | rest => exponentOfChars? numeral rest

/-- Whether the numeral has neither fraction nor exponent. -/
def isInteger (n : Numeral) : Bool := n.fraction.isEmpty && n.exponent.isEmpty

/-- The bound of a significand. -/
def wordBound : Nat := 0x10000000000000000

/-- Appends digits to a significand as long as it stays a 64-bit number. Gives the significand and
the number of digits taken. -/
def absorb (significand : Nat) : List Char → Nat × Nat
  | [] => (significand, 0)
  | c :: rest =>
    let next := 10 * significand + digitValue c
    if next < wordBound then
      let (s, taken) := absorb next rest
      (s, taken + 1)
    else (significand, 0)

/-- The double nearest to a power of ten up to `1e308`. -/
def decade (e : Nat) : Double := (Double.nearest? false (powerOfTen e) 1).getD (Double.zero false)

/-- A significand times a power of ten, rounded after each step. Below `1e-308` the significand is
divided twice; what lies further down is zero. -/
def scaled? (significand : Nat) (exponent : Int) : Option Double :=
  let s := Double.ofUInt64 (UInt64.ofNat significand)
  if significand = 0 then some s
  else if 0 ≤ exponent then
    if exponent ≤ 308 then s.mul? (decade exponent.toNat) else none
  else if -308 ≤ exponent then some (s.div (decade (-exponent).toNat))
  else if -616 ≤ exponent then
    some ((s.div (decade 308)).div (decade (-exponent - 308).toNat))
  else some (Double.zero false)

/-- The double of a numeral, `none` if it is too large. -/
def double? (n : Numeral) : Option Double :=
  let (whole, taken) := absorb 0 n.whole
  let (significand, shift) := absorb whole n.fraction
  let written : Int := digitsValue n.exponent
  let exponent : Int :=
    (n.whole.length : Int) - taken - shift + if n.exponentNegative then -written else written
  (scaled? significand exponent).map fun d => if n.negative then d.neg else d

/-- The value of a numeral. Naturals and negative integers that fit stay integers; `-0` and all
others are doubles. -/
def number? (n : Numeral) : Option Number :=
  let value := digitsValue n.whole
  if n.isInteger ∧ !n.negative ∧ value < wordBound then some (.natural (UInt64.ofNat value))
  else if h : n.isInteger ∧ n.negative ∧ 0 < value ∧ value ≤ 0x8000000000000000 then
    some (.negative ⟨value - 1, by have := h.2.2; omega⟩)
  else n.double?.map .double

end Numeral

def Number.ofChars? (chars : List Char) : Option Number :=
  (Numeral.ofChars? chars).bind Numeral.number?

end LiveDocs

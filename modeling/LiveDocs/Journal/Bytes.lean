/-!
# Bytes

Numbers and texts as bytes. Numbers are written with the least significant byte first.

## Main definitions

* `Bytes`: a row of bytes.
* `Bytes.ofNat`, `Bytes.toNat`: numbers of a fixed width.
* `Bytes.ofText`, `Bytes.text?`: UTF-8.
* `Bytes.hex`, `Bytes.ofHex?`: hexadecimal digits.
-/

namespace LiveDocs

/-- A row of bytes. -/
abbrev Bytes := List UInt8

namespace Bytes

/-- The low `width` bytes of a number. -/
def ofNat : (width : Nat) → Nat → Bytes
  | 0, _ => []
  | width + 1, n => UInt8.ofNat n :: ofNat width (n / 256)

def toNat : Bytes → Nat
  | [] => 0
  | b :: rest => b.toNat + 256 * toNat rest

/-- The first bytes and the rest, `none` if there are too few. -/
def split? (count : Nat) (bytes : Bytes) : Option (Bytes × Bytes) :=
  if count ≤ bytes.length then some (bytes.take count, bytes.drop count) else none

/-- A text in UTF-8. -/
def ofText (s : String) : Bytes := s.toUTF8.toList

/-- The text of some bytes in UTF-8. -/
def text? (bytes : Bytes) : Option String := String.fromUTF8? ⟨bytes.toArray⟩

/-- Two lower-case hexadecimal digits for each byte. -/
def hex (bytes : Bytes) : String :=
  String.ofList
    (bytes.flatMap fun b => [Nat.digitChar (b.toNat / 16), Nat.digitChar (b.toNat % 16)])

def hexDigit? (c : Char) : Option Nat :=
  if '0' ≤ c ∧ c ≤ '9' then some (c.toNat - '0'.toNat)
  else if 'a' ≤ c ∧ c ≤ 'f' then some (c.toNat - 'a'.toNat + 10)
  else if 'A' ≤ c ∧ c ≤ 'F' then some (c.toNat - 'A'.toNat + 10)
  else none

/-- The bytes of some hexadecimal digits, two for each byte. -/
def ofHex? : List Char → Option Bytes
  | [] => some []
  | [_] => none
  | a :: b :: rest => do
    let high ← hexDigit? a
    let low ← hexDigit? b
    let bytes ← ofHex? rest
    some (UInt8.ofNat (16 * high + low) :: bytes)

end Bytes

end LiveDocs

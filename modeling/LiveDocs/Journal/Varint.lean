import LiveDocs.Journal.Bytes

/-!
# Variable-length numbers

A number up to 250 is one byte. Greater ones are a mark, 251, 252 or 253, and the number in two,
four or eight bytes. Numbers are written in the shortest form; any form is read that is not wider
than the number's type.

## Main definitions

* `Varint.encode`, `Varint.decode?`: writing and reading.
-/

namespace LiveDocs.Varint

/-- A number below `2 ^ 64` in its shortest form. -/
def encode (n : Nat) : Bytes :=
  if n < 251 then [UInt8.ofNat n]
  else if n < 0x10000 then 251 :: Bytes.ofNat 2 n
  else if n < 0x100000000 then 252 :: Bytes.ofNat 4 n
  else 253 :: Bytes.ofNat 8 n

/-- Reads a number of at most `width` bytes after its mark. Gives the number and the rest. -/
def decode? (width : Nat) : Bytes → Option (Nat × Bytes)
  | [] => none
  | b :: rest =>
    let wide (count : Nat) : Option (Nat × Bytes) :=
      if count ≤ width then (Bytes.split? count rest).map fun (n, rest) => (n.toNat, rest) else none
    if b < 251 then some (b.toNat, rest)
    else if b = 251 then wide 2
    else if b = 252 then wide 4
    else if b = 253 then wide 8
    else none

end LiveDocs.Varint

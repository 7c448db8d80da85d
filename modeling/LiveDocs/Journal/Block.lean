import LiveDocs.Journal.Bytes

/-!
# Compressed blocks

The LZ4 block format. A block is a row of sequences: a token, literal bytes to copy, and a match
that repeats earlier output. The last sequence has literals only. In front of a block stands the
size of its content in four bytes; when reading it is a bound that the content may stay below.

A compressor is any function that makes blocks which are read back (`Block.ReadBack`); how it finds
matches is its own affair. `Block.literals` is the simplest one and looks for none.

## Main definitions

* `Block.decompress?`: the content of a block.
* `Block.ReadBack`: reading undoes what a compressor does to some content.
* `Block.literals`: a compressor without matches.
-/

namespace LiveDocs.Block

/-- Reads the bytes that continue a length. -/
def readLength? (length : Nat) : Bytes → Option (Nat × Bytes)
  | [] => none
  | b :: rest =>
    if b = 255 then readLength? (length + 255) rest else some (length + b.toNat, rest)

/-- Reads a length of which four bits stand in the token. -/
def length? (bits : Nat) (input : Bytes) : Option (Nat × Bytes) :=
  if bits = 15 then readLength? 15 input else some (bits, input)

/-- Repeats `length` bytes that start `offset` bytes before the end of the output, which may reach
into the repetition itself. The output is kept last byte first. -/
def repeatMatch (offset : Nat) : Nat → Bytes → Bytes
  | 0, output => output
  | length + 1, output => repeatMatch offset length (output.getD (offset - 1) 0 :: output)

/-- Reads sequences; the output so far is kept last byte first. Every sequence takes a token, so
the length of the input bounds their number. -/
def readSequences? (capacity : Nat) : Nat → Bytes → Bytes → Option Bytes
  | 0, _, _ => none
  | _, [], _ => none
  | fuel + 1, token :: input, output => do
    let (literals, input) ← length? (token.toNat / 16) input
    let (bytes, input) ← Bytes.split? literals input
    let output := bytes.reverse ++ output
    if capacity < output.length then none
    else if input.isEmpty then some output.reverse
    else do
      let (offset, input) ← Bytes.split? 2 input
      let offset := offset.toNat
      let (matched, input) ← length? (token.toNat % 16) input
      let matched := matched + 4
      if offset = 0 ∨ output.length < offset ∨ capacity < output.length + matched then none
      else readSequences? capacity fuel input (repeatMatch offset matched output)

/-- The content of a block behind its size. -/
def decompress? (bytes : Bytes) : Option Bytes := do
  let (size, block) ← Bytes.split? 4 bytes
  readSequences? size.toNat (block.length + 1) block []

/-- Reading undoes what a compressor does to some content. -/
def ReadBack (compress : Bytes → Bytes) (content : Bytes) : Prop :=
  decompress? (compress content) = some content

instance (compress : Bytes → Bytes) (content : Bytes) : Decidable (ReadBack compress content) :=
  inferInstanceAs (Decidable (_ = _))

/-- The bytes that continue a length of at least fifteen. -/
def lengthBytes (n : Nat) : Bytes := List.replicate (n / 255) 255 ++ [UInt8.ofNat (n % 255)]

/-- Content as a block of literals behind its size. -/
def literals (content : Bytes) : Bytes :=
  let n := content.length
  let head := if n < 15 then [UInt8.ofNat (16 * n)] else 240 :: lengthBytes (n - 15)
  Bytes.ofNat 4 n ++ head ++ content

end LiveDocs.Block

import LiveDocs.Journal.Bytes

/-!
# SHA-1

The SHA-1 hash of a row of bytes: the bytes are padded to blocks of 64, every block is widened to 80
words, and five words of state are mixed with them.

## Main definitions

* `Sha1.digest`: the twenty bytes of the hash.
-/

namespace LiveDocs.Sha1

/-- The five words of state. -/
structure State where
  a : UInt32
  b : UInt32
  c : UInt32
  d : UInt32
  e : UInt32

/-- The state before the first block. -/
def start : State := ⟨0x67452301, 0xefcdab89, 0x98badcfe, 0x10325476, 0xc3d2e1f0⟩

def rotate (w : UInt32) (count : UInt32) : UInt32 := (w <<< count) ||| (w >>> (32 - count))

/-- The bytes of a number, most significant first. -/
def bigEndian (width n : Nat) : Bytes := (Bytes.ofNat width n).reverse

/-- A message with a one bit, zeros, and its length in bits behind it. -/
def pad (message : Bytes) : Bytes :=
  let zeros := (119 - message.length % 64) % 64
  message ++ 0x80 :: List.replicate zeros 0 ++ bigEndian 8 (8 * message.length)

/-- The words of some bytes, four to a word. -/
def words : Bytes → List UInt32
  | b₀ :: b₁ :: b₂ :: b₃ :: rest =>
    UInt32.ofNat (Bytes.toNat [b₃, b₂, b₁, b₀]) :: words rest
  | _ => []

/-- The words of a block widened by `count` more. They are kept last first. -/
def widen : Nat → List UInt32 → List UInt32
  | 0, ws => ws
  | count + 1, ws =>
    let w := ws.getD 2 0 ^^^ ws.getD 7 0 ^^^ ws.getD 13 0 ^^^ ws.getD 15 0
    widen count (rotate w 1 :: ws)

/-- Mixes the word of a round into the state. -/
def round (s : State) (index : Nat) (w : UInt32) : State :=
  let (f, k) : UInt32 × UInt32 :=
    if index < 20 then ((s.b &&& s.c) ||| (~~~ s.b &&& s.d), 0x5a827999)
    else if index < 40 then (s.b ^^^ s.c ^^^ s.d, 0x6ed9eba1)
    else if index < 60 then ((s.b &&& s.c) ||| (s.b &&& s.d) ||| (s.c &&& s.d), 0x8f1bbcdc)
    else (s.b ^^^ s.c ^^^ s.d, 0xca62c1d6)
  ⟨rotate s.a 5 + f + s.e + k + w, s.a, rotate s.b 30, s.c, s.d⟩

/-- Mixes a block of sixteen words into the state. -/
def block (s : State) (ws : List UInt32) : State :=
  let all := (widen 64 ws.reverse).reverse
  let t := (all.zipIdx).foldl (fun t p => round t p.2 p.1) s
  ⟨s.a + t.a, s.b + t.b, s.c + t.c, s.d + t.d, s.e + t.e⟩

/-- Mixes some blocks into the state, `count` at most. -/
def blocks : Nat → State → List UInt32 → State
  | 0, s, _ => s
  | _, s, [] => s
  | count + 1, s, ws => blocks count (block s (ws.take 16)) (ws.drop 16)

def digest (message : Bytes) : Bytes :=
  let ws := words (pad message)
  let s := blocks (ws.length / 16) start ws
  [s.a, s.b, s.c, s.d, s.e].flatMap fun w => bigEndian 4 w.toNat

end LiveDocs.Sha1

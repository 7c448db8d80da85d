import LiveDocs.Json.Numeral

/-!
# JSON tokens

The characters of a JSON text are taken one at a time by a small machine that collects the tokens:
brackets, commas, colons, and atoms (strings, numbers and the three words). Only blank, tab, line
feed and carriage return may stand between tokens.

## Main definitions

* `Token`: a token.
* `Scan`, `Scan.feed`: the machine and its step on a character.
* `Token.scan?`: the tokens of a text.
-/

namespace LiveDocs

/-- A token of JSON text. -/
inductive Token where
  | openArray
  | closeArray
  | openObject
  | closeObject
  | comma
  | colon
  | atom (value : Json)

/-- What is being read. Characters and digits collected so far are kept last first. -/
inductive Scan.Mode where
  | between
  | numeral (chars : List Char)
  | word (chars : List Char)
  | string (chars : List Char)
  | escape (chars : List Char)
  /-- Inside the four digits of a `\u` escape; `high` is a first surrogate that waits for its
  pair. -/
  | unicode (chars : List Char) (high : Option Nat) (digits : List Nat)
  /-- A first surrogate was read and a second `\u` escape has to follow. -/
  | paired (chars : List Char) (high : Nat) (backslash : Bool)

/-- The state of reading: the tokens so far, last first, and what is being read. -/
structure Scan where
  tokens : List Token
  mode : Scan.Mode

namespace Scan

def start : Scan := ⟨[], .between⟩

/-- The state after a token is complete. -/
def push (s : Scan) (t : Token) : Scan := ⟨t :: s.tokens, .between⟩

/-- White space of JSON. -/
def isBlank (c : Char) : Bool := c = ' ' || c = '\t' || c = '\n' || c = '\r'

/-- Characters that may occur in a numeral. -/
def isNumeralChar (c : Char) : Bool :=
  c.isDigit || c = '-' || c = '+' || c = '.' || c = 'e' || c = 'E'

def hexValue? (c : Char) : Option Nat :=
  if '0' ≤ c ∧ c ≤ '9' then some (c.toNat - '0'.toNat)
  else if 'a' ≤ c ∧ c ≤ 'f' then some (c.toNat - 'a'.toNat + 10)
  else if 'A' ≤ c ∧ c ≤ 'F' then some (c.toNat - 'A'.toNat + 10)
  else none

/-- The character of a short escape. -/
def escaped? (c : Char) : Option Char :=
  match c with
  | '"' => some '"'
  | '\\' => some '\\'
  | '/' => some '/'
  | 'b' => some '\x08'
  | 'f' => some '\x0c'
  | 'n' => some '\n'
  | 'r' => some '\r'
  | 't' => some '\t'
  | _ => none

/-- The word of some letters, last first. -/
def word? (chars : List Char) : Option Json :=
  match chars.reverse with
  | ['n', 'u', 'l', 'l'] => some .null
  | ['t', 'r', 'u', 'e'] => some (.bool true)
  | ['f', 'a', 'l', 's', 'e'] => some (.bool false)
  | _ => none

/-- Ends a numeral or a word; other tokens end by their own last character. -/
def finish? (s : Scan) : Option Scan :=
  match s.mode with
  | .between => some s
  | .numeral chars => (Number.ofChars? chars.reverse).map fun n => s.push (.atom (.num n))
  | .word chars => (word? chars).map fun j => s.push (.atom j)
  | _ => none

/-- Reads a character that stands between two tokens or begins one. -/
def begin? (s : Scan) (c : Char) : Option Scan :=
  if isBlank c then some s
  else if c = '[' then some (s.push .openArray)
  else if c = ']' then some (s.push .closeArray)
  else if c = '\x7b' then some (s.push .openObject)
  else if c = '\x7d' then some (s.push .closeObject)
  else if c = ',' then some (s.push .comma)
  else if c = ':' then some (s.push .colon)
  else if c = '"' then some { s with mode := .string [] }
  else if isNumeralChar c then some { s with mode := .numeral [c] }
  else if c.isAlpha then some { s with mode := .word [c] }
  else none

/-- What a complete `\u` escape of value `n` leads to. Surrogates have to come in pairs. -/
def unicodeMode? (chars : List Char) (high : Option Nat) (n : Nat) : Option Mode :=
  match high with
  | none =>
    if 0xdc00 ≤ n ∧ n ≤ 0xdfff then none
    else if 0xd800 ≤ n ∧ n ≤ 0xdbff then some (.paired chars n false)
    else some (.string (Char.ofNat n :: chars))
  | some high =>
    if 0xdc00 ≤ n ∧ n ≤ 0xdfff then
      some (.string (Char.ofNat ((high - 0xd800) * 0x400 + (n - 0xdc00) + 0x10000) :: chars))
    else none

/-- Reads one character, `none` if no JSON text goes on like this. -/
def feed? (s : Scan) (c : Char) : Option Scan :=
  match s.mode with
  | .between => s.begin? c
  | .numeral chars =>
    if isNumeralChar c then some { s with mode := .numeral (c :: chars) }
    else s.finish?.bind (·.begin? c)
  | .word chars =>
    if c.isAlpha then some { s with mode := .word (c :: chars) }
    else s.finish?.bind (·.begin? c)
  | .string chars =>
    if c = '"' then some (s.push (.atom (.str (String.ofList chars.reverse))))
    else if c = '\\' then some { s with mode := .escape chars }
    else if c.toNat < 0x20 then none
    else some { s with mode := .string (c :: chars) }
  | .escape chars =>
    if c = 'u' then some { s with mode := .unicode chars none [] }
    else (escaped? c).map fun e => { s with mode := .string (e :: chars) }
  | .unicode chars high digits =>
    (hexValue? c).bind fun value =>
      match digits with
      | [d₃, d₂, d₁] =>
        (unicodeMode? chars high (((d₁ * 16 + d₂) * 16 + d₃) * 16 + value)).map fun mode =>
          { s with mode := mode }
      | digits => some { s with mode := .unicode chars high (value :: digits) }
  | .paired chars high backslash =>
    if backslash then
      if c = 'u' then some { s with mode := .unicode chars (some high) [] } else none
    else if c = '\\' then some { s with mode := .paired chars high true }
    else none

def feedAll? : Scan → List Char → Option Scan
  | s, [] => some s
  | s, c :: rest => (s.feed? c).bind (·.feedAll? rest)

end Scan

/-- The tokens of a text, `none` if it is not made of JSON tokens. -/
def Token.scan? (chars : List Char) : Option (List Token) :=
  ((Scan.start.feedAll? chars).bind Scan.finish?).map fun s => s.tokens.reverse

end LiveDocs

import LiveDocs.Json.Basic

/-!
# JSON text

The compact text of a value: no blanks, members in the order they are listed, and in strings only
the quote, the backslash and the control characters escaped.

## Main definitions

* `Json.chars`, `Json.render`: the text of a value.
* `Json.escapeChar`: how a character of a string is written.
-/

namespace LiveDocs

def decimalChars (n : Nat) : List Char := Nat.toDigits 10 n

/-- The text of a number. A double always shows a point or an exponent. -/
def Number.chars : Number → List Char
  | natural n => decimalChars n.toNat
  | negative n => '-' :: decimalChars (n.val + 1)
  | double d => d.chars

namespace Json

/-- How a character is written in a string. Characters below the blank have a short escape or four
lower-case hexadecimal digits. -/
def escapeChar (c : Char) : List Char :=
  if c = '"' then ['\\', '"']
  else if c = '\\' then ['\\', '\\']
  else if c.toNat < 0x20 then
    if c.toNat = 0x08 then ['\\', 'b']
    else if c.toNat = 0x09 then ['\\', 't']
    else if c.toNat = 0x0a then ['\\', 'n']
    else if c.toNat = 0x0c then ['\\', 'f']
    else if c.toNat = 0x0d then ['\\', 'r']
    else ['\\', 'u', '0', '0', Nat.digitChar (c.toNat / 16), Nat.digitChar (c.toNat % 16)]
  else [c]

def quote (s : String) : List Char := '"' :: s.toList.flatMap escapeChar ++ ['"']

mutual

/-- The compact text of a value. -/
def chars : Json → List Char
  | null => ['n', 'u', 'l', 'l']
  | bool true => ['t', 'r', 'u', 'e']
  | bool false => ['f', 'a', 'l', 's', 'e']
  | num n => n.chars
  | str s => quote s
  | arr [] => ['[', ']']
  | arr (item :: rest) => '[' :: chars item ++ charsItems rest ++ [']']
  | obj [] => ['\x7b', '\x7d']
  | obj ((key, value) :: rest) =>
    '\x7b' :: quote key ++ ':' :: chars value ++ charsFields rest ++ ['\x7d']

/-- The texts of the items after the first, each with a comma in front. -/
def charsItems : List Json → List Char
  | [] => []
  | item :: rest => ',' :: chars item ++ charsItems rest

/-- The texts of the members after the first, each with a comma in front. -/
def charsFields : List (String × Json) → List Char
  | [] => []
  | (key, value) :: rest => ',' :: quote key ++ ':' :: chars value ++ charsFields rest

end

def render (j : Json) : String := String.ofList j.chars

end Json

end LiveDocs

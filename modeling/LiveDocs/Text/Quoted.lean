/-!
# Quoted names

Names as they stand in messages and descriptions: in quotes, with the characters that would break a
line or a quote escaped.

## Main definitions

* `quotedName`, `quotedNames`: one name in quotes, and a list of them.
-/

namespace LiveDocs

/-- How a character is written inside a quoted name. -/
def quotedChar (c : Char) : List Char :=
  if c = '"' then ['\\', '"']
  else if c = '\\' then ['\\', '\\']
  else if c = '\n' then ['\\', 'n']
  else if c = '\r' then ['\\', 'r']
  else if c = '\t' then ['\\', 't']
  else if c.toNat = 0 then ['\\', '0']
  else if c.toNat < 0x20 ∨ c.toNat = 0x7f then
    ['\\', 'u', '\x7b'] ++ Nat.toDigits 16 c.toNat ++ ['\x7d']
  else [c]

/-- A name in quotes. -/
def quotedName (s : String) : String := String.ofList ('"' :: s.toList.flatMap quotedChar ++ ['"'])

/-- Names in quotes, in brackets and with commas between them. -/
def quotedNames (names : List String) : String :=
  "[" ++ ", ".intercalate (names.map quotedName) ++ "]"

end LiveDocs

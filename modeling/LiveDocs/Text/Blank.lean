/-!
# Blank text

The characters with the Unicode property `White_Space`, and texts made of them.

## Main definitions

* `Text.isBlankChar`, `Text.isBlank`: white space, and texts of nothing else.
* `Text.lines`: the lines of a text.
-/

namespace LiveDocs.Text

/-- White space in the sense of Unicode. -/
def isBlankChar (c : Char) : Bool :=
  let n := c.toNat
  (0x09 ≤ n && n ≤ 0x0d) || n == 0x20 || n == 0x85 || n == 0xa0 || n == 0x1680 ||
    (0x2000 ≤ n && n ≤ 0x200a) || n == 0x2028 || n == 0x2029 || n == 0x202f || n == 0x205f ||
    n == 0x3000

def isBlank (text : List Char) : Bool := text.all isBlankChar

/-- The lines of a text, without the line feeds that end them. What follows the last line feed is a
line too, possibly an empty one. -/
def lines : List Char → List (List Char)
  | [] => [[]]
  | '\n' :: rest => [] :: lines rest
  | c :: rest =>
    match lines rest with
    | [] => [[c]]
    | line :: more => (c :: line) :: more

end LiveDocs.Text

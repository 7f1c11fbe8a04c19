/-!
# White space

The characters that separate words and can be trimmed from a text, by the Unicode property
`White_Space`, and the operations that only need to know them.
-/

set_option autoImplicit false

namespace CodeSearch.Text

/-- Unicode white space. The zero-width space is not among it. -/
def isBlank (c : Char) : Bool :=
  (0x09 ≤ c.toNat && c.toNat ≤ 0x0D) || c == ' ' || c.toNat == 0x85 || c.toNat == 0xA0 ||
    c.toNat == 0x1680 || (0x2000 ≤ c.toNat && c.toNat ≤ 0x200A) || c.toNat == 0x2028 ||
    c.toNat == 0x2029 || c.toNat == 0x202F || c.toNat == 0x205F || c.toNat == 0x3000

/-- The text without the blanks it starts with. -/
def trimStart (cs : List Char) : List Char := cs.dropWhile isBlank

/-- The text without the blanks it ends with. -/
def trimEnd (cs : List Char) : List Char := (cs.reverse.dropWhile isBlank).reverse

/-- The text without blanks at either end. -/
def trim (cs : List Char) : List Char := trimEnd (trimStart cs)

/-- The maximal pieces without blanks, in order. -/
def words (cs : List Char) : List (List Char) := (cs.splitOnP isBlank).filter (! ·.isEmpty)

/-- The text with every run of blanks, and none at the ends, written as one space. -/
def collapse (cs : List Char) : List Char := [' '].intercalate (words cs)

/-- The text without the characters `c` at either end. -/
def stripChar (c : Char) (cs : List Char) : List Char :=
  ((cs.dropWhile (· == c)).reverse.dropWhile (· == c)).reverse

end CodeSearch.Text

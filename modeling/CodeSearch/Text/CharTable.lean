/-!
# Tables of characters

Properties and mappings of characters are given by tables of code point ranges. A range is
a pair of its first and last code point. A mapping row `(first, last, stride, image)` sends
`first`, `first + stride`, … up to `last` to `image` and the code points that follow it at the
same distances.
-/

set_option autoImplicit false

namespace CodeSearch.Text

/-- A set of characters as ranges of code points. -/
abbrev CharRanges := List (Nat × Nat)

/-- A partial map on characters as rows of first, last, stride and image of the first. -/
abbrev CharMap := List (Nat × Nat × Nat × Nat)

/-- Whether some range holds the character. -/
def CharRanges.has (ranges : CharRanges) (c : Char) : Bool :=
  ranges.any fun (first, last) => first ≤ c.toNat && c.toNat ≤ last

/-- The image of a character; one that no row holds is its own image. -/
def CharMap.apply (rows : CharMap) (c : Char) : Char :=
  match rows.find? fun (first, last, stride, _) =>
      first ≤ c.toNat && c.toNat ≤ last && (c.toNat - first) % stride == 0 with
  | some (first, _, _, image) => Char.ofNat (image + (c.toNat - first))
  | none => c

end CodeSearch.Text

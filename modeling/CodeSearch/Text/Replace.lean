/-!
# Replacing pieces of a text

Every occurrence of one text in another is replaced, from left to right and without looking
again at what was put in.
-/

set_option autoImplicit false

namespace CodeSearch.Text

/-- Replaces a piece in what follows the first `skip` characters, which are dropped. -/
def replaceFrom (piece image : List Char) : Nat → List Char → List Char
  | _, [] => []
  | skip + 1, _ :: cs => replaceFrom piece image skip cs
  | 0, c :: cs =>
      if piece.isPrefixOf (c :: cs) then image ++ replaceFrom piece image (piece.length - 1) cs
      else c :: replaceFrom piece image 0 cs

/-- Replaces all occurrences of a piece, which must not be empty. -/
def replaceAll (piece image text : List Char) : List Char := replaceFrom piece image 0 text

/-- Replaces all occurrences of a piece, which must not be empty. -/
def replaceString (piece image text : String) : String :=
  String.ofList (replaceAll piece.toList image.toList text.toList)

end CodeSearch.Text

import CodeSearch.Text.Blank

/-!
# Hints

Advice on how to write a query that starts like an object or a string.
-/

set_option autoImplicit false

namespace CodeSearch

/-- Advice for the writer of a query: some words, then code to copy. -/
structure Hint where
  prose : String
  code : String
  deriving DecidableEq, Repr

namespace Hint

/-- The whole hint in one text. -/
def text (h : Hint) : String := h.prose ++ h.code

/-- How to look for an object. -/
def object : Hint :=
  ⟨"To look for object, add expression brackets ", "(\x7b key:val \x7d)"⟩

/-- How to look for a string. -/
def string : Hint := ⟨"To look for string, add expression brackets ", "('some string')"⟩

/-- The hints on a query, which may have failed to parse. -/
def forQuery (text : String) (failed : Bool) : List Hint :=
  let first := (Text.trimStart text.toList).head?
  (if first = some '\x7b' then [object] else []) ++
    if failed && (first = some '"' || first = some '\'' || first = some '\x60') then [string]
    else []

end Hint

end CodeSearch

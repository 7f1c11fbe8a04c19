import CodeSearch.Text.CaseFoldTable

/-!
# Case folding

Two characters are the same up to case when they have the same simple case folding. Unlike
lower case, folding never depends on the neighbours of a character and never changes the length
of a text.
-/

set_option autoImplicit false

namespace CodeSearch.Text

/-- The character that stands for all characters equal to `c` up to case. -/
def foldChar (c : Char) : Char :=
  if c.toNat < 0x80 then c.toLower else caseFoldRows.apply c

/-- Two characters agree, up to letter case if it is ignored. -/
def sameChar (ignoreCase : Bool) (left right : Char) : Bool :=
  if ignoreCase then foldChar left == foldChar right else left == right

@[simp] theorem sameChar_false (left right : Char) :
    sameChar false left right = (left == right) := rfl

end CodeSearch.Text

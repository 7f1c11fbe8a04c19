/-!
# Substrings

Whether one text occurs inside another.
-/

set_option autoImplicit false

namespace CodeSearch.Text

/-- `occursIn needle text` holds when the text contains the needle in one piece. -/
def occursIn (needle : List Char) : List Char → Bool
  | [] => needle.isEmpty
  | c :: cs => needle.isPrefixOf (c :: cs) || occursIn needle cs

/-- Occurring is being an infix. -/
theorem occursIn_iff {needle text : List Char} : occursIn needle text ↔ needle <:+: text := by
  induction text with
  | nil => simp [occursIn]
  | cons c cs ih =>
      rw [occursIn, Bool.or_eq_true, List.isPrefixOf_iff_prefix, ih, List.infix_cons_iff]

end CodeSearch.Text

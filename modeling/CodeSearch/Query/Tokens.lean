import CodeSearch.Grammar
import CodeSearch.Node.Walk
import CodeSearch.Text.Blank
import CodeSearch.Text.Substring

/-!
# Tokens of a query

The literal pieces of a query that any file must contain to match it: names, words of strings
and numbers, with the wildcards cut out. A file whose text lacks one of them need not be
parsed.
-/

set_option autoImplicit false

namespace CodeSearch

/-- The fewest characters a token has. -/
def minTokenLength : Nat := 2

/-- The pieces of literal text that one node of a query asks for. -/
def literalPieces (grammar : Grammar) (markers : Markers) (n : Node) : List String :=
  match n.text with
  | none => []
  | some text =>
      if grammar.kinds.isIdentifier n.kind then markers.fragments text
      else if grammar.kinds.isString n.kind then
        (markers.fragments (grammar.sanitize n.kind text)).flatMap fun fragment =>
          (Text.words fragment.toList).map String.ofList
      else if grammar.kinds.isNumber n.kind then
        let digits := (markers.numeric.toList.isPrefixOf? text.toList).getD text.toList
        markers.fragments (String.ofList digits)
      else []

/-- Puts a text into a sorted list, unless it is there. -/
def insertSorted (text : String) : List String → List String
  | [] => [text]
  | other :: rest =>
      if text = other then other :: rest
      else if text < other then text :: other :: rest
      else other :: insertSorted text rest

theorem mem_insertSorted {text other : String} {sorted : List String} :
    other ∈ insertSorted text sorted ↔ other = text ∨ other ∈ sorted := by
  induction sorted with
  | nil => simp [insertSorted]
  | cons head rest ih =>
      simp only [insertSorted]
      split
      · subst_vars; simp
      · split
        · simp
        · simp only [List.mem_cons, ih]
          constructor <;> rintro (h | h | h) <;> simp [h]

/-- The tokens of a query tree, sorted and each once. They are in lower case if letter case is
ignored. -/
def uniqueTokens (grammar : Grammar) (config : MatchSettings) (query : Node) : List String :=
  let pieces := query.walk.flatMap (literalPieces grammar config.markers)
  let kept := pieces.filter fun piece => minTokenLength ≤ piece.length
  (kept.map fun piece => if config.ignoreCase then Text.lowercaseString piece else piece).foldl
    (fun sorted piece => insertSorted piece sorted) []

/-- Whether a file's text holds all tokens of at least one query. -/
def passesTokenFilter (content : String) (tokenSets : List (List String)) (ignoreCase : Bool) :
    Bool :=
  let text := if ignoreCase then Text.lowercase content.toList else content.toList
  tokenSets.any fun tokens => tokens.all fun token => Text.occursIn token.toList text

end CodeSearch

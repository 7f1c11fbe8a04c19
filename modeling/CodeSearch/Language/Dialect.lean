import CodeSearch.Grammar
import CodeSearch.Text.Blank

/-!
# Dialects

What one language adds to the general way in which concrete trees become syntax trees and are
compared.
-/

set_option autoImplicit false

namespace CodeSearch

/-- The children without a field, one or several. -/
def Node.childList (n : Node) : List Node :=
  match n.field? childrenField with
  | some (.nodes children) => children
  | some (.node child) => [child]
  | _ => []

/-- A text without one pair of equal quotes around it. -/
def stripQuotes (quotes : List Char) (text : String) : String :=
  match text.toList with
  | first :: rest =>
      if rest.getLast? = some first && quotes.contains first then String.ofList rest.dropLast
      else text
  | [] => text

/-- A text with every run of blanks, and none at the ends, written as one space. -/
def collapseBlanks (text : String) : String := String.ofList (Text.collapse text.toList)

/-- The peculiarities of a language. -/
structure Dialect where
  kinds : NodeKinds
  /-- Kinds that become leaves although they have children. -/
  leafKinds : List String := []
  /-- Keywords kept as tokens under their own name. -/
  modifiers : List String := []
  /-- Whether wildcards need placeholders to be parsed. -/
  usesPlaceholders : Bool := false
  /-- The text of a leaf of some kind, from its source. -/
  leafText : String → String → String := fun _ source => source
  /-- The node as it is once all its children are there. -/
  finish : Node → Node := id
  /-- The text of a node of some kind as it is compared. -/
  sanitize : String → String → String := fun _ text => text
  /-- Whether a node takes part when lists are compared. -/
  isComparable : Node → Bool := fun _ => true
  /-- A query text that does not parse by itself, wrapped so that it may. -/
  wrap : String → String := fun text => "(" ++ text ++ ")"
  /-- The statements of a parsed query, which may have been wrapped. -/
  statements : Node → Bool → List Node := fun root _ => root.childList
  rulesBefore : List Rule := []
  rulesAfter : List Rule := []

end CodeSearch

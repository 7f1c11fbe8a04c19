import CodeSearch.Text.Lowercase
import CodeSearch.Wildcard.Basic

/-!
# Search settings

How strictly a query has to match, and the other choices that hold for a whole search.
-/

set_option autoImplicit false

namespace CodeSearch

/-- How strictly a query must match. -/
inductive Mode where
  /-- Every key and every list element must match, in order. -/
  | exact
  /-- The query must be contained in the code; further code is ignored. -/
  | contained
  /-- The query must be contained in the code, list elements in the order of the query. -/
  | ordered
  deriving DecidableEq, Repr

namespace Mode

/-- All modes. -/
def all : List Mode := [exact, contained, ordered]

/-- Whether the mode ignores further code. -/
def allowsExtra : Mode → Bool
  | exact => false
  | contained | ordered => true

/-- The name of a mode. -/
def name : Mode → String
  | exact => "exact"
  | contained => "include"
  | ordered => "include-with-order"

/-- The mode of a name in any mixture of ASCII letter cases. -/
def ofName? (text : String) : Option Mode :=
  all.find? fun mode => mode.name == Text.lowercaseAscii text

end Mode

namespace WildcardKind

/-- All kinds. -/
def all : List WildcardKind := [identifier, string, nodeTree]

/-- The name of a kind. -/
def name : WildcardKind → String
  | identifier => "identifier"
  | string => "string"
  | nodeTree => "nodeTree"

/-- The kind of a name. -/
def ofName? (text : String) : Option WildcardKind := all.find? fun kind => kind.name == text

end WildcardKind

/-- What is said of a text that names none of the choices. -/
def unknownNameMessage : String := "Matching variant not found"

/-- The settings that decide whether a query matches. -/
structure MatchSettings where
  mode : Mode := .contained
  /-- Whether letter case is ignored in identifiers and strings. -/
  ignoreCase : Bool := false
  markers : Markers := {}
  deriving DecidableEq, Repr

/-- The settings of a search. -/
structure SearchConfig extends MatchSettings where
  /-- The most matches to report. -/
  maxResults : Option Nat := none
  deriving DecidableEq, Repr

instance : Coe SearchConfig MatchSettings := ⟨SearchConfig.toMatchSettings⟩

end CodeSearch

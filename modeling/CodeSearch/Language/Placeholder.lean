import CodeSearch.Node.Walk
import CodeSearch.Text.Replace
import CodeSearch.Text.Substring
import CodeSearch.Wildcard.Basic

/-!
# Placeholders for wildcards

Where the marker cannot stand in a name of the language, wildcards are written as placeholders
that can, and turned back once the query is parsed.
-/

set_option autoImplicit false

namespace CodeSearch

/-- What stands for the required wildcard. -/
def requiredPlaceholder : String := "a_x_3_x_a"

/-- What stands for the optional wildcard. -/
def optionalPlaceholder : String := "a_x_2_x_a"

namespace Markers

/-- The text with placeholders for wildcards. -/
def encode (m : Markers) (text : String) : String :=
  Text.replaceString m.optional optionalPlaceholder
    (Text.replaceString m.required requiredPlaceholder text)

/-- The text with wildcards for placeholders. -/
def decode (m : Markers) (text : String) : String :=
  Text.replaceString optionalPlaceholder m.optional
    (Text.replaceString requiredPlaceholder m.required text)

end Markers

mutual

/-- The tree with `f` applied to every text and token. -/
def Node.mapStrings (f : String → String) : Node → Node
  | .mk kind text fields span => .mk kind (text.map f) (Field.mapStringsEntries f fields) span

/-- The field with `f` applied to every text and token. -/
def Field.mapStrings (f : String → String) : Field → Field
  | .node child => .node (child.mapStrings f)
  | .nodes children => .nodes (Node.mapStringsList f children)
  | .token text => .token (f text)

/-- The trees with `f` applied to every text and token. -/
def Node.mapStringsList (f : String → String) : List Node → List Node
  | [] => []
  | node :: rest => node.mapStrings f :: Node.mapStringsList f rest

/-- The fields with `f` applied to every text and token. -/
def Field.mapStringsEntries (f : String → String) : List (String × Field) → List (String × Field)
  | [] => []
  | (name, field) :: rest => (name, field.mapStrings f) :: Field.mapStringsEntries f rest

end

/-- The tree with wildcards for placeholders in all its texts and tokens. -/
def Node.decode (markers : Markers) (n : Node) : Node := n.mapStrings markers.decode

end CodeSearch

import CodeSearch.Language.Dialect

/-!
# Python

A string has a content even if it is empty, so that wildcards can match it.
-/

set_option autoImplicit false

namespace CodeSearch.Python

/-- The kinds of nodes in a module. -/
def kinds : NodeKinds where
  identifiers := ["identifier"]
  strings := ["string_content"]
  numbers := ["integer", "float"]
  programs := ["module"]
  statementWrappers := ["expression_statement"]
  parenthesized := some "parenthesized_expression"
  defaultValues := [("default_parameter", "name"), ("typed_default_parameter", "name")]

/-- The parts of a string with an empty content after the opening quote, if there is neither
content nor interpolation. -/
def fillContent (parts : List Node) : List Node :=
  match parts with
  | first :: rest =>
      if first.kind == "string_start" &&
          !parts.any fun part => part.kind == "string_content" || part.kind == "interpolation" then
        first :: .leaf "string_content" "" first.span.atEnd :: rest
      else parts
  | [] => []

/-- A string that has a content or an interpolation. -/
def insertEmptyContent (string : Node) : Node :=
  match string.field? childrenField with
  | some (.nodes parts) => string.setField childrenField (.nodes (fillContent parts))
  | _ => string

/-- Modules. -/
def dialect : Dialect where
  kinds := kinds
  leafKinds := ["string_content"]
  modifiers := ["async"]
  usesPlaceholders := true
  finish node := if node.kind = "string" then insertEmptyContent node else node
  isComparable node := node.kind != "string_start" && node.kind != "string_end"

end CodeSearch.Python

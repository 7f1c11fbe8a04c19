import CodeSearch.Language.Dialect

/-!
# Rust

Strings compare by their content.
-/

set_option autoImplicit false

namespace CodeSearch.Rust

/-- The kinds of nodes in a source file. -/
def kinds : NodeKinds where
  identifiers :=
    ["identifier", "field_identifier", "type_identifier", "shorthand_field_identifier",
      "primitive_type"]
  strings := ["string_literal"]
  numbers := ["integer_literal", "float_literal"]
  programs := ["source_file"]
  statementWrappers := ["expression_statement"]
  parenthesized := some "parenthesized_expression"

/-- Source files. -/
def dialect : Dialect where
  kinds := kinds
  leafKinds := ["string_literal"]
  modifiers := ["async", "unsafe", "move", "const"]
  usesPlaceholders := true
  sanitize kind text := if kind = "string_literal" then stripQuotes ['"'] text else text
  wrap text := "(" ++ text ++ ");"

end CodeSearch.Rust

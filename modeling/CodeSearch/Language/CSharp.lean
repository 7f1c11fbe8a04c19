import CodeSearch.Language.Dialect

/-!
# C#

Strings compare by their content, verbatim ones too.
-/

set_option autoImplicit false

namespace CodeSearch.CSharp

/-- The kinds of nodes in a compilation unit. -/
def kinds : NodeKinds where
  identifiers := ["identifier"]
  strings := ["string_literal", "verbatim_string_literal"]
  numbers := ["integer_literal", "real_literal"]
  programs := ["compilation_unit"]
  statementWrappers := ["global_statement", "expression_statement"]
  parenthesized := some "parenthesized_expression"

/-- A verbatim string without the sign before its quotes. -/
def withoutVerbatimSign (text : String) : String :=
  match text.toList with
  | '@' :: rest => String.ofList rest
  | _ => text

/-- Compilation units. -/
def dialect : Dialect where
  kinds := kinds
  leafKinds := ["string_literal"]
  usesPlaceholders := true
  sanitize kind text :=
    if kind = "string_literal" then stripQuotes ['"'] text
    else if kind = "verbatim_string_literal" then stripQuotes ['"'] (withoutVerbatimSign text)
    else text
  wrap text := "(" ++ text ++ ");"

end CodeSearch.CSharp

import CodeSearch.Language.Dialect

/-!
# Lua

A lone expression is no statement, so a query that is one is parsed as the value of a return
statement.
-/

set_option autoImplicit false

namespace CodeSearch.Lua

/-- The kinds of nodes in a chunk. -/
def kinds : NodeKinds where
  identifiers := ["identifier"]
  strings := ["string"]
  numbers := ["number"]
  programs := ["chunk"]
  parenthesized := some "parenthesized_expression"

/-- The expressions that the return statements of a wrapped query give back. -/
def returnedValues (root : Node) : List Node :=
  let values := (root.childList.filter (·.kind == "return_statement")).flatMap Node.childList
  values.flatMap fun value =>
    if value.kind = "expression_list" then value.childList else [value]

/-- Chunks. -/
def dialect : Dialect where
  kinds := kinds
  leafKinds := ["string"]
  modifiers := ["local"]
  usesPlaceholders := true
  sanitize kind text := if kind = "string" then stripQuotes ['\'', '"'] text else text
  wrap text := "return " ++ text
  statements root wrapped := if wrapped then returnedValues root else root.childList

end CodeSearch.Lua

import CodeSearch.Language.Dialect

/-!
# CSS

A number and its unit are one dimension, even where the parser splits it. Dimensions compare
by number and by unit, and a wildcard value matches a colour.
-/

set_option autoImplicit false

namespace CodeSearch.Css

/-- The kinds of nodes in a style sheet. -/
def kinds : NodeKinds where
  identifiers :=
    ["tag_name", "class_name", "id_name", "property_name", "plain_value", "attribute_name",
      "feature_name", "function_name"]
  strings := ["string_value"]
  numbers := ["integer_value", "float_value"]
  programs := ["stylesheet"]

/-- Whether the second of two values, written right after the first, continues a number. -/
def continues (number value : Node) : Bool :=
  kinds.isNumber number.kind && (kinds.isNumber value.kind || value.kind == "plain_value") &&
    number.span.endByte == value.span.startByte

/-- Two values in one leaf, if the second continues the first and both have a text. -/
def joined? (number value : Node) : Option Node :=
  match number.text, value.text with
  | some left, some right =>
      if continues number value then
        some (.leaf number.kind (left ++ right) (number.span.cover value.span))
      else none
  | _, _ => none

/-- Values after a first one, each joined with the one before it if it continues it. -/
def joinAfter (previous : Node) : List Node → List Node
  | [] => [previous]
  | value :: rest =>
      match joined? previous value with
      | some number => joinAfter number rest
      | none => previous :: joinAfter value rest

/-- Values, each number joined with what continues it. -/
def joinNumbers : List Node → List Node
  | [] => []
  | value :: rest => joinAfter value rest

/-- A declaration whose numbers are joined with what continues them. -/
def joinAdjacentNumbers (declaration : Node) : Node :=
  match declaration.field? childrenField with
  | some (.nodes values) => declaration.setField childrenField (.nodes (joinNumbers values))
  | _ => declaration

/-- The length of the digits a text starts with, with one point at most. -/
def numberLength (seenPoint : Bool) : List Char → Nat
  | [] => 0
  | c :: rest =>
      if c.isDigit then numberLength seenPoint rest + 1
      else if c == '.' && !seenPoint then numberLength true rest + 1
      else 0

/-- A dimension as its number, with a sign, and its unit. -/
def splitDimension (text : List Char) : List Char × List Char :=
  let sign := if text.head? = some '+' || text.head? = some '-' then 1 else 0
  text.splitAt (sign + numberLength false (text.drop sign))

/-- Dimensions match when their numbers are equal, or the query's is the one that stands for
any, and their units match. -/
def dimensions : Rule := fun config file query b =>
  match query.text, file.text with
  | some queryText, some fileText =>
      if kinds.isNumber query.kind && kinds.isNumber file.kind then
        let (fileNumber, fileUnit) := splitDimension fileText.toList
        -- after the number that stands for any, all that follows is the unit
        let (sameNumber, queryUnit) :=
          match config.markers.numeric.toList.isPrefixOf? queryText.toList with
          | some unit => (true, unit)
          | none =>
              let (number, unit) := splitDimension queryText.toList
              (number == fileNumber, unit)
        if !sameNumber then (some .reject, b)
        else
          let queryUnit := String.ofList queryUnit
          let fileUnit := String.ofList fileUnit
          if config.markers.hasWildcard queryUnit then
            match b.matchText? config.ignoreCase (.ofText config.markers queryUnit) fileUnit
                .string with
            | some bound => (some (.accept []), bound)
            | none => (some .reject, b)
          else if config.ignoreCase then
            if Text.lowercaseAscii queryUnit = Text.lowercaseAscii fileUnit then
              (some (.accept []), b)
            else (some .reject, b)
          else if queryUnit = fileUnit then (some (.accept []), b)
          else (some .reject, b)
      else (none, b)
  | _, _ => (none, b)

/-- A value with a wildcard matches a colour by its digits. -/
def hashWildcard : Rule := fun config file query b =>
  match query.text, file.text with
  | some pattern, some colour =>
      if query.kind == "plain_value" && file.kind == "color_value" &&
          config.markers.hasWildcard pattern then
        match colour.toList with
        | '#' :: digits =>
            match b.matchText? config.ignoreCase (.ofText config.markers pattern)
                (String.ofList digits) .string with
            | some bound => (some (.accept []), bound)
            | none => (none, b)
        | _ => (none, b)
      else (none, b)
  | _, _ => (none, b)

/-- The declarations inside the rule that a query was wrapped in. -/
def wrappedStatements (root : Node) : List Node :=
  root.childList.flatMap fun rule =>
    (rule.childList.filter (·.kind == "block")).flatMap Node.childList

/-- Style sheets. -/
def dialect : Dialect where
  kinds := kinds
  leafKinds := ["string_value", "integer_value", "float_value", "class_name"]
  usesPlaceholders := true
  finish node := if node.kind = "declaration" then joinAdjacentNumbers node else node
  sanitize kind text := if kind = "string_value" then stripQuotes ['\'', '"'] text else text
  wrap text := "a \x7b " ++ text ++ " \x7d"
  statements root wrapped := if wrapped then wrappedStatements root else root.childList
  rulesBefore := [dimensions, hashWildcard]

end CodeSearch.Css

import CodeSearch.Language.Dialect

/-!
# JavaScript and TypeScript

The text of a template is normalised: pieces of text and substitutions alternate, and a piece
of text comes first and last. Where further code is ignored, properties written in different
shapes and optional chains compare as one; elements of markup match whether or not they close
themselves.
-/

set_option autoImplicit false

namespace CodeSearch.Ecma

/-- The kinds of nodes in JavaScript. -/
def javaScriptKinds : NodeKinds where
  identifiers :=
    ["identifier", "property_identifier", "shorthand_property_identifier",
      "shorthand_property_identifier_pattern", "private_property_identifier",
      "statement_identifier"]
  strings := ["string", "string_fragment", "jsx_text"]
  numbers := ["number"]
  programs := ["program"]
  block := "statement_block"
  statementWrappers := ["expression_statement"]
  parenthesized := some "parenthesized_expression"
  defaultValues := [("assignment_pattern", "left"), ("object_assignment_pattern", "left")]

/-- The kinds of nodes in TypeScript: in addition, names of types are identifiers. -/
def typeScriptKinds : NodeKinds :=
  { javaScriptKinds with
    identifiers := javaScriptKinds.identifiers ++ ["type_identifier", "predefined_type"] }

/-- Strings are written in either quotes. -/
def quotes : List Char := ['\'', '"']

/-! ## Templates -/

/-- A piece of text waiting for what comes after it. -/
abbrev PendingText := Option (String × Span)

/-- The fragment for the text before the next substitution, empty at `position` if there is
none. -/
def fragment (pending : PendingText) (position : Span) : Node :=
  match pending with
  | some (text, span) => .leaf "string_fragment" text span
  | none => .leaf "string_fragment" "" position

/-- A piece of text added to what is waiting. -/
def joinText (pending : PendingText) (part : Node) : PendingText :=
  let text := part.text.getD ""
  match pending with
  | some (before, span) => some (before ++ text, span.cover part.span)
  | none => some (text, part.span)

/-- The parts of a template, pieces of text joined and missing ones put in. -/
def alternate (pending : PendingText) (position : Span) : List Node → List Node
  | [] => [fragment pending position]
  | part :: rest =>
      if part.kind = "template_substitution" then
        fragment pending position :: part :: alternate none part.span.atEnd rest
      else alternate (joinText pending part) position rest

/-- The place just inside the first delimiter of a node. -/
def insideDelimiter (span : Span) : Span :=
  let inside : Position := ⟨span.start.line, span.start.column + 1⟩
  ⟨span.startByte + 1, span.startByte + 1, inside, inside⟩

/-- A template whose pieces of text and substitutions alternate. -/
def mergeFragments (template : Node) : Node :=
  template.removeField childrenField |>.setField childrenField
    (.nodes (alternate none (insideDelimiter template.span) template.children))

/-! ## Elements of markup -/

/-- Whether an element holds anything but blank text. -/
def hasContent (element : Node) : Bool :=
  element.children.any fun child => child.kind != "jsx_text" || child.text.any (· != "")

/-- Pairs the names and the attributes of two tags, each given as a node and the path to its
tag. In exact mode both must have attributes or none; else those of the file do not count. -/
def pairTags (exact : Bool) (query : Node) (queryTag : FieldPath) (file : Node)
    (fileTag : FieldPath) : List String → List (FieldPath × FieldPath) → Verdict
  | [], pairs => .accept pairs
  | field :: rest, pairs =>
      let queryKey := queryTag ++ [field]
      let fileKey := fileTag ++ [field]
      match (query.resolve queryKey).isSome, (file.resolve fileKey).isSome with
      | true, true =>
          pairTags exact query queryTag file fileTag rest (pairs ++ [(queryKey, fileKey)])
      | true, false => .reject
      | false, true =>
          if exact then .reject else pairTags exact query queryTag file fileTag rest pairs
      | false, false => pairTags exact query queryTag file fileTag rest pairs

/-- An element that closes itself and one with an opening tag match each other, the latter
without content: of the query always, of the file in exact mode. -/
def selfClosing : Rule := fun config file query b =>
  let isExact := config.mode == .exact
  let verdict :=
    if query.kind = "jsx_self_closing_element" ∧ file.kind = "jsx_element" then
      if isExact && hasContent file then some .reject
      else some (pairTags isExact query [] file ["open_tag"] ["name", "attribute"] [])
    else if query.kind = "jsx_element" ∧ file.kind = "jsx_self_closing_element" then
      if hasContent query then some .reject
      else some (pairTags isExact query ["open_tag"] file [] ["name", "attribute"] [])
    else none
  (verdict, b)

/-! ## Properties -/

/-- Matches a value with a pattern if it has a wildcard, and else compares the texts. -/
def matchOrCompare (config : MatchSettings) (pattern value : String) (kind : WildcardKind)
    (b : Bindings) : Option Bindings :=
  if config.markers.hasWildcard pattern then
    b.matchText? config.ignoreCase (.ofText config.markers pattern) value kind
  else if Text.sameText config.ignoreCase pattern value then some b
  else none

/-- The verdict of a comparison that has nothing left to compare. -/
def settle (b : Bindings) : Option Bindings → Option Verdict × Bindings
  | some bound => (some (.accept []), bound)
  | none => (some .reject, b)

/-- Whether a pattern `key: name` binds a plain name. -/
def renames (pair : Node) : Bool := (pair.child? "value").any (·.kind == "identifier")

/-- The key of a pair, if it is a plain name. -/
def plainKey? (pair : Node) : Option String :=
  ((pair.child? "key").filter (·.kind == "property_identifier")).bind Node.text

/-- The texts by which two destructured properties are compared, the query's first. -/
def destructuredKeys? (file query : Node) : Option (String × String) :=
  let shorthand := "shorthand_property_identifier_pattern"
  let pair := "pair_pattern"
  if query.kind = shorthand ∧ file.kind = pair ∧ renames file then do
    some (← query.text, ← plainKey? file)
  else if query.kind = pair ∧ file.kind = shorthand ∧ renames query then do
    some (← plainKey? query, ← file.text)
  else if query.kind = pair ∧ file.kind = pair ∧ renames query ∧ renames file then do
    some (← plainKey? query, ← plainKey? file)
  else none

/-- A destructured property matches the same property bound to another name. -/
def destructuring : Rule := fun config file query b =>
  if config.mode.allowsExtra then
    match destructuredKeys? file query with
    | some (queryKey, fileKey) =>
        settle b (matchOrCompare config queryKey fileKey .identifier b)
    | none => (none, b)
  else (none, b)

/-- A property key as written, without quotes. -/
def keyText? (key : Node) : Option String :=
  if key.kind = "property_identifier" ∨ key.kind = "number" then key.text
  else if key.kind = "string" then key.text.map (stripQuotes quotes)
  else none

/-- A shorthand property of the query against a pair of the file. -/
def shorthandAgainstPair (config : MatchSettings) (file query : Node) (b : Bindings) :
    Option (Option Bindings) := do
  let name ← query.text
  let key ← (← file.child? "key") |> keyText?
  let value ← file.child? "value"
  -- the value is compared as it stands, so that `a` does not match `a: b`
  let same := value.kind == "identifier" &&
    value.text.any (Text.sameText config.ignoreCase name ·)
  some (if same then matchOrCompare config name key .identifier b else none)

/-- A pair of the query against a shorthand property of the file: the bindings at the end, and
whether the two match. -/
def pairAgainstShorthand (config : MatchSettings) (file query : Node) (b : Bindings) :
    Option (Bool × Bindings) := do
  let name ← file.text
  let key ← (← query.child? "key") |> keyText?
  let value ← query.child? "value"
  let bound := if value.kind = "identifier" then
      value.text.bind fun pattern => matchOrCompare config pattern name .identifier b
    else none
  match bound with
  | none => some (false, b)
  | some bound =>
      match matchOrCompare config key name .identifier bound with
      | some both => some (true, both)
      | none => some (false, bound)

/-- Two pairs whose keys are of different kinds: their values are left to compare. -/
def pairAgainstPair (config : MatchSettings) (file query : Node) (b : Bindings) :
    Option (Option Bindings) := do
  let queryKey ← query.child? "key"
  let fileKey ← file.child? "key"
  if queryKey.kind = fileKey.kind then none
  else some (matchOrCompare config (← keyText? queryKey) (← keyText? fileKey) .string b)

/-- A shorthand property matches a pair with that name as key and value, and pairs match
whether their keys are names, strings or numbers. -/
def propertyShapes : Rule := fun config file query b =>
  let shorthand := "shorthand_property_identifier"
  if !config.mode.allowsExtra then (none, b)
  else if query.kind = shorthand ∧ file.kind = "pair" then
    match shorthandAgainstPair config file query b with
    | some outcome => settle b outcome
    | none => (none, b)
  else if query.kind = "pair" ∧ file.kind = shorthand then
    match pairAgainstShorthand config file query b with
    | some (true, bound) => (some (.accept []), bound)
    | some (false, bound) => (some .reject, bound)
    | none => (none, b)
  else if query.kind = "pair" ∧ file.kind = "pair" then
    match pairAgainstPair config file query b with
    | some (some bound) => (some (.accept [(["value"], ["value"])]), bound)
    | some none => (some .reject, b)
    | none => (none, b)
  else (none, b)

/-! ## Optional chains -/

/-- A query with an optional chain matches a file without. That a query without matches a file
with one needs no rule, since the field is optional. -/
def optionalChain : Rule := fun config file query b =>
  let chain := "optional_chain"
  let isChained :=
    ["member_expression", "subscript_expression", "call_expression"].contains query.kind
  if config.mode.allowsExtra && isChained && query.kind == file.kind &&
      (query.field? chain).isSome && (file.field? chain).isNone then
    let names := query.childFields.filter (· != chain)
    if names.any fun name => (file.resolve [name]).isNone then (some .reject, b)
    else (some (.accept (names.map fun name => ([name], [name]))), b)
  else (none, b)

/-! ## The dialects -/

/-- What JavaScript and TypeScript have in common. -/
def dialect (kinds : NodeKinds) (modifiers : List String) : Dialect where
  kinds := kinds
  modifiers := modifiers
  leafKinds := ["string"]
  leafText kind source := if kind = "jsx_text" then collapseBlanks source else source
  finish node := if node.kind = "template_string" then mergeFragments node else node
  sanitize kind text := if kind = "string" then stripQuotes quotes text else text
  isComparable node := node.kind != "jsx_text" || node.text.any (· != "")
  rulesBefore := [selfClosing]
  rulesAfter := [destructuring, propertyShapes, optionalChain]

/-- JavaScript. -/
def javaScript : Dialect :=
  dialect javaScriptKinds ["async", "static", "get", "set", "*", "default"]

/-- TypeScript, with and without elements of markup. -/
def typeScript : Dialect :=
  dialect typeScriptKinds
    ["async", "static", "get", "set", "*", "default", "readonly", "abstract", "declare",
      "override"]

end CodeSearch.Ecma

import CodeSearch.Grammar
import CodeSearch.Node.Walk

/-!
# Comparing two nodes

A file node and a query node are compared at their own level: do they agree as far as can be
told without looking below them, and which of their fields have to agree in turn? The steps are
tried in this order, and the first that applies decides.

1. The rules of the grammar that come before wildcards.
2. Where further code is ignored, a name of the query stands for a name with a default value.
3. A wildcard in an identifier of the query.
4. A wildcard in a string of the query.
5. The number that stands for any number.
6. A block of the query stands for a whole file.
7. The rules of the grammar that come after wildcards.
8. Kinds, texts and tokens must be equal, and fields with children must agree.

Whatever the outcome, the search for further matches goes on below all fields of the file node
that hold children.
-/

set_option autoImplicit false

namespace CodeSearch

/-- What stays the same while one file is searched. -/
structure MatchContext where
  grammar : Grammar
  config : MatchSettings
  /-- The text of the file. -/
  source : String

namespace MatchContext

/-- The kinds of the grammar. -/
def kinds (cx : MatchContext) : NodeKinds := cx.grammar.kinds

/-- The markers of wildcards. -/
def markers (cx : MatchContext) : Markers := cx.config.markers

/-- The source text of a node, empty if its span does not fit the source. -/
def code (cx : MatchContext) (n : Node) : String :=
  String.ofList (Text.slice cx.source.toList n.span.startByte n.span.endByte)

/-- Matches a value against a text with wildcards. -/
def matchText? (cx : MatchContext) (pattern value : String) (kind : WildcardKind)
    (b : Bindings) : Option Bindings :=
  b.matchText? cx.config.ignoreCase (Pattern.ofText cx.markers pattern) value kind

end MatchContext

/-- The outcome of comparing two nodes at their own level. -/
structure Comparison where
  agrees : Bool
  /-- The fields of the query that have to agree in turn. -/
  queryKeys : List FieldPath := []
  /-- The fields of the file to compare them with. -/
  fileKeys : List FieldPath := []
  /-- The fields of the file node below which further matches are looked for. -/
  descend : List String := []
  deriving DecidableEq, Repr

namespace Comparison

/-- A comparison that needs no look below the nodes. -/
def closed (file : Node) (agrees : Bool) : Comparison :=
  { agrees, descend := file.childFields }

/-- A comparison that holds if the fields of the same names agree. -/
def sameFields (file : Node) (agrees : Bool) (names : List String) : Comparison :=
  { agrees
    queryKeys := names.map ([·])
    fileKeys := names.map ([·])
    descend := file.childFields }

/-- What a verdict amounts to. -/
def ofVerdict (file : Node) (v : Verdict) : Comparison :=
  { agrees := v.agrees
    queryKeys := v.queryKeys
    fileKeys := v.fileKeys
    descend := file.childFields }

/-- The comparison with a missing node. -/
def missing : Comparison := { agrees := false }

end Comparison

/-- Compares a file node with an identifier of the query that has a wildcard. -/
def compareIdentifier (cx : MatchContext) (file query : Node) (name : String) (b : Bindings) :
    Comparison × Bindings :=
  if cx.markers.isNodeTree name then
    match (cx.markers.classify name .identifier).findSome? Wildcard.aliasName with
    -- without an alias there is nothing to agree with
    | none => (.closed file true, b)
    | some aliasName =>
        match b.matchNode? aliasName (cx.code file) file with
        | some b => (.closed file true, b)
        | none => (.closed file false, b)
  else
    let matched :=
      if cx.kinds.isIdentifier file.kind then
        file.text.bind fun value => cx.matchText? name value .identifier b
      else none
    let sameTyping :=
      match cx.config.mode, cx.kinds.typeField with
      | .exact, some field => (query.field? field).isSome == (file.field? field).isSome
      | _, _ => true
    (.sameFields file (matched.isSome && sameTyping) query.childFields, matched.getD b)

/-- Compares a file node with a query node that is a wildcard, has one, or is a block. -/
def compareWildcard? (cx : MatchContext) (file query : Node) (b : Bindings) :
    Option (Comparison × Bindings) :=
  let identifier :=
    if cx.kinds.isIdentifier query.kind then query.text.filter cx.markers.hasWildcard else none
  let string :=
    if cx.kinds.isString query.kind && query.kind == file.kind then
      (query.text.map (cx.grammar.sanitize query.kind)).filter cx.markers.hasWildcard
    else none
  -- an identifier decides before a string, and a kind may be both
  match identifier, string with
  | some name, _ => some (compareIdentifier cx file query name b)
  | none, some pattern =>
      let value := (file.text.map (cx.grammar.sanitize file.kind)).getD ""
      match cx.matchText? pattern value .string b with
      | some b => some (.closed file true, b)
      | none => some (.closed file false, b)
  | none, none =>
      if cx.kinds.isNumber query.kind && (query.text.map cx.markers.isNumeric).getD false then
        some (.closed file (cx.kinds.isNumber file.kind), b)
      else if query.kind == cx.kinds.block && cx.kinds.isProgram file.kind then
        some (.sameFields file true [childrenField], b)
      else none

/-- How a key of the query that the file node has too is settled. -/
inductive KeyMatch where
  /-- Texts or tokens were compared at once. -/
  | compared (same : Bool)
  /-- The fields have to agree in turn. -/
  | deferred
  /-- The file node lacks the key. -/
  | lacking

/-- Compares what two nodes have under one key of the query. -/
def compareKey (cx : MatchContext) (file query : Node) (fileKeys : List String) (key : String) :
    KeyMatch :=
  if !fileKeys.contains key then .lacking
  else if key = textKey then
    .compared (Text.sameText cx.config.ignoreCase
      (cx.grammar.sanitize query.kind (query.text.getD ""))
      (cx.grammar.sanitize file.kind (file.text.getD "")))
  else
    match query.field? key, file.field? key with
    | some (.token left), some (.token right) =>
        .compared (Text.sameText cx.config.ignoreCase left right)
    | some _, some _ => .deferred
    | _, _ => .lacking

/-- The keys of a file node that count against those of a query node. Where further code is
ignored, optional fields that the query does not have do not count. -/
def countedKeys (cx : MatchContext) (file query : Node) : List String :=
  if cx.config.mode.allowsExtra then
    file.keys.filter fun key =>
      query.keys.contains key || !cx.grammar.isOptional file.kind key
  else file.keys

/-- Compares two nodes key by key. -/
def compareFields (cx : MatchContext) (file query : Node) : Comparison :=
  let fileKeys := countedKeys cx file query
  if !cx.kinds.sameKind query.kind file.kind || query.keys.length != fileKeys.length then
    .closed file false
  else
    let settled := query.keys.map fun key => (key, compareKey cx file query fileKeys key)
    let agrees := settled.all fun
      | (_, .compared same) => same
      | (_, .deferred) => true
      | (_, .lacking) => false
    .sameFields file agrees <| settled.filterMap fun
      | (key, .deferred) => some key
      | _ => none

/-- Compares two nodes by the steps after the one for default values. -/
def comparePlain (cx : MatchContext) (file query : Node) (b : Bindings) :
    Comparison × Bindings :=
  match compareWildcard? cx file query b with
  | some found => found
  | none =>
      match Rule.first? cx.config file query cx.grammar.rulesAfter b with
      | (some verdict, b) => (.ofVerdict file verdict, b)
      | (none, b) => (compareFields cx file query, b)

/-- The field of a file node whose name a name of the query stands for. -/
def valueField? (cx : MatchContext) (fileKind : String) (query : Node) : Option String :=
  if cx.config.mode.allowsExtra && cx.kinds.isIdentifier query.kind then
    cx.kinds.defaultValueField? fileKind
  else none

mutual

/-- Compares a file node with a query node. -/
def compare (cx : MatchContext) : Node → Node → Bindings → Comparison × Bindings
  | file@(.mk kind _ fields _), query, b =>
      match Rule.first? cx.config file query cx.grammar.rulesBefore b with
      | (some verdict, b) => (.ofVerdict file verdict, b)
      | (none, b) =>
          match valueField? cx kind query with
          | none => comparePlain cx file query b
          | some name =>
              let (inner, b) := compareNamed cx name fields query b
              ({ inner with
                  fileKeys := inner.fileKeys.map (name :: ·)
                  descend := file.childFields }, b)

/-- Compares the single child in a field with a query node. -/
def compareField (cx : MatchContext) : Field → Node → Bindings → Comparison × Bindings
  | .node child, query, b => compare cx child query b
  | .nodes _, _, b => (.missing, b)
  | .token _, _, b => (.missing, b)

/-- Compares the single child of a name, if there is one, with a query node. -/
def compareNamed (cx : MatchContext) (name : String) :
    List (String × Field) → Node → Bindings → Comparison × Bindings
  | [], _, b => (.missing, b)
  | (key, field) :: rest, query, b =>
      if name == key then compareField cx field query b
      else compareNamed cx name rest query b

end

/-- Compares two nodes that may be missing. A missing node agrees with nothing. -/
def compareOptional (cx : MatchContext) (file query : Option Node) (b : Bindings) :
    Comparison × Bindings :=
  match file, query with
  | some file, some query => compare cx file query b
  | some file, none => (.closed file false, b)
  | none, _ => (.missing, b)

theorem compareNamed_eq (cx : MatchContext) (name : String) (fields : List (String × Field))
    (query : Node) (b : Bindings) :
    compareNamed cx name fields query b =
      compareOptional cx ((fields.lookup name).bind Field.node?) (some query) b := by
  induction fields with
  | nil => simp [compareNamed, compareOptional]
  | cons entry rest ih =>
      obtain ⟨key, field⟩ := entry
      rw [compareNamed, List.lookup_cons]
      cases hkey : name == key with
      | true => cases field <;> simp [compareField, Field.node?, compareOptional]
      | false => simp [ih]

/-- Comparison, step by step. -/
theorem compare_eq (cx : MatchContext) (file query : Node) (b : Bindings) :
    compare cx file query b =
      match Rule.first? cx.config file query cx.grammar.rulesBefore b with
      | (some verdict, b) => (.ofVerdict file verdict, b)
      | (none, b) =>
          match valueField? cx file.kind query with
          | none => comparePlain cx file query b
          | some name =>
              let (inner, b) := compareOptional cx (file.child? name) (some query) b
              ({ inner with
                  fileKeys := inner.fileKeys.map (name :: ·)
                  descend := file.childFields }, b) := by
  cases file with
  | mk kind text fields span =>
      simp only [compare, compareNamed_eq, Node.kind_mk, Node.child?, Node.field?,
        Node.fields_mk]

end CodeSearch

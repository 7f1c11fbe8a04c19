import CodeSearch.Bindings
import CodeSearch.Config
import CodeSearch.Node.Basic

/-!
# Grammars

The matcher knows nothing of a language but what its **grammar** tells: how a text is parsed,
which kinds of nodes are identifiers, strings, numbers and so on, which fields may be left out,
and the **rules** for pairs of nodes that the general comparison does not fit.
-/

set_option autoImplicit false

namespace CodeSearch

/-- The kinds of nodes that the matcher treats in a way of their own. -/
structure NodeKinds where
  /-- Kinds that hold a name. -/
  identifiers : List String := []
  /-- Kinds that hold the content of a string. -/
  strings : List String := []
  /-- Kinds that hold a number. -/
  numbers : List String := []
  /-- Kinds of the root of a file. -/
  programs : List String := []
  /-- The kind given to several statements taken together. -/
  block : String := "block"
  /-- Kinds that only wrap the one statement of a query. -/
  statementWrappers : List String := []
  /-- The kind of an expression in parentheses. -/
  parenthesized : Option String := none
  /-- Pairs of kinds that compare as one kind. -/
  equivalent : List (String × String) := []
  /-- Kinds of a name with a default value, and the field that holds the name. -/
  defaultValues : List (String × String) := []
  /-- The field that holds the type written after a name. -/
  typeField : Option String := none

namespace NodeKinds

/-- Whether a kind holds a name. -/
def isIdentifier (k : NodeKinds) (kind : String) : Bool := k.identifiers.contains kind

/-- Whether a kind holds the content of a string. -/
def isString (k : NodeKinds) (kind : String) : Bool := k.strings.contains kind

/-- Whether a kind holds a number. -/
def isNumber (k : NodeKinds) (kind : String) : Bool := k.numbers.contains kind

/-- Whether a kind is that of a file's root. -/
def isProgram (k : NodeKinds) (kind : String) : Bool := k.programs.contains kind

/-- Whether a kind only wraps the one statement of a query. -/
def isStatementWrapper (k : NodeKinds) (kind : String) : Bool := k.statementWrappers.contains kind

/-- Whether two kinds compare as one. -/
def sameKind (k : NodeKinds) (left right : String) : Bool :=
  left == right ||
    k.equivalent.any fun (a, b) => a == left && b == right || a == right && b == left

/-- The field of the name in a kind of name with a default value. -/
def defaultValueField? (k : NodeKinds) (kind : String) : Option String :=
  k.defaultValues.lookup kind

end NodeKinds

/-- Why a text could not be parsed, and where, counted from one. -/
structure ParseFailure where
  message : String
  location : Option Position := none
  deriving DecidableEq, Repr

/-- What a rule says of a file node and a query node: whether they agree as far as the rule
looks, and which fields below them still have to agree, the query's and the file's in pairs. -/
structure Verdict where
  agrees : Bool
  queryKeys : List FieldPath := []
  fileKeys : List FieldPath := []
  deriving DecidableEq, Repr

namespace Verdict

/-- The nodes do not agree. -/
def reject : Verdict := { agrees := false }

/-- The nodes agree if the fields of each pair do. A pair names the query's field first. -/
def accept (pairs : List (FieldPath × FieldPath)) : Verdict :=
  { agrees := true, queryKeys := pairs.map Prod.fst, fileKeys := pairs.map Prod.snd }

end Verdict

/-- A comparison of a file node with a query node, given in this order. It may leave the pair
to later steps, and may bind aliases. -/
abbrev Rule := MatchSettings → Node → Node → Bindings → Option Verdict × Bindings

/-- What the matcher knows of a language. -/
structure Grammar where
  /-- The name in reports. -/
  name : String
  kinds : NodeKinds := {}
  /-- The tree of a text. -/
  parse : String → Except ParseFailure Node
  /-- Whether nodes of a kind may lack a field. -/
  isOptional : String → String → Bool := fun _ _ => false
  /-- The text of a node of some kind as it is compared. -/
  sanitize : String → String → String := fun _ text => text
  /-- Whether a node takes part when lists are compared. -/
  isComparable : Node → Bool := fun _ => true
  /-- A query text as it is parsed. -/
  encodeQuery : String → String := id
  /-- The tree of a query as it is compared. -/
  decodeQuery : Node → Node := id
  /-- A query text as it is parsed when it does not parse by itself. -/
  wrap : String → String := fun text => "(" ++ text ++ ")"
  /-- The statements of a parsed query. The flag tells whether it was wrapped. -/
  statements : Node → Bool → List Node := fun root _ => root.children
  /-- The rules tried before wildcards are considered. -/
  rulesBefore : List Rule := []
  /-- The rules tried after wildcards. -/
  rulesAfter : List Rule := []

namespace Rule

/-- The verdict of the first rule that has one. -/
def first? (config : MatchSettings) (file query : Node) :
    List Rule → Bindings → Option Verdict × Bindings
  | [], b => (none, b)
  | rule :: rules, b =>
      match rule config file query b with
      | (some verdict, b) => (some verdict, b)
      | (none, b) => first? config file query rules b

end Rule

end CodeSearch

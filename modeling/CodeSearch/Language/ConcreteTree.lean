import CodeSearch.Grammar
import CodeSearch.Span

/-!
# Concrete trees

What a parser makes of a text: every piece of the text is a node, punctuation and comments
included. Where the text does not follow the language the tree has nodes that say so.
-/

set_option autoImplicit false

namespace CodeSearch

/-- What is known of one node of a concrete tree. -/
structure ConcreteNode where
  kind : String
  /-- The field of its parent in which the node stands. -/
  field : Option String := none
  span : Span
  /-- Whether the node is more than a piece of punctuation or a keyword. -/
  isNamed : Bool := true
  /-- Whether the node may stand anywhere, as a comment does. -/
  isExtra : Bool := false
  /-- Whether the node covers text that could not be parsed. -/
  isError : Bool := false
  /-- Whether the node stands for text that should be there. -/
  isMissing : Bool := false
  deriving DecidableEq, Repr

/-- The tree that a parser makes of a text. -/
inductive ConcreteTree where
  | mk (node : ConcreteNode) (children : List ConcreteTree)

namespace ConcreteTree

/-- The root of the tree. -/
def node : ConcreteTree → ConcreteNode
  | mk node _ => node

/-- The trees below the root. -/
def children : ConcreteTree → List ConcreteTree
  | mk _ children => children

end ConcreteTree

/-- A position counted from one, and not cut off at 2 ^ 32 - 1. -/
def Position.fromOne (p : Position) : Position := ⟨p.line + 1, p.column + 1⟩

/-- The failure that an erroneous or missing node stands for. -/
def ConcreteNode.failure? (n : ConcreteNode) : Option ParseFailure :=
  if n.isMissing then some ⟨"missing " ++ n.kind, some n.span.start.fromOne⟩
  else if n.isError then some ⟨"syntax error", some n.span.start.fromOne⟩
  else none

mutual

/-- The failure that the first erroneous or missing node in pre-order stands for. -/
def ConcreteTree.firstFailure? : ConcreteTree → Option ParseFailure
  | .mk node children => node.failure?.or (ConcreteTree.firstFailureOf? children)

/-- The first failure in a list of trees. -/
def ConcreteTree.firstFailureOf? : List ConcreteTree → Option ParseFailure
  | [] => none
  | tree :: rest => tree.firstFailure?.or (ConcreteTree.firstFailureOf? rest)

end

end CodeSearch

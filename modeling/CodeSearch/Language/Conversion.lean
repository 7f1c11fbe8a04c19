import CodeSearch.Language.Cursor
import CodeSearch.Language.Dialect
import CodeSearch.Language.NodeTypes
import CodeSearch.Text.Bytes

/-!
# From concrete trees to syntax trees

Only named nodes become nodes. One that stands in a field comes under that field, in a list if
the field may hold several; the others are unnamed children. Pieces that may stand anywhere are
left out. Punctuation and keywords are kept as tokens where they stand in a field, and where
they are modifiers of the dialect.

A tree nested too deeply is refused.
-/

set_option autoImplicit false

namespace CodeSearch

/-- The deepest nesting of a tree that is converted. -/
def maxDepth : Nat := 512

/-- The failure of a tree nested too deeply. -/
def depthFailure (n : ConcreteNode) : ParseFailure :=
  ⟨"nesting deeper than " ++ toString maxDepth ++ " levels", some n.span.start.fromOne⟩

/-- What stays the same while one tree is converted. -/
structure Converter where
  dialect : Dialect
  types : NodeTypes
  source : List Char

namespace Node

/-- Adds a child to the list under a name. A single child that is there becomes the first of
the list; a token gives way. -/
def pushChild (parent : Node) (name : String) (child : Node) : Node :=
  let before := match parent.field? name with
    | some (.nodes children) => children
    | some (.node first) => [first]
    | _ => []
  parent.setField name (.nodes (before ++ [child]))

/-- Adds a token under a name, after a space if there is one; children give way. -/
def pushToken (parent : Node) (name token : String) : Node :=
  parent.setField name <| match parent.field? name with
    | some (.token before) => .token (before ++ " " ++ token)
    | _ => .token token

end Node

namespace Converter

/-- Whether a tree becomes a leaf: by its dialect, or because its kind has no children, or if
the kind is not declared because it has no named ones. -/
def isLeaf (cv : Converter) : ConcreteTree → Bool
  | .mk node children =>
      cv.dialect.leafKinds.contains node.kind ||
        match cv.types.shape? node.kind with
        | some shape => shape.isTerminal
        | none => !children.any (·.node.isNamed)

/-- The leaf for a concrete node. -/
def leaf (cv : Converter) (node : ConcreteNode) : Node :=
  let source := Text.slice cv.source node.span.startByte node.span.endByte
  .leaf node.kind (cv.dialect.leafText node.kind (String.ofList source)) node.span

/-- Adds a converted child where it belongs. -/
def attachChild (cv : Converter) (parent : Node) (field : Option String) (child : Node) : Node :=
  match field with
  | none => parent.pushChild childrenField child
  | some name =>
      if cv.types.isMultiple parent.kind name then parent.pushChild name child
      else parent.setField name (.node child)

/-- Adds a piece of punctuation or a keyword, if it is kept. -/
def attachToken (cv : Converter) (parent : Node) (field : Option String) (token : String) :
    Node :=
  match field with
  | some name => parent.pushToken name token
  | none =>
      if cv.dialect.modifiers.contains token then parent.setField token (.token token) else parent

mutual

/-- The syntax tree for a concrete tree that stands so many named levels deep. -/
def convertAt (cv : Converter) (depth : Nat) : ConcreteTree → Except ParseFailure Node
  | tree@(.mk node children) =>
      if maxDepth < depth then .error (depthFailure node)
      else if cv.isLeaf tree then .ok (cv.leaf node)
      else (cv.attachAll depth (.branch node.kind node.span) children).map cv.dialect.finish

/-- Adds the children of a concrete node, one after another, to its converted node. -/
def attachAll (cv : Converter) (depth : Nat) (parent : Node) :
    List ConcreteTree → Except ParseFailure Node
  | [] => .ok parent
  | tree@(.mk node _) :: rest =>
      -- comments are extra wherever they stand, even in a field
      if node.isExtra then cv.attachAll depth parent rest
      else if node.isNamed then
        match cv.convertAt (depth + 1) tree with
        | .ok child => cv.attachAll depth (cv.attachChild parent node.field child) rest
        | .error failure => .error failure
      else cv.attachAll depth (cv.attachToken parent node.field node.kind) rest

end

/-- The syntax tree for a concrete tree, unless the text did not follow the language or the
tree is nested too deeply. -/
def convert (cv : Converter) (tree : ConcreteTree) : Except ParseFailure Node :=
  match tree.syntaxFailure? with
  | some failure => .error failure
  | none => cv.convertAt 0 tree

/-- A tree is refused for its first failure in pre-order. -/
theorem convert_eq (cv : Converter) (tree : ConcreteTree) :
    cv.convert tree = match tree.firstFailure? with
      | some failure => .error failure
      | none => cv.convertAt 0 tree := by
  rw [convert, ConcreteTree.syntaxFailure?_eq]

end Converter

end CodeSearch

import CodeSearch.Node.Basic

/-!
# Structural equality

Two trees are structurally equal when they have the same kinds, texts, tokens and fields.
Their spans, and the order in which a node's fields were added, do not count.
-/

set_option autoImplicit false

namespace CodeSearch

mutual

/-- Equality of trees up to spans and the order of fields. -/
def Node.structEq : Node → Node → Bool
  | .mk kind text fields _, other =>
      kind == other.kind && text == other.text && fields.length == other.fields.length &&
        Field.structEqEntries fields other

/-- Equality of fields up to spans and the order of fields. -/
def Field.structEq : Field → Field → Bool
  | .node left, .node right => left.structEq right
  | .nodes left, .nodes right => Node.structEqList left right
  | .token left, .token right => left == right
  | _, _ => false

/-- Equality of lists of trees, tree by tree. -/
def Node.structEqList : List Node → List Node → Bool
  | [], [] => true
  | left :: lefts, right :: rights => left.structEq right && Node.structEqList lefts rights
  | _, _ => false

/-- Whether each of the fields is equal to the one that the node has under its name. -/
def Field.structEqEntries : List (String × Field) → Node → Bool
  | [], _ => true
  | (name, field) :: rest, other =>
      (match other.field? name with
        | some theirs => field.structEq theirs
        | none => false) && Field.structEqEntries rest other

end

end CodeSearch

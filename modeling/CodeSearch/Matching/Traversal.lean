import CodeSearch.Matching.Validation

/-!
# Finding all matches below a node

Every node of a tree is tried, parents before children, each with fresh bindings. A match does
not keep the search from going on below it.
-/

set_option autoImplicit false

namespace CodeSearch

/-- The way from a node down to another, the last step first. A step is the place of a field
and of a child in it. -/
abbrev Place := List (Nat × Nat)

/-- A node that matches a query, and what the aliases of the query stand for. -/
structure Found where
  node : Node
  place : Place
  bindings : Bindings

/-- The matches below a node, and the number of violations met on the way. -/
structure Traversal where
  found : List Found
  violations : Nat

namespace Traversal

/-- No match. -/
def empty : Traversal := ⟨[], 0⟩

/-- One traversal after another. -/
def append (a b : Traversal) : Traversal := ⟨a.found ++ b.found, a.violations + b.violations⟩

instance : Append Traversal := ⟨append⟩

end Traversal

mutual

/-- Tries a node and all nodes below it. -/
def traverseFrom (cx : MatchContext) (query : Node) (place : Place) : Node → Traversal
  | node@(.mk _ _ fields _) =>
      let compared := compare cx node query .empty
      let outcome := validateFound cx (validateUpTo cx (query.height - 1)) node query compared
      let own : Traversal :=
        ⟨if outcome.agrees then [⟨node, place, outcome.bindings⟩] else [], outcome.violations⟩
      own ++ traverseFields cx query place compared.1.descend 0 fields

/-- Tries the nodes of a field that stands at place `i` of its node. -/
def traverseField (cx : MatchContext) (query : Node) (place : Place) (i : Nat) :
    Field → Traversal
  | .node child => traverseFrom cx query ((i, 0) :: place) child
  | .nodes children => traverseList cx query place i 0 children
  | .token _ => .empty

/-- Tries the nodes of trees that stand from place `j` on in field `i` of their parent. -/
def traverseList (cx : MatchContext) (query : Node) (place : Place) (i j : Nat) :
    List Node → Traversal
  | [] => .empty
  | node :: rest =>
      traverseFrom cx query ((i, j) :: place) node ++ traverseList cx query place i (j + 1) rest

/-- Tries the nodes of the fields that are named in `descend`. -/
def traverseFields (cx : MatchContext) (query : Node) (place : Place) (descend : List String)
    (i : Nat) : List (String × Field) → Traversal
  | [] => .empty
  | (name, field) :: rest =>
      (if descend.contains name then traverseField cx query place i field else .empty) ++
        traverseFields cx query place descend (i + 1) rest

end

/-- The matches of a query in a tree, parents before children. -/
def traverse (cx : MatchContext) (root query : Node) : Traversal :=
  traverseFrom cx query [] root

end CodeSearch

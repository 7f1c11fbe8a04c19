import CodeSearch.Language.ConcreteTree

/-!
# Cursors

A **cursor** stands at one tree of a concrete tree and remembers the way down to it. It moves one
step at a time, down to a first child, on to a sibling or back to a parent, so that a tree of any
depth can be searched with it.

The search for a failure goes down only where there is one to be found. What is ahead of a cursor
is the list of trees it has not been to: each step takes one node off it, and the failure that the
search ends with is the first one ahead (`Cursor.failure?_eq`).
-/

set_option autoImplicit false

namespace CodeSearch

namespace ConcreteTree

mutual

/-- Whether a tree holds an erroneous or missing node. -/
def hasFailure : ConcreteTree → Bool
  | .mk node children => node.isError || node.isMissing || anyFailure children

/-- Whether a tree of a list holds an erroneous or missing node. -/
def anyFailure : List ConcreteTree → Bool
  | [] => false
  | tree :: rest => tree.hasFailure || anyFailure rest

end

mutual

/-- The number of nodes of a tree. -/
def nodeCount : ConcreteTree → Nat
  | .mk _ children => nodeCountOf children + 1

/-- The number of nodes of the trees of a list. -/
def nodeCountOf : List ConcreteTree → Nat
  | [] => 0
  | tree :: rest => tree.nodeCount + nodeCountOf rest

end

theorem nodeCountOf_append (left right : List ConcreteTree) :
    nodeCountOf (left ++ right) = nodeCountOf left + nodeCountOf right := by
  induction left with
  | nil => simp [nodeCountOf]
  | cons tree rest ih => rw [List.cons_append, nodeCountOf, ih, nodeCountOf, Nat.add_assoc]

theorem nodeCount_eq (tree : ConcreteTree) :
    tree.nodeCount = nodeCountOf tree.children + 1 := by
  cases tree
  rfl

theorem firstFailureOf?_append (left right : List ConcreteTree) :
    firstFailureOf? (left ++ right) = (firstFailureOf? left).or (firstFailureOf? right) := by
  induction left with
  | nil => rfl
  | cons tree rest ih =>
      rw [List.cons_append, firstFailureOf?, ih, firstFailureOf?, Option.or_assoc]

theorem firstFailure?_eq (tree : ConcreteTree) :
    tree.firstFailure? = tree.node.failure?.or (firstFailureOf? tree.children) := by
  cases tree
  rfl

end ConcreteTree

theorem ConcreteNode.isSome_failure? (n : ConcreteNode) :
    n.failure?.isSome = (n.isError || n.isMissing) := by
  unfold ConcreteNode.failure?
  cases n.isMissing <;> cases n.isError <;> rfl

namespace ConcreteTree

mutual

theorem isSome_firstFailure? (tree : ConcreteTree) :
    tree.firstFailure?.isSome = tree.hasFailure := by
  cases tree with
  | mk node children =>
      rw [firstFailure?, hasFailure, Option.isSome_or, ConcreteNode.isSome_failure?,
        isSome_firstFailureOf? children]

theorem isSome_firstFailureOf? (trees : List ConcreteTree) :
    (firstFailureOf? trees).isSome = anyFailure trees := by
  cases trees with
  | nil => rfl
  | cons tree rest =>
      rw [firstFailureOf?, anyFailure, Option.isSome_or, isSome_firstFailure? tree,
        isSome_firstFailureOf? rest]

end

/-- A tree without failures has no first one. -/
theorem firstFailure?_eq_none {tree : ConcreteTree} (h : tree.hasFailure = false) :
    tree.firstFailure? = none := by
  rw [← Option.not_isSome_iff_eq_none, isSome_firstFailure?, h]
  decide

end ConcreteTree

/-- A tree inside another, with the way down to it. -/
structure Cursor where
  tree : ConcreteTree
  /-- The siblings that come after the tree. -/
  later : List ConcreteTree := []
  /-- The trees around it, the innermost first, and the later siblings of each. -/
  above : List (ConcreteTree × List ConcreteTree) := []

namespace Cursor

/-- The first child. -/
def firstChild? (c : Cursor) : Option Cursor :=
  match c.tree.children with
  | first :: rest => some ⟨first, rest, (c.tree, c.later) :: c.above⟩
  | [] => none

/-- The next sibling. -/
def nextSibling? (c : Cursor) : Option Cursor :=
  match c.later with
  | next :: rest => some ⟨next, rest, c.above⟩
  | [] => none

/-- The parent. -/
def parent? (c : Cursor) : Option Cursor :=
  match c.above with
  | (tree, later) :: above => some ⟨tree, later, above⟩
  | [] => none

theorem above_parent? {c parent : Cursor} (h : c.parent? = some parent) :
    c.above = (parent.tree, parent.later) :: parent.above := by
  unfold parent? at h
  split at h
  next habove =>
    obtain rfl := Option.some.inj h
    exact habove
  next => simp at h

/-- The tree after the cursor's and all that is in it: the next sibling, or else that of the
innermost tree around it that has one. -/
def leave? (c : Cursor) : Option Cursor :=
  match c.nextSibling? with
  | some next => some next
  | none =>
      match _h : c.parent? with
      | some parent => parent.leave?
      | none => none
termination_by c.above.length
decreasing_by rw [above_parent? _h, List.length_cons]; exact Nat.lt_succ_self _

/-- The next tree to look at. There is no need to go down where nothing is to be found. -/
def step? (c : Cursor) : Option Cursor :=
  (if c.tree.hasFailure then c.firstChild? else none).or c.leave?

/-- The trees that a cursor has not been to, the one it stands at first. -/
def ahead (c : Cursor) : List ConcreteTree := c.tree :: (c.later ++ c.above.flatMap Prod.snd)

theorem ahead_firstChild? {c child : Cursor} (h : c.firstChild? = some child) :
    child.ahead = c.tree.children ++ (c.later ++ c.above.flatMap Prod.snd) := by
  unfold firstChild? at h
  split at h
  next first rest hchildren =>
    obtain rfl := Option.some.inj h
    rw [ahead, hchildren, List.flatMap_cons, List.cons_append]
  next => simp at h

theorem children_of_firstChild? {c : Cursor} (h : c.firstChild? = none) :
    c.tree.children = [] := by
  unfold firstChild? at h
  split at h
  next => simp at h
  next hchildren => exact hchildren

theorem later_of_nextSibling? {c : Cursor} (h : c.nextSibling? = none) : c.later = [] := by
  unfold nextSibling? at h
  split at h
  next => simp at h
  next hlater => exact hlater

/-- To leave a tree is to go on to what comes after it. -/
theorem ahead_leave? (c : Cursor) :
    (c.leave?.map ahead).getD [] = c.later ++ c.above.flatMap Prod.snd := by
  fun_induction leave? c with
  | case1 c next hnext =>
      unfold nextSibling? at hnext
      split at hnext
      next first rest hlater =>
        obtain rfl := Option.some.inj hnext
        rw [Option.map_some, Option.getD_some, ahead, hlater, List.cons_append]
      next => simp at hnext
  | case2 c hnext parent hparent ih =>
      rw [ih, above_parent? hparent, later_of_nextSibling? hnext, List.nil_append,
        List.flatMap_cons]
  | case3 c hnext hparent =>
      have habove : c.above = [] := by
        unfold parent? at hparent
        split at hparent
        next => simp at hparent
        next habove => exact habove
      rw [later_of_nextSibling? hnext, habove]
      rfl

/-- **What a step does**: the cursor goes on to the children of its tree and what comes after them,
or leaves them out, as they hold no failure. -/
theorem ahead_step? (c : Cursor) :
    (c.step?.map ahead).getD [] = c.tree.children ++ (c.later ++ c.above.flatMap Prod.snd) ∨
      ConcreteTree.anyFailure c.tree.children = false ∧
        (c.step?.map ahead).getD [] = c.later ++ c.above.flatMap Prod.snd := by
  unfold step?
  split
  next =>
    cases hchild : c.firstChild? with
    | some child => exact Or.inl (ahead_firstChild? hchild)
    | none =>
        rw [Option.none_or, children_of_firstChild? hchild]
        exact Or.inl (ahead_leave? c)
  next hclean =>
    refine Or.inr ⟨?_, ahead_leave? c⟩
    cases htree : c.tree with
    | mk node children =>
        rw [htree, ConcreteTree.hasFailure] at hclean
        simp only [Bool.or_eq_true, not_or, Bool.not_eq_true] at hclean
        exact hclean.2

/-- A step takes at least one node off what is ahead. -/
theorem nodeCount_step? {c next : Cursor} (h : c.step? = some next) :
    ConcreteTree.nodeCountOf next.ahead < ConcreteTree.nodeCountOf c.ahead := by
  have hstep := ahead_step? c
  rw [h, Option.map_some, Option.getD_some] at hstep
  rw [ahead.eq_def c, ConcreteTree.nodeCountOf, ConcreteTree.nodeCount_eq]
  rcases hstep with hstep | ⟨-, hstep⟩
  · rw [hstep, ConcreteTree.nodeCountOf_append]
    omega
  · rw [hstep]
    omega

/-- The failure of the first erroneous or missing node from the cursor on. -/
def failure? (c : Cursor) : Option ParseFailure :=
  match c.tree.node.failure? with
  | some failure => some failure
  | none =>
      match _h : c.step? with
      | some next => next.failure?
      | none => none
termination_by ConcreteTree.nodeCountOf c.ahead
decreasing_by exact nodeCount_step? _h

/-- Where no failure is ahead in the children, they need not be looked at. -/
theorem firstFailureOf?_step? (c : Cursor) (h : c.tree.node.failure? = none) :
    ConcreteTree.firstFailureOf? ((c.step?.map ahead).getD []) =
      ConcreteTree.firstFailureOf? c.ahead := by
  rw [ahead.eq_def c, ConcreteTree.firstFailureOf?, ConcreteTree.firstFailure?_eq, h,
    Option.none_or, ← ConcreteTree.firstFailureOf?_append]
  rcases ahead_step? c with hstep | ⟨hclean, hstep⟩
  · rw [hstep]
  · have hnone : ConcreteTree.firstFailureOf? c.tree.children = none := by
      rw [← Option.not_isSome_iff_eq_none, ConcreteTree.isSome_firstFailureOf?, hclean]
      decide
    rw [hstep, ConcreteTree.firstFailureOf?_append c.tree.children, hnone, Option.none_or]

/-- The search ends with the first failure ahead. -/
theorem failure?_eq (c : Cursor) : c.failure? = ConcreteTree.firstFailureOf? c.ahead := by
  fun_induction failure? c with
  | case1 c failure hfailure =>
      rw [ahead, ConcreteTree.firstFailureOf?, ConcreteTree.firstFailure?_eq, hfailure]
      rfl
  | case2 c hfailure next hnext ih =>
      rw [ih, ← firstFailureOf?_step? c hfailure, hnext]
      rfl
  | case3 c hfailure hnext =>
      rw [← firstFailureOf?_step? c hfailure, hnext]
      rfl

end Cursor

/-- The failure of a tree that holds an erroneous or missing node, found with a cursor. -/
def ConcreteTree.syntaxFailure? (tree : ConcreteTree) : Option ParseFailure :=
  if tree.hasFailure then (Cursor.mk tree [] []).failure? else none

/-- **The search finds the first failure in pre-order.** -/
theorem ConcreteTree.syntaxFailure?_eq (tree : ConcreteTree) :
    tree.syntaxFailure? = tree.firstFailure? := by
  unfold syntaxFailure?
  split
  next =>
    rw [Cursor.failure?_eq]
    simp [Cursor.ahead, firstFailureOf?]
  next hclean => exact (firstFailure?_eq_none (by simpa using hclean)).symm

end CodeSearch

import CodeSearch.Proofs.SourceText

/-!
# Sources that are accepted

A source is accepted if its concrete tree is clean and shallow. It is clean if no node is erroneous
or missing. It is shallow if no node that conversion reaches is nested too deeply: conversion goes
from a tree to its parts, one named level deeper, unless the tree becomes a leaf; it passes over
pieces that may stand anywhere, and over tokens with all that is in them.

`Language.parse_outcome`: where a source is refused, the failure is about the first node that spoils
its tree, in pre-order, and an erroneous or missing node goes before one that is nested too deeply.
-/

set_option autoImplicit false

namespace CodeSearch

/-! ## Clean trees -/

namespace ConcreteNode

/-- Whether a node is erroneous or missing. -/
def isFaulty (n : ConcreteNode) : Bool := n.isError || n.isMissing

theorem failure?_of_isFaulty {n : ConcreteNode} (h : n.isFaulty = true) :
    n.failure? = some ⟨if n.isMissing then "missing " ++ n.kind else "syntax error",
      some n.span.start.fromOne⟩ := by
  unfold failure?
  by_cases hmissing : n.isMissing = true
  · rw [if_pos hmissing, if_pos hmissing]
  · have herror : n.isError = true := by simpa [isFaulty, hmissing] using h
    rw [if_neg hmissing, if_neg hmissing, if_pos herror]

theorem failure?_eq_none {n : ConcreteNode} (h : n.isFaulty = false) : n.failure? = none := by
  rw [← Option.not_isSome_iff_eq_none, isSome_failure?]
  rw [isFaulty] at h
  rw [h]
  decide

end ConcreteNode

namespace ConcreteTree

/-- Whether the root of a tree is erroneous or missing. -/
def isFaulty (tree : ConcreteTree) : Bool := tree.node.isFaulty

theorem find?_isFaulty_eq_none {tree : ConcreteTree} : tree.walk.find? isFaulty = none ↔
    ∀ t ∈ tree.walk, t.node.isError = false ∧ t.node.isMissing = false := by
  rw [List.find?_eq_none]
  refine forall₂_congr fun t _ => ?_
  rw [isFaulty, ConcreteNode.isFaulty, Bool.not_eq_true, Bool.or_eq_false_iff]

theorem failure?_of_find? {trees : List ConcreteTree} {t : ConcreteTree}
    (h : trees.find? isFaulty = some t) : t.node.failure? =
      some ⟨if t.node.isMissing then "missing " ++ t.node.kind else "syntax error",
        some t.node.span.start.fromOne⟩ := by
  have hfaulty : t.isFaulty = true := List.find?_some h
  exact ConcreteNode.failure?_of_isFaulty hfaulty

mutual

/-- The failure of a tree is that of its first faulty node. -/
theorem firstFailure?_eq_find? (tree : ConcreteTree) :
    tree.firstFailure? = (tree.walk.find? isFaulty).bind (·.node.failure?) := by
  cases tree with
  | mk node children =>
      rw [firstFailure?, walk, List.find?_cons]
      show _ = (match node.isFaulty with
        | true => some (ConcreteTree.mk node children)
        | false => (walkList children).find? isFaulty).bind (·.node.failure?)
      cases hfaulty : node.isFaulty with
      | true =>
          rw [ConcreteNode.failure?_of_isFaulty hfaulty]
          exact (ConcreteNode.failure?_of_isFaulty hfaulty).symm
      | false =>
          rw [ConcreteNode.failure?_eq_none hfaulty, Option.none_or]
          exact firstFailureOf?_eq_find? children

theorem firstFailureOf?_eq_find? (trees : List ConcreteTree) :
    firstFailureOf? trees = ((walkList trees).find? isFaulty).bind (·.node.failure?) := by
  cases trees with
  | nil => rfl
  | cons tree rest =>
      rw [firstFailureOf?, walkList, List.find?_append, firstFailure?_eq_find? tree,
        firstFailureOf?_eq_find? rest]
      cases hfirst : tree.walk.find? isFaulty with
      | none => rfl
      | some t =>
          -- the later trees do not count, as a faulty node stands for a failure
          rw [Option.some_or, Option.bind_some, failure?_of_find? hfirst, Option.some_or]

end

end ConcreteTree

/-! ## Shallow trees -/

/-- A tree that conversion reaches, and how many named levels deep it stands. -/
structure NestedTree where
  depth : Nat
  tree : ConcreteTree

/-- Whether a tree is nested too deeply. -/
def NestedTree.isTooDeep (t : NestedTree) : Bool := maxDepth < t.depth

theorem NestedTree.find?_isTooDeep_eq_none {trees : List NestedTree} :
    trees.find? isTooDeep = none ↔ ∀ t ∈ trees, t.depth ≤ maxDepth := by
  rw [List.find?_eq_none]
  refine forall₂_congr fun t _ => ?_
  rw [isTooDeep, decide_eq_true_iff, Nat.not_lt]

namespace Converter

mutual

/-- The trees that conversion reaches from a tree that stands so many named levels deep, in
pre-order. -/
def reached (cv : Converter) (depth : Nat) : ConcreteTree → List NestedTree
  | tree@(.mk _ children) =>
      ⟨depth, tree⟩ :: if cv.isLeaf tree then [] else cv.reachedIn (depth + 1) children

/-- The trees that conversion reaches from the parts among some children. -/
def reachedIn (cv : Converter) (depth : Nat) : List ConcreteTree → List NestedTree
  | [] => []
  | tree :: rest =>
      (if tree.node.isPart then cv.reached depth tree else []) ++ cv.reachedIn depth rest

end

/-- What becomes of a tree is told by the first of its trees that is nested too deeply. -/
inductive IsOutcome : Option NestedTree → Except ParseFailure Node → Prop
  | refused (t : NestedTree) : IsOutcome (some t) (.error (depthFailure t.tree.node))
  | accepted (n : Node) : IsOutcome none (.ok n)

theorem IsOutcome.eq_error {t : NestedTree} {outcome : Except ParseFailure Node}
    (h : IsOutcome (some t) outcome) : outcome = .error (depthFailure t.tree.node) := by
  cases h
  rfl

theorem IsOutcome.exists_ok {outcome : Except ParseFailure Node} (h : IsOutcome none outcome) :
    ∃ n, outcome = .ok n := by
  cases h with
  | accepted n => exact ⟨n, rfl⟩

variable (cv : Converter)

mutual

/-- **Conversion fails at the first tree that is too deep**, and there is no other way for it to
fail. -/
theorem convertAt_outcome (depth : Nat) (tree : ConcreteTree) :
    IsOutcome ((cv.reached depth tree).find? NestedTree.isTooDeep) (cv.convertAt depth tree) := by
  cases tree with
  | mk node children =>
      rw [reached, convertAt, List.find?_cons]
      by_cases hdepth : maxDepth < depth
      · have hdeep : NestedTree.isTooDeep ⟨depth, .mk node children⟩ = true := decide_eq_true hdepth
        rw [hdeep, if_pos hdepth]
        exact .refused ⟨depth, .mk node children⟩
      · have hshallow : NestedTree.isTooDeep ⟨depth, .mk node children⟩ = false :=
          decide_eq_false hdepth
        rw [hshallow, if_neg hdepth]
        by_cases hleaf : cv.isLeaf (.mk node children) = true
        · rw [if_pos hleaf, if_pos hleaf]
          exact .accepted _
        · rw [if_neg hleaf, if_neg hleaf]
          have hchildren := attachAll_outcome depth (.branch node.kind node.span) children
          -- the last step of the dialect does not change whether conversion fails
          generalize cv.attachAll depth (.branch node.kind node.span) children = outcome at *
          generalize (cv.reachedIn (depth + 1) children).find? NestedTree.isTooDeep = first at *
          cases hchildren with
          | refused t => exact .refused t
          | accepted parent => exact .accepted _

theorem attachAll_outcome (depth : Nat) (parent : Node) (trees : List ConcreteTree) :
    IsOutcome ((cv.reachedIn (depth + 1) trees).find? NestedTree.isTooDeep)
      (cv.attachAll depth parent trees) := by
  cases trees with
  | nil =>
      rw [reachedIn, attachAll]
      exact .accepted parent
  | cons tree rest =>
      cases tree with
      | mk node children =>
          rw [reachedIn, attachAll, ConcreteTree.node]
          by_cases hpart : node.isPart = true
          · obtain ⟨hnamed, hextra⟩ : node.isNamed = true ∧ node.isExtra = false := by
              simpa [ConcreteNode.isPart] using hpart
            have htree := convertAt_outcome (depth + 1) (.mk node children)
            rw [if_pos hpart, List.find?_append, hextra, if_neg Bool.false_ne_true, if_pos hnamed]
            generalize cv.convertAt (depth + 1) (.mk node children) = outcome at *
            generalize (cv.reached (depth + 1) (.mk node children)).find?
              NestedTree.isTooDeep = first at *
            cases htree with
            | refused t => exact .refused t
            | accepted child =>
                -- whether the later children fail does not depend on where this one was put
                exact attachAll_outcome depth _ rest
          · -- what is no part adds at most a token
            rw [if_neg hpart, List.nil_append]
            by_cases hextra : node.isExtra = true
            · rw [if_pos hextra]
              exact attachAll_outcome depth parent rest
            · have hnamed : node.isNamed ≠ true := by
                simpa [ConcreteNode.isPart, hextra] using hpart
              rw [if_neg hextra, if_neg hnamed]
              exact attachAll_outcome depth _ rest

end

variable {cv}

theorem depth_le_of_convertAt {tree : ConcreteTree} {depth : Nat} {n : Node}
    (h : cv.convertAt depth tree = .ok n) : depth ≤ maxDepth := by
  by_contra hdepth
  cases tree with
  | mk node children =>
      rw [convertAt, if_pos (Nat.lt_of_not_le hdepth)] at h
      simp at h

end Converter

/-! ## Heights -/

/-- A node that has no fields is one level high. -/
theorem Node.height_of_bare {n : Node} (h : n.fields = []) : n.height ≤ 1 := by
  refine Node.height_le_of_offspring fun c hc => ?_
  rw [Node.offspring, h] at hc
  exact absurd hc List.not_mem_nil

/-- A tree is not higher than the levels that were left when its conversion began, and a leaf that
the last step puts in. -/
theorem Language.height_of_convertAt {language : Language} {cv : Converter}
    (hdialect : cv.dialect = language.dialect) {tree : ConcreteTree} {depth : Nat} {n : Node}
    (h : cv.convertAt depth tree = .ok n) : n.height + depth ≤ maxDepth + 2 := by
  induction tree using ConcreteTree.children_induction generalizing depth n with
  | step tree ih =>
      have hdepth := Converter.depth_le_of_convertAt h
      obtain ⟨-, rfl⟩ | ⟨-, parent, hattach, rfl⟩ := Converter.convertAt_cases h
      · have hleaf : (cv.leaf tree.node).height ≤ 1 := Node.height_of_bare rfl
        omega
      · obtain ⟨step, hstep, hfinish⟩ := language.exists_lastStep parent.kind
        rw [hdialect, hfinish parent rfl]
        have hbelow : ∀ c ∈ (step parent).offspring, c.height ≤ maxDepth + 1 - depth := by
          intro c hc
          rcases hstep.mem_offspring hc with hold | hbare
          · rcases Converter.mem_offspring_of_attachAll hattach hold with
              hno | ⟨t, ht, -, hconverted⟩
            · exact absurd hno List.not_mem_nil
            · have hheight := ih t ht hconverted
              omega
          · -- a leaf that is put in may stand one level deeper than all that is reached
            have hheight := Node.height_of_bare hbare
            omega
        have hheight := Node.height_le_of_offspring hbelow
        omega

/-! ## Outcomes -/

namespace Language

variable {parsers : ParserSet} {language : Language} {source : String} {tree : ConcreteTree}

/-- A tree that is not clean is refused for its first faulty node. -/
theorem parse_faulty (htree : parsers.tree language source = some tree) {t : ConcreteTree}
    (h : tree.walk.find? ConcreteTree.isFaulty = some t) :
    language.parse parsers source =
      .error ⟨if t.node.isMissing then "missing " ++ t.node.kind else "syntax error",
        some t.node.span.start.fromOne⟩ := by
  rw [parse_eq htree, ConcreteTree.firstFailure?_eq_find?, h, Option.bind_some,
    ConcreteTree.failure?_of_find? h]

/-- A clean tree is converted. -/
theorem parse_clean (htree : parsers.tree language source = some tree)
    (h : tree.walk.find? ConcreteTree.isFaulty = none) : language.parse parsers source =
      (language.converter parsers source).convertAt 0 tree := by
  rw [parse_eq htree, ConcreteTree.firstFailure?_eq_find?, h, Option.bind_none]

/-- A tree that is accepted has no faulty node. -/
theorem find?_isFaulty_of_parse (htree : parsers.tree language source = some tree) {n : Node}
    (h : language.parse parsers source = .ok n) :
    tree.walk.find? ConcreteTree.isFaulty = none := by
  cases hfaulty : tree.walk.find? ConcreteTree.isFaulty with
  | some t => simp [parse_faulty htree hfaulty] at h
  | none => rfl

/-- **The trees that are accepted** are those that are clean and shallow. A tree that is not is
refused for its first faulty node, and if it is clean for the first node that is too deep. -/
theorem parse_outcome (htree : parsers.tree language source = some tree) :
    ((∃ n, language.parse parsers source = .ok n) ↔
      (∀ t ∈ tree.walk, t.node.isError = false ∧ t.node.isMissing = false) ∧
        ∀ t ∈ (language.converter parsers source).reached 0 tree, t.depth ≤ 512) ∧
      (∀ t, tree.walk.find? ConcreteTree.isFaulty = some t →
        language.parse parsers source =
          .error ⟨if t.node.isMissing then "missing " ++ t.node.kind else "syntax error",
            some t.node.span.start.fromOne⟩) ∧
      (∀ t, tree.walk.find? ConcreteTree.isFaulty = none →
        ((language.converter parsers source).reached 0 tree).find? (fun t => 512 < t.depth) =
          some t → language.parse parsers source =
            .error ⟨"nesting deeper than 512 levels", some t.tree.node.span.start.fromOne⟩) ∧
      ∀ n, language.parse parsers source = .ok n → n.height ≤ 514 := by
  have houtcome := (language.converter parsers source).convertAt_outcome 0 tree
  refine ⟨⟨?_, ?_⟩, fun t => parse_faulty htree, ?_, ?_⟩
  · -- a faulty node or one that is too deep would have made the conversion fail
    rintro ⟨n, hn⟩
    have hfaulty := find?_isFaulty_of_parse htree hn
    rw [parse_clean htree hfaulty] at hn
    refine ⟨ConcreteTree.find?_isFaulty_eq_none.1 hfaulty, ?_⟩
    cases hdeep : ((language.converter parsers source).reached 0 tree).find?
        NestedTree.isTooDeep with
    | some t =>
        rw [hdeep] at houtcome
        simp [houtcome.eq_error] at hn
    | none => exact NestedTree.find?_isTooDeep_eq_none.1 hdeep
  · rintro ⟨hclean, hshallow⟩
    rw [NestedTree.find?_isTooDeep_eq_none.2 hshallow] at houtcome
    rw [parse_clean htree (ConcreteTree.find?_isFaulty_eq_none.2 hclean)]
    exact houtcome.exists_ok
  · -- that no node is faulty is all that is asked before the conversion
    intro t hfaulty hdeep
    have hdeep : ((language.converter parsers source).reached 0 tree).find?
        NestedTree.isTooDeep = some t := hdeep
    rw [hdeep] at houtcome
    rw [parse_clean htree hfaulty]
    exact houtcome.eq_error
  · intro n hn
    rw [parse_clean htree (find?_isFaulty_of_parse htree hn)] at hn
    exact height_of_convertAt rfl hn

/-- A name in so many pairs of parentheses. -/
def parenthesized (start : Nat) : Nat → ConcreteTree
  | 0 => .mk { kind := "identifier", span := lineSpan start (start + 1) } []
  | pairs + 1 =>
      .mk { kind := "parenthesized_expression", span := lineSpan start (start + 2 * pairs + 3) }
        [.mk { kind := "(", span := lineSpan start (start + 1), isNamed := false } [],
          parenthesized (start + 1) pairs,
          .mk { kind := ")", span := lineSpan (start + 2 * pairs + 2) (start + 2 * pairs + 3),
                isNamed := false } []]

theorem isPart_parenthesized (start pairs : Nat) :
    (parenthesized start pairs).node.isPart = true := by
  cases pairs <;> rfl

theorem find?_isFaulty_parenthesized (start pairs : Nat) :
    (parenthesized start pairs).walk.find? ConcreteTree.isFaulty = none := by
  induction pairs generalizing start with
  | zero => rfl
  | succ pairs ih =>
      have hinside := ih (start + 1)
      rw [parenthesized, ConcreteTree.walk, ConcreteTree.walkList, ConcreteTree.walkList,
        ConcreteTree.walkList, List.find?_cons, List.find?_append, List.find?_append, hinside]
      rfl

/-- With a pair of parentheses for each level that is left, the name is too deep. -/
theorem find?_isTooDeep_parenthesized {cv : Converter}
    (hbranch : ∀ start pairs, cv.isLeaf (parenthesized start (pairs + 1)) = false)
    {depth pairs : Nat} (start : Nat) (hdepth : depth + pairs = maxDepth + 1) :
    (cv.reached depth (parenthesized start pairs)).find? NestedTree.isTooDeep =
      some ⟨maxDepth + 1, parenthesized (start + pairs) 0⟩ := by
  induction pairs generalizing depth start with
  | zero =>
      obtain rfl : depth = maxDepth + 1 := hdepth
      rw [parenthesized, Converter.reached]
      exact List.find?_cons_of_pos (decide_eq_true (Nat.lt_succ_self maxDepth))
  | succ pairs ih =>
      have hinside : (cv.reached (depth + 1) (parenthesized (start + 1) pairs)).find?
          NestedTree.isTooDeep = some ⟨maxDepth + 1, parenthesized (start + 1 + pairs) 0⟩ :=
        ih (start + 1) (by omega)
      have hbranch := hbranch start pairs
      have hshallow : ¬ maxDepth < depth := by omega
      rw [parenthesized] at hbranch
      rw [parenthesized.eq_2, Converter.reached, hbranch, if_neg Bool.false_ne_true,
        List.find?_cons_of_neg (by simpa [NestedTree.isTooDeep] using hshallow)]
      rw [Converter.reachedIn, Converter.reachedIn, if_pos (isPart_parenthesized _ _),
        List.find?_append, List.find?_append, hinside, Nat.add_right_comm, Nat.add_assoc]
      rfl

/-- A parser that finds a name in 513 pairs of parentheses. -/
def nestedParser : ParserSet := ⟨fun _ _ => some (parenthesized 0 513), fun _ => []⟩

/-- The name is one level too deep. -/
theorem parse_outcome_parenthesized :
    nestedParser.tree python "" = some (parenthesized 0 513) ∧
      python.parse nestedParser "" =
        .error ⟨"nesting deeper than 512 levels", some ⟨1, 514⟩⟩ := by
  have hbranch : ∀ start pairs,
      (python.converter nestedParser "").isLeaf (parenthesized start (pairs + 1)) = false := by
    intro start pairs
    rw [parenthesized, Converter.isLeaf]
    cases pairs <;> rfl
  exact ⟨rfl, (parse_outcome rfl).2.2.1 _ (find?_isFaulty_parenthesized 0 513)
    (find?_isTooDeep_parenthesized hbranch 0 rfl)⟩

end Language

end CodeSearch

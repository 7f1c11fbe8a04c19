import CodeSearch.Query.Basic
import CodeSearch.Proofs.Trees
import Mathlib.Logic.Relation

/-!
# Reading a query

What reading a query gives, by what its grammar makes of the text. A query of one statement is
freed of what wraps it: from a node that only wraps another one **peels** to its sole child, and
goes on until nothing peels any more.

`parseQuery_retried`: a text that is only parsed with parentheses around it is freed of these
parentheses, and of those it has itself as well. It keeps its own just if, freed of the wrappers
of statements alone, it is not in parentheses that hold it and nothing else.
-/

set_option autoImplicit false

namespace CodeSearch

/-! ## What the grammar makes of the text -/

section

variable {grammar : Grammar} {config : MatchSettings} {text : String}
  {first second : ParseFailure} {root : Node} {wrapped : Bool}

theorem parseQueryText_plain (h : grammar.parse (grammar.encodeQuery text) = .ok root) :
    grammar.parseQueryText text = .ok (root, false) := by
  rw [Grammar.parseQueryText, h]

theorem parseQueryText_retried (hplain : grammar.parse (grammar.encodeQuery text) = .error first)
    (hwrapped : grammar.parse (grammar.wrap (grammar.encodeQuery text)) = .ok root) :
    grammar.parseQueryText text = .ok (root, true) := by
  rw [Grammar.parseQueryText, hplain]
  dsimp only
  rw [hwrapped]

theorem parseQueryText_failed (hplain : grammar.parse (grammar.encodeQuery text) = .error first)
    (hwrapped : grammar.parse (grammar.wrap (grammar.encodeQuery text)) = .error second) :
    grammar.parseQueryText text = .error first := by
  rw [Grammar.parseQueryText, hplain]
  dsimp only
  rw [hwrapped]

/-- A text that is parsed, in whatever way, is read as the node its statements are matched as. -/
theorem parseQuery_ok (hmarkers : config.markers.findInvalid? text = none)
    (hblank : (Text.trim text.toList).isEmpty = false)
    (hparse : grammar.parseQueryText text = .ok (root, wrapped)) {statements : List Node}
    (hstatements : grammar.statements (grammar.decodeQuery root) wrapped = statements)
    {node : Node}
    (hnode : grammar.queryNode? wrapped (grammar.decodeQuery root).span statements = some node) :
    parseQuery grammar config text =
      .ok { text, node
            tokens := uniqueTokens grammar config node
            isMultistatement := 2 ≤ statements.length
            hints := Hint.forQuery text false } := by
  rw [parseQuery, hmarkers]
  dsimp only
  rw [hblank, hparse]
  dsimp only
  rw [hstatements, hnode]
  rfl

/-- Several statements are matched as a block that holds them as they stand. -/
theorem queryNode?_several {statements : List Node} (h : 2 ≤ statements.length) (span : Span) :
    grammar.queryNode? wrapped span statements =
      some ((Node.branch grammar.kinds.block span).withChildren statements) := by
  match statements with
  | [] => simp at h
  | [_] => simp at h
  | _ :: _ :: _ => rfl

/-- A text that is parsed in no way is reported with the failure of the first attempt. -/
theorem parseQuery_failed (hmarkers : config.markers.findInvalid? text = none)
    (hblank : (Text.trim text.toList).isEmpty = false)
    (hparse : grammar.parseQueryText text = .error first) :
    parseQuery grammar config text =
      .error (.queryParse first.message first.location (Hint.forQuery text true)) := by
  rw [parseQuery, hmarkers]
  dsimp only
  rw [hblank, hparse]
  rfl

end

/-! ## Peeling -/

/-- A node that only wraps another **peels** to its sole child. -/
def Node.Peels (isWrapper : Node → Bool) (n child : Node) : Prop :=
  isWrapper n = true ∧ n.soleChild? = some child

section

variable {isWrapper more : Node → Bool} {n m child : Node} {steps : Nat}

theorem Node.mem_offspring_of_soleChild? (h : n.soleChild? = some child) :
    child ∈ n.offspring := by
  have hheld : ∃ entry ∈ n.fields.filter (·.2.holdsNodes), child ∈ entry.2.members := by
    rw [Node.soleChild?] at h
    split at h
    next name inner heq =>
      obtain rfl := Option.some.inj h
      exact ⟨_, heq ▸ List.mem_singleton.2 rfl, List.mem_singleton.2 rfl⟩
    next name inner heq =>
      obtain rfl := Option.some.inj h
      exact ⟨_, heq ▸ List.mem_singleton.2 rfl, List.mem_singleton.2 rfl⟩
    next => simp at h
  obtain ⟨entry, hentry, hchild⟩ := hheld
  exact List.mem_flatMap.2 ⟨entry, (List.mem_filter.1 hentry).1, hchild⟩

theorem Node.height_lt_of_soleChild? (h : n.soleChild? = some child) :
    child.height < n.height :=
  Node.height_lt_of_mem_offspring (Node.mem_offspring_of_soleChild? h)

theorem Node.unwrapUpTo_of_peels (h : n.Peels isWrapper child) :
    n.unwrapUpTo isWrapper (steps + 1) = child.unwrapUpTo isWrapper steps := by
  rw [Node.unwrapUpTo, if_pos h.1, h.2]

theorem Node.unwrapUpTo_of_not_peels (h : ∀ child, ¬ n.Peels isWrapper child) :
    n.unwrapUpTo isWrapper steps = n := by
  cases steps with
  | zero => rfl
  | succ steps =>
      rw [Node.unwrapUpTo]
      split
      next hwrapper =>
        cases hsole : n.soleChild? with
        | none => rfl
        | some child => exact absurd ⟨hwrapper, hsole⟩ (h child)
      next => rfl

/-- A node cannot be peeled more often than it is high. -/
theorem Node.unwrapUpTo_eq_unwrap (hsteps : n.height ≤ steps) :
    n.unwrapUpTo isWrapper steps = n.unwrap isWrapper := by
  have same : ∀ (k l : Nat) (n : Node), n.height ≤ k → n.height ≤ l →
      n.unwrapUpTo isWrapper k = n.unwrapUpTo isWrapper l := by
    intro k
    induction k with
    | zero => intro l n hk _; exact absurd n.height_pos (by omega)
    | succ k ih =>
        intro l n hk hl
        by_cases hpeels : ∃ child, n.Peels isWrapper child
        · obtain ⟨child, hpeels⟩ := hpeels
          have hchild := Node.height_lt_of_soleChild? hpeels.2
          obtain ⟨l, rfl⟩ : ∃ l', l = l' + 1 := ⟨l - 1, by omega⟩
          rw [Node.unwrapUpTo_of_peels hpeels, Node.unwrapUpTo_of_peels hpeels]
          exact ih l child (by omega) (by omega)
        · have hstays : ∀ child, ¬ n.Peels isWrapper child := fun child hchild =>
            hpeels ⟨child, hchild⟩
          rw [Node.unwrapUpTo_of_not_peels hstays, Node.unwrapUpTo_of_not_peels hstays]
  exact same steps n.height n hsteps (Nat.le_refl _)

/-- What a node peels to is freed of wrappers to the same node. -/
theorem Node.unwrap_of_peels (h : n.Peels isWrapper child) :
    n.unwrap isWrapper = child.unwrap isWrapper := by
  have hchild := Node.height_lt_of_soleChild? h.2
  obtain ⟨steps, hsteps⟩ : ∃ steps, n.height = steps + 1 := ⟨n.height - 1, by omega⟩
  rw [Node.unwrap, hsteps, Node.unwrapUpTo_of_peels h,
    Node.unwrapUpTo_eq_unwrap (by omega)]

theorem Node.unwrap_of_not_peels (h : ∀ child, ¬ n.Peels isWrapper child) :
    n.unwrap isWrapper = n :=
  Node.unwrapUpTo_of_not_peels h

/-- Peeling again and again leads from a node to the node freed of wrappers. -/
theorem Node.peels_unwrap (isWrapper : Node → Bool) (n : Node) :
    Relation.ReflTransGen (Node.Peels isWrapper) n (n.unwrap isWrapper) := by
  induction n using Node.height_induction with
  | step n ih =>
      by_cases hpeels : ∃ child, n.Peels isWrapper child
      · obtain ⟨child, hpeels⟩ := hpeels
        rw [Node.unwrap_of_peels hpeels]
        exact .head hpeels (ih child (Node.height_lt_of_soleChild? hpeels.2))
      · rw [Node.unwrap_of_not_peels fun child hchild => hpeels ⟨child, hchild⟩]

theorem Node.unwrap_of_peels_to (h : Relation.ReflTransGen (Node.Peels isWrapper) n m) :
    n.unwrap isWrapper = m.unwrap isWrapper := by
  induction h with
  | refl => rfl
  | tail _ hpeels ih => exact ih.trans (Node.unwrap_of_peels hpeels)

/-- Peeling leads to nodes that are no higher. -/
theorem Node.height_le_of_peels_to (h : Relation.ReflTransGen (Node.Peels isWrapper) n m) :
    m.height ≤ n.height := by
  induction h with
  | refl => exact Nat.le_refl _
  | tail _ hpeels ih =>
      exact Nat.le_trans (Nat.le_of_lt (Node.height_lt_of_soleChild? hpeels.2)) ih

/-- A node is free of wrappers just if it does not peel. -/
theorem Node.unwrap_eq_self_iff :
    n.unwrap isWrapper = n ↔ ∀ child, ¬ n.Peels isWrapper child := by
  refine ⟨fun h child hpeels => ?_, Node.unwrap_of_not_peels⟩
  have hchild := Node.height_lt_of_soleChild? hpeels.2
  have hback := Node.height_le_of_peels_to (Node.peels_unwrap isWrapper child)
  rw [← Node.unwrap_of_peels hpeels, h] at hback
  omega

theorem Node.not_peels_unwrap (isWrapper : Node → Bool) (n child : Node) :
    ¬ (n.unwrap isWrapper).Peels isWrapper child :=
  Node.unwrap_eq_self_iff.1 (Node.unwrap_of_peels_to (Node.peels_unwrap isWrapper n)).symm child

/-- If more nodes count as wrappers, whatever could be peeled still can. -/
theorem Node.peels_mono (hmore : ∀ m, isWrapper m = true → more m = true)
    (h : Relation.ReflTransGen (Node.Peels isWrapper) n m) :
    Relation.ReflTransGen (Node.Peels more) n m := by
  induction h with
  | refl => exact .refl
  | tail _ hpeels ih => exact ih.tail ⟨hmore _ hpeels.1, hpeels.2⟩

/-- If more nodes count as wrappers, a node may be freed of the fewer first. -/
theorem Node.unwrap_unwrap (hmore : ∀ m, isWrapper m = true → more m = true) :
    (n.unwrap isWrapper).unwrap more = n.unwrap more :=
  (Node.unwrap_of_peels_to (Node.peels_mono hmore (Node.peels_unwrap isWrapper n))).symm

end

/-! ## The parentheses of a second attempt -/

namespace Grammar

variable {grammar : Grammar} {n own statement parens child : Node}

/-- Whether a node is an expression in parentheses. -/
def isParenthesized (grammar : Grammar) (n : Node) : Bool :=
  grammar.kinds.parenthesized == some n.kind

/-- What wrapping a text for a second attempt **adds** to the node of the text: nothing that is
left among the statements, or parentheses around it, which wrappers of statements may surround. -/
inductive Adds (grammar : Grammar) (own : Node) : Node → Prop where
  | nothing : Adds grammar own own
  | parentheses {statement parens : Node}
      (reached : Relation.ReflTransGen (Node.Peels (grammar.isWrapper false)) statement parens)
      (parenthesized : grammar.isParenthesized parens = true)
      (holds : parens.soleChild? = some own) : Adds grammar own statement

theorem isWrapper_true (n : Node) :
    grammar.isWrapper true n = (grammar.isWrapper false n || grammar.isParenthesized n) := by
  rw [isWrapper, isWrapper, isParenthesized, Bool.false_and, Bool.or_false, Bool.true_and]

/-- If parentheses wrap too, the wrappers of statements still do. -/
theorem isWrapper_true_of_false (n : Node) (h : grammar.isWrapper false n = true) :
    grammar.isWrapper true n = true := by
  rw [isWrapper_true, h, Bool.true_or]

/-- What a second attempt adds is taken away again. -/
theorem Adds.unwrap_eq (h : grammar.Adds own statement) :
    statement.unwrap (grammar.isWrapper true) = own.unwrap (grammar.isWrapper true) := by
  cases h with
  | nothing => rfl
  | parentheses reached parenthesized holds =>
      have hwrapper : grammar.isWrapper true _ = true :=
        (isWrapper_true _).trans (by rw [parenthesized, Bool.or_true])
      exact (Node.unwrap_of_peels_to (Node.peels_mono isWrapper_true_of_false reached)).trans
        (Node.unwrap_of_peels ⟨hwrapper, holds⟩)

/-- Parentheses that hold more than the text's node are not taken away. -/
theorem unwrap_crowded
    (reached : Relation.ReflTransGen (Node.Peels (grammar.isWrapper false)) statement parens)
    (crowded : parens.soleChild? = none) : statement.unwrap (grammar.isWrapper true) = parens := by
  rw [Node.unwrap_of_peels_to (Node.peels_mono isWrapper_true_of_false reached)]
  refine Node.unwrap_of_not_peels fun child hpeels => ?_
  have hsole := hpeels.2
  rw [crowded] at hsole
  simp at hsole

/-- Taking parentheses away as well makes a difference just where a node that is freed of the
wrappers of statements is in parentheses that hold one node. -/
theorem unwrap_true_eq_iff :
    own.unwrap (grammar.isWrapper true) = own.unwrap (grammar.isWrapper false) ↔
      ∀ inner, ¬ (own.unwrap (grammar.isWrapper false)).Peels grammar.isParenthesized inner := by
  rw [← Node.unwrap_unwrap isWrapper_true_of_false, Node.unwrap_eq_self_iff]
  refine forall_congr' fun inner =>
    not_congr ⟨fun hpeels => ⟨?_, hpeels.2⟩, fun hpeels => ⟨?_, hpeels.2⟩⟩
  · have hplain := Node.not_peels_unwrap (grammar.isWrapper false) own inner
    rcases Bool.or_eq_true_iff.1 ((isWrapper_true _).symm.trans hpeels.1) with hstatement | hparens
    · exact absurd ⟨hstatement, hpeels.2⟩ hplain
    · exact hparens
  · exact (isWrapper_true _).trans (by rw [hpeels.1, Bool.or_true])

end Grammar

/-- **Parentheses around a query**: a text that is parsed only if wrapped, into one statement, is
read as this statement's node freed of what was added, and of all further wrappers of statements
and parentheses. So it is read as the node of the text itself, freed of the wrappers of statements
as it would be in a text that is parsed as it stands, just if this node is not an expression in
parentheses that hold one node: such parentheses are taken away as well, however many there are.
Where the added parentheses hold something else beside the node, as a comment, they stay. -/
theorem parseQuery_retried {grammar : Grammar} {config : MatchSettings} {text : String}
    {first : ParseFailure} {root statement : Node}
    (hmarkers : config.markers.findInvalid? text = none)
    (hblank : (Text.trim text.toList).isEmpty = false)
    (hplain : grammar.parse (grammar.encodeQuery text) = .error first)
    (hwrapped : grammar.parse (grammar.wrap (grammar.encodeQuery text)) = .ok root)
    (hone : grammar.statements (grammar.decodeQuery root) true = [statement]) :
    ∃ query, parseQuery grammar config text = .ok query ∧ query.isMultistatement = false ∧
      (∀ own, grammar.Adds own statement →
        query.node = own.unwrap (grammar.isWrapper true) ∧
          (query.node = own.unwrap (grammar.isWrapper false) ↔
            ∀ inner,
              ¬ (own.unwrap (grammar.isWrapper false)).Peels grammar.isParenthesized inner)) ∧
      ∀ parens, Relation.ReflTransGen (Node.Peels (grammar.isWrapper false)) statement parens →
        grammar.isParenthesized parens = true → parens.soleChild? = none → query.node = parens := by
  refine ⟨_, parseQuery_ok hmarkers hblank (parseQueryText_retried hplain hwrapped) hone rfl, rfl,
    fun own hadds => ?_, fun parens reached _ crowded => Grammar.unwrap_crowded reached crowded⟩
  have hnode := hadds.unwrap_eq
  exact ⟨hnode, by rw [← Grammar.unwrap_true_eq_iff, ← hnode]⟩

/-- A name in parentheses. -/
def nameInParentheses : Node :=
  .mk "parentheses" none [("inner", .node (.leaf "name" "x" .zero))] .zero

/-- A statement that holds a name in two pairs of parentheses. -/
def nameInTwoParentheses : Node :=
  .mk "statement" none
    [("value", .node (.mk "parentheses" none [("inner", .node nameInParentheses)] .zero))] .zero

/-- A grammar that parses a name in two pairs of parentheses and nothing else. -/
def twoParentheses : Grammar where
  name := "two parentheses"
  kinds :=
    { identifiers := ["name"], statementWrappers := ["statement"],
      parenthesized := some "parentheses" }
  parse text :=
    if text = "((x))" then
      .ok (.mk "program" none [(childrenField, .nodes [nameInTwoParentheses])] .zero)
    else .error ⟨"unexpected end", none⟩

theorem adds_nameInTwoParentheses :
    twoParentheses.Adds nameInParentheses nameInTwoParentheses :=
  .parentheses (.single ⟨by decide, rfl⟩) (by decide) rfl

/-- A text with one pair of parentheses is parsed when a second is put around it. -/
theorem parseQuery_retried_name :
    (({} : MatchSettings).markers.findInvalid? "(x)" = none ∧
      (Text.trim "(x)".toList).isEmpty = false ∧
      twoParentheses.Adds nameInParentheses nameInTwoParentheses) ∧
    ∃ query, parseQuery twoParentheses {} "(x)" = .ok query ∧ query.isMultistatement = false ∧
      query.node = nameInParentheses.unwrap (twoParentheses.isWrapper true) ∧
      (query.node = nameInParentheses.unwrap (twoParentheses.isWrapper false) ↔
        ∀ inner, ¬ (nameInParentheses.unwrap (twoParentheses.isWrapper false)).Peels
          twoParentheses.isParenthesized inner) := by
  have hmarkers : ({} : MatchSettings).markers.findInvalid? "(x)" = none := by decide +kernel
  have hblank : (Text.trim "(x)".toList).isEmpty = false := by decide +kernel
  obtain ⟨query, hquery, hsingle, hnode, -⟩ :=
    @parseQuery_retried twoParentheses {} "(x)" _ _ nameInTwoParentheses hmarkers hblank rfl rfl
      rfl
  exact ⟨⟨hmarkers, hblank, adds_nameInTwoParentheses⟩, query, hquery, hsingle,
    hnode _ adds_nameInTwoParentheses⟩

/-- The parentheses of the text itself are taken away with those that were added. -/
theorem parseQuery_loses_parentheses :
    ¬ ∀ (grammar : Grammar) (text : String) (first : ParseFailure) (root own statement : Node),
      ({} : MatchSettings).markers.findInvalid? text = none →
      (Text.trim text.toList).isEmpty = false →
      grammar.parse (grammar.encodeQuery text) = .error first →
      grammar.parse (grammar.wrap (grammar.encodeQuery text)) = .ok root →
      grammar.statements (grammar.decodeQuery root) true = [statement] →
      grammar.Adds own statement →
      ∃ query, parseQuery grammar {} text = .ok query ∧
        query.node = own.unwrap (grammar.isWrapper false) := by
  intro h
  obtain ⟨query, hquery, hnode⟩ := h twoParentheses "(x)" _ _ nameInParentheses
    nameInTwoParentheses (by decide +kernel) (by decide +kernel) rfl rfl rfl
    adds_nameInTwoParentheses
  have hparse : twoParentheses.parseQueryText "(x)" = .ok (_, true) :=
    parseQueryText_retried rfl rfl
  have hread := hquery.symm.trans
    (parseQuery_ok (by decide +kernel) (by decide +kernel) hparse rfl rfl)
  rw [Except.ok.inj hread] at hnode
  have hkind : "name" = "parentheses" := congrArg Node.kind hnode
  exact absurd hkind (by decide)

end CodeSearch

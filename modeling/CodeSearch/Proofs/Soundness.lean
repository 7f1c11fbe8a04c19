import CodeSearch.Proofs.Attempts

/-!
# What a match means

The matcher threads bindings through a greedy search; what it promises is a relation that knows
nothing of either. A file node **matches** a query node under an environment, one meaning for
every alias, if kinds, keys, texts and tokens agree, the fields match in turn, and every wildcard
with an alias stands for what the environment says.

`validate_sound`: where the grammar has no rules of its own, a successful match from no bindings
leaves the two nodes in this relation under the bindings it ends with.
-/

set_option autoImplicit false

namespace CodeSearch

/-- A text matches a pattern under an environment: what the wildcards with an alias capture is
what the environment has for their aliases. -/
def TextMatches (cx : MatchContext) (env : Bindings) (pattern value : String) : Prop :=
  ∃ captures, (Pattern.ofText cx.markers pattern).captures? cx.config.ignoreCase value =
    some captures ∧ env.Hold cx.config.ignoreCase captures

mutual

/-- **A file node matches a query node under an environment.** Where further code is ignored, a
name of the query matches a name with a default value by the name alone. -/
inductive Matches (cx : MatchContext) (env : Bindings) : Node → Node → Prop
  | value {file query inner : Node} {field : String}
      (hfield : valueField? cx file.kind query = some field)
      (hinner : file.child? field = some inner) (h : Matches cx env inner query) :
      Matches cx env file query
  | itself {file query : Node} (hfield : valueField? cx file.kind query = none)
      (h : MatchesItself cx env file query) : Matches cx env file query

/-- A file node itself, not a name in it, matches a query node under an environment. -/
inductive MatchesItself (cx : MatchContext) (env : Bindings) : Node → Node → Prop
  /-- A wildcard without an alias stands for any subtree. -/
  | anyTree {file query : Node} {name : String} (hname : cx.nameWildcard? query = some name)
      (htree : cx.markers.isNodeTree name = true) (halias : cx.treeAlias? name = none) :
      MatchesItself cx env file query
  /-- A wildcard with an alias stands for a subtree equal to the one the environment has. -/
  | tree {file query bound : Node} {name aliasName : String}
      (hname : cx.nameWildcard? query = some name) (htree : cx.markers.isNodeTree name = true)
      (halias : cx.treeAlias? name = some aliasName) (hbound : env.tree? aliasName = some bound)
      (heq : bound.structEq file = true) : MatchesItself cx env file query
  /-- A name with wildcards matches a name, and the fields with children match. -/
  | name {file query : Node} {name value : String} (hname : cx.nameWildcard? query = some name)
      (htree : cx.markers.isNodeTree name = false)
      (hkind : cx.kinds.isIdentifier file.kind = true) (hvalue : file.text = some value)
      (htext : TextMatches cx env name value) (htyping : cx.sameTyping file query = true)
      (hkeys : ∀ key ∈ query.childFields, (file.field? key).isSome = true)
      (hfields : ∀ key ∈ query.childFields, ∀ left right, query.field? key = some left →
        file.field? key = some right → FieldsAgree cx (Matches cx env) right left) :
      MatchesItself cx env file query
  /-- A string with wildcards matches a string of the same kind. -/
  | string {file query : Node} {pattern : String} (hname : cx.nameWildcard? query = none)
      (hstring : cx.stringWildcard? file query = some pattern)
      (htext : TextMatches cx env pattern ((cx.sanitized file).getD "")) :
      MatchesItself cx env file query
  /-- The number that stands for any number. -/
  | number {file query : Node} (hname : cx.nameWildcard? query = none)
      (hstring : cx.stringWildcard? file query = none) (hany : cx.isAnyNumber query = true)
      (hkind : cx.kinds.isNumber file.kind = true) : MatchesItself cx env file query
  /-- A block matches a whole file if the children match. -/
  | block {file query : Node} {left right : Field} (hname : cx.nameWildcard? query = none)
      (hstring : cx.stringWildcard? file query = none) (hany : cx.isAnyNumber query = false)
      (hfile : cx.isWholeFile file query = true) (hleft : query.field? childrenField = some left)
      (hright : file.field? childrenField = some right)
      (hchildren : FieldsAgree cx (Matches cx env) right left) : MatchesItself cx env file query
  /-- Kinds, keys, texts and tokens agree, and the fields with children match. -/
  | fields {file query : Node} (hname : cx.nameWildcard? query = none)
      (hstring : cx.stringWildcard? file query = none) (hany : cx.isAnyNumber query = false)
      (hkeys : AgreeByKeys cx file query)
      (hfields : ∀ key ∈ query.keys, key ≠ textKey → ∀ left right,
        query.field? key = some left → file.field? key = some right →
          left.holdsNodes = true ∨ right.holdsNodes = true →
            FieldsAgree cx (Matches cx env) right left) :
      MatchesItself cx env file query

end

/-! ## From comparisons to the relation -/

/-- The bindings a comparison ends with decide what its captures stand for. -/
theorem textMatches_of_matchText? {cx : MatchContext} {env b c : Bindings}
    {pattern value : String} {kind : WildcardKind} (hkind : kind ≠ .nodeTree)
    (h : cx.matchText? pattern value kind b = some c) (henv : c.Keeps env) :
    TextMatches cx env pattern value := by
  obtain ⟨-, -, captures, hcaptures, hhold⟩ := Bindings.matchText?_eq_some hkind h
  exact ⟨captures, hcaptures, henv.hold hhold⟩

theorem mem_pairs_sameFields {file : Node} {agrees : Bool} {names : List String} {name : String}
    (h : name ∈ names) : ([name], [name]) ∈
      (Comparison.sameFields file agrees names).fileKeys.zip
        (Comparison.sameFields file agrees names).queryKeys := by
  show ([name], [name]) ∈ (names.map ([·])).zip (names.map ([·]))
  rw [List.zip_map']
  exact List.mem_map.2 ⟨name, h, rfl⟩

section

variable {cx : MatchContext} {env : Bindings}

/-- The fields that a comparison left to agree match under the environment. -/
def LeftMatch (cx : MatchContext) (env : Bindings) (file query : Node) (found : Comparison) :
    Prop :=
  ∀ pair ∈ found.fileKeys.zip found.queryKeys, ∃ right left,
    file.resolve pair.1 = some right ∧ query.resolve pair.2 = some left ∧
      FieldsAgree cx (Matches cx env) right left

theorem LeftMatch.sameFields {file query : Node} {names : List String}
    (h : LeftMatch cx env file query (.sameFields file true names)) {name : String}
    (hname : name ∈ names) : ∃ right left, file.field? name = some right ∧
      query.field? name = some left ∧ FieldsAgree cx (Matches cx env) right left :=
  h _ (mem_pairs_sameFields hname)

theorem matchesItself_of_agreePlainly (hrules : cx.grammar.rulesAfter = []) {file query : Node}
    {b c : Bindings} {found : Comparison} (h : AgreePlainly cx file query b found c)
    (hfile : file.NamesDistinct) (henv : c.Keeps env)
    (hleft : LeftMatch cx env file query found) : MatchesItself cx env file query := by
  cases h with
  | anyTree hname htree halias => exact MatchesItself.anyTree hname htree halias
  | @tree name aliasName c hname htree halias hmatch =>
      -- either the alias was bound here, to this very subtree, or it was bound before
      obtain ⟨-, -, bound, hbound, heq⟩ := Bindings.matchNode?_eq_some hmatch
      refine MatchesItself.tree hname htree halias (henv.tree _ _ hbound) ?_
      rcases heq with rfl | heq
      · exact Node.structEq_refl hfile
      · exact heq
  | name hname htree hkind hvalue hmatch htyping =>
      have htext := textMatches_of_matchText? (by decide) hmatch henv
      refine MatchesItself.name hname htree hkind hvalue htext htyping ?_ ?_
      · intro key hkey
        obtain ⟨right, left, hright, -, -⟩ := hleft.sameFields hkey
        rw [hright]
        rfl
      · intro key hkey left right hl hr
        obtain ⟨right', left', hright, hleft', hagree⟩ := hleft.sameFields hkey
        obtain rfl := Option.some.inj (hl.symm.trans hleft')
        obtain rfl := Option.some.inj (hr.symm.trans hright)
        exact hagree
  | string hname hstring hmatch =>
      exact MatchesItself.string hname hstring
        (textMatches_of_matchText? (by decide) hmatch henv)
  | number hname hstring hany hkind => exact MatchesItself.number hname hstring hany hkind
  | block hname hstring hany hwhole =>
      obtain ⟨right, left, hright, hleft', hagree⟩ :=
        hleft.sameFields (List.mem_singleton.2 rfl)
      exact MatchesItself.block hname hstring hany hwhole hleft' hright hagree
  | rule hname hstring hany hrule hagrees => simp [hrules, Rule.first?] at hrule
  | fields hname hstring hany hrule hagrees =>
      obtain ⟨hkeys, names, heq, hnames⟩ := compareFields_agrees hagrees
      rw [heq] at hleft
      refine MatchesItself.fields hname hstring hany hkeys ?_
      intro key hkey hne left right hl hr hnodes
      obtain ⟨right', left', hright, hleft', hagree⟩ :=
        hleft.sameFields ((hnames key).2 ⟨hkey, hne, left, right, hl, hr, hnodes⟩)
      obtain rfl := Option.some.inj (hl.symm.trans hleft')
      obtain rfl := Option.some.inj (hr.symm.trans hright)
      exact hagree

/-- Without rules of the grammar, every field of the file left to agree has a name. -/
theorem fileKeys_ne_nil (hrules : cx.grammar.rulesAfter = []) {file query : Node}
    {b c : Bindings} {found : Comparison} (h : AgreePlainly cx file query b found c) :
    ∀ path ∈ found.fileKeys, path ≠ [] := by
  have hsame : ∀ names : List String, ∀ path ∈ names.map ([·]), path ≠ [] := by
    intro names path hpath
    obtain ⟨name, -, rfl⟩ := List.mem_map.1 hpath
    exact List.cons_ne_nil name []
  cases h with
  | anyTree => simp [Comparison.closed]
  | tree => simp [Comparison.closed]
  | name => exact hsame _
  | string => simp [Comparison.closed]
  | number => simp [Comparison.closed]
  | block => exact hsame _
  | rule hname hstring hany hrule hagrees => simp [hrules, Rule.first?] at hrule
  | fields hname hstring hany hrule hagrees =>
      obtain ⟨-, names, heq, -⟩ := compareFields_agrees hagrees
      rw [heq]
      exact hsame names

theorem agree_fileKeys_ne_nil (hbefore : cx.grammar.rulesBefore = [])
    (hafter : cx.grammar.rulesAfter = []) {file query : Node} {b c : Bindings}
    {found : Comparison} (h : Agree cx file query b found c) :
    ∀ path ∈ found.fileKeys, path ≠ [] := by
  cases h with
  | rule hrule hagrees => simp [hbefore, Rule.first?] at hrule
  | value hrule hfield hinner h =>
      intro path hpath
      obtain ⟨rest, -, rfl⟩ := List.mem_map.1 hpath
      exact List.cons_ne_nil _ rest
  | plain hrule hfield h => exact fileKeys_ne_nil hafter h

/-- Nodes that agree match if the fields left to agree do: by induction on the way down from a
name with a default value to the name. -/
theorem matches_of_agree (hbefore : cx.grammar.rulesBefore = [])
    (hafter : cx.grammar.rulesAfter = []) {file query : Node} {b c : Bindings}
    {found : Comparison} (h : Agree cx file query b found c) (hfile : file.NamesDistinct)
    (henv : c.Keeps env) (hleft : LeftMatch cx env file query found) :
    Matches cx env file query := by
  induction h with
  | rule hrule hagrees => simp [hbefore, Rule.first?] at hrule
  | @value file query inner b b₁ c field found hrule hfield hinner h ih =>
      have hoffspring := Node.mem_offspring_of_child? hinner
      refine Matches.value hfield hinner (ih (hfile.of_mem_offspring hoffspring) henv ?_)
      intro pair hpair
      have hprefixed : (field :: pair.1, pair.2) ∈
          (found.fileKeys.map (field :: ·)).zip found.queryKeys := by
        rw [List.zip_map_left]
        exact List.mem_map.2 ⟨pair, hpair, rfl⟩
      obtain ⟨right, left, hright, hleft', hagree⟩ := hleft _ hprefixed
      refine ⟨right, left, ?_, hleft', hagree⟩
      -- a path into the name is one into the file node, after the field of the name
      cases hpath : pair.1 with
      | nil =>
          have hne := agree_fileKeys_ne_nil hbefore hafter h _ (List.of_mem_zip hpair).1
          exact absurd hpath hne
      | cons name rest =>
          rw [hpath, Node.resolve, hinner] at hright
          exact hright
  | plain hrule hfield h =>
      exact Matches.itself hfield (matchesItself_of_agreePlainly hafter h hfile henv hleft)

/-! ## Soundness -/

/-- A successful attempt leaves its nodes matching under every environment that keeps what it
has bound: the attempts it leads to do, by induction on the height of the query, and their
bindings are kept up to its end. -/
theorem Attempt.matches (hbefore : cx.grammar.rulesBefore = [])
    (hafter : cx.grammar.rulesAfter = []) {a : Attempt} (ha : (a.outcome cx).agrees = true)
    (hfile : a.file.NamesDistinct) (henv : (a.outcome cx).bindings.Keeps env) :
    Matches cx env a.file a.query := by
  have hgrammar := Grammar.bindsTexts_of_noRules hbefore hafter
  obtain ⟨file, query, b⟩ := a
  induction query using Node.height_induction generalizing file b with
  | step query ih =>
      obtain ⟨hagrees, -, -⟩ := Attempt.outcome_eq ha
      -- whatever the comparison has bound is still bound in the end
      have hcompared : ((Attempt.mk file query b).compared cx).Keeps env :=
        (Attempt.compared_extends hgrammar ha).keeps.trans henv
      refine matches_of_agree hbefore hafter (compare_agrees hagrees) hfile hcompared ?_
      intro pair hpair
      obtain ⟨right, left, hright, hleft, hagree⟩ := Attempt.fieldsAgree hgrammar ha hpair
      refine ⟨right, left, hright, hleft, hagree.mono fun f hf q hq hleads => ?_⟩
      obtain ⟨c, hleads⟩ := hleads
      obtain ⟨hsucceeds, -, hend⟩ := hleads.between hgrammar ha
      exact ih q hleads.mem.2.2 f c hsucceeds (hfile.of_mem_walk hleads.mem.1)
        (hend.keeps.trans henv)

end

/-- **Matching is sound.** Where the grammar has no rules of its own, a match that starts from no
bindings leaves the file node matching the query node, list elements placed as the mode demands,
under the one environment that it ends with. -/
theorem validate_sound {cx : MatchContext} (hbefore : cx.grammar.rulesBefore = [])
    (hafter : cx.grammar.rulesAfter = []) {file query : Node} (hfile : file.NamesDistinct)
    (h : (validate cx file query .empty).agrees = true) :
    Matches cx (validate cx file query .empty).bindings file query :=
  Attempt.matches (a := ⟨file, query, .empty⟩) hbefore hafter h hfile (Bindings.Keeps.refl _)

/-- A language of calls on names. -/
def callGrammar : Grammar where
  name := "calls"
  kinds := { identifiers := ["name"] }
  parse _ := .error ⟨"no parser", none⟩

/-- The call on some names. -/
def callOn (names : List String) : Node :=
  (Node.branch "call" .zero).withChildren (names.map fun name => .leaf "name" name .zero)

/-- A call on one name twice, with another in between, matches a query that gives both uses the
same alias. -/
theorem validate_sound_repeated_name :
    (callOn ["x", "y", "x"]).NamesDistinct ∧
      Matches ⟨callGrammar, { mode := .exact }, "f(x, y, x)"⟩
        (validate ⟨callGrammar, { mode := .exact }, "f(x, y, x)"⟩ (callOn ["x", "y", "x"])
          (callOn ["$$$_a", "y", "$$$_a"]) .empty).bindings
        (callOn ["x", "y", "x"]) (callOn ["$$$_a", "y", "$$$_a"]) := by
  have hfile : (callOn ["x", "y", "x"]).NamesDistinct := by decide
  refine ⟨hfile, validate_sound rfl rfl hfile ?_⟩
  decide +kernel

end CodeSearch

import CodeSearch.Proofs.AliasRenaming
import CodeSearch.Proofs.Soundness
import CodeSearch.Proofs.TwoRuns

/-!
# Queries with renamed aliases

The name of an alias is of no account: a query whose aliases are renamed finds what the query finds,
and the new names stand for what the old ones stood for. A comparison looks at a text with wildcards
in few ways, and none of them tells one name from another. So the two searches go in lockstep.
-/

set_option autoImplicit false

namespace CodeSearch

/-! ## Trees with other texts -/

mutual

/-- The tree with other texts, each of which depends on the kind of its node. -/
def Node.mapTexts (f : String → String → String) : Node → Node
  | .mk kind text fields span => .mk kind (text.map (f kind)) (Field.mapTextsEntries f fields) span

/-- The field with other texts in its trees. -/
def Field.mapTexts (f : String → String → String) : Field → Field
  | .node child => .node (child.mapTexts f)
  | .nodes children => .nodes (Node.mapTextsList f children)
  | .token text => .token text

/-- Trees with other texts. -/
def Node.mapTextsList (f : String → String → String) : List Node → List Node
  | [] => []
  | node :: rest => node.mapTexts f :: Node.mapTextsList f rest

/-- Several fields with other texts. -/
def Field.mapTextsEntries (f : String → String → String) :
    List (String × Field) → List (String × Field)
  | [] => []
  | (name, field) :: rest => (name, field.mapTexts f) :: Field.mapTextsEntries f rest

end

section

variable (f : String → String → String) (n : Node)

theorem Node.mapTextsList_rel (nodes : List Node) :
    List.Forall₂ (fun a b => b = a.mapTexts f) nodes (Node.mapTextsList f nodes) := by
  induction nodes with
  | nil => exact .nil
  | cons node rest ih => exact .cons rfl ih

theorem Field.mapTexts_rel (field : Field) :
    Field.Rel (fun a b => b = a.mapTexts f) field (field.mapTexts f) := by
  cases field with
  | node child => exact .node rfl
  | nodes children => exact .nodes (Node.mapTextsList_rel f children)
  | token text => exact .token text

theorem Field.holdsNodes_mapTexts (field : Field) :
    (field.mapTexts f).holdsNodes = field.holdsNodes := by
  cases field <;> rfl

theorem Field.mapTextsEntries_eq (fields : List (String × Field)) :
    Field.mapTextsEntries f fields = fields.map fun entry => (entry.1, entry.2.mapTexts f) := by
  induction fields with
  | nil => rfl
  | cons entry rest ih => rw [Field.mapTextsEntries, ih, List.map_cons]

namespace Node

theorem kind_mapTexts : (n.mapTexts f).kind = n.kind := by
  cases n
  rfl

theorem text_mapTexts : (n.mapTexts f).text = n.text.map (f n.kind) := by
  cases n
  rfl

theorem fields_mapTexts :
    (n.mapTexts f).fields = n.fields.map fun entry => (entry.1, entry.2.mapTexts f) := by
  cases n
  exact Field.mapTextsEntries_eq f _

theorem keys_mapTexts : (n.mapTexts f).keys = n.keys := by
  rw [keys, keys, text_mapTexts, fields_mapTexts, List.map_map, Option.isSome_map]
  rfl

theorem childFields_mapTexts : (n.mapTexts f).childFields = n.childFields := by
  rw [childFields, childFields, fields_mapTexts, List.filter_map, List.map_map]
  simp only [Function.comp_def, Field.holdsNodes_mapTexts]

theorem field?_mapTexts (name : String) :
    (n.mapTexts f).field? name = (n.field? name).map (Field.mapTexts f) := by
  rw [field?, field?, fields_mapTexts]
  induction n.fields with
  | nil => rfl
  | cons entry rest ih =>
      rw [List.map_cons, List.lookup_cons, List.lookup_cons]
      split
      next => rfl
      next => exact ih

theorem child?_mapTexts (name : String) :
    (n.mapTexts f).child? name = (n.child? name).map (Node.mapTexts f) := by
  rw [child?, child?, field?_mapTexts]
  cases n.field? name with
  | none => rfl
  | some field => cases field <;> rfl

theorem resolve_mapTexts (path : FieldPath) :
    (n.mapTexts f).resolve path = (n.resolve path).map (Field.mapTexts f) := by
  induction path generalizing n with
  | nil => rfl
  | cons name rest ih =>
      cases rest with
      | nil => exact n.field?_mapTexts f name
      | cons next rest =>
          rw [resolve, resolve, child?_mapTexts]
          cases n.child? name with
          | none => rfl
          | some child => exact ih child

end Node

end

/-! ## Renaming the aliases of a query -/

/-- A grammar is **generic** if it leaves all to the general comparison: it has no rules and no
equivalent kinds, and compares all nodes, and their texts as they are. -/
structure Grammar.IsGeneric (grammar : Grammar) : Prop where
  rulesBefore : grammar.rulesBefore = []
  rulesAfter : grammar.rulesAfter = []
  equivalent : grammar.kinds.equivalent = []
  sanitize : ∀ kind text, grammar.sanitize kind text = text
  isComparable : ∀ n, grammar.isComparable n = true

theorem Grammar.IsGeneric.map_sanitize {grammar : Grammar} (h : grammar.IsGeneric) (kind : String)
    (text : Option String) : text.map (grammar.sanitize kind) = text := by
  rw [show grammar.sanitize kind = id from funext (h.sanitize kind), Option.map_id, id]

/-- The query with renamed aliases in its identifiers and strings. -/
def AliasRenaming.query (ρ : AliasRenaming) (cx : MatchContext) (query : Node) : Node :=
  query.mapTexts fun kind text =>
    if cx.kinds.isIdentifier kind || cx.kinds.isString kind then ρ.text cx.markers text else text

namespace AliasRenaming

variable {ρ : AliasRenaming} {cx : MatchContext} {file query : Node} {b c : Bindings}

theorem kind_query : (ρ.query cx query).kind = query.kind := query.kind_mapTexts _

theorem text_query_of_renamed
    (h : (cx.kinds.isIdentifier query.kind || cx.kinds.isString query.kind) = true) :
    (ρ.query cx query).text = query.text.map (ρ.text cx.markers) := by
  rw [AliasRenaming.query, Node.text_mapTexts]
  simp only [h, if_true]

/-- The text of a node stays as it is unless it has wildcards in an identifier or a string. -/
theorem text_query_of_plain
    (h : (cx.kinds.isIdentifier query.kind || cx.kinds.isString query.kind) = true →
      query.text.filter cx.markers.hasWildcard = none) :
    (ρ.query cx query).text = query.text := by
  by_cases hkind : (cx.kinds.isIdentifier query.kind || cx.kinds.isString query.kind) = true
  · rw [text_query_of_renamed hkind]
    have hplain := h hkind
    cases htext : query.text with
    | none => rfl
    | some text =>
        rw [htext, Option.filter_eq_none_iff] at hplain
        exact congrArg some (text_of_not_hasWildcard (Bool.eq_false_iff.2 (hplain text rfl)))
  · rw [AliasRenaming.query, Node.text_mapTexts]
    simp only [hkind, Bool.false_eq_true, if_false, Option.map_id_fun', id]

/-- A text with wildcards is found where there was one. -/
theorem filter_hasWildcard_map (hm : cx.markers.StandsApart) (text : Option String) :
    (text.map (ρ.text cx.markers)).filter cx.markers.hasWildcard =
      (text.filter cx.markers.hasWildcard).map (ρ.text cx.markers) := by
  cases text with
  | none => rfl
  | some text =>
      rw [Option.map_some, Option.filter_some, Option.filter_some, hasWildcard_text hm]
      split
      next => rfl
      next => rfl

theorem nameWildcard?_query (hm : cx.markers.StandsApart) :
    cx.nameWildcard? (ρ.query cx query) =
      (cx.nameWildcard? query).map (ρ.text cx.markers) := by
  rw [MatchContext.nameWildcard?, MatchContext.nameWildcard?, kind_query]
  split
  next hkind =>
    rw [text_query_of_renamed (by rw [hkind, Bool.true_or]), filter_hasWildcard_map hm]
  next => rfl

theorem stringWildcard?_query (hm : cx.markers.StandsApart) (hgrammar : cx.grammar.IsGeneric) :
    cx.stringWildcard? file (ρ.query cx query) =
      (cx.stringWildcard? file query).map (ρ.text cx.markers) := by
  rw [MatchContext.stringWildcard?, MatchContext.stringWildcard?, kind_query,
    hgrammar.map_sanitize, hgrammar.map_sanitize]
  split
  next hkind =>
    rw [Bool.and_eq_true] at hkind
    exact (congrArg (Option.filter _) (text_query_of_renamed (by rw [hkind.1, Bool.or_true]))).trans
      (filter_hasWildcard_map hm query.text)
  next => rfl

/-- The number that stands for any number is no text with wildcards. -/
theorem isAnyNumber_query (hm : cx.markers.StandsApart)
    (hnumeric : cx.markers.hasWildcard cx.markers.numeric = false) :
    cx.isAnyNumber (ρ.query cx query) = cx.isAnyNumber query := by
  have hsame : ∀ text,
      cx.markers.isNumeric (ρ.text cx.markers text) = cx.markers.isNumeric text := by
    intro text
    by_cases hwildcard : cx.markers.hasWildcard text = true
    · have hne :
          ∀ other, cx.markers.hasWildcard other = true → cx.markers.isNumeric other = false :=
        fun other hother => beq_false_of_ne fun heq => by rw [heq, hnumeric] at hother; cases hother
      rw [hne text hwildcard, hne _ ((hasWildcard_text hm text).trans hwildcard)]
    · rw [text_of_not_hasWildcard (Bool.eq_false_iff.2 hwildcard)]
  rw [MatchContext.isAnyNumber, MatchContext.isAnyNumber, kind_query]
  by_cases hkind : (cx.kinds.isIdentifier query.kind || cx.kinds.isString query.kind) = true
  · rw [text_query_of_renamed hkind, Option.map_map]
    exact congrArg (fun isNumeric => _ && (query.text.map isNumeric).getD false) (funext hsame)
  · rw [text_query_of_plain fun h => absurd h hkind]

theorem isWholeFile_query : cx.isWholeFile file (ρ.query cx query) = cx.isWholeFile file query := by
  rw [MatchContext.isWholeFile, MatchContext.isWholeFile, kind_query]

theorem isSome_field?_query (name : String) :
    ((ρ.query cx query).field? name).isSome = (query.field? name).isSome := by
  rw [AliasRenaming.query, Node.field?_mapTexts, Option.isSome_map]

/-- Elements of a query are as constrained under the new names as they were. -/
theorem specificity_query (hm : cx.markers.StandsApart) (query : Node) :
    Specificity.ofNode cx (ρ.query cx query) = Specificity.ofNode cx query := by
  have hname : cx.nameWildcard? (ρ.query cx query) = _ := nameWildcard?_query hm
  rw [MatchContext.nameWildcard?, MatchContext.nameWildcard?] at hname
  rw [Specificity.ofNode, Specificity.ofNode, hname]
  cases (if cx.kinds.isIdentifier query.kind = true then
      query.text.filter cx.markers.hasWildcard else none) with
  | none => rfl
  | some text =>
      dsimp only [Option.map_some]
      rw [isNodeTree_text hm, literalLength_text hm]

/-! ## Comparing two nodes -/

/-- Two outcomes of comparing a file node with a query and with the renamed query. -/
def ComparedAlike (ρ : AliasRenaming) (left right : Comparison × Bindings) : Prop :=
  left.1 = right.1 ∧ left.2.Renamed ρ right.2

theorem comparedAlike_mk (found : Comparison) (hb : b.Renamed ρ c) :
    ComparedAlike ρ (found, b) (found, c) := ⟨rfl, hb⟩

/-- A text of the file is matched by both. -/
theorem matchText?_query (hm : cx.markers.StandsApart) (hb : b.Renamed ρ c) (pattern value : String)
    (kind : WildcardKind) :
    Option.Rel (Bindings.Renamed ρ) (cx.matchText? pattern value kind b)
      (cx.matchText? (ρ.text cx.markers pattern) value kind c) :=
  hb.matchText? hm _ pattern value kind

/-- A subtree of the file is matched by both. -/
theorem matchTree?_query (hm : cx.markers.StandsApart) (hb : b.Renamed ρ c) (name : String) :
    Option.Rel (Bindings.Renamed ρ) (cx.matchTree? name file b)
      (cx.matchTree? (ρ.text cx.markers name) file c) := by
  have halias : Option.Rel _ (cx.treeAlias? name) (cx.treeAlias? (ρ.text cx.markers name)) :=
    firstAlias_text hm name .identifier
  rw [MatchContext.matchTree?, MatchContext.matchTree?]
  generalize cx.treeAlias? name = left at halias ⊢
  generalize cx.treeAlias? (ρ.text cx.markers name) = right at halias ⊢
  cases halias with
  | none => exact .some hb
  | some halias =>
      obtain ⟨hname, rfl⟩ := halias
      exact hb.matchNode? hname (cx.code file) file

theorem sameTyping_query : cx.sameTyping file (ρ.query cx query) = cx.sameTyping file query := by
  rw [MatchContext.sameTyping, MatchContext.sameTyping]
  simp only [isSome_field?_query]

theorem compareIdentifier_query (hm : cx.markers.StandsApart) (hb : b.Renamed ρ c) (name : String) :
    ComparedAlike ρ (compareIdentifier cx file query name b)
      (compareIdentifier cx file (ρ.query cx query) (ρ.text cx.markers name) c) := by
  have hwhole := isNodeTree_text (ρ := ρ) hm name
  cases htree : cx.markers.isNodeTree name with
  | true =>
      obtain ⟨hsame, hafter⟩ := rel_getD (matchTree?_query hm hb name) hb
      rw [compareIdentifier_tree htree, compareIdentifier_tree (hwhole.trans htree), hsame]
      exact comparedAlike_mk _ hafter
  | false =>
      have hmatch : Option.Rel (Bindings.Renamed ρ)
          ((cx.fileName? file).bind fun value => cx.matchText? name value .identifier b)
          ((cx.fileName? file).bind fun value =>
            cx.matchText? (ρ.text cx.markers name) value .identifier c) := by
        cases cx.fileName? file with
        | none => exact .none
        | some value =>
            rw [Option.bind_some, Option.bind_some]
            exact matchText?_query hm hb name value .identifier
      have hfields : (ρ.query cx query).childFields = query.childFields :=
        query.childFields_mapTexts _
      obtain ⟨hsame, hafter⟩ := rel_getD hmatch hb
      rw [compareIdentifier_name htree, compareIdentifier_name (hwhole.trans htree), hsame,
        sameTyping_query, hfields]
      exact comparedAlike_mk _ hafter

/-- Key by key the renamed query compares like the query, where both have no wildcards. -/
theorem compareFields_query (hgrammar : cx.grammar.IsGeneric)
    (hname : cx.nameWildcard? query = none) (hstring : cx.stringWildcard? file query = none) :
    compareFields cx file (ρ.query cx query) = compareFields cx file query := by
  have hkeys : (ρ.query cx query).keys = query.keys := query.keys_mapTexts _
  have hcounted : countedKeys cx file (ρ.query cx query) = countedKeys cx file query := by
    rw [countedKeys, countedKeys, hkeys]
  rw [compareFields, compareFields, kind_query, hkeys, hcounted]
  by_cases hkind : query.kind = file.kind
  · -- a string that has wildcards would have been met against a string of its own kind
    have htext : (ρ.query cx query).text = query.text := by
      refine text_query_of_plain fun hliteral => ?_
      rcases Bool.or_eq_true_iff.1 hliteral with hidentifier | hisString
      · rwa [MatchContext.nameWildcard?, if_pos hidentifier] at hname
      · rwa [MatchContext.stringWildcard?, if_pos (by rw [hisString, hkind, beq_self_eq_true]; rfl),
          hgrammar.map_sanitize] at hstring
    have hcompare : ∀ key, compareKey cx file (ρ.query cx query) (countedKeys cx file query) key =
        compareKey cx file query (countedKeys cx file query) key := by
      intro key
      rw [compareKey, compareKey, kind_query, htext, AliasRenaming.query, Node.field?_mapTexts]
      cases query.field? key with
      | none => rfl
      | some asked =>
          cases file.field? key with
          | none => cases asked <;> rfl
          | some given => cases asked <;> cases given <;> rfl
    simp only [hcompare]
  · have hdiffers : cx.kinds.sameKind query.kind file.kind = false := by
      have hequivalent : cx.kinds.equivalent = [] := hgrammar.equivalent
      rw [NodeKinds.sameKind, hequivalent, List.any_nil, Bool.or_false, beq_eq_false_iff_ne]
      exact hkind
    simp only [hdiffers, Bool.not_false, Bool.true_or, if_true]

theorem comparePlain_query (hm : cx.markers.StandsApart)
    (hnumeric : cx.markers.hasWildcard cx.markers.numeric = false)
    (hgrammar : cx.grammar.IsGeneric) (hb : b.Renamed ρ c) :
    ComparedAlike ρ (comparePlain cx file query b)
      (comparePlain cx file (ρ.query cx query) c) := by
  have hname' : cx.nameWildcard? (ρ.query cx query) = _ := nameWildcard?_query hm
  have hstring' : cx.stringWildcard? file (ρ.query cx query) = _ :=
    stringWildcard?_query hm hgrammar
  cases hname : cx.nameWildcard? query with
  | some name =>
      rw [hname] at hname'
      rw [comparePlain_of_name hname, comparePlain_of_name hname']
      exact compareIdentifier_query hm hb name
  | none =>
      rw [hname] at hname'
      cases hstring : cx.stringWildcard? file query with
      | some pattern =>
          rw [hstring] at hstring'
          obtain ⟨hsame, hafter⟩ :=
            rel_getD (matchText?_query hm hb pattern ((cx.sanitized file).getD "") .string) hb
          rw [comparePlain_of_string hname hstring, comparePlain_of_string hname' hstring', hsame]
          exact comparedAlike_mk _ hafter
      | none =>
          rw [hstring] at hstring'
          rw [comparePlain_of_noWildcard hgrammar.rulesAfter hname hstring,
            comparePlain_of_noWildcard hgrammar.rulesAfter hname' hstring',
            isAnyNumber_query hm hnumeric, isWholeFile_query,
            compareFields_query hgrammar hname hstring]
          exact comparedAlike_mk _ hb

/-- **The renamed query compares like the query** with every node. -/
theorem compare_query (hm : cx.markers.StandsApart)
    (hnumeric : cx.markers.hasWildcard cx.markers.numeric = false)
    (hgrammar : cx.grammar.IsGeneric) (hb : b.Renamed ρ c) :
    ComparedAlike ρ (compare cx file query b) (compare cx file (ρ.query cx query) c) := by
  induction file using Node.offspring_induction with
  | step file ih =>
      have hvalue :
          valueField? cx file.kind (ρ.query cx query) = valueField? cx file.kind query := by
        rw [valueField?, valueField?, kind_query]
      rw [compare_eq, compare_eq, hgrammar.rulesBefore, hvalue]
      dsimp only [Rule.first?]
      cases valueField? cx file.kind query with
      | none => exact comparePlain_query hm hnumeric hgrammar hb
      | some name =>
          dsimp only
          cases hchild : file.child? name with
          | none => exact ⟨rfl, hb⟩
          | some child =>
              obtain ⟨hfound, hafter⟩ := ih child (Node.mem_offspring_of_child? hchild)
              exact ⟨congrArg (fun found : Comparison => { found with
                fileKeys := found.fileKeys.map (name :: ·), descend := file.childFields }) hfound,
                hafter⟩

/-- A query and the renamed query are searched in lockstep. -/
theorem lockstep (hm : cx.markers.StandsApart)
    (hnumeric : cx.markers.hasWildcard cx.markers.numeric = false)
    (hgrammar : cx.grammar.IsGeneric) :
    Lockstep cx cx (Bindings.Renamed ρ) Eq fun q r => r = ρ.query cx q where
  mode := rfl
  compare {f _ q _ b c} hfile hquery hb := by
    subst hfile hquery
    have hcompared : ComparedAlike ρ (CodeSearch.compare cx f q b)
        (CodeSearch.compare cx f (ρ.query cx q) c) := compare_query hm hnumeric hgrammar hb
    obtain ⟨hfound, hafter⟩ := hcompared
    rw [← hfound]
    exact ⟨⟨rfl, rfl, rfl⟩, hafter⟩
  file {f _} hfile path := by
    subst hfile
    cases f.resolve path with
    | none => exact .none
    | some field => exact .some (.refl (fun _ => rfl) field)
  query {q _} hquery path := by
    subst hquery
    rw [AliasRenaming.query, Node.resolve_mapTexts]
    cases q.resolve path with
    | none => exact .none
    | some field => exact .some (Field.mapTexts_rel _ field)
  fileComparable hfile := congrArg cx.grammar.isComparable hfile
  queryComparable _ := (hgrammar.isComparable _).trans (hgrammar.isComparable _).symm
  rank {q _} hquery := by
    subst hquery
    exact (specificity_query hm q).symm

end AliasRenaming

/-! ## What is found -/

/-- Two matches are of one node at one place, and the aliases are renamed from the bindings of the
first to those of the second. -/
structure Found.Renamed (ρ : AliasRenaming) (left right : Found) : Prop where
  node : left.node = right.node
  place : left.place = right.place
  bindings : left.bindings.Renamed ρ right.bindings

/-- **Alias names are opaque.** Rename the aliases of a query in all its identifiers and strings, no
two of them alike, for any grammar without rules and equivalent kinds that compares all nodes and
texts as they are, with the default markers and otherwise under all settings. Then a search reports
the same nodes at the same places in the same order, and under the new names the aliases stand for
what they stood for, and nothing else is bound. -/
theorem traverse_renamed (ρ : AliasRenaming) {cx : MatchContext} (hgrammar : cx.grammar.IsGeneric)
    (hmarkers : cx.config.markers = {}) (root query : Node) :
    List.Forall₂ (Found.Renamed ρ) (traverse cx root query).found
      (traverse cx root (ρ.query cx query)).found := by
  have hdefault : cx.markers = {} := hmarkers
  have hm : cx.markers.StandsApart := hdefault ▸ Markers.standsApart_default
  have hnumeric : cx.markers.hasWildcard cx.markers.numeric = false := by
    rw [hdefault]
    decide
  have hfound : ∀ visit, Option.Rel (Found.Renamed ρ) (foundAt cx query visit)
      (foundAt cx (ρ.query cx query) visit) := by
    intro visit
    have houtcome : (Attempt.outcome cx ⟨visit.2, query, .empty⟩).Rel (Bindings.Renamed ρ)
        (Attempt.outcome cx ⟨visit.2, ρ.query cx query, .empty⟩) :=
      (AliasRenaming.lockstep hm hnumeric hgrammar).validate rfl rfl .empty
    rw [foundAt, foundAt, ← houtcome.agrees]
    split
    next => exact .some ⟨rfl, rfl, houtcome.bindings⟩
    next => exact .none
  rw [found_traverse, found_traverse]
  exact List.rel_filterMap (fun visit _ hvisit => hvisit ▸ hfound visit)
    (List.forall₂_same.2 fun visit _ => (rfl : visit = visit))

/-- The aliases `a` and `b` change places. -/
def swapped : AliasRenaming := .swap "a" "b" (by decide +kernel) (by decide +kernel)

/-- A call of a name that ends like its argument is found by a query that says so, by whatever name
of the alias. -/
theorem traverse_renamed_swapped :
    let cx : MatchContext := ⟨callGrammar, {}, ""⟩
    let root := callOn ["getX", "X"]
    let query := callOn ["get$$_a", "$$_a_"]
    callGrammar.IsGeneric ∧ cx.config.markers = {} ∧
      swapped.query cx query = callOn ["get$$_b", "$$_b_"] ∧
      (traverse cx root query).found.map (·.bindings.text? "a") = [some "X"] ∧
      List.Forall₂ (Found.Renamed swapped) (traverse cx root query).found
        (traverse cx root (swapped.query cx query)).found := by
  intro cx root query
  have hgrammar : callGrammar.IsGeneric := ⟨rfl, rfl, rfl, fun _ _ => rfl, fun _ => rfl⟩
  refine ⟨hgrammar, rfl, ?_, by decide +kernel, ?_⟩
  · have hfirst : swapped.text {} "get$$_a" = "get$$_b" := by decide +kernel
    have hsecond : swapped.text {} "$$_a_" = "$$_b_" := by decide +kernel
    have hfields : ∀ first second, (callOn [first, second]) = .mk "call" none
        [("children", .nodes [.leaf "name" first .zero, .leaf "name" second .zero])] .zero :=
      fun _ _ => rfl
    have hkind : cx.kinds.isIdentifier "name" = true := rfl
    have hmarkers : cx.markers = {} := rfl
    simp [query, hfields, AliasRenaming.query, Node.leaf, Node.mapTexts, Field.mapTextsEntries,
      Field.mapTexts, Node.mapTextsList, hkind, hmarkers, hfirst, hsecond]
  · exact traverse_renamed swapped hgrammar rfl root query

end CodeSearch

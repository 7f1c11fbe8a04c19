import CodeSearch.Proofs.LanguageAliases
import CodeSearch.Proofs.NormalForm

/-!
# Elements that close themselves

A rule lets an element that closes itself match one with an opening tag. Where all of the code
counts it should do so just if the latter is empty and the tags agree in all that they hold. The
rule pairs names and attributes, and nothing else: what further fields the tags have, such as the
types that an element is given, **is not read**. A token under one of the names it does pair is left
to agree like a child, which it never does.
-/

set_option autoImplicit false

namespace CodeSearch

/-! ## Queries that bind nothing -/

section

variable {cx : MatchContext} {file query : Node} {b : Bindings}

/-- A rule **binds nothing** under some settings if it leaves the bindings alone, whatever its
verdict. -/
def Rule.BindsNothing (rule : Rule) (config : MatchSettings) : Prop :=
  ∀ file query b, (rule config file query b).2 = b

theorem Rule.first?_bindings {config : MatchSettings} {rules : List Rule}
    (h : ∀ rule ∈ rules, rule.BindsNothing config) (file query : Node) (b : Bindings) :
    (Rule.first? config file query rules b).2 = b := by
  induction rules generalizing b with
  | nil => rfl
  | cons rule rest ih =>
      obtain ⟨hrule, hrest⟩ := List.forall_mem_cons.1 h
      have hb := hrule file query b
      rw [Rule.first?]
      split
      next heq => rwa [heq] at hb
      next heq =>
        rw [heq] at hb
        obtain rfl := hb
        exact ih hrest _

/-- What is asked of a search for a query without wildcards to bind nothing: all of the code counts,
and no rule binds anything. -/
structure MatchContext.BindsByWildcards (cx : MatchContext) : Prop where
  mode : cx.config.mode = .exact
  before : ∀ rule ∈ cx.grammar.rulesBefore, rule.BindsNothing cx.config
  after : ∀ rule ∈ cx.grammar.rulesAfter, rule.BindsNothing cx.config

theorem compare_bindings (h : cx.BindsByWildcards) (hquery : cx.WithoutWildcards query)
    (file : Node) (b : Bindings) : (compare cx file query b).2 = b := by
  have hvalue : valueField? cx file.kind query = none := by
    rw [valueField?, h.mode]
    rfl
  have hbefore := Rule.first?_bindings h.before file query b
  have hafter := Rule.first?_bindings h.after file query b
  rw [compare_eq]
  split
  next heq => rwa [heq] at hbefore
  next heq =>
    rw [heq] at hbefore
    obtain rfl := hbefore
    simp only [hvalue, comparePlain, compareWildcard?_eq, hquery.nameWildcard?_eq_none,
      hquery.stringWildcard?_eq_none, hquery.isAnyNumber_eq_false, Bool.false_eq_true, if_false]
    split
    next hfound =>
      split at hfound
      next => rw [← Option.some.inj hfound]
      next => cases hfound
    next =>
      split
      next heq => rwa [heq] at hafter
      next heq => rwa [heq] at hafter

/-- Lists are matched in pairs where all of the code counts. If the elements bind nothing, neither
do the lists. -/
theorem validateList_pairs (hmode : cx.config.mode = .exact) {files queries : List Node}
    (hpure : ∀ q ∈ queries, ∀ f, (validate cx f q b).bindings = b) :
    ((validateList cx (validate cx) files queries b).agrees = true ↔
        List.Forall₂ (fun f q => (validate cx f q b).agrees = true) (cx.comparable files)
          (cx.comparable queries)) ∧
      (validateList cx (validate cx) files queries b).bindings = b := by
  rw [validateList_eq, validateComparable_eq, if_pos hmode]
  split
  next hlength =>
    have hsteps : ∀ step ∈ ((cx.comparable files).zip (cx.comparable queries)).map fun pair =>
        validate cx pair.1 pair.2, (step b).bindings = b :=
      List.forall_mem_map.2 fun pair hpair =>
        hpure pair.2 (List.mem_filter.1 (List.of_mem_zip hpair).2).1 pair.1
    obtain ⟨hagrees, hbindings⟩ := inTurn_of_pure hsteps
    refine ⟨?_, hbindings⟩
    rw [hagrees, List.forall_mem_map, List.forall₂_iff_zip]
    exact ⟨fun hall => ⟨hlength, fun hpair => hall _ hpair⟩, fun hall _ hpair => hall.2 hpair⟩
  next hlength =>
    refine ⟨?_, rfl⟩
    simp only [Validation.reject, Bool.false_eq_true, false_iff]
    exact fun hall => hlength hall.length_eq

/-- Paths bind nothing if matching the nodes below the query does not. -/
theorem validatePath_bindings_of (hmode : cx.config.mode = .exact)
    (hpure : ∀ q ∈ query.walk, q.height < query.height → ∀ f,
      (validate cx f q b).bindings = b) (file : Node) (filePath queryPath : FieldPath) :
    (validatePath cx (validate cx) file query filePath queryPath b).bindings = b := by
  unfold validatePath
  split
  next f q _ hresolve =>
    exact hpure q (Node.mem_walk_of_resolve hresolve (by simp [Field.members]))
      (Node.height_lt_of_resolve hresolve (by simp [Field.members])) f
  next fs qs _ hresolve =>
    refine (validateList_pairs hmode fun q hq f => ?_).2
    exact hpure q (Node.mem_walk_of_resolve hresolve hq) (Node.height_lt_of_resolve hresolve hq) f
  next => rfl

/-- **A query without wildcards binds nothing.** -/
theorem validate_bindings (h : cx.BindsByWildcards) (hquery : cx.WithoutWildcards query)
    (file : Node) (b : Bindings) : (validate cx file query b).bindings = b := by
  induction query using Node.height_induction generalizing file b with
  | step query ih =>
      have hcompare := compare_bindings h hquery file b
      rw [validate_eq]
      cases hfound : compare cx file query b with
      | mk found c =>
          rw [hfound] at hcompare
          obtain rfl : c = b := hcompare
          rw [validateFound]
          split
          next =>
            rw [validateKeys_eq]
            split
            next =>
              refine (inTurn_of_pure (List.forall_mem_map.2 fun pair _ => ?_)).2
              exact validatePath_bindings_of h.mode (fun q hq hheight f =>
                ih q hheight (hquery.of_mem_walk hq) f c) file pair.1 pair.2
            next => rfl
          next => rfl

theorem validatePath_bindings (h : cx.BindsByWildcards) (hquery : cx.WithoutWildcards query)
    (file : Node) (filePath queryPath : FieldPath) (b : Bindings) :
    (validatePath cx (validate cx) file query filePath queryPath b).bindings = b :=
  validatePath_bindings_of h.mode
    (fun _ hq _ f => validate_bindings h (hquery.of_mem_walk hq) f b) file filePath queryPath

end

/-! ## Values of fields -/

/-- What a file and a query have under one name **has matching values**: nothing in both, children
that match, lists whose compared elements match in pairs, or tokens of one text. -/
inductive ValuesMatch (cx : MatchContext) (b : Bindings) : Option Field → Option Field → Prop
  | absent : ValuesMatch cx b none none
  | node {f q : Node} (h : (validate cx f q b).agrees = true) :
      ValuesMatch cx b (some (.node f)) (some (.node q))
  | nodes {fs qs : List Node}
      (h : List.Forall₂ (fun f q => (validate cx f q b).agrees = true) (cx.comparable fs)
        (cx.comparable qs)) :
      ValuesMatch cx b (some (.nodes fs)) (some (.nodes qs))
  | token {l r : String} (h : Text.sameText cx.config.ignoreCase l r = true) :
      ValuesMatch cx b (some (.token r)) (some (.token l))

/-- Whether there is a token under a name. -/
def HoldsToken (field? : Option Field) : Prop := ∃ text, field? = some (.token text)

section

variable {cx : MatchContext} {file query : Node} {b : Bindings}

theorem ValuesMatch.isSome {left right : Option Field} (h : ValuesMatch cx b left right) :
    left.isSome = right.isSome := by
  cases h <;> rfl

theorem not_holdsToken_of_holdsNodes {field : Field} (h : field.holdsNodes = true) :
    ¬ HoldsToken (some field) := by
  rintro ⟨text, heq⟩
  obtain rfl := Option.some.inj heq
  cases h

/-- What is at the ends of two paths agrees if it has matching values and is no token. -/
theorem validatePath_agrees_iff (h : cx.BindsByWildcards) (hquery : cx.WithoutWildcards query)
    {filePath queryPath : FieldPath} (hsome : (query.resolve queryPath).isSome = true) :
    (validatePath cx (validate cx) file query filePath queryPath b).agrees = true ↔
      ValuesMatch cx b (file.resolve filePath) (query.resolve queryPath) ∧
        ¬ HoldsToken (query.resolve queryPath) := by
  unfold validatePath
  split
  next f q hfile hright =>
    rw [hfile, hright, and_iff_left (not_holdsToken_of_holdsNodes rfl)]
    refine ⟨ValuesMatch.node, fun hmatch => ?_⟩
    cases hmatch with
    | node hagrees => exact hagrees
  next fs qs hfile hright =>
    have hpure : ∀ q ∈ qs, ∀ f, (validate cx f q b).bindings = b := fun q hq f =>
      validate_bindings h (hquery.of_mem_walk (Node.mem_walk_of_resolve hright hq)) f b
    rw [hfile, hright, and_iff_left (not_holdsToken_of_holdsNodes rfl),
      (validateList_pairs h.mode hpure).1]
    refine ⟨ValuesMatch.nodes, fun hmatch => ?_⟩
    cases hmatch with
    | nodes hpairs => exact hpairs
  next hnode hnodes =>
    -- what is neither two children nor two lists may match, but as tokens
    refine ⟨fun hagrees => Bool.noConfusion hagrees, ?_⟩
    rintro ⟨hmatch, htoken⟩
    generalize file.resolve filePath = left at hmatch hnode hnodes
    generalize query.resolve queryPath = right at hmatch hnode hnodes htoken hsome
    cases hmatch with
    | absent => cases hsome
    | node => exact (hnode _ _ rfl rfl).elim
    | nodes => exact (hnodes _ _ rfl rfl).elim
    | token => exact (htoken ⟨_, rfl⟩).elim

end

namespace Ecma

/-! ## The rule -/

/-- The names under which the rule looks in tags. -/
def pairedNames : List String := ["name", "attribute"]

section

variable {cx : MatchContext} {element tag query : Node} {b : Bindings}

/-- Where all of the code counts, two tags are paired if they hold something under the same ones of
some names, and what they hold is left to agree. -/
theorem pairTags_exact (query : Node) (queryTag : FieldPath) (file : Node) (fileTag : FieldPath)
    (names : List String) (pairs : List (FieldPath × FieldPath)) :
    pairTags true query queryTag file fileTag names pairs =
      if ∀ name ∈ names, (query.resolve (queryTag ++ [name])).isSome =
          (file.resolve (fileTag ++ [name])).isSome then
        .accept (pairs ++ (names.filter fun name =>
          (query.resolve (queryTag ++ [name])).isSome).map fun name =>
            (queryTag ++ [name], fileTag ++ [name]))
      else .reject := by
  induction names generalizing pairs with
  | nil => simp [pairTags]
  | cons name rest ih =>
      rw [pairTags]
      simp only [List.forall_mem_cons, List.filter_cons]
      cases hquery : (query.resolve (queryTag ++ [name])).isSome <;>
        cases hfile : (file.resolve (fileTag ++ [name])).isSome
      case true.true => simp [ih]
      case true.false => simp
      case false.true => simp
      case false.false => simp [ih]

/-- Two tags **pair**: what they hold under the paired names has matching values and is no token. -/
def TagsPair (cx : MatchContext) (b : Bindings) (tag query : Node) : Prop :=
  ∀ name ∈ pairedNames, ValuesMatch cx b (tag.field? name) (query.field? name) ∧
    ¬ HoldsToken (query.field? name)

/-- Where all of the code counts, none of the rules binds anything. -/
theorem HasRules.bindsByWildcards (h : HasRules cx) (hmode : cx.config.mode = .exact) :
    cx.BindsByWildcards := by
  refine ⟨hmode, fun rule hrule => ?_, fun rule hrule => ?_⟩
  · rw [h.before, List.mem_singleton] at hrule
    subst hrule
    exact fun _ _ _ => rfl
  · rw [h.after] at hrule
    simp only [List.mem_cons, List.not_mem_nil, or_false] at hrule
    intro file query b
    rcases hrule with rfl | rfl | rfl
    · rw [destructuring, hmode]
      rfl
    · rw [propertyShapes, hmode]
      rfl
    · rw [optionalChain, hmode]
      rfl

/-- The verdict of the rule on an element and one that closes itself, where all of the code
counts. -/
theorem HasRules.compare_selfClosing (h : HasRules cx) (hmode : cx.config.mode = .exact)
    (helement : element.kind = "jsx_element") (htag : element.child? "open_tag" = some tag)
    (hquery : query.kind = "jsx_self_closing_element") (b : Bindings) :
    compare cx element query b =
      (.ofVerdict element
        (if hasContent element = false ∧ ∀ name ∈ pairedNames,
            (query.field? name).isSome = (tag.field? name).isSome then
          .accept ((pairedNames.filter fun name => (query.field? name).isSome).map fun name =>
            ([name], ["open_tag", name]))
        else .reject), b) := by
  have htagPath : ∀ name, element.resolve (["open_tag"] ++ [name]) = tag.field? name := by
    intro name
    show (element.child? "open_tag").bind _ = _
    rw [htag]
    rfl
  have hrule : selfClosing cx.config element query b =
      (some (if hasContent element then .reject
        else pairTags true query [] element ["open_tag"] pairedNames []), b) := by
    cases hcontent : hasContent element <;>
      simp [selfClosing, helement, hquery, hmode, hcontent, pairedNames]
  rw [CodeSearch.compare_eq, h.before, Rule.first?, hrule, pairTags_exact]
  simp only [htagPath]
  cases hasContent element with
  | true => simp
  | false =>
      simp only [Bool.false_eq_true, if_false, true_and]
      rfl

/-- **What the rule compares** where all of the code counts: an element matches one that closes
itself just if it is empty and their tags pair. -/
theorem HasRules.selfClosing_agrees_iff (h : HasRules cx) (hmode : cx.config.mode = .exact)
    (helement : element.kind = "jsx_element") (htag : element.child? "open_tag" = some tag)
    (hquery : query.kind = "jsx_self_closing_element") (hwildcards : cx.WithoutWildcards query)
    (b : Bindings) :
    (validate cx element query b).agrees = true ↔
      hasContent element = false ∧ TagsPair cx b tag query := by
  have hsteps := h.bindsByWildcards hmode
  have hcompare := h.compare_selfClosing hmode helement htag hquery b
  have htagPath : ∀ name, element.resolve ["open_tag", name] = tag.field? name := by
    intro name
    rw [Node.resolve, htag]
    rfl
  by_cases hpaired : hasContent element = false ∧ ∀ name ∈ pairedNames,
      (query.field? name).isSome = (tag.field? name).isSome
  · obtain ⟨hcontent, hpresent⟩ := hpaired
    rw [if_pos ⟨hcontent, hpresent⟩] at hcompare
    have hvalidate : validate cx element query b =
        Validation.inTurn ((pairedNames.filter fun name => (query.field? name).isSome).map
          fun name => validatePath cx (validate cx) element query ["open_tag", name] [name]) b := by
      rw [validate_of_compare hcompare rfl (by simp [Comparison.ofVerdict, Verdict.accept])]
      simp [Comparison.ofVerdict, Verdict.accept, List.zip_map', Function.comp_def]
    have hpure : ∀ step ∈ (pairedNames.filter fun name => (query.field? name).isSome).map
        fun name => validatePath cx (validate cx) element query ["open_tag", name] [name],
        (step b).bindings = b :=
      List.forall_mem_map.2 fun name _ => validatePath_bindings hsteps hwildcards element _ _ b
    have hpath : ∀ name, (query.field? name).isSome = true →
        ((validatePath cx (validate cx) element query ["open_tag", name] [name] b).agrees = true ↔
          ValuesMatch cx b (tag.field? name) (query.field? name) ∧
            ¬ HoldsToken (query.field? name)) := by
      intro name hsome
      have hresolve : (query.resolve [name]).isSome = true := hsome
      rw [validatePath_agrees_iff hsteps hwildcards hresolve, htagPath]
      rfl
    rw [hvalidate, (inTurn_of_pure hpure).1, List.forall_mem_map, hcontent, eq_self, true_and]
    constructor
    · intro hall name hname
      cases hfield : query.field? name with
      | some field =>
          have hsome : (query.field? name).isSome = true := by rw [hfield]; rfl
          rw [← hfield]
          exact (hpath name hsome).1 (hall name (List.mem_filter.2 ⟨hname, hsome⟩))
      | none =>
          -- a name under which neither tag holds anything asks for nothing
          have hnone : tag.field? name = none := by
            have hsame := hpresent name hname
            rw [hfield] at hsame
            exact Option.isNone_iff_eq_none.1 (by simpa using hsame.symm)
          rw [hnone]
          refine ⟨ValuesMatch.absent, ?_⟩
          rintro ⟨_, heq⟩
          cases heq
    · intro hpair name hname
      obtain ⟨hname, hsome⟩ := List.mem_filter.1 hname
      exact (hpath name hsome).2 (hpair name hname)
  · rw [if_neg hpaired] at hcompare
    rw [validate_eq, hcompare]
    refine ⟨fun hagrees => Bool.noConfusion hagrees, ?_⟩
    rintro ⟨hcontent, hpair⟩
    exact (hpaired ⟨hcontent, fun name hname => ((hpair name hname).1.isSome).symm⟩).elim

/-- Two tags **match**: under every name they hold matching values, or both nothing. -/
def TagsMatch (cx : MatchContext) (b : Bindings) (tag query : Node) : Prop :=
  ∀ name, ValuesMatch cx b (tag.field? name) (query.field? name)

/-- The ways in which the rule **misjudges** two tags. -/
inductive MisjudgesTags (cx : MatchContext) (b : Bindings) (tag query : Node) : Prop
  /-- They pair, but do not match under a name where the rule does not look. -/
  | unread {name : String} (hpair : TagsPair cx b tag query) (hname : name ∉ pairedNames)
      (h : ¬ ValuesMatch cx b (tag.field? name) (query.field? name))
  /-- They match, but hold a token under a name where the rule does look. -/
  | token {name : String} (hmatch : TagsMatch cx b tag query) (hname : name ∈ pairedNames)
      (h : HoldsToken (query.field? name))

/-- Tags match just if they pair, unless they are misjudged. -/
theorem tagsPair_iff_tagsMatch :
    (TagsPair cx b tag query ↔ TagsMatch cx b tag query) ↔ ¬ MisjudgesTags cx b tag query := by
  constructor
  · rintro hiff (⟨hpair, -, h⟩ | ⟨hmatch, hname, h⟩)
    · exact h (hiff.1 hpair _)
    · exact (hiff.2 hmatch _ hname).2 h
  · intro hright
    constructor
    · intro hpair name
      by_contra h
      by_cases hname : name ∈ pairedNames
      · exact h (hpair name hname).1
      · exact hright (MisjudgesTags.unread hpair hname h)
    · intro hmatch name hname
      refine ⟨hmatch name, fun h => ?_⟩
      exact hright (MisjudgesTags.token hmatch hname h)

end

end Ecma

namespace Language

/-- An element of markup has content just if some of its children are compared. -/
theorem hasContent_eq_false_iff {language : Language}
    (hlanguage : language ∈ [Language.javaScript, .typeScript, .tsx]) (parsers : ParserSet)
    (config : SearchConfig) (source : String) (element : Node) :
    Ecma.hasContent element = false ↔
      (language.context parsers config source).comparable element.children = [] := by
  have hcomparable : (language.context parsers config source).grammar.isComparable =
      fun node => node.kind != "jsx_text" || node.text.any (· != "") := by
    simp only [List.mem_cons, List.not_mem_nil, or_false] at hlanguage
    rcases hlanguage with rfl | rfl | rfl <;> rfl
  rw [MatchContext.comparable, hcomparable, List.filter_eq_nil_iff, Ecma.hasContent,
    List.any_eq_false]

/-- **An element and one that closes itself** in JavaScript and TypeScript, where all of the code
counts and the latter, the query, has no wildcards. They match just if the element has no content
and the two tags hold matching names and attributes, and no tokens for these. That is to say that
the tags match in all that they hold, unless the element is empty and the rule misjudges the tags:
they differ in something else, or hold a token for a name or an attribute. -/
theorem element_matches_iff {language : Language}
    (hlanguage : language ∈ [Language.javaScript, .typeScript, .tsx]) (parsers : ParserSet)
    {config : SearchConfig} (source : String) (hmode : config.mode = .exact)
    {element tag query : Node} (helement : element.kind = "jsx_element")
    (htag : element.child? "open_tag" = some tag)
    (hquery : query.kind = "jsx_self_closing_element")
    (hwildcards : (language.context parsers config source).WithoutWildcards query)
    (b : Bindings) :
    let cx := language.context parsers config source
    ((validate cx element query b).agrees = true ↔
      cx.comparable element.children = [] ∧ Ecma.TagsPair cx b tag query) ∧
    (((validate cx element query b).agrees = true ↔
        cx.comparable element.children = [] ∧ Ecma.TagsMatch cx b tag query) ↔
      ¬ (cx.comparable element.children = [] ∧ Ecma.MisjudgesTags cx b tag query)) := by
  intro cx
  have hagrees := (language.hasRules hlanguage parsers config source).selfClosing_agrees_iff hmode
    helement htag hquery hwildcards b
  rw [hasContent_eq_false_iff hlanguage parsers config source] at hagrees
  refine ⟨hagrees, ?_⟩
  rw [hagrees, not_and, ← Ecma.tagsPair_iff_tagsMatch]
  exact and_congr_right_iff

/-- An element that is given a type, with the types under a name of their own. -/
def typedTag (kind name type : String) : Node :=
  .mk kind none
    [("name", .node (.leaf "identifier" name .zero)),
      ("type_arguments", .node (.mk "type_arguments" none
        [("children", .nodes [.leaf "type_identifier" type .zero])] .zero))] .zero

/-- The element `<B<T>></B>`. -/
def typedElement : Node :=
  .mk "jsx_element" none
    [("open_tag", .node (typedTag "jsx_opening_element" "B" "T")),
      ("close_tag", .node (.mk "jsx_closing_element" none
        [("name", .node (.leaf "identifier" "B" .zero))] .zero))] .zero

/-- The element `<B<T>></B>` matches `<B<T> />`, and the tags match. -/
theorem element_matches_iff_typed :
    let cx := bareContext .tsx .exact
    cx.WithoutWildcards (typedTag "jsx_self_closing_element" "B" "T") ∧
      (validate cx typedElement (typedTag "jsx_self_closing_element" "B" "T") .empty).agrees =
        true ∧
      cx.comparable typedElement.children = [] ∧
      Ecma.TagsPair cx .empty (typedTag "jsx_opening_element" "B" "T")
        (typedTag "jsx_self_closing_element" "B" "T") := by
  intro cx
  have hwildcards : cx.WithoutWildcards (typedTag "jsx_self_closing_element" "B" "T") :=
    ⟨by decide +kernel, by decide +kernel, by decide +kernel⟩
  have hagrees : (validate cx typedElement (typedTag "jsx_self_closing_element" "B" "T")
      .empty).agrees = true := by decide +kernel
  exact ⟨hwildcards, hagrees, (element_matches_iff (by decide) bareParsers "" rfl rfl rfl rfl
    hwildcards .empty).1.1 hagrees⟩

/-- It matches `<B<U> />` as well, though the types differ. -/
theorem element_misses_types :
    let cx := bareContext .tsx .exact
    (validate cx typedElement (typedTag "jsx_self_closing_element" "B" "U") .empty).agrees = true ∧
      ¬ Ecma.TagsMatch cx .empty (typedTag "jsx_opening_element" "B" "T")
        (typedTag "jsx_self_closing_element" "B" "U") := by
  intro cx
  refine ⟨by decide +kernel, fun hmatch => ?_⟩
  have htypes := hmatch "type_arguments"
  cases htypes with
  | node h => exact absurd h (by decide +kernel)

end Language

end CodeSearch

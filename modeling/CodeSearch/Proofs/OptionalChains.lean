import CodeSearch.Proofs.Conversion
import CodeSearch.Proofs.ExtraCode
import CodeSearch.Proofs.PropertyForms

/-!
# Optional chains

Where further code is ignored, `a?.b` and `a.b` are the same in files and in queries. Two ways of
comparing lead there. If only the query has a chain, a rule leaves to agree what the query holds
besides it. Otherwise the comparison goes key by key: a chain of the file alone does not count, as
the grammar lets it be missing, and two chains are equal leaves. Either way **the same fields are
left to agree in the same order**, so that not only the verdict is the same.
-/

set_option autoImplicit false

namespace CodeSearch

/-! ## Steps that do nothing -/

theorem Validation.accept_andThen (b : Bindings) (next : Bindings → Validation) :
    (accept b).andThen next = next b := by
  simp [andThen, accept]

/-- Steps that always succeed and bind nothing may as well be left out. -/
theorem inTurn_filter {α : Type} {step : α → Bindings → Validation} {keep : α → Bool}
    {items : List α} (h : ∀ a ∈ items, keep a = false → ∀ b, step a b = .accept b)
    (b : Bindings) :
    Validation.inTurn (items.map step) b = Validation.inTurn ((items.filter keep).map step) b := by
  induction items generalizing b with
  | nil => rfl
  | cons a rest ih =>
      obtain ⟨ha, hrest⟩ := List.forall_mem_cons.1 h
      rw [List.map_cons, List.filter_cons, Validation.inTurn]
      cases hkeep : keep a with
      | true =>
          rw [if_pos rfl, List.map_cons, Validation.inTurn]
          exact congrArg (step a b).andThen (funext (ih hrest))
      | false =>
          rw [ha hkeep, Validation.accept_andThen, if_neg Bool.false_ne_true]
          exact ih hrest b

/-- Nodes that agree as far as the names of some fields match if these fields do, in turn. -/
theorem validate_of_sameFields {cx : MatchContext} {file query : Node} {b c : Bindings}
    {found : Comparison} {names : List String} (h : compare cx file query b = (found, c))
    (hagrees : found.agrees = true) (hquery : found.queryKeys = names.map ([·]))
    (hfile : found.fileKeys = names.map ([·])) :
    validate cx file query b =
      Validation.inTurn (names.map fun name =>
        validatePath cx (validate cx) file query [name] [name]) c := by
  rw [validate_of_compare h hagrees (by rw [hquery, hfile]), hquery, hfile, List.zip_map',
    List.map_map]
  rfl

namespace Ecma

/-! ## Accesses and calls -/

/-- The kinds of accesses and calls. -/
def chainedKinds : List String := ["member_expression", "subscript_expression", "call_expression"]

/-- The name of the field with the optional chain, which is the kind of the leaf in it, too. -/
def chainName : String := "optional_chain"

/-- The grammar lets the optional chain of a kind of accesses or calls be missing. No field that it
requires goes by the key of texts. -/
structure LeavesChainsOut (cx : MatchContext) (kind : String) : Prop where
  kind_mem : kind ∈ chainedKinds
  chain : cx.grammar.isOptional kind chainName = true
  noTextField : cx.grammar.isOptional kind textKey = true

/-- An access or a call, perhaps **with an optional chain**: besides that it holds just the fields
that its grammar requires, and no tokens. -/
structure IsChained (cx : MatchContext) (kind : String) (n : Node) : Prop where
  kind_eq : n.kind = kind
  text : n.text = none
  distinct : (n.fields.map Prod.fst).Nodup
  holdsNodes : ∀ entry ∈ n.fields, entry.2.holdsNodes = true
  required : ∀ name, name ≠ chainName →
    (name ∈ n.fields.map Prod.fst ↔ cx.grammar.isOptional kind name = false)
  chain : ∀ field, n.field? chainName = some field →
    ∃ span, field = .node (.leaf chainName "?." span)

section

variable {cx : MatchContext} {kind : String} {file query n : Node} {b : Bindings}

theorem IsChained.textKey_not_mem (h : IsChained cx kind n) (hgrammar : LeavesChainsOut cx kind) :
    textKey ∉ n.fields.map Prod.fst := by
  rw [h.required textKey (by decide), hgrammar.noTextField]
  exact Bool.noConfusion

theorem IsChained.keys_eq (h : IsChained cx kind n) : n.keys = n.fields.map Prod.fst := by
  rw [Node.keys, h.text]
  exact List.append_nil _

theorem IsChained.childFields_eq (h : IsChained cx kind n) :
    n.childFields = n.fields.map Prod.fst := by
  rw [Node.childFields, List.filter_eq_self.2 h.holdsNodes]

theorem IsChained.isSome_field? (h : IsChained cx kind n) (name : String) :
    (n.field? name).isSome = true ↔ name ∈ n.fields.map Prod.fst := by
  constructor
  · intro hsome
    obtain ⟨field, hfield⟩ := Option.isSome_iff_exists.1 hsome
    exact List.mem_map.2 ⟨_, Node.mem_fields_of_field? hfield, rfl⟩
  · intro hname
    obtain ⟨⟨_, field⟩, hentry, rfl⟩ := List.mem_map.1 hname
    rw [Node.field?_of_mem_fields h.distinct hentry]
    rfl

/-- Besides their chains, two such nodes of one kind hold fields of the same names. -/
theorem IsChained.mem_names_iff (hfile : IsChained cx kind file) (hquery : IsChained cx kind query)
    {name : String} (hne : name ≠ chainName) :
    name ∈ file.fields.map Prod.fst ↔ name ∈ query.fields.map Prod.fst := by
  rw [hfile.required name hne, hquery.required name hne]

/-- No step before the comparison key by key concerns a query node that is an access, a call or a
chain, but the rule for chains. -/
theorem ComparesForms.compare_chained (h : ComparesForms cx)
    (hkind : query.kind ∈ chainName :: chainedKinds) (file : Node) (b : Bindings) :
    compare cx file query b =
      match optionalChain cx.config file query b with
      | (some verdict, c) => (.ofVerdict file verdict, c)
      | (none, c) => (compareFields cx file query, c) := by
  have hall : ∀ k ∈ [javaScriptKinds, typeScriptKinds], ∀ kind ∈ chainName :: chainedKinds,
      k.isIdentifier kind = false ∧ k.isString kind = false ∧ k.isNumber kind = false ∧
        (kind == k.block) = false := by decide
  obtain ⟨hidentifier, hstring, hnumber, hblock⟩ :=
    hall cx.kinds (by simpa using h.kinds) query.kind hkind
  have hne : ∀ kind, kind ∉ chainName :: chainedKinds → query.kind ≠ kind := by
    rintro kind hnot rfl
    exact hnot hkind
  have hbefore : Rule.first? cx.config file query cx.grammar.rulesBefore b = (none, b) := by
    rw [h.before]
    simp [Rule.first?, selfClosing, hne "jsx_element" (by decide),
      hne "jsx_self_closing_element" (by decide)]
  have hvalue : valueField? cx file.kind query = none := by
    rw [valueField?, hidentifier, Bool.and_false]
    rfl
  have hwildcard : compareWildcard? cx file query b = none := by
    rw [compareWildcard?_eq]
    simp [MatchContext.nameWildcard?, MatchContext.stringWildcard?, MatchContext.isAnyNumber,
      MatchContext.isWholeFile, hidentifier, hstring, hnumber, hblock]
  have hdestructuring : destructuring cx.config file query b = (none, b) := by
    simp [destructuring, destructuredKeys?, hne "pair_pattern" (by decide),
      hne "shorthand_property_identifier_pattern" (by decide)]
  have hshapes : propertyShapes cx.config file query b = (none, b) := by
    simp [propertyShapes, hne "pair" (by decide), hne "shorthand_property_identifier" (by decide)]
  rw [CodeSearch.compare_eq, hbefore]
  simp only [hvalue, comparePlain, hwildcard, h.after, Rule.first?, hdestructuring, hshapes]
  cases hchain : optionalChain cx.config file query b with
  | mk verdict? c => cases verdict? <;> rfl

/-- Two chains match, and bind nothing. -/
theorem ComparesForms.validate_chains (h : ComparesForms cx) (span other : Span) (b : Bindings) :
    validate cx (.leaf chainName "?." span) (.leaf chainName "?." other) b = .accept b := by
  have hrule : optionalChain cx.config (.leaf chainName "?." span) (.leaf chainName "?." other) b =
      (none, b) := by
    simp [optionalChain, Node.leaf, chainName]
  have hcompare : compare cx (.leaf chainName "?." span) (.leaf chainName "?." other) b =
      (.closed (.leaf chainName "?." span) true, b) := by
    rw [h.compare_chained List.mem_cons_self, hrule, h.compareFields_leaf (by decide),
      Text.sameText_refl]
  have hnames : ([] : List FieldPath) = ([] : List String).map ([·]) := rfl
  exact validate_of_sameFields hcompare rfl hnames hnames

/-! ## The two ways -/

/-- Key by key, accesses and calls of one kind leave all fields of the query to agree, unless only
the query has a chain. -/
theorem ComparesForms.compareFields_chained (h : ComparesForms cx)
    (hgrammar : LeavesChainsOut cx kind) (hfile : IsChained cx kind file)
    (hquery : IsChained cx kind query)
    (hchain : chainName ∈ query.fields.map Prod.fst → chainName ∈ file.fields.map Prod.fst) :
    compareFields cx file query = .sameFields file true (query.fields.map Prod.fst) := by
  -- a chain of the file counts just if the query has one
  have hcounted : ∀ key, key ∈ countedKeys cx file query ↔ key ∈ query.fields.map Prod.fst := by
    intro key
    rw [countedKeys, if_pos h.mode, List.mem_filter, hfile.keys_eq, hquery.keys_eq, hfile.kind_eq,
      Bool.or_eq_true, List.contains_iff_mem, Bool.not_eq_true']
    by_cases hkey : key = chainName
    · subst hkey
      rw [hgrammar.chain]
      constructor
      · rintro ⟨-, hmem | hno⟩
        · exact hmem
        · exact Bool.noConfusion hno
      · exact fun hmem => ⟨hchain hmem, Or.inl hmem⟩
    · rw [hfile.mem_names_iff hquery hkey]
      exact ⟨fun hmem => hmem.1, fun hmem => ⟨hmem, Or.inl hmem⟩⟩
  have hfields : ∀ key ∈ query.fields.map Prod.fst, ∃ left right,
      query.field? key = some left ∧ file.field? key = some right ∧
        left.holdsNodes = true ∧ right.holdsNodes = true := by
    intro key hkey
    obtain ⟨left, hleft⟩ := Option.isSome_iff_exists.1 ((hquery.isSome_field? key).2 hkey)
    have hmem : key ∈ file.fields.map Prod.fst := by
      by_cases hname : key = chainName
      · exact hname ▸ hchain (hname ▸ hkey)
      · exact (hfile.mem_names_iff hquery hname).2 hkey
    obtain ⟨right, hright⟩ := Option.isSome_iff_exists.1 ((hfile.isSome_field? key).2 hmem)
    exact ⟨left, right, hleft, hright, hquery.holdsNodes _ (Node.mem_fields_of_field? hleft),
      hfile.holdsNodes _ (Node.mem_fields_of_field? hright)⟩
  have hagree : AgreeByKeys cx file query := by
    refine ⟨?_, ?_, fun key hkey => ?_, fun htext => ?_, fun key hkey _ => ?_⟩
    · rw [hfile.kind_eq, hquery.kind_eq]
      exact h.sameKind_iff.2 rfl
    · have hnodup : (countedKeys cx file query).Nodup := by
        rw [countedKeys, if_pos h.mode, hfile.keys_eq]
        exact hfile.distinct.filter _
      rw [hquery.keys_eq]
      exact ((List.perm_ext_iff_of_nodup hquery.distinct hnodup).2 fun key =>
        (hcounted key).symm).length_eq
    · rw [hquery.keys_eq] at hkey
      exact (hcounted key).2 hkey
    · rw [hquery.keys_eq] at htext
      exact absurd htext (hquery.textKey_not_mem hgrammar)
    · rw [hquery.keys_eq] at hkey
      obtain ⟨left, right, hleft, hright, hnodes, -⟩ := hfields key hkey
      refine ⟨left, right, hleft, hright, ?_⟩
      rintro l r rfl rfl
      exact absurd hnodes Bool.false_ne_true
  -- nothing is compared at once, and what is left stands in the order of the query
  obtain ⟨-, names, heq, hnames⟩ := compareFields_agrees (compareFields_of_agreeByKeys hagree)
  obtain ⟨names', hsublist, hkeys⟩ := compareFields_queryKeys cx file query
  obtain rfl : names = names' := by
    rw [heq] at hkeys
    exact List.map_injective_iff.2 (fun _ _ heq => (List.cons.inj heq).1) hkeys
  have hall : query.fields.map Prod.fst ⊆ names := by
    intro key hkey
    obtain ⟨left, right, hleft, hright, hnodes, -⟩ := hfields key hkey
    refine (hnames key).2 ⟨by rwa [hquery.keys_eq], ?_, left, right, hleft, hright, Or.inl hnodes⟩
    rintro rfl
    exact hquery.textKey_not_mem hgrammar hkey
  rw [heq, hsublist.eq_of_length_le (hquery.distinct.subperm hall).length_le]

/-- If only the query has a chain, the rule leaves its other fields to agree. -/
theorem ComparesForms.optionalChain_chained (h : ComparesForms cx)
    (hgrammar : LeavesChainsOut cx kind) (hfile : IsChained cx kind file)
    (hquery : IsChained cx kind query) (hchain : chainName ∈ query.fields.map Prod.fst)
    (hnone : chainName ∉ file.fields.map Prod.fst) (b : Bindings) :
    optionalChain cx.config file query b =
      (some (.accept (((query.removeField chainName).fields.map Prod.fst).map fun name =>
        ([name], [name]))), b) := by
  have hguard : (cx.config.mode.allowsExtra && chainedKinds.contains query.kind &&
      query.kind == file.kind && (query.field? chainName).isSome &&
        (file.field? chainName).isNone) = true := by
    have hmissing : file.field? chainName = none := by
      rwa [← Option.not_isSome_iff_eq_none, hfile.isSome_field?]
    rw [h.mode, hquery.kind_eq, hfile.kind_eq, List.contains_iff_mem.2 hgrammar.kind_mem,
      (hquery.isSome_field? _).2 hchain, hmissing, beq_self_eq_true]
    rfl
  have hall : (((query.removeField chainName).fields.map Prod.fst).any fun name =>
      (file.resolve [name]).isNone) = false := by
    rw [Node.names_removeField hquery.distinct]
    refine List.any_eq_false.2 fun name hname => ?_
    obtain ⟨hmem, hne⟩ := List.mem_filter.1 hname
    have hsome := (hfile.isSome_field? name).2
      ((hfile.mem_names_iff hquery (bne_iff_ne.1 hne)).2 hmem)
    rw [Node.resolve, Option.isNone_iff_eq_none]
    intro hno
    rw [hno] at hsome
    exact Bool.false_ne_true hsome
  rw [Node.names_removeField hquery.distinct] at hall ⊢
  rw [← hquery.childFields_eq] at hall ⊢
  refine (if_pos hguard).trans ?_
  exact if_neg (Bool.eq_false_iff.1 hall)

/-- **Chains do not count**: what is left to agree between accesses or calls is what the query holds
besides its chain, whichever of the two has one. -/
theorem ComparesForms.validate_chained (h : ComparesForms cx) (hgrammar : LeavesChainsOut cx kind)
    (hfile : IsChained cx kind file) (hquery : IsChained cx kind query) (b : Bindings) :
    validate cx file query b =
      Validation.inTurn (((query.removeField chainName).fields.map Prod.fst).map fun name =>
        validatePath cx (validate cx) file query [name] [name]) b := by
  have hkind : query.kind ∈ chainName :: chainedKinds := by
    rw [hquery.kind_eq]
    exact List.mem_cons_of_mem _ hgrammar.kind_mem
  have hcompare := h.compare_chained hkind file b
  by_cases honly : chainName ∈ query.fields.map Prod.fst ∧ chainName ∉ file.fields.map Prod.fst
  · rw [h.optionalChain_chained hgrammar hfile hquery honly.1 honly.2] at hcompare
    refine validate_of_sameFields hcompare rfl ?_ ?_
    · exact List.map_map
    · exact List.map_map
  · have hchain : chainName ∈ query.fields.map Prod.fst →
        chainName ∈ file.fields.map Prod.fst := fun hmem => by
      by_contra hnot
      exact honly ⟨hmem, hnot⟩
    have hrule : optionalChain cx.config file query b = (none, b) := by
      unfold optionalChain
      dsimp only
      refine if_neg fun hguard => honly ?_
      simp only [Bool.and_eq_true, Option.isNone_iff_eq_none] at hguard
      refine ⟨(hquery.isSome_field? chainName).1 hguard.1.2, fun hmem => ?_⟩
      have hsome := (hfile.isSome_field? chainName).2 hmem
      rw [chainName, hguard.2] at hsome
      exact Bool.false_ne_true hsome
    rw [hrule] at hcompare
    dsimp only at hcompare
    rw [h.compareFields_chained hgrammar hfile hquery hchain] at hcompare
    rw [validate_of_sameFields hcompare rfl rfl rfl, Node.names_removeField hquery.distinct]
    -- two chains are equal leaves, a step that does nothing
    refine inTurn_filter (fun name hname hno c => ?_) b
    obtain rfl : name = chainName := by simpa using hno
    obtain ⟨left, hleft⟩ := Option.isSome_iff_exists.1 ((hquery.isSome_field? chainName).2 hname)
    obtain ⟨right, hright⟩ :=
      Option.isSome_iff_exists.1 ((hfile.isSome_field? chainName).2 (hchain hname))
    obtain ⟨span, rfl⟩ := hquery.chain left hleft
    obtain ⟨other, rfl⟩ := hfile.chain right hright
    simp only [validatePath, Node.resolve, hleft, hright]
    exact h.validate_chains other span c

/-- Two nodes are the same **up to their chains**: they hold the same besides. -/
def SameUpToChain (left right : Node) : Prop :=
  (left.removeField chainName).fields = (right.removeField chainName).fields

theorem SameUpToChain.field?_eq {left right : Node} (h : SameUpToChain left right) {name : String}
    (hne : name ≠ chainName) : left.field? name = right.field? name := by
  rw [← left.field?_removeField_of_ne hne, ← right.field?_removeField_of_ne hne]
  exact congrArg (List.lookup name) h

/-- Nodes that are the same up to their chains match alike, with the same bindings. -/
theorem ComparesForms.validate_upToChain (h : ComparesForms cx) (hgrammar : LeavesChainsOut cx kind)
    {file' query' : Node} (hfile : IsChained cx kind file) (hfile' : IsChained cx kind file')
    (hquery : IsChained cx kind query) (hquery' : IsChained cx kind query')
    (hfiles : SameUpToChain file file') (hqueries : SameUpToChain query query') (b : Bindings) :
    validate cx file query b = validate cx file' query' b := by
  rw [h.validate_chained hgrammar hfile hquery, h.validate_chained hgrammar hfile' hquery',
    ← (hqueries : (query.removeField chainName).fields = _)]
  refine congrArg (Validation.inTurn · b) (List.map_congr_left fun name hname => ?_)
  rw [Node.names_removeField hquery.distinct] at hname
  have hne : name ≠ chainName := bne_iff_ne.1 (List.mem_filter.1 hname).2
  funext c
  simp only [validatePath, Node.resolve, hfiles.field?_eq hne, hqueries.field?_eq hne]

end

end Ecma

namespace Language

/-- **Optional chains are invisible** in JavaScript and TypeScript where further code is ignored.
Between accesses or calls that hold just what their grammar requires, perhaps with an optional
chain, matching comes out the same, verdict and bindings, whether the file has its chain or not and
whether the query has one or not. -/
theorem optionalChain_invisible {language : Language}
    (hlanguage : language ∈ [Language.javaScript, .typeScript, .tsx]) (parsers : ParserSet)
    {config : SearchConfig} (source : String) (hmode : config.mode.allowsExtra = true)
    {kind : String}
    (hgrammar : Ecma.LeavesChainsOut (language.context parsers config source) kind)
    {file file' query query' : Node}
    (hfile : Ecma.IsChained (language.context parsers config source) kind file)
    (hfile' : Ecma.IsChained (language.context parsers config source) kind file')
    (hquery : Ecma.IsChained (language.context parsers config source) kind query)
    (hquery' : Ecma.IsChained (language.context parsers config source) kind query')
    (hfiles : Ecma.SameUpToChain file file') (hqueries : Ecma.SameUpToChain query query')
    (b : Bindings) :
    validate (language.context parsers config source) file query b =
      validate (language.context parsers config source) file' query' b :=
  (comparesForms hlanguage parsers source hmode).validate_upToChain hgrammar hfile hfile' hquery
    hquery' hfiles hqueries b

/-- What a parser says of accesses: they have an object and a property, and perhaps a chain. -/
def accessTypes : NodeTypes :=
  [("member_expression", { fields := [("object", ⟨false, true⟩), ("property", ⟨false, true⟩),
      ("optional_chain", ⟨false, false⟩)] })]

/-- A parser that knows no text, but accesses. -/
def accessParsers : ParserSet := ⟨fun _ _ => none, fun _ => accessTypes⟩

/-- The access to a property, with a chain or without. -/
def accessOf (object property : String) (chained : Bool) : Node :=
  .mk "member_expression" none
    ([("object", .node (.leaf "identifier" object .zero))] ++
      (if chained then [("optional_chain", .node (.leaf "optional_chain" "?." .zero))] else []) ++
        [("property", .node (.leaf "property_identifier" property .zero))]) .zero

theorem leavesChainsOut_access (config : SearchConfig) :
    Ecma.LeavesChainsOut (javaScript.context accessParsers config "") "member_expression" :=
  ⟨by decide, rfl, rfl⟩

theorem isChained_accessOf (config : SearchConfig) (object property : String) (chained : Bool) :
    Ecma.IsChained (javaScript.context accessParsers config "") "member_expression"
      (accessOf object property chained) where
  kind_eq := rfl
  text := rfl
  distinct := by cases chained <;> simp [accessOf]
  holdsNodes := by cases chained <;> simp [accessOf, Field.holdsNodes]
  required := by
    intro name hname
    have hnames : name ∈ (accessOf object property chained).fields.map Prod.fst ↔
        name = "object" ∨ name = "property" := by
      cases chained <;> simp [accessOf, show name ≠ "optional_chain" from hname]
    have hoptional : accessTypes.isOptional "member_expression" name = false ↔
        name = "object" ∨ name = "property" := by
      by_cases hobject : name = "object"
      · subst hobject; decide
      by_cases hproperty : name = "property"
      · subst hproperty; decide
      have hfield : (List.lookup name [("object", (⟨false, true⟩ : Arity)),
          ("property", ⟨false, true⟩), ("optional_chain", ⟨false, false⟩)]) = none := by
        simpa [List.lookup_eq_none_iff] using ⟨hobject, hproperty, hname⟩
      simp [NodeTypes.isOptional, NodeTypes.shape?, KindShape.field?, accessTypes, hfield, hobject,
        hproperty]
    exact hnames.trans hoptional.symm
  chain := by
    cases chained with
    | false =>
        intro field hfield
        have hnone : (accessOf object property false).field? Ecma.chainName = none := rfl
        rw [hnone] at hfield
        cases hfield
    | true => exact fun field hfield => ⟨.zero, (Option.some.inj hfield).symm⟩

/-- The four ways to have chains or not in the file `a.b` and the query `$$_x.b`. -/
theorem optionalChain_invisible_access :
    let cx := javaScript.context accessParsers { mode := .contained } ""
    javaScript ∈ [javaScript, .typeScript, .tsx] ∧ Mode.contained.allowsExtra = true ∧
      Ecma.LeavesChainsOut cx "member_expression" ∧
      (∀ object chained, Ecma.IsChained cx "member_expression" (accessOf object "b" chained)) ∧
      (∀ object left right,
        Ecma.SameUpToChain (accessOf object "b" left) (accessOf object "b" right)) ∧
      (validate cx (accessOf "a" "b" false) (accessOf "$$_x" "b" false) .empty).agrees = true ∧
      ∀ fileChained queryChained,
        validate cx (accessOf "a" "b" fileChained) (accessOf "$$_x" "b" queryChained) .empty =
          validate cx (accessOf "a" "b" false) (accessOf "$$_x" "b" false) .empty := by
  intro cx
  have hlanguage : javaScript ∈ [javaScript, .typeScript, .tsx] := by decide
  have hgrammar := leavesChainsOut_access { mode := .contained }
  have hchained := isChained_accessOf { mode := .contained }
  have hsame : ∀ object left right,
      Ecma.SameUpToChain (accessOf object "b" left) (accessOf object "b" right) := by
    intro object left right
    cases left <;> cases right <;> rfl
  refine ⟨hlanguage, rfl, hgrammar, fun object => hchained object "b", hsame, by decide +kernel,
    fun fileChained queryChained => ?_⟩
  exact optionalChain_invisible hlanguage accessParsers "" rfl hgrammar (hchained _ _ _)
    (hchained _ _ _) (hchained _ _ _) (hchained _ _ _) (hsame _ _ _) (hsame _ _ _) .empty

end Language

end CodeSearch

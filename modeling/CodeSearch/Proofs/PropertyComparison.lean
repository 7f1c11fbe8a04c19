import CodeSearch.Proofs.LanguageAliases
import CodeSearch.Proofs.MetUses

/-!
# How properties are compared

The languages in which a property `a: a` may be written as `a` for short compare the two forms along
different ways. Names of one kind are compared as names are anywhere. A pair of a query and a
shorthand property of a file are settled by a rule, which reads the texts of the value and of the
key. Two pairs leave their keys and values to agree, unless the keys are of different kinds: then
the rule reads these as texts too. This file says of each way which uses of aliases it meets.
-/

set_option autoImplicit false

namespace CodeSearch.Ecma

/-! ## Nodes of properties -/

/-- The search is in one of the languages whose properties have several forms, and ignores further
code. -/
structure ComparesForms (cx : MatchContext) : Prop extends HasRules cx where
  kinds : cx.kinds = javaScriptKinds ∨ cx.kinds = typeScriptKinds
  sanitize : ∀ kind text, kind ≠ "string" → cx.grammar.sanitize kind text = text
  mode : cx.config.mode.allowsExtra = true

/-- The kinds of names that stand in properties. -/
def formNames : List String :=
  ["shorthand_property_identifier", "property_identifier", "identifier"]

section

variable {cx : MatchContext} {file query : Node} {b : Bindings}

/-- Properties and their names hold no default value, no string and no number, and are no whole
files. -/
theorem ComparesForms.plain (h : ComparesForms cx) (hkind : file.kind ∈ "pair" :: formNames) :
    cx.kinds.defaultValueField? file.kind = none ∧ cx.kinds.isString file.kind = false ∧
      cx.kinds.isNumber file.kind = false ∧ cx.kinds.isProgram file.kind = false := by
  have hall : ∀ k ∈ [javaScriptKinds, typeScriptKinds], ∀ kind ∈ "pair" :: formNames,
      k.defaultValueField? kind = none ∧ k.isString kind = false ∧ k.isNumber kind = false ∧
        k.isProgram kind = false := by decide
  exact hall cx.kinds (by simpa using h.kinds) file.kind hkind

theorem ComparesForms.sameKind_iff (h : ComparesForms cx) {left right : String} :
    cx.kinds.sameKind left right = true ↔ left = right := by
  have hequivalent : cx.kinds.equivalent = [] := by
    rcases h.kinds with heq | heq <;> rw [heq] <;> rfl
  simp [NodeKinds.sameKind, hequivalent]

/-- No rule before wildcards and no default value concerns properties and their names. -/
theorem ComparesForms.compare_eq (h : ComparesForms cx) (hkind : file.kind ∈ "pair" :: formNames)
    (query : Node) (b : Bindings) : compare cx file query b = comparePlain cx file query b := by
  have hne : ∀ kind, kind ∉ "pair" :: formNames → file.kind ≠ kind := by
    rintro kind hnot rfl
    exact hnot hkind
  have hbefore : Rule.first? cx.config file query cx.grammar.rulesBefore b = (none, b) := by
    rw [h.before]
    simp [Rule.first?, selfClosing, hne "jsx_element" (by decide),
      hne "jsx_self_closing_element" (by decide)]
  have hvalue : valueField? cx file.kind query = none := by
    rw [valueField?, (h.plain hkind).1, ite_self]
  rw [CodeSearch.compare_eq, hbefore]
  simp only [hvalue]

/-- Of the rules after wildcards only the one for properties concerns them. -/
theorem ComparesForms.rulesAfter_eq (h : ComparesForms cx) (hkind : file.kind ∈ "pair" :: formNames)
    (query : Node) (b : Bindings) :
    Rule.first? cx.config file query cx.grammar.rulesAfter b =
      propertyShapes cx.config file query b := by
  have hne : ∀ kind, kind ∉ "pair" :: formNames → file.kind ≠ kind := by
    rintro kind hnot rfl
    exact hnot hkind
  have hdestructuring : destructuring cx.config file query b = (none, b) := by
    simp [destructuring, destructuredKeys?, hne "pair_pattern" (by decide),
      hne "shorthand_property_identifier_pattern" (by decide)]
  have hchain : ∀ c, optionalChain cx.config file query c = (none, c) := by
    intro c
    have hother : ∀ kind ∈ ["member_expression", "subscript_expression", "call_expression"],
        kind ≠ file.kind := by
      rintro kind hmem rfl
      exact absurd hkind ((by decide : ∀ kind ∈ ["member_expression", "subscript_expression",
        "call_expression"], kind ∉ "pair" :: formNames) _ hmem)
    simp only [optionalChain]
    split
    next hyes =>
      simp only [Bool.and_eq_true, beq_iff_eq, List.contains_iff_mem] at hyes
      exact absurd hyes.1.1.2 (hother _ hyes.1.1.1.2)
    next => rfl
  rw [h.after, Rule.first?, hdestructuring]
  simp only [Rule.first?, hchain]
  split
  next heq => rw [heq]
  next c heq => rw [heq]

/-- A node of the query that is no wildcard is compared by the rule for properties, or else key by
key. -/
theorem ComparesForms.compare_of_plain (h : ComparesForms cx)
    (hkind : file.kind ∈ "pair" :: formNames) (hname : cx.nameWildcard? query = none)
    (hnumber : cx.isAnyNumber query = false) :
    compare cx file query b =
      match propertyShapes cx.config file query b with
      | (some verdict, c) => (.ofVerdict file verdict, c)
      | (none, c) => (compareFields cx file query, c) := by
  obtain ⟨-, hstring, -, hprogram⟩ := h.plain hkind
  have hno : cx.stringWildcard? file query = none := by
    rw [MatchContext.stringWildcard?, if_neg]
    rw [Bool.and_eq_true, beq_iff_eq]
    rintro ⟨hquery, hkinds⟩
    rw [hkinds, hstring] at hquery
    cases hquery
  have hwhole : cx.isWholeFile file query = false := by
    rw [MatchContext.isWholeFile, hprogram, Bool.and_false]
  have hwildcard : compareWildcard? cx file query b = none := by
    rw [compareWildcard?_eq]
    simp [hname, hno, hnumber, hwhole]
  have hrules := h.rulesAfter_eq hkind query b
  generalize propertyShapes cx.config file query b = found at hrules ⊢
  obtain ⟨_ | verdict, c⟩ := found
  · simp [h.compare_eq hkind, comparePlain, hwildcard, hrules]
  · simp [h.compare_eq hkind, comparePlain, hwildcard, hrules]

/-- Where the rule for properties has no verdict and the query has no wildcard, nodes agree only if
they are of one kind. -/
theorem ComparesForms.kind_of_agrees (h : ComparesForms cx)
    (hkind : file.kind ∈ "pair" :: formNames) (hname : cx.nameWildcard? query = none)
    (hrule : propertyShapes cx.config file query b = (none, b))
    (hagrees : (compare cx file query b).1.agrees = true) : query.kind = file.kind := by
  obtain ⟨-, -, hnumber, hprogram⟩ := h.plain hkind
  rw [h.compare_eq hkind] at hagrees
  have hplain := comparePlain_agrees hagrees
  generalize (comparePlain cx file query b).1 = found, (comparePlain cx file query b).2 = c
    at hplain
  cases hplain with
  | anyTree hsome => simp [hname] at hsome
  | tree hsome => simp [hname] at hsome
  | name hsome => simp [hname] at hsome
  | string _ hstring =>
      rw [MatchContext.stringWildcard?] at hstring
      split at hstring
      next hkinds => simpa using (Bool.and_eq_true_iff.1 hkinds).2
      next => cases hstring
  | number _ _ _ hfile => simp [hnumber] at hfile
  | block _ _ _ hfile => simp [MatchContext.isWholeFile, hprogram] at hfile
  | rule _ _ _ hverdict =>
      rw [h.rulesAfter_eq hkind, hrule] at hverdict
      cases hverdict
  | fields _ _ _ _ hfields => exact h.sameKind_iff.1 (compareFields_agrees hfields).1.kind

/-- A node that the rule for properties accepts as it stands matches, with what the rule binds. -/
theorem ComparesForms.bindings?_of_accept (h : ComparesForms cx) {c : Bindings}
    (hkind : file.kind ∈ "pair" :: formNames) (hname : cx.nameWildcard? query = none)
    (hnumber : cx.isAnyNumber query = false)
    (hrule : propertyShapes cx.config file query b = (some (.accept []), c)) :
    (validate cx file query b).bindings? = some c := by
  have hcompare : compare cx file query b = (.ofVerdict file (.accept []), c) := by
    rw [h.compare_of_plain hkind hname hnumber, hrule]
  exact bindings?_validate_of_closed hcompare rfl rfl

/-- A node that the rule for properties rejects does not match. -/
theorem ComparesForms.bindings?_of_reject (h : ComparesForms cx) {c : Bindings}
    (hkind : file.kind ∈ "pair" :: formNames) (hname : cx.nameWildcard? query = none)
    (hnumber : cx.isAnyNumber query = false)
    (hrule : propertyShapes cx.config file query b = (some .reject, c)) :
    (validate cx file query b).bindings? = none := by
  have hcompare : compare cx file query b = (.ofVerdict file .reject, c) := by
    rw [h.compare_of_plain hkind hname hnumber, hrule]
  exact bindings?_validate_of_closed hcompare rfl rfl

end

/-! ## Names -/

section

variable {cx : MatchContext} {file query : Node} {b : Bindings} {kind pattern value name : String}
  {span other : Span}

theorem ComparesForms.isIdentifier (h : ComparesForms cx) (hkind : kind ∈ formNames) :
    cx.kinds.isIdentifier kind = true := by
  have hall : ∀ k ∈ [javaScriptKinds, typeScriptKinds], ∀ kind ∈ formNames,
      k.isIdentifier kind = true := by decide
  exact hall cx.kinds (by simpa using h.kinds) kind hkind

/-- The rule for properties has no verdict on a name of the file but on a shorthand property, if the
query has a pair. -/
theorem ComparesForms.propertyShapes_of_names (h : ComparesForms cx) (hfile : file.kind ∈ formNames)
    (hquery : ¬ (query.kind = "pair" ∧ file.kind = "shorthand_property_identifier")) :
    propertyShapes cx.config file query b = (none, b) := by
  have hpair : file.kind ≠ "pair" := by
    intro hkind
    rw [hkind] at hfile
    exact absurd hfile (by decide)
  simp [propertyShapes, h.mode, hquery, hpair]

/-- Two leaves of one kind, other than strings, are compared as texts. -/
theorem ComparesForms.compareFields_leaf (h : ComparesForms cx) (hstring : kind ≠ "string") :
    compareFields cx (.leaf kind value span) (.leaf kind pattern other) =
      .closed (.leaf kind value span) (Text.sameText cx.config.ignoreCase pattern value) := by
  have hkeys : ∀ text place, (Node.leaf kind text place).keys = [textKey] := fun _ _ => rfl
  have hcounted :
      countedKeys cx (.leaf kind value span) (.leaf kind pattern other) = [textKey] := by
    simp [countedKeys, h.mode, hkeys]
  have htext : compareKey cx (.leaf kind value span) (.leaf kind pattern other) [textKey] textKey =
      .compared (Text.sameText cx.config.ignoreCase pattern value) := by
    rw [compareKey_text List.mem_cons_self]
    simp [Node.leaf, h.sanitize kind _ hstring]
  have hsame : cx.kinds.sameKind (Node.leaf kind pattern other).kind
      (Node.leaf kind value span).kind = true := h.sameKind_iff.2 rfl
  simp [compareFields, hcounted, hkeys, htext, hsame, Comparison.sameFields, Comparison.closed]

/-- Names of the file and of the query without wildcards are compared as texts. -/
theorem ComparesForms.compare_leaf (h : ComparesForms cx) (hkind : kind ∈ formNames)
    (hname : cx.nameWildcard? (.leaf kind pattern other) = none) :
    compare cx (.leaf kind value span) (.leaf kind pattern other) b =
      (.closed (.leaf kind value span) (Text.sameText cx.config.ignoreCase pattern value), b) := by
  have hfile : (Node.leaf kind value span).kind ∈ "pair" :: formNames :=
    List.mem_cons_of_mem _ hkind
  have hquery : (Node.leaf kind pattern other).kind ∈ "pair" :: formNames := hfile
  have hnumber : cx.isAnyNumber (.leaf kind pattern other) = false := by
    rw [MatchContext.isAnyNumber, (h.plain hquery).2.2.1]
    rfl
  have hrule : propertyShapes cx.config (.leaf kind value span) (.leaf kind pattern other) b =
      (none, b) := by
    refine h.propertyShapes_of_names hkind fun hkinds => ?_
    have hpair := hkinds.1
    rw [Node.leaf, Node.kind_mk] at hpair
    rw [hpair] at hkind
    exact absurd hkind (by decide)
  have hstring : kind ≠ "string" := by
    rintro rfl
    exact absurd hkind (by decide)
  rw [h.compare_of_plain hfile hname hnumber, hrule, h.compareFields_leaf hstring]

theorem ComparesForms.nameWildcard?_leaf (h : ComparesForms cx) (hkind : kind ∈ formNames) :
    cx.nameWildcard? (.leaf kind pattern other) =
      if cx.markers.hasWildcard pattern then some pattern else none := by
  rw [MatchContext.nameWildcard?, Node.leaf, Node.kind_mk, if_pos (h.isIdentifier hkind),
    Node.text_mk, Option.filter_some]

/-- A name of the query with wildcards **meets their uses** in a name of the file, whatever the
kinds of the two are. -/
theorem ComparesForms.wildcard_meets (h : ComparesForms cx) (hkind : kind ∈ formNames)
    {queryKind : String}
    (hwildcard : cx.nameWildcard? (.leaf queryKind pattern other) = some pattern) :
    MeetsUses cx
      (fun b => (validate cx (.leaf kind value span) (.leaf queryKind pattern other) b).bindings?)
      (cx.nodeUses? (.leaf kind value span) (.leaf queryKind pattern other) pattern value) := by
  have hform : (Node.leaf kind value span).kind ∈ "pair" :: formNames :=
    List.mem_cons_of_mem _ hkind
  rw [MatchContext.nodeUses?]
  split_ifs with htree
  · exact tree_meets (h.compare_eq hform _) htree
  · intro b d hsame
    show SameResult (validate cx _ _ b).bindings? _
    have hhas : cx.markers.hasWildcard pattern = true := 
      (MatchContext.nameWildcard?_eq_some hwildcard).2.2
    have hpart : cx.markers.isNodeTree pattern = false := by
      rw [standsForTree_iff] at htree
      simpa [hwildcard] using htree
    have hname : cx.fileName? (.leaf kind value span) = some value := by
      rw [MatchContext.fileName?, Node.leaf, Node.kind_mk, if_pos (h.isIdentifier hkind),
        Node.text_mk]
    have htyping :
        cx.sameTyping (.leaf kind value span) (.leaf queryKind pattern other) = true := by
      have hmode := h.mode
      rw [MatchContext.sameTyping]
      cases hexact : cx.config.mode <;> simp_all [Mode.allowsExtra]
    have hcompare := (h.compare_eq hform _ b).trans (comparePlain_of_name hwildcard b)
    rw [compareIdentifier_name hpart, hname, htyping] at hcompare
    rw [bindings?_validate_of_closed hcompare rfl rfl, Option.bind_some,
      Comparison.bindings?_getD (fun matched => .sameFields _ (matched && true) _) true
        (fun _ => rfl), if_pos rfl, MatchContext.textUses?, if_pos hhas, Option.bind_map]
    exact matchText?_follows cx (by decide) hsame pattern value

/-- A name of the query meets the uses of its wildcards in a name of the same kind. -/
theorem ComparesForms.name_meets (h : ComparesForms cx) (hkind : kind ∈ formNames) :
    MeetsUses cx
      (fun b => (validate cx (.leaf kind value span) (.leaf kind pattern other) b).bindings?)
      (cx.nodeUses? (.leaf kind value span) (.leaf kind pattern other) pattern value) := by
  have hwildcard : cx.nameWildcard? (.leaf kind pattern other) = _ := h.nameWildcard?_leaf hkind
  by_cases hhas : cx.markers.hasWildcard pattern = true
  · rw [if_pos hhas] at hwildcard
    exact h.wildcard_meets hkind hwildcard
  · rw [if_neg hhas] at hwildcard
    have htree : ¬ cx.standsForTree (.leaf kind pattern other) = true := by
      simp [MatchContext.standsForTree, hwildcard]
    rw [MatchContext.nodeUses?, if_neg htree, MatchContext.textUses?, if_neg hhas]
    intro b d hsame
    show SameResult (validate cx _ _ b).bindings? _
    rw [bindings?_validate_of_closed (h.compare_leaf hkind hwildcard) rfl rfl]
    cases Text.sameText cx.config.ignoreCase pattern value with
    | true => exact Option.Rel.some hsame
    | false => exact Option.Rel.none

/-- A name of the file never matches a node of another kind that is no wildcard, unless it is a
shorthand property. -/
theorem ComparesForms.other_meets (h : ComparesForms cx)
    (hkind : kind ∈ ["property_identifier", "identifier"]) (hquery : query.kind ≠ kind)
    (hname : cx.nameWildcard? query = none) :
    MeetsUses cx (fun b => (validate cx (.leaf kind name span) query b).bindings?) none := by
  refine MeetsUses.of_eq_none fun b => bindings?_validate_of_not_agrees fun hagrees => ?_
  have hform : kind ∈ formNames := List.mem_cons_of_mem _ hkind
  have hfile : (Node.leaf kind name span).kind ∈ "pair" :: formNames :=
    List.mem_cons_of_mem _ hform
  have hrule : propertyShapes cx.config (.leaf kind name span) query b = (none, b) := by
    refine h.propertyShapes_of_names hform fun hkinds => ?_
    have hshorthand := hkinds.2
    rw [Node.leaf, Node.kind_mk] at hshorthand
    rw [hshorthand] at hkind
    exact absurd hkind (by decide)
  exact hquery (h.kind_of_agrees hfile hname hrule hagrees)

/-- A text that is matched or compared with a value. -/
theorem matchOrCompare_meets {wildcardKind : WildcardKind} (hkind : wildcardKind ≠ .nodeTree)
    (pattern value : String) :
    MeetsUses cx (matchOrCompare cx.config pattern value wildcardKind)
      (cx.textUses? pattern value) := by
  intro b d hsame
  rw [matchOrCompare, MatchContext.textUses?, MatchContext.markers]
  by_cases hwildcard : cx.config.markers.hasWildcard pattern = true
  · rw [if_pos hwildcard, if_pos hwildcard, Option.bind_map]
    exact matchText?_follows cx hkind hsame pattern value
  · rw [if_neg hwildcard, if_neg hwildcard]
    split
    next => exact Option.Rel.some hsame
    next => exact Option.Rel.none

end

/-! ## Shorthand properties and pairs -/

/-- The shorthand property of a name. -/
def shorthandOf (name : String) (span : Span) : Node :=
  .leaf "shorthand_property_identifier" name span

/-- The pair of a key and a value. -/
def pairOf (key value : Node) (span : Span) : Node :=
  .mk "pair" none [("key", .node key), ("value", .node value)] span

/-- The pair that a shorthand property is short for. -/
def explicitOf (name : String) (keySpan valueSpan span : Span) : Node :=
  pairOf (.leaf "property_identifier" name keySpan) (.leaf "identifier" name valueSpan) span

/-- The name that the value of a pair is. -/
def valueText? (value : Node) : Option String :=
  if value.kind = "identifier" then value.text else none

/-- A **part** of a pair in a query, its key or value: any node, where names are leaves, as they are
in every parsed tree. -/
def IsPart (cx : MatchContext) (n : Node) : Prop :=
  cx.kinds.isIdentifier n.kind = true → ∃ text span, n = .leaf n.kind text span

/-- The text as which a part of a pair in a query is compared with a name in a pair: as what it is
read, or else its wildcards. -/
def partText? (cx : MatchContext) (read? : Node → Option String) (n : Node) : Option String :=
  (read? n).or (cx.nameWildcard? n)

/-- Matches or compares a name with several texts in turn. -/
def matchAll (config : MatchSettings) (name : String) : List String → Bindings → Option Bindings
  | [], b => some b
  | pattern :: rest, b => (matchOrCompare config pattern name .identifier b).bind
      (matchAll config name rest)

theorem matchAll_one (config : MatchSettings) (name pattern : String) :
    matchAll config name [pattern] = matchOrCompare config pattern name .identifier := by
  funext b
  cases hmatch : matchOrCompare config pattern name .identifier b <;> simp [matchAll, hmatch]

theorem matchAll_two (config : MatchSettings) (name first second : String) :
    matchAll config name [first, second] = fun b =>
      (matchOrCompare config first name .identifier b).bind
        (matchOrCompare config second name .identifier) := by
  funext b
  rw [← matchAll_one config name second]
  rfl

section

variable {cx : MatchContext} {key value fileKey fileValue : Node} {b : Bindings}
  {name : String} {span other keySpan valueSpan : Span}

theorem ComparesForms.isIdentifier_pair (h : ComparesForms cx) :
    cx.kinds.isIdentifier "pair" = false := by
  rcases h.kinds with heq | heq <;> rw [heq] <;> rfl

@[simp] theorem kind_shorthandOf : (shorthandOf name span).kind = "shorthand_property_identifier" :=
  rfl

@[simp] theorem kind_pairOf : (pairOf key value span).kind = "pair" := rfl

theorem kind_shorthandOf_mem : (shorthandOf name span).kind ∈ "pair" :: formNames :=
  List.mem_cons_of_mem _ List.mem_cons_self

theorem kind_pairOf_mem : (pairOf key value span).kind ∈ "pair" :: formNames := List.mem_cons_self

theorem ComparesForms.nameWildcard?_pairOf (h : ComparesForms cx) :
    cx.nameWildcard? (pairOf key value span) = none ∧
      cx.isAnyNumber (pairOf key value span) = false := by
  have hkind : (pairOf key value span).kind ∈ "pair" :: formNames := kind_pairOf_mem
  have hnumber : cx.kinds.isNumber "pair" = false := (h.plain hkind).2.2.1
  simp [MatchContext.nameWildcard?, MatchContext.isAnyNumber, h.isIdentifier_pair, hnumber]

/-- The rule's verdict on a pair of the query and a shorthand property of the file. -/
theorem ComparesForms.propertyShapes_onShorthand (h : ComparesForms cx) :
    propertyShapes cx.config (shorthandOf name span) (pairOf key value other) b =
      match pairAgainstShorthand cx.config (shorthandOf name span) (pairOf key value other) b with
      | some (true, bound) => (some (.accept []), bound)
      | some (false, bound) => (some .reject, bound)
      | none => (none, b) := by
  rcases hpair : pairAgainstShorthand cx.config (shorthandOf name span) (pairOf key value other) b
    with _ | ⟨_ | _, bound⟩ <;> simp [propertyShapes, h.mode, hpair]

/-- The rule reads first the value of the pair and then its key. -/
theorem pairAgainstShorthand_eq {config : MatchSettings} :
    pairAgainstShorthand config (shorthandOf name span) (pairOf key value other) b =
      (keyText? key).bind fun text =>
        match (valueText? value).bind fun pattern =>
          matchOrCompare config pattern name .identifier b with
        | none => some (false, b)
        | some bound =>
            match matchOrCompare config text name .identifier bound with
            | some both => some (true, both)
            | none => some (false, bound) := by
  have hread : ∀ f : String → Option Bindings, (valueText? value).bind f =
      if value.kind = "identifier" then value.text.bind f else none := by
    intro f
    rw [valueText?]
    split <;> rfl
  rw [hread]
  rfl

/-- A pair of the query matches a shorthand property by the texts of its value and its key. -/
theorem ComparesForms.pair_on_shorthand (h : ComparesForms cx) :
    (validate cx (shorthandOf name span) (pairOf key value other) b).bindings? =
      (keyText? key).bind fun text => (valueText? value).bind fun pattern =>
        matchAll cx.config name [pattern, text] b := by
  obtain ⟨hname, hnumber⟩ := h.nameWildcard?_pairOf
  have hrule : propertyShapes cx.config (shorthandOf name span) (pairOf key value other) b = _ :=
    h.propertyShapes_onShorthand
  rw [pairAgainstShorthand_eq] at hrule
  cases hkey : keyText? key with
  | none =>
      -- a key that is not read leaves nodes of different kinds
      rw [hkey] at hrule
      refine bindings?_validate_of_not_agrees fun hagrees => ?_
      have hkinds := h.kind_of_agrees kind_shorthandOf_mem hname hrule hagrees
      exact absurd hkinds (by simp)
  | some text =>
      have hboth : ((valueText? value).bind fun pattern =>
          matchAll cx.config name [pattern, text] b) =
          ((valueText? value).bind fun pattern =>
            matchOrCompare cx.config pattern name .identifier b).bind
              (matchOrCompare cx.config text name .identifier) := by
        simp only [matchAll_two, Option.bind_assoc]
      rw [Option.bind_some, hboth]
      rw [hkey, Option.bind_some] at hrule
      generalize ((valueText? value).bind fun pattern =>
        matchOrCompare cx.config pattern name .identifier b) = first at hrule ⊢
      cases first with
      | none => exact h.bindings?_of_reject kind_shorthandOf_mem hname hnumber hrule
      | some bound =>
          dsimp only at hrule
          rw [Option.bind_some]
          cases hsecond : matchOrCompare cx.config text name .identifier bound with
          | none =>
              rw [hsecond] at hrule
              exact h.bindings?_of_reject kind_shorthandOf_mem hname hnumber hrule
          | some both =>
              rw [hsecond] at hrule
              exact h.bindings?_of_accept kind_shorthandOf_mem hname hnumber hrule

/-- Two pairs are compared by the rule, or else by their keys and their values. -/
theorem ComparesForms.compare_pairs (h : ComparesForms cx) :
    compare cx (pairOf fileKey fileValue span) (pairOf key value other) b =
      match pairAgainstPair cx.config (pairOf fileKey fileValue span)
        (pairOf key value other) b with
      | some (some bound) =>
          (.sameFields (pairOf fileKey fileValue span) true ["value"], bound)
      | some none => (.closed (pairOf fileKey fileValue span) false, b)
      | none => (.sameFields (pairOf fileKey fileValue span) true ["key", "value"], b) := by
  obtain ⟨hname, hnumber⟩ := h.nameWildcard?_pairOf
  have hrule : propertyShapes cx.config (pairOf fileKey fileValue span) (pairOf key value other) b =
      match pairAgainstPair cx.config (pairOf fileKey fileValue span)
        (pairOf key value other) b with
      | some (some bound) => (some (.accept [(["value"], ["value"])]), bound)
      | some none => (some .reject, b)
      | none => (none, b) := by
    rcases hpair : pairAgainstPair cx.config (pairOf fileKey fileValue span)
      (pairOf key value other) b with _ | _ | bound <;> simp [propertyShapes, h.mode, hpair]
  have hfields : compareFields cx (pairOf fileKey fileValue span) (pairOf key value other) =
      .sameFields (pairOf fileKey fileValue span) true ["key", "value"] := by
    have hkeys : ∀ k v place, (pairOf k v place).keys = ["key", "value"] := fun _ _ _ => rfl
    have hcounted : countedKeys cx (pairOf fileKey fileValue span) (pairOf key value other) =
        ["key", "value"] := by
      simp [countedKeys, h.mode, hkeys]
    have hdeferred : ∀ name ∈ ["key", "value"], compareKey cx (pairOf fileKey fileValue span)
        (pairOf key value other) ["key", "value"] name = .deferred := by
      intro name hname
      simp only [List.mem_cons, List.not_mem_nil, or_false] at hname
      rcases hname with rfl | rfl <;> rfl
    simp [compareFields, hcounted, hkeys, hdeferred, h.sameKind_iff]
  rw [h.compare_of_plain kind_pairOf_mem hname hnumber, hrule, hfields]
  cases pairAgainstPair cx.config (pairOf fileKey fileValue span) (pairOf key value other) b with
  | none => rfl
  | some outcome => cases outcome <;> rfl

/-- Two pairs match if their values do after their keys, which the rule compares by their texts if
they are of different kinds. -/
theorem ComparesForms.pair_on_pair (h : ComparesForms cx) :
    (validate cx (pairOf fileKey fileValue span) (pairOf key value other) b).bindings? =
      ((pairAgainstPair cx.config (pairOf fileKey fileValue span) (pairOf key value other) b).getD
        (validate cx fileKey key b).bindings?).bind
          fun c => (validate cx fileValue value c).bindings? := by
  have hvalue : ∀ c, (Validation.inTurn [validatePath cx (validate cx)
      (pairOf fileKey fileValue span) (pairOf key value other) ["value"] ["value"]] c).bindings? =
        (validate cx fileValue value c).bindings? := by
    intro c
    show ((validate cx fileValue value c).andThen Validation.accept).bindings? = _
    rw [Validation.bindings?_andThen]
    exact Option.bind_fun_some _
  have hcompare : compare cx (pairOf fileKey fileValue span) (pairOf key value other) b = _ :=
    h.compare_pairs
  cases hkeys : pairAgainstPair cx.config (pairOf fileKey fileValue span) (pairOf key value other)
      b with
  | none =>
      rw [hkeys] at hcompare
      rw [validate_of_compare hcompare rfl rfl, Option.getD_none]
      show ((validate cx fileKey key b).andThen (Validation.inTurn [_])).bindings? = _
      rw [Validation.bindings?_andThen]
      exact congrArg _ (funext hvalue)
  | some outcome =>
      rw [Option.getD_some]
      cases outcome with
      | none =>
          rw [hkeys] at hcompare
          exact bindings?_validate_of_closed hcompare rfl rfl
      | some bound =>
          rw [hkeys] at hcompare
          rw [validate_of_compare hcompare rfl rfl, Option.bind_some]
          exact hvalue bound

/-- A key that is not an identifier is read as a text. -/
theorem nodeUses?_of_key (hkind : cx.kinds.isIdentifier key.kind = false)
    (pattern value : String) :
    cx.nodeUses? fileKey key pattern value = cx.textUses? pattern value := by
  rw [MatchContext.nodeUses?, MatchContext.standsForTree, MatchContext.nameWildcard?, hkind]
  rfl

/-- A part that is of another kind than a name of the file meets the uses of its wildcards, and no
uses at all if it has none. -/
theorem ComparesForms.part_meets (h : ComparesForms cx) {n : Node} (hpart : IsPart cx n)
    {kind : String} (hkind : kind ∈ ["property_identifier", "identifier"])
    (hother : n.kind ≠ kind) :
    MeetsUses cx (fun b => (validate cx (.leaf kind name span) n b).bindings?)
      ((cx.nameWildcard? n).bind fun pattern =>
        cx.nodeUses? (.leaf kind name span) n pattern name) := by
  cases hwildcard : cx.nameWildcard? n with
  | none => exact h.other_meets hkind hother hwildcard
  | some pattern =>
      obtain ⟨hidentifier, htext, -⟩ := MatchContext.nameWildcard?_eq_some hwildcard
      obtain ⟨text, place, hleaf⟩ := hpart hidentifier
      have hsame : text = pattern := by
        rw [hleaf] at htext
        exact Option.some.inj htext
      rw [hleaf, hsame] at hwildcard ⊢
      exact h.wildcard_meets (List.mem_cons_of_mem _ hkind) hwildcard

/-- What the value of a pair meets in the value of the pair that has a name for both. -/
theorem ComparesForms.value_meets (h : ComparesForms cx) (hvalue : IsPart cx value) :
    MeetsUses cx (fun b => (validate cx (.leaf "identifier" name valueSpan) value b).bindings?)
      ((partText? cx valueText? value).bind fun pattern =>
        cx.nodeUses? (.leaf "identifier" name valueSpan) value pattern name) := by
  by_cases hkind : value.kind = "identifier"
  · obtain ⟨text, place, hleaf⟩ := hvalue (hkind ▸ h.isIdentifier (by decide))
    rw [hkind] at hleaf
    have hread : partText? cx valueText? value = some text := by
      rw [hleaf]
      rfl
    rw [hread, Option.bind_some, hleaf]
    exact h.name_meets (by decide)
  · have hread : partText? cx valueText? value = cx.nameWildcard? value := by
      rw [partText?, valueText?, if_neg hkind, Option.none_or]
    rw [hread]
    exact h.part_meets hvalue (by decide) hkind

/-- What the key of a pair meets in the key of the pair that has a name for both. -/
theorem ComparesForms.key_meets (h : ComparesForms cx) (hkey : IsPart cx key) :
    MeetsUses cx
      (fun b => (pairAgainstPair cx.config (explicitOf name keySpan valueSpan span)
          (pairOf key value other) b).getD
        (validate cx (.leaf "property_identifier" name keySpan) key b).bindings?)
      ((partText? cx keyText? key).bind fun pattern =>
        cx.nodeUses? (.leaf "property_identifier" name keySpan) key pattern name) := by
  have hagainst : ∀ b, pairAgainstPair cx.config (explicitOf name keySpan valueSpan span)
      (pairOf key value other) b =
        if key.kind = "property_identifier" then none
        else (keyText? key).bind fun pattern =>
          some (matchOrCompare cx.config pattern name .string b) := fun _ => rfl
  simp only [hagainst]
  by_cases hkind : key.kind = "property_identifier"
  · obtain ⟨text, place, hleaf⟩ := hkey (hkind ▸ h.isIdentifier (by decide))
    rw [hkind] at hleaf
    have hread : partText? cx keyText? key = some text := by
      rw [hleaf]
      rfl
    simp only [if_pos hkind, hread, Option.bind_some, Option.getD_none]
    rw [hleaf]
    exact h.name_meets (by decide)
  · simp only [if_neg hkind]
    cases hread : keyText? key with
    | none =>
        rw [partText?, hread, Option.none_or]
        exact h.part_meets hkey (by decide) hkind
    | some text =>
        -- numbers and strings are read, and the rule compares what is read
        have hplain : cx.kinds.isIdentifier key.kind = false := by
          have hkinds : key.kind = "number" ∨ key.kind = "string" := by
            by_contra hneither
            rw [not_or] at hneither
            simp [keyText?, hkind, hneither] at hread
          rcases hkinds with heq | heq <;> rw [heq]
          · exact h.key.1
          · exact h.key.2
        rw [partText?, hread, Option.some_or, Option.bind_some, nodeUses?_of_key hplain]
        exact matchOrCompare_meets (by decide) text name

end

end CodeSearch.Ecma

import CodeSearch.Proofs.CssQuestions
import CodeSearch.Proofs.LanguageFilter
import CodeSearch.Proofs.MarkerRuns
import CodeSearch.Proofs.SelfMatch
import CodeSearch.Proofs.SourceText

/-!
# Code that is its own query, language by language

The rules of the languages compare parts of texts: what stands between quotes, or the unit of a
number. Where no text has a wildcard, neither has such a part, unless the marker is one of the
characters at which texts are cut. Then every rule spares two nodes that are equal, and parsed code
is taken literally: `Language.finds_itself`.
-/

set_option autoImplicit false

namespace CodeSearch

/-! ## Parts of texts -/

/-- Whether texts are cut at a character before they are compared: at quotes, at the sign of a
verbatim string, behind a number. -/
def Language.cutsAt : Language → Char → Bool
  | javaScript, c | typeScript, c | tsx, c | lua, c => Ecma.quotes.contains c
  | cSharp, c => c == '"' || c == '@'
  | rust, c => c == '"'
  | css, c => Ecma.quotes.contains c || Css.isNumeral c
  | python, _ | html, _ => false

section Parts

variable {m : Markers}

theorem hasWildcard_stripQuotes {quotes : List Char} {text : String} (hquotes : m.marker ∉ quotes)
    (h : m.hasWildcard text = false) : m.hasWildcard (stripQuotes quotes text) = false := by
  unfold stripQuotes
  split
  next first rest heq =>
    split
    next hquoted =>
      rw [Bool.and_eq_true, decide_eq_true_eq, List.contains_iff_mem] at hquoted
      have hfirst : first ≠ m.marker := by
        rintro rfl
        exact hquotes hquoted.2
      have hlast : rest.dropLast ++ [first] = rest :=
        List.dropLast_append_getLast? first hquoted.1
      refine Markers.hasWildcard_of_part [first] [first] ?_ ?_ ?_ h
      · rw [String.toList_ofList, List.append_assoc, hlast, heq]
        rfl
      · simpa using hfirst
      · simpa using hfirst
    next => exact h
  next => exact h

/-- No text is cut at the default marker. -/
theorem Language.cutsAt_default (language : Language) :
    language.cutsAt ({} : Markers).marker = false := by
  cases language <;> decide

/-- What is compared of a text without wildcards has none. -/
theorem Language.hasWildcard_sanitize {language : Language} {kind text : String}
    (hmarker : language.cutsAt m.marker = false) (h : m.hasWildcard text = false) :
    m.hasWildcard (language.dialect.sanitize kind text) = false := by
  have hstrip : ∀ other quotes, m.marker ∉ quotes →
      m.hasWildcard (if kind = other then stripQuotes quotes text else text) = false := by
    intro other quotes hquotes
    split
    next => exact hasWildcard_stripQuotes hquotes h
    next => exact h
  have hquotes : Ecma.quotes.contains m.marker = false → m.marker ∉ Ecma.quotes := by simp
  cases language with
  | javaScript => exact hstrip _ _ (hquotes hmarker)
  | typeScript => exact hstrip _ _ (hquotes hmarker)
  | tsx => exact hstrip _ _ (hquotes hmarker)
  | lua => exact hstrip _ _ (hquotes hmarker)
  | css => exact hstrip _ _ (hquotes (Bool.or_eq_false_iff.1 hmarker).1)
  | rust => exact hstrip _ _ (by simpa [cutsAt] using hmarker)
  | python => exact h
  | html => exact h
  | cSharp =>
      rw [cutsAt, Bool.or_eq_false_iff] at hmarker
      have hquote : m.marker ∉ ['"'] := by simpa using hmarker.1
      show m.hasWildcard (if kind = "string_literal" then stripQuotes ['"'] text
        else if kind = "verbatim_string_literal" then
          stripQuotes ['"'] (CSharp.withoutVerbatimSign text)
        else text) = false
      split
      next => exact hasWildcard_stripQuotes hquote h
      next =>
        split
        next =>
          refine hasWildcard_stripQuotes hquote ?_
          unfold CSharp.withoutVerbatimSign
          split
          next rest heq =>
            refine Markers.hasWildcard_of_part ['@'] [] ?_ ?_ (by simp) h
            · rw [String.toList_ofList, List.append_nil, heq]
              rfl
            · simpa using fun hsign : '@' = m.marker => by simp [← hsign] at hmarker
          next => exact h
        next => exact h

/-- The unit of a number without wildcards has none. -/
theorem hasWildcard_unit {text : String} (hmarker : Css.isNumeral m.marker = false)
    (h : m.hasWildcard text = false) :
    m.hasWildcard (String.ofList (Css.splitDimension text.toList).2) = false := by
  obtain ⟨htext, hnumerals⟩ := Css.splitDimension_eq
    (Prod.eta (Css.splitDimension text.toList)).symm
  refine Markers.hasWildcard_of_part (Css.splitDimension text.toList).1 []
    (by rw [String.toList_ofList, List.append_nil, ← htext]) (fun hlast => ?_) (by simp) h
  rw [hnumerals _ (List.mem_of_getLast? hlast)] at hmarker
  exact absurd hmarker (by decide)

end Parts

/-! ## Dimensions and colours -/

/-- The text of a node is plain if it has no wildcard and is no number that starts like the one that
stands for any number. -/
def Node.IsPlain (n : Node) (markers : Markers) (kinds : NodeKinds) : Prop :=
  ∀ text, n.text = some text → markers.hasWildcard text = false ∧
    (kinds.isNumber n.kind = true → ¬ markers.numeric.toList <+: text.toList)

namespace Css

variable {config : MatchSettings} {file query : Node}

/-- Equal units agree. -/
theorem unitsVerdict_self {unit : String} (h : config.markers.hasWildcard unit = false)
    (b : Bindings) : unitsVerdict config unit unit b = (some (.accept []), b) := by
  rw [unitsVerdict, h]
  simp

theorem dimensions_spares (hmarker : isNumeral config.markers.marker = false)
    (hplain : file.IsPlain config.markers kinds) (htext : file.text = query.text) :
    Rule.Spares dimensions config file query := by
  intro b
  rcases dimensions_cases config file query b with
    hnone | ⟨queryText, fileText, hquery, hfile, hqueryText, hfileText⟩
  · exact Or.inl hnone
  · obtain rfl := Option.some.inj ((hqueryText.symm.trans htext.symm).trans hfileText)
    obtain ⟨hwildcard, hnumeric⟩ := hplain queryText hfileText
    rw [dimensions_eq config b hquery hfile hqueryText hfileText,
      Text.isPrefixOf?_eq_none (hnumeric hfile)]
    exact Or.inr (by rw [if_pos rfl, unitsVerdict_self (hasWildcard_unit hmarker hwildcard)])

theorem hashWildcard_spares (hkind : file.kind = query.kind) :
    Rule.Spares hashWildcard config file query := by
  intro b
  left
  unfold hashWildcard
  split
  next pattern colour hpattern hcolour =>
    rw [if_neg]
    rw [hkind]
    simp only [Bool.and_eq_true, beq_iff_eq, not_and]
    rintro ⟨hquery, hfile⟩
    rw [hquery] at hfile
    exact absurd hfile (by decide)
  next => rfl

end Css

/-! ## Properties and elements -/

namespace Ecma

variable {config : MatchSettings} {file query : Node}

/-- Nodes of one kind are not of two. -/
theorem not_kinds_of_ne {left right : String} (hkind : file.kind = query.kind)
    (hne : left ≠ right) : ¬ (query.kind = left ∧ file.kind = right) :=
  fun h => hne (h.1.symm.trans (hkind.symm.trans h.2))

theorem selfClosing_spares (hkind : file.kind = query.kind) :
    Rule.Spares selfClosing config file query := by
  intro b
  left
  rw [selfClosing, if_neg (not_kinds_of_ne hkind (by decide)),
    if_neg (not_kinds_of_ne hkind (by decide))]

/-- Equal properties are compared by the same key, which is the text of one of their nodes. -/
theorem destructuredKeys?_of_structEq {queryKey fileKey : String}
    (hnames : (file.fields.map Prod.fst).Nodup) (h : file.structEq query = true)
    (hkeys : destructuredKeys? file query = some (queryKey, fileKey)) :
    queryKey = fileKey ∧ ∃ m ∈ file.walk, m.text = some fileKey := by
  obtain ⟨hkind, htext, -⟩ := Node.structEq_iff.1 h
  obtain ⟨hquery, hfile⟩ := destructures_of_destructuredKeys? hkeys
  rcases hfile with ⟨hfile, hname⟩ | ⟨hfile, -, hfileKey⟩
  · rcases hquery with ⟨-, hqueryName⟩ | ⟨hquery, -⟩
    · rw [← htext, hname] at hqueryName
      exact ⟨(Option.some.inj hqueryName).symm, file, Node.mem_walk_self file, hname⟩
    · exact absurd (hfile.symm.trans (hkind.trans hquery)) (by decide)
  · rcases hquery with ⟨hquery, -⟩ | ⟨-, -, hqueryKey⟩
    · exact absurd (hfile.symm.trans (hkind.trans hquery)) (by decide)
    · obtain ⟨fileNode, hfileNode, -, hfileText⟩ := plainKey?_eq_some hfileKey
      obtain ⟨queryNode, hqueryNode, -, hqueryText⟩ := plainKey?_eq_some hqueryKey
      have hequal := Node.rel_child?_of_structEq hnames h "key"
      rw [hfileNode, hqueryNode, Option.rel_some_some] at hequal
      obtain ⟨-, hsame, -⟩ := Node.structEq_iff.1 hequal
      rw [hfileText, hqueryText] at hsame
      exact ⟨(Option.some.inj hsame).symm, fileNode, Node.mem_walk_of_mem_offspring
        (Node.mem_offspring_of_child? hfileNode) (Node.mem_walk_self fileNode), hfileText⟩

theorem destructuring_spares (hnames : (file.fields.map Prod.fst).Nodup)
    (h : file.structEq query = true)
    (hplain : ∀ m ∈ file.walk, ∀ text, m.text = some text →
      config.markers.hasWildcard text = false) :
    Rule.Spares destructuring config file query := by
  intro b
  rw [destructuring]
  split
  next =>
    split
    next queryKey fileKey hkeys =>
      obtain ⟨rfl, m, hm, htext⟩ := destructuredKeys?_of_structEq hnames h hkeys
      right
      rw [matchOrCompare, hplain m hm _ htext, if_neg Bool.false_ne_true,
        if_pos (Text.sameText_refl _ _)]
      rfl
    next => exact Or.inl rfl
  next => exact Or.inl rfl

/-- Pairs whose keys are of one kind are left to later steps. -/
theorem pairAgainstPair_of_structEq (hnames : (file.fields.map Prod.fst).Nodup)
    (h : file.structEq query = true) (b : Bindings) :
    pairAgainstPair config file query b = none := by
  have hequal := Node.rel_child?_of_structEq hnames h "key"
  rw [pairAgainstPair]
  generalize file.child? "key" = fileKey at hequal ⊢
  generalize query.child? "key" = queryKey at hequal ⊢
  cases hequal with
  | none => rfl
  | @some fileKey queryKey hequal =>
      obtain ⟨hkind, -⟩ := Node.structEq_iff.1 hequal
      simp [hkind]

theorem propertyShapes_spares (hnames : (file.fields.map Prod.fst).Nodup)
    (h : file.structEq query = true) : Rule.Spares propertyShapes config file query := by
  obtain ⟨hkind, -⟩ := Node.structEq_iff.1 h
  intro b
  left
  have hpair : "shorthand_property_identifier" ≠ "pair" := by decide
  rw [propertyShapes]
  simp only [if_neg (not_kinds_of_ne hkind hpair), if_neg (not_kinds_of_ne hkind hpair.symm),
    pairAgainstPair_of_structEq hnames h]
  split
  next => rfl
  next => split <;> rfl

theorem optionalChain_spares (hnames : (file.fields.map Prod.fst).Nodup)
    (h : file.structEq query = true) : Rule.Spares optionalChain config file query := by
  intro b
  left
  have hequal := Node.rel_field?_of_structEq hnames h "optional_chain"
  have hchain : ((query.field? "optional_chain").isSome &&
      (file.field? "optional_chain").isNone) = false := by
    generalize file.field? "optional_chain" = left at hequal ⊢
    generalize query.field? "optional_chain" = right at hequal ⊢
    cases hequal <;> rfl
  rw [optionalChain]
  simp only [Bool.and_assoc, hchain, Bool.and_false, Bool.false_eq_true, if_false]

end Ecma

/-! ## All languages -/

namespace Language

variable {parsers : ParserSet} {language : Language} {config : SearchConfig} {source : String}

/-- The rules of a language spare what is equal and plain. -/
theorem spares_of_structEq {file query : Node}
    (hmarker : language.cutsAt config.markers.marker = false) (hfile : file.NamesDistinct)
    (hplain : ∀ m ∈ file.walk, m.IsPlain config.markers language.dialect.kinds)
    (h : file.structEq query = true) :
    ∀ rule ∈ language.dialect.rulesBefore ++ language.dialect.rulesAfter,
      rule.Spares config.toMatchSettings file query := by
  obtain ⟨hkind, htext, -⟩ := Node.structEq_iff.1 h
  have hnames := hfile file (Node.mem_walk_self file)
  have hnone : ∀ rule ∈ ([] : List Rule), rule.Spares config.toMatchSettings file query := by simp
  have hecma : ∀ rule ∈ [Ecma.selfClosing, Ecma.destructuring, Ecma.propertyShapes,
      Ecma.optionalChain], Rule.Spares rule config.toMatchSettings file query := by
    simp only [List.forall_mem_cons]
    exact ⟨Ecma.selfClosing_spares hkind,
      Ecma.destructuring_spares hnames h fun m hm text hmtext => (hplain m hm text hmtext).1,
      Ecma.propertyShapes_spares hnames h, Ecma.optionalChain_spares hnames h, by simp⟩
  cases language with
  | javaScript => exact hecma
  | typeScript => exact hecma
  | tsx => exact hecma
  | css =>
      have hnumeral := (Bool.or_eq_false_iff.1 hmarker).2
      have hcss : ∀ rule ∈ [Css.dimensions, Css.hashWildcard],
          Rule.Spares rule config.toMatchSettings file query := by
        simp only [List.forall_mem_cons]
        exact ⟨Css.dimensions_spares hnumeral (hplain file (Node.mem_walk_self file)) htext,
          Css.hashWildcard_spares hkind, by simp⟩
      exact hcss
  | python => exact hnone
  | cSharp => exact hnone
  | html => exact hnone
  | rust => exact hnone
  | lua => exact hnone

theorem isComparable_congr {a b : Node} (hkind : a.kind = b.kind) (htext : a.text = b.text) :
    language.dialect.isComparable a = language.dialect.isComparable b := by
  cases language <;>
    simp only [dialect, Ecma.javaScript, Ecma.typeScript, Ecma.dialect, Python.dialect,
      Html.dialect, hkind, htext] <;> rfl

/-- No kind of names is one of names with a default value. -/
theorem defaultValueField?_of_isIdentifier {kind : String}
    (h : language.dialect.kinds.isIdentifier kind = true) :
    language.dialect.kinds.defaultValueField? kind = none := by
  have hall : ∀ name ∈ language.dialect.kinds.identifiers,
      language.dialect.kinds.defaultValueField? name = none := by
    cases language <;> decide
  exact hall kind (List.contains_iff_mem.1 h)

/-- Parsed code that is plain is taken literally, unless it has a root without children. -/
theorem takesLiterally_of_parse {root n : Node} (hparse : language.parse parsers source = .ok root)
    (hn : n ∈ root.walk) (hmarker : language.cutsAt config.markers.marker = false)
    (hplain : ∀ m ∈ n.walk, m.IsPlain config.markers language.dialect.kinds)
    (hroot : ∀ m ∈ n.walk, language.dialect.kinds.isProgram m.kind = true → m.childList ≠ []) :
    (language.context parsers config source).TakesLiterally n where
  distinct := (namesDistinct_of_parse hparse).of_mem_walk hn
  texts :=
    { names := fun m hm _ text htext => (hplain m hm text htext).1
      strings := fun m hm _ text htext => hasWildcard_sanitize hmarker (hplain m hm text htext).1
      numbers := fun m hm hnumber text htext => by
        have hnumeric := (hplain m hm text htext).2 hnumber
        have hother : text ≠ config.markers.numeric := fun hequal =>
          hnumeric (hequal ▸ List.prefix_refl _)
        exact beq_eq_false_iff_ne.2 hother }
  files m hm hfile := by
    have hchildren := hroot m hm (Bool.and_eq_true_iff.1 hfile).2
    unfold Node.childList at hchildren
    split at hchildren
    next children heq => exact ⟨_, heq, rfl⟩
    next child heq => exact ⟨_, heq, rfl⟩
    next => exact absurd rfl hchildren
  rules m hm q h := spares_of_structEq hmarker
    (((namesDistinct_of_parse hparse).of_mem_walk hn).of_mem_walk hm)
    (fun l hl => hplain l (Node.mem_walk_trans hl hm)) h
  comparable _ _ := isComparable_congr
  defaults _ := defaultValueField?_of_isIdentifier

/-- **Code finds itself**, in every language and every mode, whether or not letter case counts. Take
a part of parsed code that is plain and has no root without children. It matches itself and binds
nothing, and a query that is equal to it is found in its place with no bindings. The marker is the
default one or any other at which no texts are cut. -/
theorem finds_itself {root n : Node} {place : Place}
    (hparse : language.parse parsers source = .ok root) (hplace : (place, n) ∈ root.visits [])
    (hmarker : language.cutsAt config.markers.marker = false)
    (hplain : ∀ m ∈ n.walk, m.IsPlain config.markers language.dialect.kinds)
    (hroot : ∀ m ∈ n.walk, language.dialect.kinds.isProgram m.kind = true → m.childList ≠ []) :
    validate (language.context parsers config source) n n .empty = .accept .empty ∧
      ∀ query : Node, n.structEq query = true → ⟨n, place, .empty⟩ ∈
        (traverse (language.context parsers config source) root query).found := by
  have hliteral :=
    takesLiterally_of_parse hparse (Node.mem_walk_of_visit hplace) hmarker hplain hroot
  have hself := validate_of_structEq hliteral (Node.structEq_refl hliteral.distinct) .empty
  exact ⟨hself, fun query h => mem_found_of_structEq hliteral h hplace⟩

/-- A statement that takes a property out of an object finds itself where the order counts. -/
theorem finds_itself_destructuring :
    validate (Language.javaScript.context destructuringParsers { mode := .ordered }
        destructuringSource) destructuringRoot destructuringRoot .empty = .accept .empty ∧
      ⟨destructuringRoot, [], .empty⟩ ∈ (traverse
        (Language.javaScript.context destructuringParsers { mode := .ordered }
          destructuringSource) destructuringRoot destructuringRoot).found := by
  have hplain : ∀ m ∈ destructuringRoot.walk, ∀ text ∈ m.text,
      ({} : Markers).hasWildcard text = false ∧
        (Language.javaScript.dialect.kinds.isNumber m.kind = true →
          ¬ ({} : Markers).numeric.toList <+: text.toList) := by decide +kernel
  have hroot : ∀ m ∈ destructuringRoot.walk,
      Language.javaScript.dialect.kinds.isProgram m.kind = true → m.childList ≠ [] := by
    decide +kernel
  have hequal : destructuringRoot.structEq destructuringRoot = true := by decide +kernel
  obtain ⟨hself, hfound⟩ := @finds_itself destructuringParsers .javaScript { mode := .ordered }
    destructuringSource destructuringRoot destructuringRoot [] parse_destructuringSource
    (Node.mem_visits_self [] destructuringRoot) (cutsAt_default .javaScript) hplain hroot
  exact ⟨hself, hfound destructuringRoot hequal⟩

end Language

end CodeSearch

import CodeSearch.Proofs.CssQuestions
import CodeSearch.Proofs.EcmaQuestions
import CodeSearch.Proofs.SourceText

/-!
# The token filter of the languages

Rules may accept two nodes without a look at all text of the query: a property that is renamed
matches whatever name it is given, tags are compared without what stands between them, the fields
of an expanded property are not visited. For each language an inquiry says what is read of a query
node in spite of the rules.

`Language.passesTokenFilter_iff_of_parse`: in all languages and all modes, if letter case counts
and a query is found in a file, then the file passes the token filter exactly if it contains the
tokens of the nodes that the query does not ask for. `tokenFilter_drops_renamed` shows that there
are such nodes: the new name of a destructured property matches any name, and the filter drops
files that do not contain it.
-/

set_option autoImplicit false

namespace CodeSearch

/-! ## Texts of all languages are legible -/

theorem stripQuotes_part (quotes : List Char) (text : String) :
    (stripQuotes quotes text).toList <:+: text.toList := by
  unfold stripQuotes
  split
  next first rest heq =>
    split
    next =>
      rw [String.toList_ofList, heq]
      exact (List.dropLast_prefix rest).isInfix.trans
        (List.infix_cons_iff.2 (Or.inr List.infix_rfl))
    next => exact List.infix_rfl
  next => exact List.infix_rfl

namespace Language

theorem sanitize_part (language : Language) (kind text : String) :
    (language.dialect.sanitize kind text).toList <:+: text.toList := by
  have hstrip : ∀ other quotes, (if kind = other then stripQuotes quotes text else text).toList <:+:
      text.toList := by
    intro other quotes
    split
    next => exact stripQuotes_part quotes text
    next => exact List.infix_rfl
  cases language with
  | javaScript => exact hstrip _ _
  | typeScript => exact hstrip _ _
  | tsx => exact hstrip _ _
  | css => exact hstrip _ _
  | rust => exact hstrip _ _
  | lua => exact hstrip _ _
  | python => exact List.infix_rfl
  | html => exact List.infix_rfl
  | cSharp =>
      show (if kind = "string_literal" then stripQuotes ['"'] text
        else if kind = "verbatim_string_literal" then
          stripQuotes ['"'] (CSharp.withoutVerbatimSign text)
        else text).toList <:+: text.toList
      split
      next => exact stripQuotes_part _ _
      next =>
        split
        next =>
          refine (stripQuotes_part _ _).trans ?_
          unfold CSharp.withoutVerbatimSign
          split
          next rest heq =>
            rw [String.toList_ofList, heq]
            exact List.infix_cons_iff.2 (Or.inr List.infix_rfl)
          next => exact List.infix_rfl
        next => exact List.infix_rfl

/-- The kinds of names and numbers of a language. -/
def nameKinds (language : Language) : List String :=
  language.dialect.kinds.identifiers ++ language.dialect.kinds.numbers

theorem mem_nameKinds {language : Language} {kind : String}
    (h : language.dialect.kinds.isIdentifier kind = true ∨
      language.dialect.kinds.isNumber kind = true) : kind ∈ language.nameKinds :=
  List.mem_append.2 (h.imp List.contains_iff_mem.1 List.contains_iff_mem.1)

theorem sanitize_of_mem_nameKinds {language : Language} {kind : String}
    (h : kind ∈ language.nameKinds) (text : String) :
    language.dialect.sanitize kind text = text := by
  have hstrip : ∀ other quotes, kind ≠ other →
      (if kind = other then stripQuotes quotes text else text) = text :=
    fun other quotes hne => if_neg hne
  cases language with
  | javaScript => exact hstrip _ _ (by rintro rfl; revert h; decide)
  | typeScript => exact hstrip _ _ (by rintro rfl; revert h; decide)
  | tsx => exact hstrip _ _ (by rintro rfl; revert h; decide)
  | css => exact hstrip _ _ (by rintro rfl; revert h; decide)
  | rust => exact hstrip _ _ (by rintro rfl; revert h; decide)
  | lua => exact hstrip _ _ (by rintro rfl; revert h; decide)
  | python => rfl
  | html => rfl
  | cSharp =>
      show (if kind = "string_literal" then stripQuotes ['"'] text
        else if kind = "verbatim_string_literal" then
          stripQuotes ['"'] (CSharp.withoutVerbatimSign text)
        else text) = text
      rw [if_neg (by rintro rfl; revert h; decide), if_neg (by rintro rfl; revert h; decide)]

theorem verbatim_of_mem_nameKinds {language : Language} {kind other : String}
    (h : kind ∈ language.nameKinds) (hsame : language.dialect.kinds.sameKind kind other = true) :
    language.dialect.IsVerbatim other := by
  have hequal : language.dialect.kinds.equivalent = [] → kind = other := by
    intro hnone
    rw [NodeKinds.sameKind, hnone] at hsame
    simpa using hsame
  have hkept : ∀ collapsed, collapsed ∉ language.nameKinds → kind = other →
      other ≠ collapsed := by
    rintro collapsed hcollapsed rfl rfl
    exact hcollapsed h
  cases language with
  | javaScript => exact fun _ => if_neg (hkept "jsx_text" (by decide) (hequal rfl))
  | typeScript => exact fun _ => if_neg (hkept "jsx_text" (by decide) (hequal rfl))
  | tsx => exact fun _ => if_neg (hkept "jsx_text" (by decide) (hequal rfl))
  | html =>
      have hkind : kind = "tag_name" ∨ kind = "attribute_name" := by
        simpa [nameKinds, dialect, Html.dialect, Html.kinds] using h
      have heq : kind = other := by
        rcases hkind with rfl | rfl <;>
          simpa [NodeKinds.sameKind, dialect, Html.dialect, Html.kinds] using hsame
      exact fun _ => if_neg (hkept "text" (by decide) heq)
  | python => exact fun _ => rfl
  | cSharp => exact fun _ => rfl
  | css => exact fun _ => rfl
  | rust => exact fun _ => rfl
  | lua => exact fun _ => rfl

/-- Texts of all languages are legible. -/
theorem legible (parsers : ParserSet) (markers : Markers) (language : Language) :
    (language.grammar parsers markers).Legible language.dialect.IsVerbatim where
  not_string := by
    intro kind hkind
    have hall : ∀ name ∈ language.dialect.kinds.identifiers,
        language.dialect.kinds.isString name = false := by
      cases language <;> decide
    exact hall kind (List.contains_iff_mem.1 hkind)
  not_number := by
    intro kind hkind
    have hall : ∀ name ∈ language.dialect.kinds.identifiers ++ language.dialect.kinds.strings,
        language.dialect.kinds.isNumber name = false := by
      cases language <;> decide
    exact hall kind (List.mem_append.2 (hkind.imp List.contains_iff_mem.1 List.contains_iff_mem.1))
  sanitize_infix := language.sanitize_part
  sanitize_name := fun _ text h => sanitize_of_mem_nameKinds (mem_nameKinds h) text
  verbatim := fun _ _ h hsame => verbatim_of_mem_nameKinds (mem_nameKinds h) hsame

/-! ## What is read in each language -/

/-- What is read of a query node in a language. -/
def questions (language : Language) (cx : MatchContext) : Inquiry :=
  match language with
  | javaScript | typeScript | tsx => Ecma.questions cx
  | css => Css.questions cx
  | python | cSharp | html | rust | lua => generalQuestions cx

/-- **All comparisons in a language keep to its questions**, if letter case counts. -/
theorem questions_honest (language : Language) (parsers : ParserSet) (config : SearchConfig)
    (source : String) (hcase : config.ignoreCase = false) :
    (language.questions (language.context parsers config source)).Honest
      (language.context parsers config source) language.dialect.IsVerbatim := by
  have hlegible := legible parsers config.markers language
  cases language with
  | javaScript =>
      exact Ecma.Speaks.honest ⟨Or.inl rfl, fun _ => rfl, rfl, rfl, hlegible,
        fun _ hkind _ => if_neg hkind, hcase⟩
  | typeScript =>
      exact Ecma.Speaks.honest ⟨Or.inr rfl, fun _ => rfl, rfl, rfl, hlegible,
        fun _ hkind _ => if_neg hkind, hcase⟩
  | tsx =>
      exact Ecma.Speaks.honest ⟨Or.inr rfl, fun _ => rfl, rfl, rfl, hlegible,
        fun _ hkind _ => if_neg hkind, hcase⟩
  | css => exact Css.Speaks.honest ⟨rfl, rfl, rfl, hlegible, fun _ _ => rfl, hcase⟩
  | python => exact generalQuestions_honest rfl rfl hlegible hcase
  | cSharp => exact generalQuestions_honest rfl rfl hlegible hcase
  | html => exact generalQuestions_honest rfl rfl hlegible hcase
  | rust => exact generalQuestions_honest rfl rfl hlegible hcase
  | lua => exact generalQuestions_honest rfl rfl hlegible hcase

/-- **What the token filter of a language is up to**: if letter case counts and a query is found
in the tree of a source, the source passes exactly if it contains the tokens of the nodes that
the query does not ask for. -/
theorem passesTokenFilter_iff_of_parse {parsers : ParserSet} {language : Language}
    {config : SearchConfig} {source : String} {root query : Node}
    (hparsers : parsers.Faithful language) (hcase : config.ignoreCase = false)
    (hparse : language.parse parsers source = .ok root)
    (hfound : (traverse (language.context parsers config source) root query).found ≠ []) :
    passesTokenFilter source
        [uniqueTokens (language.grammar parsers config.markers) config query] false = true ↔
      ∀ m ∈ query.walk,
        ¬ Asks (language.context parsers config source)
          (language.questions (language.context parsers config source)) query m →
        ∀ token ∈ literalPieces (language.grammar parsers config.markers) config.markers m,
          minTokenLength ≤ token.length → token.toList <:+: source.toList := by
  have hcontent : ∀ piece, root.Shows language.dialect.IsVerbatim piece →
      piece <:+: source.toList := fun _ hshows => infix_of_shows hparsers hparse hshows
  have hhonest := language.questions_honest parsers config source hcase
  have hbinds := language.bindsTexts parsers config.markers
  exact CodeSearch.passesTokenFilter_iff_of_traverse hbinds hhonest hcase hcontent hfound

end Language

/-! ## A renamed property -/

/-- A statement that takes a property out of an object. -/
def destructuringSource : String := "const \x7b ab \x7d = o"

/-- Its concrete tree. -/
def destructuringTree : ConcreteTree :=
  let pattern := ConcreteTree.mk
    { kind := "object_pattern", field := some "name", span := lineSpan 6 12 }
    [.mk { kind := "\x7b", span := lineSpan 6 7, isNamed := false } [],
      .mk { kind := "shorthand_property_identifier_pattern", span := lineSpan 8 10 } [],
      .mk { kind := "\x7d", span := lineSpan 11 12, isNamed := false } []]
  let declarator := ConcreteTree.mk { kind := "variable_declarator", span := lineSpan 6 16 }
    [pattern,
      .mk { kind := "=", span := lineSpan 13 14, isNamed := false } [],
      .mk { kind := "identifier", field := some "value", span := lineSpan 15 16 } []]
  .mk { kind := "program", span := lineSpan 0 16 }
    [.mk { kind := "lexical_declaration", span := lineSpan 0 16 }
      [.mk { kind := "const", field := some "kind", span := lineSpan 0 5, isNamed := false } [],
        declarator]]

/-- A parser that knows one text. -/
def destructuringParsers : ParserSet where
  tree _ source := if source = destructuringSource then some destructuringTree else none
  types _ :=
    [("program", { children := some ⟨true, false⟩ }),
      ("lexical_declaration",
        { fields := [("kind", ⟨false, true⟩)], children := some ⟨true, true⟩ }),
      ("variable_declarator", { fields := [("name", ⟨false, true⟩), ("value", ⟨false, false⟩)] }),
      ("object_pattern", { children := some ⟨true, false⟩ }),
      ("shorthand_property_identifier_pattern", {}),
      ("identifier", {})]

theorem destructuringParsers_faithful (language : Language) :
    destructuringParsers.Faithful language where
  fits := by
    intro source tree h
    obtain ⟨rfl, h⟩ := Option.ite_none_right_eq_some.1 h
    obtain rfl := Option.some.inj h
    have hfits : ∀ t ∈ destructuringTree.walk, (Text.slice? destructuringSource.toList
        t.node.span.startByte t.node.span.endByte).isSome = true := by decide +kernel
    exact hfits
  templates := by
    intro source tree h _ t ht hkind
    obtain ⟨rfl, h⟩ := Option.ite_none_right_eq_some.1 h
    obtain rfl := Option.some.inj h
    have hnone : ∀ t ∈ destructuringTree.walk, t.node.kind ≠ "template_string" := by decide +kernel
    exact absurd hkind (hnone t ht)

/-- The tree of the statement. -/
def destructuringRoot : Node :=
  (Language.javaScript.parse destructuringParsers destructuringSource).toOption.getD default

theorem parse_destructuringSource :
    Language.javaScript.parse destructuringParsers destructuringSource = .ok destructuringRoot := by
  have hparses : (Language.javaScript.parse destructuringParsers
      destructuringSource).toOption.isSome = true := by decide +kernel
  rw [destructuringRoot]
  cases hparse : Language.javaScript.parse destructuringParsers destructuringSource with
  | ok root => rfl
  | error failure => simp [hparse, Except.toOption] at hparses

/-- The property `ab`, bound to some name. -/
def renamedProperty (name : String) : Node :=
  ((Node.branch "pair_pattern" .zero).setField "key"
    (.node (.leaf "property_identifier" "ab" .zero))).setField "value"
      (.node (.leaf "identifier" name .zero))

/-- The statement is found by a query that binds the property to any name, and passes. -/
theorem passesTokenFilter_iff_of_parse_anyName :
    destructuringParsers.Faithful .javaScript ∧
      (traverse (Language.javaScript.context destructuringParsers {} destructuringSource)
        destructuringRoot (renamedProperty "$$$_a")).found ≠ [] ∧
      passesTokenFilter destructuringSource
        [uniqueTokens (Language.javaScript.grammar destructuringParsers {}) {}
          (renamedProperty "$$$_a")] false = true := by
  have hfound : (traverse
      (Language.javaScript.context destructuringParsers {} destructuringSource)
      destructuringRoot (renamedProperty "$$$_a")).found ≠ [] :=
    List.ne_nil_of_length_pos (by decide +kernel)
  have hfaithful := destructuringParsers_faithful .javaScript
  refine ⟨hfaithful, hfound, ?_⟩
  refine (@Language.passesTokenFilter_iff_of_parse destructuringParsers .javaScript {}
    destructuringSource destructuringRoot (renamedProperty "$$$_a") hfaithful rfl
    parse_destructuringSource hfound).2 fun m hm _ => ?_
  have hpieces : ∀ m ∈ (renamedProperty "$$$_a").walk, ∀ token ∈
      literalPieces (Language.javaScript.grammar destructuringParsers {}) {} m,
        minTokenLength ≤ token.length → token.toList <:+: destructuringSource.toList := by
    decide +kernel
  exact hpieces m hm

/-- **The token filter loses files**: the new name of a property matches any name, and need not
be in the source. -/
theorem tokenFilter_drops_renamed :
    ¬ ∀ (parsers : ParserSet) (language : Language) (config : SearchConfig) (source : String)
      (root query : Node), parsers.Faithful language → config.ignoreCase = false →
      language.parse parsers source = .ok root →
      (traverse (language.context parsers config source) root query).found ≠ [] →
      passesTokenFilter source
        [uniqueTokens (language.grammar parsers config.markers) config query] false = true := by
  intro h
  have hpasses := h destructuringParsers .javaScript {} destructuringSource destructuringRoot
    (renamedProperty "zz") (destructuringParsers_faithful _) rfl parse_destructuringSource
    (List.ne_nil_of_length_pos (by decide +kernel))
  exact absurd hpasses (by decide +kernel)

end CodeSearch

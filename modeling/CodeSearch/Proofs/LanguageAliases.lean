import CodeSearch.Proofs.AliasRoutes

/-!
# The aliases of the languages

In two families of languages a rule reads names as texts: the keys and values of properties in
JavaScript and TypeScript, where further code is ignored, and values in CSS, against colours. An
alias can then stand for a text in one place and for a subtree in another, and nothing makes the
two agree.

`Language.aliasesAgree_iff`: uses by subtree always agree, uses by text match the text that the
alias is bound to, and all uses of an alias agree in exactly the languages and modes in which no
rule reads names.
-/

set_option autoImplicit false

namespace CodeSearch

/-! ## Properties -/

namespace Ecma

/-- The node whose text names a destructured property: a shorthand itself, the key of a pair. -/
def IsNameOf (n property : Node) : Prop :=
  property.kind = "shorthand_property_identifier_pattern" ∧ n = property ∨
    property.kind = "pair_pattern" ∧ property.child? "key" = some n

/-- **What the rules read as texts** to settle two properties. -/
inductive Reads (file query : Node) : Node → Node → String → Prop
  | destructured {m f : Node} {name : String} (hquery : IsNameOf m query)
      (hfile : IsNameOf f file) (hname : f.text = some name) : Reads file query m f name
  | shorthand {f : Node} {name : String} (hquery : query.kind = "shorthand_property_identifier")
      (hfile : file.kind = "pair") (hf : file.child? "key" = some f)
      (hname : keyText? f = some name) : Reads file query query f name
  | expanded {m : Node} {field name : String} (hquery : query.kind = "pair")
      (hfile : file.kind = "shorthand_property_identifier") (hfield : field ∈ ["key", "value"])
      (hm : query.child? field = some m) (hname : file.text = some name) :
      Reads file query m file name
  | keyed {m f : Node} {name : String} (hquery : query.kind = "pair") (hfile : file.kind = "pair")
      (hm : query.child? "key" = some m) (hf : file.child? "key" = some f)
      (hname : keyText? f = some name) : Reads file query m f name

/-- The kinds of properties. -/
def propertyKinds : List String :=
  ["shorthand_property_identifier_pattern", "pair_pattern", "shorthand_property_identifier", "pair"]

/-- The search is in a language with these rules. -/
structure HasRules (cx : MatchContext) : Prop where
  before : cx.grammar.rulesBefore = [selfClosing]
  after : cx.grammar.rulesAfter = [destructuring, propertyShapes, optionalChain]
  key : cx.kinds.isIdentifier "number" = false ∧ cx.kinds.isIdentifier "string" = false

section

variable {cx : MatchContext} {file query m f : Node} {b c : Bindings} {found : Comparison}
  {value : String}

theorem Reads.mem_propertyKinds (h : Reads file query m f value) : query.kind ∈ propertyKinds := by
  cases h with
  | destructured hquery =>
      rcases hquery with ⟨hkind, -⟩ | ⟨hkind, -⟩ <;> rw [hkind] <;> decide
  | shorthand hquery => rw [hquery]; decide
  | expanded hquery => rw [hquery]; decide
  | keyed hquery => rw [hquery]; decide

/-- Rules that settle properties which agree are those after wildcards, and have accepted them. -/
theorem HasRules.accepts (hrules : HasRules cx) (h : Agree cx file query b found c)
    (hsettled : cx.settles file query b = true) (hreads : Reads file query m f value) :
    cx.config.mode.allowsExtra = true ∧
      ∃ verdict d, Accepts cx.config file query d verdict c := by
  have hkind := hreads.mem_propertyKinds
  obtain ⟨verdict, d, hagrees, hfirst | hfirst⟩ := h.rule_of_settles hsettled
  · rw [hrules.before] at hfirst
    obtain ⟨-, hno⟩ := selfClosing_accepts (rulesBefore_accepts hfirst) hagrees
    rcases hno with ⟨hno, -⟩ | ⟨hno, -⟩ <;> rw [hno] at hkind <;> exact absurd hkind (by decide)
  · rw [hrules.after] at hfirst
    obtain ⟨hmode, haccepts⟩ := rulesAfter_accepts hfirst hagrees
    exact ⟨hmode, verdict, d, haccepts⟩

theorem text_of_isNameOf {n property : Node} {key : String} (hname : IsNameOf n property)
    (h : Destructures property key) : n.text = some key := by
  rcases h with ⟨hkind, htext⟩ | ⟨hkind, -, hkey⟩
  · rcases hname with ⟨-, rfl⟩ | ⟨hkind', -⟩
    · exact htext
    · rw [hkind] at hkind'
      exact absurd hkind' (by decide)
  · rcases hname with ⟨hkind', -⟩ | ⟨-, hchild⟩
    · rw [hkind] at hkind'
      exact absurd hkind' (by decide)
    · obtain ⟨key', hchild', -, htext⟩ := plainKey?_eq_some hkey
      rw [Option.some.inj (hchild.symm.trans hchild')]
      exact htext

/-- The text of a key that is a name is compared as it stands. -/
theorem HasRules.eq_of_keyText? (hrules : HasRules cx) {name aliasName key : String}
    (hm : IsTreeAlias cx m name aliasName) (hkey : keyText? m = some key) : key = name := by
  obtain ⟨text, htext, hkinds⟩ := keyText?_eq_some hkey
  obtain rfl := Option.some.inj (hm.text.symm.trans htext)
  rcases hkinds with ⟨-, heq⟩ | ⟨hkind, -⟩ | ⟨hkind, -⟩
  · exact heq
  · have hidentifier := hm.identifier
    rw [hkind, hrules.key.1] at hidentifier
    exact absurd hidentifier (by decide)
  · have hidentifier := hm.identifier
    rw [hkind, hrules.key.2] at hidentifier
    exact absurd hidentifier (by decide)

/-- A name with a wildcard that is matched or compared with a text is matched. -/
theorem matchText?_of_matchOrCompare {name aliasName key : String} {kind : WildcardKind}
    {d e : Bindings} (hm : IsTreeAlias cx m name aliasName) (hkey : key = name)
    (h : matchOrCompare cx.config key value kind d = some e) :
    cx.matchText? name value kind d = some e := by
  subst hkey
  rcases matchOrCompare_eq_some h with ⟨-, hmatch⟩ | ⟨hplain, -, -⟩
  · exact hmatch
  · have hwildcard := hm.hasWildcard
    rw [MatchContext.markers, hplain] at hwildcard
    exact absurd hwildcard (by decide)

/-! What is read of two properties of known kinds. -/

theorem Reads.of_destructures {key : String} (h : Reads file query m f value)
    (hquery : Destructures query key) :
    IsNameOf m query ∧ IsNameOf f file ∧ f.text = some value := by
  have hkinds : query.kind = "shorthand_property_identifier_pattern" ∨
      query.kind = "pair_pattern" := hquery.imp And.left And.left
  cases h with
  | destructured hquery hfile hname => exact ⟨hquery, hfile, hname⟩
  | shorthand hkind => simp [hkind] at hkinds
  | expanded hkind => simp [hkind] at hkinds
  | keyed hkind => simp [hkind] at hkinds

theorem Reads.of_shorthand (h : Reads file query m f value)
    (hquery : query.kind = "shorthand_property_identifier") :
    m = query ∧ file.child? "key" = some f ∧ keyText? f = some value := by
  cases h with
  | destructured hname => rcases hname with ⟨hkind, -⟩ | ⟨hkind, -⟩ <;> simp [hquery] at hkind
  | shorthand hquery hfile hf hname => exact ⟨rfl, hf, hname⟩
  | expanded hkind => simp [hquery] at hkind
  | keyed hkind => simp [hquery] at hkind

theorem Reads.of_expanded (h : Reads file query m f value) (hquery : query.kind = "pair")
    (hfile : file.kind = "shorthand_property_identifier") :
    file.text = some value ∧
      (query.child? "key" = some m ∨ query.child? "value" = some m) := by
  cases h with
  | destructured hname => rcases hname with ⟨hkind, -⟩ | ⟨hkind, -⟩ <;> simp [hquery] at hkind
  | shorthand hkind => simp [hquery] at hkind
  | expanded hquery hfile hfield hm hname =>
      simp only [List.mem_cons, List.not_mem_nil, or_false] at hfield
      rcases hfield with rfl | rfl
      · exact ⟨hname, Or.inl hm⟩
      · exact ⟨hname, Or.inr hm⟩
  | keyed hquery hkind => simp [hfile] at hkind

theorem Reads.of_pairs (h : Reads file query m f value) (hquery : query.kind = "pair")
    (hfile : file.kind = "pair") : query.child? "key" = some m ∧ file.child? "key" = some f ∧
      keyText? f = some value := by
  cases h with
  | destructured hname => rcases hname with ⟨hkind, -⟩ | ⟨hkind, -⟩ <;> simp [hquery] at hkind
  | shorthand hkind => simp [hquery] at hkind
  | expanded hquery hkind => simp [hfile] at hkind
  | keyed hquery hfile hm hf hname => exact ⟨hm, hf, hname⟩

/-- **The rules match the names that they read**, and the bindings at the end keep what is bound
on the way. -/
theorem HasRules.readsByMatching (hrules : HasRules cx) : ReadsByMatching cx Reads := by
  intro file query b found c hagree hsettled m f value name aliasName hreads hm
  obtain ⟨-, verdict, d, haccepts⟩ := hrules.accepts hagree hsettled hreads
  cases haccepts with
  | destructured hquery hfile hmatch =>
      obtain ⟨hqueryName, hfileName, hname⟩ := hreads.of_destructures hquery
      obtain rfl := Option.some.inj ((text_of_isNameOf hfileName hfile).symm.trans hname)
      have htext := text_of_isNameOf hqueryName hquery
      have hkey := Option.some.inj (htext.symm.trans hm.text)
      exact ⟨_, d, c, by decide, matchText?_of_matchOrCompare hm hkey hmatch,
        Bindings.Keeps.refl c⟩
  | shorthand hquery hfile hname hkeyNode hkey hvalue hidentifier hsame hmatch =>
      obtain ⟨rfl, hf, hread⟩ := hreads.of_shorthand hquery
      obtain rfl := Option.some.inj (hkeyNode.symm.trans hf)
      obtain rfl := Option.some.inj (hkey.symm.trans hread)
      have hkey := Option.some.inj (hname.symm.trans hm.text)
      exact ⟨_, d, c, by decide, matchText?_of_matchOrCompare hm hkey hmatch,
        Bindings.Keeps.refl c⟩
  | @expanded name' key pattern keyNode value' e _ hquery hfile hname hkeyNode hkey hvalue
      hidentifier hpattern hfirst hsecond =>
      obtain ⟨hread, hm' | hm'⟩ := hreads.of_expanded hquery hfile
      · obtain rfl := Option.some.inj (hname.symm.trans hread)
        obtain rfl := Option.some.inj (hkeyNode.symm.trans hm')
        have hkey := hrules.eq_of_keyText? hm hkey
        exact ⟨_, e, c, by decide, matchText?_of_matchOrCompare hm hkey hsecond,
          Bindings.Keeps.refl c⟩
      · obtain rfl := Option.some.inj (hname.symm.trans hread)
        obtain rfl := Option.some.inj (hvalue.symm.trans hm')
        have hkey := Option.some.inj (hpattern.symm.trans hm.text)
        -- the value is matched before the key, so that its text has to last through that
        have hkeeps : e.Keeps c :=
          (matchOrCompare_extends (P := fun _ => False) (by decide) hsecond).keeps
        exact ⟨_, d, e, by decide, matchText?_of_matchOrCompare hm hkey hfirst, hkeeps⟩
  | keyed hquery hfile hqueryKey hfileKey hkinds hkey hother hmatch =>
      obtain ⟨hm', hf, hread⟩ := hreads.of_pairs hquery hfile
      obtain rfl := Option.some.inj (hqueryKey.symm.trans hm')
      obtain rfl := Option.some.inj (hfileKey.symm.trans hf)
      obtain rfl := Option.some.inj (hother.symm.trans hread)
      have hkey := hrules.eq_of_keyText? hm hkey
      exact ⟨_, d, c, by decide, matchText?_of_matchOrCompare hm hkey hmatch,
        Bindings.Keeps.refl c⟩
  | chained hquery =>
      have hapart : ∀ kind ∈ ["member_expression", "subscript_expression", "call_expression"],
          kind ∉ propertyKinds := by decide
      exact absurd hreads.mem_propertyKinds (hapart _ hquery)

end

end Ecma

/-! ## Values and colours -/

namespace Css

/-- **What the rules read as a text**: a value that is compared with the digits of a colour. -/
inductive Reads (file query : Node) : Node → Node → String → Prop
  | colour {colour : String} {digits : List Char} (hquery : query.kind = "plain_value")
      (hfile : file.kind = "color_value") (hcolour : file.text = some colour)
      (hdigits : colour.toList = '#' :: digits) :
      Reads file query query file (String.ofList digits)

/-- The rule for colours matches the values that it reads. -/
theorem readsByMatching {cx : MatchContext}
    (hbefore : cx.grammar.rulesBefore = [dimensions, hashWildcard])
    (hafter : cx.grammar.rulesAfter = []) : ReadsByMatching cx Reads := by
  intro file query b found c hagree hsettled m f value name aliasName hreads hm
  obtain ⟨verdict, d, hagrees, hfirst | hfirst⟩ := hagree.rule_of_settles hsettled
  · rw [hbefore] at hfirst
    have haccepts := rulesBefore_accepts hfirst hagrees
    cases hreads with
    | colour hquery hfile hcolour hdigits =>
        have hnumber : kinds.isNumber query.kind = false := by rw [hquery]; decide
        cases haccepts with
        | anyNumber hyes => simp [hnumber] at hyes
        | sameNumber hyes => simp [hnumber] at hyes
        | colour hquery' hfile' hpattern hcolour' hwildcard hdigits' hmatch =>
            obtain rfl := Option.some.inj (hm.text.symm.trans hpattern)
            obtain rfl := Option.some.inj (hcolour.symm.trans hcolour')
            obtain rfl := (List.cons.inj (hdigits.symm.trans hdigits')).2
            exact ⟨_, d, c, by decide, hmatch, Bindings.Keeps.refl c⟩
  · rw [hafter] at hfirst
    simp [Rule.first?] at hfirst

end Css

/-! ## All languages -/

/-- What the rules of a language read as texts. -/
def Language.Reads : Language → Reading
  | javaScript | typeScript | tsx => Ecma.Reads
  | css => Css.Reads
  | python | cSharp | html | rust | lua => fun _ _ _ _ _ => False

/-- Whether rules of a language read names in a mode. -/
def Language.readsNames : Language → Mode → Bool
  | javaScript, mode | typeScript, mode | tsx, mode => mode.allowsExtra
  | css, _ => true
  | python, _ | cSharp, _ | html, _ | rust, _ | lua, _ => false

/-- A match in a tree of some language that has no two fields of one name. -/
structure LanguageMatch (language : Language) where
  parsers : ParserSet
  config : SearchConfig
  source : String
  root : Node
  query : Node
  found : Found
  namesDistinct : root.NamesDistinct
  isFound : found ∈ (traverse (language.context parsers config source) root query).found

namespace LanguageMatch

variable {language : Language}

/-- What stays the same during the search. -/
def cx (m : LanguageMatch language) : MatchContext :=
  language.context m.parsers m.config m.source

/-- A query node is used in the match, for a file node and by some route. -/
def Uses (m : LanguageMatch language) (query file : Node) (route : Route) : Prop :=
  Occurs m.cx language.Reads ⟨m.found.node, m.query, .empty⟩ query file route

/-- **All uses of an alias agree**: the query nodes that are the same name, one wildcard with an
alias, are used for structurally equal file nodes. -/
def AliasesAgree (m : LanguageMatch language) : Prop :=
  ∀ name aliasName query₁ query₂ file₁ file₂ route₁ route₂,
    IsTreeAlias m.cx query₁ name aliasName → IsTreeAlias m.cx query₂ name aliasName →
      m.Uses query₁ file₁ route₁ → m.Uses query₂ file₂ route₂ → file₁.structEq file₂ = true

/-- All uses of an alias by subtree agree. -/
def TreesAgree (m : LanguageMatch language) : Prop :=
  ∀ name aliasName query₁ query₂ file₁ file₂,
    IsTreeAlias m.cx query₁ name aliasName → IsTreeAlias m.cx query₂ name aliasName →
      m.Uses query₁ file₁ .subtree → m.Uses query₂ file₂ .subtree → file₁.structEq file₂ = true

/-- All uses of an alias by text match the text that the alias is bound to. -/
def TextsAgree (m : LanguageMatch language) : Prop :=
  ∀ name aliasName query file value, IsTreeAlias m.cx query name aliasName →
    m.Uses query file (.text value) → TextMatches m.cx m.found.bindings name value

/-- Something found is a successful attempt that starts from no bindings. -/
theorem agrees (m : LanguageMatch language) :
    (Attempt.outcome m.cx ⟨m.found.node, m.query, .empty⟩).agrees = true ∧
      m.found.node.NamesDistinct ∧
      m.found.bindings = (Attempt.outcome m.cx ⟨m.found.node, m.query, .empty⟩).bindings := by
  obtain ⟨hnode, hagrees, hbindings⟩ := isMatch_of_traverse m.isFound
  exact ⟨hagrees, m.namesDistinct.of_mem_walk hnode, hbindings⟩

theorem bindsTexts (m : LanguageMatch language) : m.cx.grammar.BindsTexts :=
  language.bindsTexts m.parsers m.config.markers

theorem treesAgree (m : LanguageMatch language) : m.TreesAgree := by
  intro name aliasName query₁ query₂ file₁ file₂ h₁ h₂ huses₁ huses₂
  obtain ⟨hagrees, hdistinct, -⟩ := m.agrees
  exact structEq_of_occurs m.bindsTexts hagrees hdistinct h₁ h₂ huses₁ huses₂

end LanguageMatch

theorem Language.hasRules {language : Language}
    (h : language ∈ [Language.javaScript, .typeScript, .tsx]) (parsers : ParserSet)
    (config : SearchConfig) (source : String) :
    Ecma.HasRules (language.context parsers config source) := by
  simp only [List.mem_cons, List.not_mem_nil, or_false] at h
  rcases h with rfl | rfl | rfl
  · exact ⟨rfl, rfl, rfl, rfl⟩
  · exact ⟨rfl, rfl, rfl, rfl⟩
  · exact ⟨rfl, rfl, rfl, rfl⟩

namespace LanguageMatch

variable {language : Language}

/-- The rules of all languages match the names that they read. -/
theorem readsByMatching (m : LanguageMatch language) : ReadsByMatching m.cx language.Reads := by
  have hecma : language ∈ [Language.javaScript, .typeScript, .tsx] →
      ReadsByMatching m.cx Ecma.Reads := fun h =>
    (language.hasRules h m.parsers m.config m.source).readsByMatching
  have hnone : ReadsByMatching m.cx fun _ _ _ _ _ => False :=
    fun _ _ _ _ _ _ _ _ _ _ _ _ hreads => hreads.elim
  cases language with
  | javaScript => exact hecma (by decide)
  | typeScript => exact hecma (by decide)
  | tsx => exact hecma (by decide)
  | css => exact Css.readsByMatching rfl rfl
  | python => exact hnone
  | cSharp => exact hnone
  | html => exact hnone
  | rust => exact hnone
  | lua => exact hnone

theorem textsAgree (m : LanguageMatch language) : m.TextsAgree := by
  intro name aliasName query file value h huses
  obtain ⟨hagrees, -, hbindings⟩ := m.agrees
  rw [hbindings]
  exact textMatches_of_occurs m.bindsTexts m.readsByMatching hagrees h huses

/-- Where no rule reads names, nothing is used by text. -/
theorem not_uses_text (m : LanguageMatch language)
    (h : language.readsNames m.config.mode = false) {query file : Node} {value : String} :
    ¬ m.Uses query file (.text value) := by
  intro huses
  unfold Uses at huses
  cases huses with
  | @text start asked met _ _ b c _ htakes hreaches hsettled hreads =>
      obtain ⟨hagrees, -, -⟩ := m.agrees
      obtain ⟨-, found, d, hagree, -⟩ := agree_of_takesPart m.bindsTexts hagrees htakes hreaches
      have hecma : language ∈ [Language.javaScript, .typeScript, .tsx] →
          m.config.mode.allowsExtra = false → ¬ Ecma.Reads met asked query file value := by
        intro hlanguage hmode hreads
        obtain ⟨hyes, -⟩ := (language.hasRules hlanguage m.parsers m.config m.source).accepts
          hagree hsettled hreads
        exact absurd (hmode.symm.trans hyes) Bool.false_ne_true
      cases language with
      | javaScript => exact hecma (by decide) h hreads
      | typeScript => exact hecma (by decide) h hreads
      | tsx => exact hecma (by decide) h hreads
      | css => simp [Language.readsNames] at h
      | python => exact hreads
      | cSharp => exact hreads
      | html => exact hreads
      | rust => exact hreads
      | lua => exact hreads

/-- Where no rule reads names, all uses of an alias agree. -/
theorem aliasesAgree (m : LanguageMatch language)
    (h : language.readsNames m.config.mode = false) : m.AliasesAgree := by
  intro name aliasName query₁ query₂ file₁ file₂ route₁ route₂ h₁ h₂ huses₁ huses₂
  cases route₁ with
  | text value => exact absurd huses₁ (m.not_uses_text h)
  | subtree =>
      cases route₂ with
      | text value => exact absurd huses₂ (m.not_uses_text h)
      | subtree => exact m.treesAgree name aliasName _ _ _ _ h₁ h₂ huses₁ huses₂

end LanguageMatch

/-! ## Uses that do not agree -/

/-- An attempt that leaves two single children to agree leads to an attempt on them. -/
theorem Attempt.exists_leads_of_child? {cx : MatchContext} (hgrammar : cx.grammar.BindsTexts)
    {a : Attempt} (ha : (a.outcome cx).agrees = true) {name : String} {file query : Node}
    (hpair : ([name], [name]) ∈ a.pairs cx) (hfile : a.file.child? name = some file)
    (hquery : a.query.child? name = some query) : ∃ c, a.Leads cx ⟨file, query, c⟩ := by
  obtain ⟨right, left, hright, hleft, hagree⟩ := a.fieldsAgree hgrammar ha hpair
  obtain rfl := Option.some.inj (hright.symm.trans (Node.field?_of_child? hfile))
  obtain rfl := Option.some.inj (hleft.symm.trans (Node.field?_of_child? hquery))
  cases hagree with
  | node hleads => exact hleads

/-- A parser that knows no text. -/
def bareParsers : ParserSet := ⟨fun _ _ => none, fun _ => []⟩

/-- A search in some mode, with no parser and no source. -/
def bareContext (language : Language) (mode : Mode) : MatchContext :=
  language.context bareParsers { mode } ""

/-- Where all aliases agree, so do those of a query that matches a tree at its root. -/
theorem structEq_of_aliasesAgree {language : Language} {mode : Mode}
    (hall : ∀ m : LanguageMatch language, m.config.mode = mode → m.AliasesAgree)
    {file query : Node} (hdistinct : file.NamesDistinct)
    (hagrees : (Attempt.outcome (bareContext language mode) ⟨file, query, .empty⟩).agrees = true)
    {name aliasName : String} {query₁ query₂ file₁ file₂ : Node} {route₁ route₂ : Route}
    (h₁ : IsTreeAlias (bareContext language mode) query₁ name aliasName)
    (h₂ : IsTreeAlias (bareContext language mode) query₂ name aliasName)
    (huses₁ : Occurs (bareContext language mode) language.Reads ⟨file, query, .empty⟩
      query₁ file₁ route₁)
    (huses₂ : Occurs (bareContext language mode) language.Reads ⟨file, query, .empty⟩
      query₂ file₂ route₂) : file₁.structEq file₂ = true := by
  obtain ⟨found, hfound, rfl⟩ := exists_found_of_agrees hagrees
  -- the file node is taken as the root of a tree, where the match is found
  let m : LanguageMatch language :=
    { parsers := bareParsers
      config := { mode }
      source := ""
      root := found.node
      query := query
      found := found
      namesDistinct := hdistinct
      isFound := hfound }
  exact hall m rfl name aliasName query₁ query₂ file₁ file₂ route₁ route₂ h₁ h₂ huses₁ huses₂

/-- A property with some key and value. -/
def property (key value : Node) : Node :=
  ((Node.branch "pair" .zero).setField "key" (.node key)).setField "value" (.node value)

/-- The property `'x': y`. -/
def quotedProperty : Node := property (.leaf "string" "'x'" .zero) (.leaf "identifier" "y" .zero)

/-- A property whose key and value are one alias. -/
def aliasedProperty : Node :=
  property (.leaf "property_identifier" "$$$_a" .zero) (.leaf "identifier" "$$$_a" .zero)

theorem isTreeAlias_leaf {cx : MatchContext} {kind : String}
    (h : cx.kinds.isIdentifier kind = true) (hmarkers : cx.markers = {}) :
    IsTreeAlias cx (.leaf kind "$$$_a" .zero) "$$$_a" "a" where
  identifier := h
  text := rfl
  whole := by rw [hmarkers]; decide +kernel
  aliasName := by rw [MatchContext.treeAlias?, hmarkers]; decide +kernel

/-- A key that a rule reads as a text and a value that is compared as a subtree share an alias,
and nothing makes them agree. -/
theorem not_aliasesAgree_of_property {language : Language}
    (hlanguage : language ∈ [Language.javaScript, .typeScript, .tsx]) {mode : Mode}
    (hmode : mode.allowsExtra = true) :
    ¬ ∀ m : LanguageMatch language, m.config.mode = mode → m.AliasesAgree := by
  intro hall
  have hmodes : mode ∈ [Mode.contained, .ordered] := by
    cases mode with
    | exact => simp [Mode.allowsExtra] at hmode
    | contained => decide
    | ordered => decide
  have hfacts : ∀ language ∈ [Language.javaScript, .typeScript, .tsx],
      ∀ mode ∈ [Mode.contained, .ordered],
        (Attempt.outcome (bareContext language mode)
          ⟨quotedProperty, aliasedProperty, .empty⟩).agrees = true ∧
        (["value"], ["value"]) ∈ Attempt.pairs (bareContext language mode)
          ⟨quotedProperty, aliasedProperty, .empty⟩ ∧
        (bareContext language mode).settles quotedProperty aliasedProperty .empty = true ∧
        (bareContext language mode).kinds.isIdentifier "property_identifier" = true ∧
        (bareContext language mode).kinds.isIdentifier "identifier" = true ∧
        valueField? (bareContext language mode) "identifier" (.leaf "identifier" "$$$_a" .zero) =
          none := by
    decide +kernel
  obtain ⟨hagrees, hpair, hsettled, hkey, hvalue, hend⟩ := hfacts language hlanguage mode hmodes
  have hreads : language.Reads = Ecma.Reads := by
    simp only [List.mem_cons, List.not_mem_nil, or_false] at hlanguage
    rcases hlanguage with rfl | rfl | rfl <;> rfl
  have hrules : Ecma.HasRules (bareContext language mode) :=
    language.hasRules hlanguage bareParsers { mode } ""
  -- the rule for properties reads the key, which it matches as a text
  have hkeyUse : Occurs (bareContext language mode) language.Reads
      ⟨quotedProperty, aliasedProperty, .empty⟩ (.leaf "property_identifier" "$$$_a" .zero)
      (.leaf "string" "'x'" .zero) (.text "x") := by
    rw [hreads]
    exact Occurs.text Relation.ReflTransGen.refl (Reaches.here _ _) hsettled
      (Ecma.Reads.keyed rfl rfl rfl rfl (by decide))
  have hfile : quotedProperty.child? "value" = some (.leaf "identifier" "y" .zero) := rfl
  have hquery : aliasedProperty.child? "value" = some (.leaf "identifier" "$$$_a" .zero) := rfl
  obtain ⟨c, hleads⟩ :=
    Attempt.exists_leads_of_child? (language.bindsTexts bareParsers {}) hagrees hpair hfile hquery
  -- the value is left to agree, and is compared as a subtree
  have hvalueUse : Occurs (bareContext language mode) language.Reads
      ⟨quotedProperty, aliasedProperty, .empty⟩ (.leaf "identifier" "$$$_a" .zero)
      (.leaf "identifier" "y" .zero) .subtree := by
    refine Occurs.subtree (Relation.ReflTransGen.single hleads) (Reaches.here _ _) hend ?_
    refine (isTreeAlias_leaf hvalue rfl).not_settles ?_
    rw [hrules.before]
    rfl
  have hequal := structEq_of_aliasesAgree hall (by decide) hagrees (isTreeAlias_leaf hkey rfl)
    (isTreeAlias_leaf hvalue rfl) hkeyUse hvalueUse
  exact absurd (Node.structEq_iff.1 hequal).1 (by decide)

/-- A declaration with two values. -/
def twoValues (kind first second : String) : Node :=
  ((Node.branch "declaration" .zero).setField "first" (.node (.leaf kind first .zero))).setField
    "second" (.node (.leaf kind second .zero))

theorem css_occurs {mode : Mode} {a : Attempt} {colour : String} {digits : List Char}
    {c : Bindings} (hcolour : colour.toList = '#' :: digits)
    (hleads : a.Leads (bareContext .css mode)
      ⟨.leaf "color_value" colour .zero, .leaf "plain_value" "$$$_a" .zero, c⟩) :
    ∃ route, Occurs (bareContext .css mode) Language.css.Reads a
      (.leaf "plain_value" "$$$_a" .zero) (.leaf "color_value" colour .zero) route := by
  have htakes := Relation.ReflTransGen.single hleads
  -- which of the two routes is taken depends on what is bound, but one is
  cases hsettled : (bareContext .css mode).settles (.leaf "color_value" colour .zero)
      (.leaf "plain_value" "$$$_a" .zero) c with
  | true =>
      exact ⟨_, Occurs.text htakes (Reaches.here _ _) hsettled
        (Css.Reads.colour rfl rfl rfl hcolour)⟩
  | false =>
      refine ⟨_, Occurs.subtree htakes (Reaches.here _ _) ?_ hsettled⟩
      cases mode <;> rfl

/-- An alias stands for the digits of one colour as a text and, where these do not agree with the
digits of another, for that other colour as a subtree. -/
theorem not_aliasesAgree_of_colours (mode : Mode) :
    ¬ ∀ m : LanguageMatch .css, m.config.mode = mode → m.AliasesAgree := by
  intro hall
  have hfacts : ∀ mode ∈ Mode.all,
      (Attempt.outcome (bareContext .css mode) ⟨twoValues "color_value" "#abc" "#def",
        twoValues "plain_value" "$$$_a" "$$$_a", .empty⟩).agrees = true ∧
      ∀ name ∈ ["first", "second"], ([name], [name]) ∈ Attempt.pairs (bareContext .css mode)
        ⟨twoValues "color_value" "#abc" "#def", twoValues "plain_value" "$$$_a" "$$$_a",
          .empty⟩ := by
    decide +kernel
  obtain ⟨hagrees, hpairs⟩ := hfacts mode (by cases mode <;> decide)
  have hbinds := Language.bindsTexts bareParsers {} .css
  obtain ⟨b, hfirst⟩ :=
    Attempt.exists_leads_of_child? hbinds hagrees (hpairs "first" (by decide)) rfl rfl
  obtain ⟨c, hsecond⟩ :=
    Attempt.exists_leads_of_child? hbinds hagrees (hpairs "second" (by decide)) rfl rfl
  obtain ⟨_, hfirstUse⟩ := css_occurs rfl hfirst
  obtain ⟨_, hsecondUse⟩ := css_occurs rfl hsecond
  have halias : IsTreeAlias (bareContext .css mode) (.leaf "plain_value" "$$$_a" .zero) "$$$_a"
      "a" := isTreeAlias_leaf (by cases mode <;> decide) rfl
  have hequal := structEq_of_aliasesAgree hall (by decide) hagrees halias halias hfirstUse
    hsecondUse
  exact absurd (Node.structEq_iff.1 hequal).2.1 (by decide)

/-- **How far aliases are consistent.** In all languages and modes the uses of an alias by
subtree agree and those by text match the text it is bound to. All uses of an alias agree in
exactly the languages and modes in which no rule reads names. -/
theorem Language.aliasesAgree_iff (language : Language) (mode : Mode) :
    (∀ m : LanguageMatch language, m.TreesAgree ∧ m.TextsAgree) ∧
      ((∀ m : LanguageMatch language, m.config.mode = mode → m.AliasesAgree) ↔
        language.readsNames mode = false) := by
  refine ⟨fun m => ⟨m.treesAgree, m.textsAgree⟩, fun hall => ?_, fun h m hmode => ?_⟩
  · have hecma : language ∈ [Language.javaScript, .typeScript, .tsx] →
        mode.allowsExtra = false := by
      intro hlanguage
      by_contra hmode
      exact not_aliasesAgree_of_property hlanguage (by simpa using hmode) hall
    cases language with
    | javaScript => exact hecma (by decide)
    | typeScript => exact hecma (by decide)
    | tsx => exact hecma (by decide)
    | css => exact absurd hall (not_aliasesAgree_of_colours mode)
    | python => rfl
    | cSharp => rfl
    | html => rfl
    | rust => rfl
    | lua => rfl
  · subst hmode
    exact m.aliasesAgree h

end CodeSearch

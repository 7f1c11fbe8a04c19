import CodeSearch.Proofs.LanguageSelfMatch
import CodeSearch.Proofs.Likeness

/-!
# Matching depends on structure alone, language by language

The rules of the languages read the kinds and texts of nodes, which fields these have, and the
children in fields that they name. All of that is the same in trees that are alike, so every
grammar looks at structure alone: `Language.matching_of_structEq`.
-/

set_option autoImplicit false

namespace CodeSearch

/-! ## Properties and elements -/

namespace Ecma

variable (config : MatchSettings) {f g : Node} {b c : Bindings}

theorem hasContent_alike (h : f.Alike g) : hasContent f = hasContent g := by
  have hchildren := h.children
  rw [hasContent, hasContent]
  generalize f.children = left at hchildren ⊢
  generalize g.children = right at hchildren ⊢
  induction hchildren with
  | nil => rfl
  | cons hchild _ ih => rw [List.any_cons, List.any_cons, ih, hchild.kind, hchild.text]

theorem pairTags_alike (h : f.Alike g) (exact : Bool) (query : Node) (queryTag fileTag : FieldPath)
    (names : List String) (pairs : List (FieldPath × FieldPath)) :
    pairTags exact query queryTag f fileTag names pairs =
      pairTags exact query queryTag g fileTag names pairs := by
  induction names generalizing pairs with
  | nil => rfl
  | cons name rest ih =>
      rw [pairTags, pairTags]
      simp only [h.isSome_resolve, ih]

theorem selfClosing_isStructural : Rule.IsStructural selfClosing := by
  intro config f g query b c h hb
  rw [selfClosing, selfClosing]
  simp only [h.kind, hasContent_alike h, pairTags_alike h]
  exact ⟨rfl, hb⟩

theorem matchOrCompare_alike (hb : b.Alike c) (pattern value : String) (kind : WildcardKind) :
    Option.Rel Bindings.Alike (matchOrCompare config pattern value kind b)
      (matchOrCompare config pattern value kind c) := by
  rw [matchOrCompare, matchOrCompare]
  split
  next => exact hb.matchText? _ _ _ _
  next =>
    split
    next => exact .some hb
    next => exact .none

theorem settle_alike (hb : b.Alike c) {left right : Option Bindings}
    (h : Option.Rel Bindings.Alike left right) :
    Bindings.AlikeWith (settle b left) (settle c right) := by
  cases h with
  | none => exact ⟨rfl, hb⟩
  | some h => exact ⟨rfl, h⟩

theorem renames_alike (h : f.Alike g) : renames f = renames g := by
  have hvalue := h.child? "value"
  rw [renames, renames]
  generalize f.child? "value" = left at hvalue ⊢
  generalize g.child? "value" = right at hvalue ⊢
  cases hvalue with
  | none => rfl
  | some hvalue => rw [Option.any_some, Option.any_some, hvalue.kind]

theorem plainKey?_alike (h : f.Alike g) : plainKey? f = plainKey? g := by
  have hkey := h.child? "key"
  rw [plainKey?, plainKey?]
  generalize f.child? "key" = left at hkey ⊢
  generalize g.child? "key" = right at hkey ⊢
  cases hkey with
  | none => rfl
  | some hkey => simp only [Option.filter_some, hkey.kind, apply_ite (Option.bind · Node.text),
      Option.bind_some, Option.bind_none, hkey.text]

theorem destructuring_isStructural : Rule.IsStructural destructuring := by
  intro config f g query b c h hb
  have hkeys : destructuredKeys? f query = destructuredKeys? g query := by
    rw [destructuredKeys?, destructuredKeys?]
    simp only [h.kind, h.text, renames_alike h, plainKey?_alike h]
  rw [destructuring, destructuring, hkeys]
  split
  next =>
    split
    next queryKey fileKey _ => exact settle_alike hb (matchOrCompare_alike config hb _ _ _)
    next => exact ⟨rfl, hb⟩
  next => exact ⟨rfl, hb⟩

theorem keyText?_alike (h : f.Alike g) : keyText? f = keyText? g := by
  rw [keyText?, keyText?, h.kind, h.text]

theorem shorthandAgainstPair_alike (h : f.Alike g) (hb : b.Alike c) (query : Node) :
    Option.Rel (Option.Rel Bindings.Alike) (shorthandAgainstPair config f query b)
      (shorthandAgainstPair config g query c) := by
  have hkey := h.child? "key"
  have hvalue := h.child? "value"
  rw [shorthandAgainstPair, shorthandAgainstPair]
  generalize f.child? "key" = leftKey at hkey ⊢
  generalize g.child? "key" = rightKey at hkey ⊢
  generalize f.child? "value" = leftValue at hvalue ⊢
  generalize g.child? "value" = rightValue at hvalue ⊢
  cases query.text with
  | none => exact .none
  | some name =>
      cases hkey with
      | none => exact .none
      | @some leftKey rightKey hkey =>
          simp only [Option.bind_eq_bind, Option.bind_some, keyText?_alike hkey]
          cases keyText? rightKey with
          | none => exact .none
          | some key =>
              cases hvalue with
              | none => exact .none
              | some hvalue =>
                  simp only [Option.bind_some, hvalue.kind, hvalue.text]
                  refine .some ?_
                  split
                  next => exact matchOrCompare_alike config hb _ _ _
                  next => exact .none

/-- Once its value has matched a shorthand property or not, a pair of the query is settled by its
key. -/
theorem settleKey_alike (hb : b.Alike c) (key name : String) {left right : Option Bindings} :
    Option.Rel Bindings.Alike left right → Option.Rel Bindings.AlikeWith
      (match left with
        | none => some (false, b)
        | some bound =>
            match matchOrCompare config key name .identifier bound with
            | some both => some (true, both)
            | none => some (false, bound))
      (match right with
        | none => some (false, c)
        | some bound =>
            match matchOrCompare config key name .identifier bound with
            | some both => some (true, both)
            | none => some (false, bound)) := by
  intro h
  cases h with
  | none => exact .some ⟨rfl, hb⟩
  | @some left right h =>
      have hboth := matchOrCompare_alike config h key name .identifier
      dsimp only
      generalize matchOrCompare config key name .identifier left = left' at hboth ⊢
      generalize matchOrCompare config key name .identifier right = right' at hboth ⊢
      cases hboth with
      | none => exact .some ⟨rfl, h⟩
      | some hboth => exact .some ⟨rfl, hboth⟩

theorem pairAgainstShorthand_alike (h : f.Alike g) (hb : b.Alike c) (query : Node) :
    Option.Rel Bindings.AlikeWith (pairAgainstShorthand config f query b)
      (pairAgainstShorthand config g query c) := by
  rw [pairAgainstShorthand, pairAgainstShorthand, h.text]
  cases g.text with
  | none => exact .none
  | some name =>
      simp only [Option.bind_eq_bind, Option.bind_some]
      cases query.child? "key" with
      | none => exact .none
      | some queryKey =>
          simp only [Option.bind_some]
          cases keyText? queryKey with
          | none => exact .none
          | some key =>
              cases query.child? "value" with
              | none => exact .none
              | some value =>
                  simp only [Option.bind_some]
                  refine settleKey_alike config hb key name ?_
                  split
                  next =>
                    cases value.text with
                    | none => exact .none
                    | some pattern => exact matchOrCompare_alike config hb _ _ _
                  next => exact .none

theorem pairAgainstPair_alike (h : f.Alike g) (hb : b.Alike c) (query : Node) :
    Option.Rel (Option.Rel Bindings.Alike) (pairAgainstPair config f query b)
      (pairAgainstPair config g query c) := by
  have hkey := h.child? "key"
  rw [pairAgainstPair, pairAgainstPair]
  generalize f.child? "key" = left at hkey ⊢
  generalize g.child? "key" = right at hkey ⊢
  cases query.child? "key" with
  | none => exact .none
  | some queryKey =>
      cases hkey with
      | none => exact .none
      | @some left right hkey =>
          simp only [Option.bind_eq_bind, Option.bind_some, hkey.kind, keyText?_alike hkey]
          split
          next => exact .none
          next =>
            cases keyText? queryKey with
            | none => exact .none
            | some queryText =>
                cases keyText? right with
                | none => exact .none
                | some fileText => exact .some (matchOrCompare_alike config hb _ _ _)

theorem propertyShapes_isStructural : Rule.IsStructural propertyShapes := by
  intro config f g query b c h hb
  have hshorthand := shorthandAgainstPair_alike config h hb query
  have hpair := pairAgainstShorthand_alike config h hb query
  have hpairs := pairAgainstPair_alike config h hb query
  rw [propertyShapes, propertyShapes]
  simp only [h.kind]
  generalize shorthandAgainstPair config f query b = left at hshorthand ⊢
  generalize shorthandAgainstPair config g query c = right at hshorthand ⊢
  generalize pairAgainstShorthand config f query b = left' at hpair ⊢
  generalize pairAgainstShorthand config g query c = right' at hpair ⊢
  generalize pairAgainstPair config f query b = left'' at hpairs ⊢
  generalize pairAgainstPair config g query c = right'' at hpairs ⊢
  split
  next => exact ⟨rfl, hb⟩
  next =>
    split
    next =>
      cases hshorthand with
      | none => exact ⟨rfl, hb⟩
      | some hshorthand => exact settle_alike hb hshorthand
    next =>
      split
      next =>
        cases hpair with
        | none => exact ⟨rfl, hb⟩
        | @some left right hpair =>
            obtain ⟨same, b⟩ := left
            obtain ⟨_, c⟩ := right
            obtain ⟨rfl, hafter⟩ : same = _ ∧ b.Alike c := hpair
            cases same <;> exact ⟨rfl, hafter⟩
      next =>
        split
        next =>
          cases hpairs with
          | none => exact ⟨rfl, hb⟩
          | some hpairs =>
              cases hpairs with
              | none => exact ⟨rfl, hb⟩
              | some hafter => exact ⟨rfl, hafter⟩
        next => exact ⟨rfl, hb⟩

theorem optionalChain_isStructural : Rule.IsStructural optionalChain := by
  intro config f g query b c h hb
  rw [optionalChain, optionalChain]
  simp only [h.kind, ← Option.not_isSome, h.isSome_field?, h.isSome_resolve]
  split
  next =>
    split
    next => exact ⟨rfl, hb⟩
    next => exact ⟨rfl, hb⟩
  next => exact ⟨rfl, hb⟩

end Ecma

/-! ## Dimensions and colours -/

namespace Css

variable {config : MatchSettings} {b c : Bindings}

theorem unitsVerdict_alike (hb : b.Alike c) (queryUnit fileUnit : String) :
    Bindings.AlikeWith (unitsVerdict config queryUnit fileUnit b)
      (unitsVerdict config queryUnit fileUnit c) := by
  have hmatch := hb.matchText? config.ignoreCase (.ofText config.markers queryUnit) fileUnit .string
  rw [unitsVerdict, unitsVerdict]
  split
  next =>
    generalize b.matchText? _ _ fileUnit .string = left at hmatch ⊢
    generalize c.matchText? _ _ fileUnit .string = right at hmatch ⊢
    cases hmatch with
    | none => exact ⟨rfl, hb⟩
    | some hmatch => exact ⟨rfl, hmatch⟩
  next =>
    split
    next => split <;> exact ⟨rfl, hb⟩
    next => split <;> exact ⟨rfl, hb⟩

theorem dimensions_isStructural : Rule.IsStructural dimensions := by
  intro config f g query b c h hb
  have hfile : dimensions config f query b = dimensions config g query b := by
    simp only [dimensions, h.kind, h.text]
  rw [hfile]
  have hnumbers : (∃ queryText fileText, kinds.isNumber query.kind = true ∧
      kinds.isNumber g.kind = true ∧ query.text = some queryText ∧ g.text = some fileText) →
      Bindings.AlikeWith (dimensions config g query b) (dimensions config g query c) := by
    rintro ⟨queryText, fileText, hquery, hfile, hqueryText, hfileText⟩
    rw [dimensions_eq config b hquery hfile hqueryText hfileText,
      dimensions_eq config c hquery hfile hqueryText hfileText]
    split
    next => exact unitsVerdict_alike hb _ _
    next =>
      split
      next => exact unitsVerdict_alike hb _ _
      next => exact ⟨rfl, hb⟩
  rcases dimensions_cases config g query b with hleft | hleft
  · rcases dimensions_cases config g query c with hright | hright
    · rw [hleft, hright]
      exact ⟨rfl, hb⟩
    · exact hnumbers hright
  · exact hnumbers hleft

theorem hashWildcard_isStructural : Rule.IsStructural hashWildcard := by
  intro config f g query b c h hb
  rw [hashWildcard, hashWildcard]
  simp only [h.kind, h.text]
  split
  next pattern colour _ _ =>
    split
    next =>
      split
      next digits _ =>
        have hmatch := hb.matchText? config.ignoreCase (.ofText config.markers pattern)
          (String.ofList digits) .string
        generalize b.matchText? _ _ _ .string = left at hmatch ⊢
        generalize c.matchText? _ _ _ .string = right at hmatch ⊢
        cases hmatch with
        | none => exact ⟨rfl, hb⟩
        | some hmatch => exact ⟨rfl, hmatch⟩
      next => exact ⟨rfl, hb⟩
    next => exact ⟨rfl, hb⟩
  next => exact ⟨rfl, hb⟩

end Css

/-! ## All languages -/

namespace Language

/-- The rules of all languages look at structure alone. -/
theorem rules_isStructural (language : Language) :
    ∀ rule ∈ language.dialect.rulesBefore ++ language.dialect.rulesAfter, rule.IsStructural :=
  forall_rules Ecma.selfClosing_isStructural Ecma.destructuring_isStructural
    Ecma.propertyShapes_isStructural Ecma.optionalChain_isStructural Css.dimensions_isStructural
    Css.hashWildcard_isStructural language

/-- Every language looks at structure alone. -/
theorem isStructural (language : Language) (parsers : ParserSet) (markers : Markers) :
    (language.grammar parsers markers).IsStructural where
  rulesBefore rule hrule := language.rules_isStructural rule (List.mem_append_left _ hrule)
  rulesAfter rule hrule := language.rules_isStructural rule (List.mem_append_right _ hrule)
  comparable _ _ h := isComparable_congr h.kind h.text

/-- **Matching depends on structure alone**, in every language, every mode and under all settings.
Take two structurally equal trees, which may stand in different texts, with other spans and with
their fields in another order, and bindings that hold the same texts and structurally equal trees.
A query has one verdict on both, meets as many violations, and ends with bindings of that kind. No
node has two fields of one name; all that build nodes see to that. -/
theorem matching_of_structEq (language : Language) (parsers : ParserSet) (config : SearchConfig)
    (source source' : String) (query : Node) {f g : Node} {b c : Bindings}
    (hnames : f.NamesDistinct) (h : f.structEq g = true) (hb : b.Alike c) :
    (validate (language.context parsers config source) f query b).Alike
      (validate (language.context parsers config source') g query c) :=
  validate_alike (language.isStructural parsers config.markers) query ⟨hnames, h⟩ hb

/-- A name in JavaScript. -/
def nameAt (name : String) (span : Span) : Node := .leaf "identifier" name span

/-- The sum of a name with itself, as it stands at the beginning of a text. -/
def doubled (name : String) : Node :=
  .mk "binary_expression" none
    [("left", .node (nameAt name (lineSpan 0 1))), ("operator", .token "+"),
      ("right", .node (nameAt name (lineSpan 2 3)))] (lineSpan 0 3)

/-- The same sum further on in a text, its operands listed in reverse. -/
def doubledLater (name : String) : Node :=
  .mk "binary_expression" none
    [("right", .node (nameAt name (lineSpan 11 12))), ("operator", .token "+"),
      ("left", .node (nameAt name (lineSpan 7 8)))] (lineSpan 7 12)

/-- A sum that was moved and whose fields stand in another order still matches a query with one
alias for both operands, to which another use of the name is bound. -/
theorem matching_of_doubledLater :
    let b : Bindings := { nodeTree := [("t", ⟨"x", some (nameAt "x" (lineSpan 9 10))⟩)] }
    let c : Bindings := { nodeTree := [("t", ⟨"x", some (nameAt "x" (lineSpan 20 21))⟩)] }
    (doubled "x").NamesDistinct ∧ (doubled "x").structEq (doubledLater "x") = true ∧ b.Alike c ∧
      (validate (javaScript.context destructuringParsers {} "x+x; f = x") (doubled "x")
        (doubled "$$$_t") b).agrees = true ∧
      (validate (javaScript.context destructuringParsers {} "x+x; f = x") (doubled "x")
        (doubled "$$$_t") b).Alike
      (validate (javaScript.context destructuringParsers {} "let y = x + x; g(y, x)")
        (doubledLater "x") (doubled "$$$_t") c) := by
  intro b c
  have hnames : (doubled "x").NamesDistinct := by decide
  have h : (doubled "x").structEq (doubledLater "x") = true := by decide +kernel
  have hb : b.Alike c := ⟨rfl, rfl, .cons ⟨rfl, ⟨.some ⟨by decide, by decide +kernel⟩⟩⟩ .nil⟩
  refine ⟨hnames, h, hb, by decide +kernel, ?_⟩
  exact matching_of_structEq javaScript destructuringParsers {} "x+x; f = x"
    "let y = x + x; g(y, x)" (doubled "$$$_t") hnames h hb

end Language

end CodeSearch

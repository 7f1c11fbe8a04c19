import CodeSearch.Proofs.PropertyComparison

/-!
# The forms of a property

A property `a: a` may be written as `a` for short, and a query for the one form is to match the
other. It does wherever the two are read alike. They are not where a wildcard is only part of the
name of a shorthand property: such a wildcard is compared with names, and never gets as far as the
rule that compares a shorthand property with a pair. Nor are they always where a key or a value
stands for a subtree: the rule reads it as a text, while in a pair it stands for a node, with an
alias of another name space. And some keys with wildcards the rule does not read at all.
`TellsApart` says which queries these are, and there are no others:
`Language.property_forms_agree_iff`.
-/

set_option autoImplicit false

namespace CodeSearch

namespace Ecma

/-! ## Texts that match a name together -/

/-- Whether several texts match a name together, their aliases agreeing. -/
def matchTogether (config : MatchSettings) (name : String) (patterns : List String) : Bool :=
  (matchAll config name patterns .empty).isSome

/-- Two nodes of a query stand for subtrees by one alias. -/
def ShareAlias (cx : MatchContext) (key value : Node) : Prop :=
  ∃ aliasName, cx.subtreeAlias? key = some aliasName ∧ cx.subtreeAlias? value = some aliasName

/-- The texts of those nodes of a query that do not stand for subtrees. -/
def textsBesideTrees (cx : MatchContext) (parts : List (Node × String)) : List String :=
  (parts.filter fun part => !cx.standsForTree part.1).map Prod.snd

section

variable {cx : MatchContext} {key value fileKey fileValue : Node} {name first second : String}

theorem matchTogether_one_iff : matchTogether cx.config name [first] = true ↔
    ∃ uses, cx.textUses? first name = some uses ∧ AliasUse.AllAgree cx uses := by
  have hmeets : MeetsUses cx (matchOrCompare cx.config first name .identifier) _ :=
    matchOrCompare_meets (by decide) first name
  rw [matchTogether, matchAll_one]
  exact hmeets.isSome_iff (allDistinct_textUses? first name)

theorem matchTogether_two_iff : matchTogether cx.config name [first, second] = true ↔
    ∃ uses more, cx.textUses? first name = some uses ∧ cx.textUses? second name = some more ∧
      AliasUse.AllAgree cx (uses ++ more) := by
  have hmeets : ∀ pattern, MeetsUses cx (matchOrCompare cx.config pattern name .identifier) _ :=
    fun pattern => matchOrCompare_meets (by decide) pattern name
  rw [matchTogether, matchAll_two]
  exact (hmeets first).both_isSome_iff (hmeets second) (allDistinct_textUses? first name)
    (allDistinct_textUses? second name)

/-- The order of the texts does not matter. -/
theorem matchTogether_swap : matchTogether cx.config name [first, second] =
    matchTogether cx.config name [second, first] := by
  have hswap : ∀ x y, matchTogether cx.config name [x, y] = true →
      matchTogether cx.config name [y, x] = true := by
    intro x y h
    obtain ⟨uses, more, huses, hmore, hagree⟩ := matchTogether_two_iff.1 h
    exact matchTogether_two_iff.2
      ⟨more, uses, hmore, huses, AliasUse.allAgree_append_comm.1 hagree⟩
  exact Bool.eq_iff_iff.2 ⟨hswap first second, hswap second first⟩

/-- Texts that match together match alone. -/
theorem matchTogether_of_two (h : matchTogether cx.config name [first, second] = true) :
    matchTogether cx.config name [first] = true := by
  obtain ⟨uses, more, huses, -, hagree⟩ := matchTogether_two_iff.1 h
  exact matchTogether_one_iff.2 ⟨uses, huses, hagree.left⟩

/-- Texts that match a name together do so without those that stand for subtrees. -/
theorem matchTogether_beside
    (h : matchTogether cx.config name [first, second] = true) :
    matchTogether cx.config name (textsBesideTrees cx [(key, first), (value, second)]) = true := by
  have hsecond : matchTogether cx.config name [second] = true :=
    matchTogether_of_two (matchTogether_swap.trans h)
  unfold textsBesideTrees
  cases htreeKey : cx.standsForTree key <;> cases htreeValue : cx.standsForTree value <;>
    simp [htreeKey, htreeValue, h, hsecond, matchTogether_of_two h]
  rfl

/-- What a key and a value meet in nodes of different kinds agrees just if the texts of those that
do not stand for subtrees match together, and the two do not stand for subtrees by one alias. -/
theorem nodeUses?_agree_iff (hkinds : fileKey.kind ≠ fileValue.kind)
    (hkey : fileKey.NamesDistinct) (hvalue : fileValue.NamesDistinct) :
    (∃ uses more, cx.nodeUses? fileKey key first name = some uses ∧
      cx.nodeUses? fileValue value second name = some more ∧
      AliasUse.AllAgree cx (uses ++ more)) ↔
    matchTogether cx.config name (textsBesideTrees cx [(key, first), (value, second)]) = true ∧
      ¬ ShareAlias cx key value := by
  unfold MatchContext.nodeUses? textsBesideTrees ShareAlias
  cases htreeKey : cx.standsForTree key with
  | true =>
      cases htreeValue : cx.standsForTree value with
      | true =>
          have hnothing : matchTogether cx.config name [] = true := rfl
          simp [htreeKey, htreeValue, hnothing, AliasUse.allAgree_trees_iff hkinds hkey hvalue]
      | false =>
          have hsplit : ∀ uses, cx.textUses? second name = some uses →
              (AliasUse.AllAgree cx ((cx.subtreeAlias? key).toList.map (.tree · fileKey) ++ uses) ↔
                AliasUse.AllAgree cx uses) :=
            fun uses huses => AliasUse.allAgree_tree_append_iff hkey _ (isText_of_textUses? huses)
          simp +contextual [htreeKey, htreeValue, matchTogether_one_iff,
            subtreeAlias?_eq_none htreeValue, and_congr_right_iff.2 (hsplit _)]
  | false =>
      cases htreeValue : cx.standsForTree value with
      | true =>
          have hsplit : ∀ uses, cx.textUses? first name = some uses →
              (AliasUse.AllAgree cx
                (uses ++ (cx.subtreeAlias? value).toList.map (.tree · fileValue)) ↔
                AliasUse.AllAgree cx uses) := by
            intro uses huses
            rw [AliasUse.allAgree_append_comm]
            exact AliasUse.allAgree_tree_append_iff hvalue _ (isText_of_textUses? huses)
          simp +contextual [htreeKey, htreeValue, matchTogether_one_iff,
            subtreeAlias?_eq_none htreeKey, and_congr_right_iff.2 (hsplit _)]
      | false =>
          simp [htreeKey, htreeValue, subtreeAlias?_eq_none htreeKey, matchTogether_two_iff]

end

/-! ## Queries that tell the forms apart -/

/-- **A property of an object in a query**: a shorthand property, or a pair of any key and value, in
which names are leaves. -/
inductive IsProperty (cx : MatchContext) : Node → Prop
  | shorthand (text : String) (span : Span) : IsProperty cx (shorthandOf text span)
  | pair {key value : Node} (hkey : IsPart cx key) (hvalue : IsPart cx value) (span : Span) :
      IsProperty cx (pairOf key value span)

/-- **The queries that tell the two forms of a property apart.** -/
inductive TellsApart (cx : MatchContext) (name : String) (query : Node) : Prop
  /-- A shorthand property with a wildcard that is part of a name which the property has. A pair is
  no name, and the rule for properties never comes to compare it. -/
  | part {text : String} {span : Span} (hquery : query = shorthandOf text span)
      (hwildcard : cx.markers.hasWildcard text = true) (hpart : cx.standsForTree query = false)
      (hmatch : matchTogether cx.config name [text] = true)
  /-- A pair whose key and value stand for subtrees by one alias. They are read as texts against the
  shorthand property, which are the same, and are a key and a value of the pair, which differ. -/
  | sameAlias {key value : Node} {span : Span} {text pattern : String}
      (hquery : query = pairOf key value span) (hkey : keyText? key = some text)
      (hvalue : valueText? value = some pattern)
      (haliases : ShareAlias cx key value)
      (hmatch : matchTogether cx.config name [text, pattern] = true)
  /-- A pair of which only what does not stand for subtrees matches the name, but not the whole with
  the rest read as texts. -/
  | beside {key value : Node} {span : Span} {text pattern : String}
      (hquery : query = pairOf key value span) (hkey : keyText? key = some text)
      (hvalue : valueText? value = some pattern)
      (haliases : ¬ ShareAlias cx key value)
      (hbeside : matchTogether cx.config name
        (textsBesideTrees cx [(key, text), (value, pattern)]) = true)
      (hmatch : matchTogether cx.config name [text, pattern] = false)
  /-- A pair whose key or value is a name of a further kind, as `#$$`, and matches the name by its
  wildcards. The rule does not read it, so that it does not match the shorthand property. -/
  | unread {key value : Node} {span : Span} {text pattern : String}
      (hquery : query = pairOf key value span) (hkey : partText? cx keyText? key = some text)
      (hvalue : partText? cx valueText? value = some pattern)
      (hunread : keyText? key = none ∨ valueText? value = none)
      (haliases : ¬ ShareAlias cx key value)
      (hbeside : matchTogether cx.config name
        (textsBesideTrees cx [(key, text), (value, pattern)]) = true)

section

variable {cx : MatchContext} {key value : Node} {name text : String}
  {span keySpan valueSpan pairSpan other : Span}

/-- A leaf has no two fields of one name. -/
theorem namesDistinct_leaf (kind : String) : (Node.leaf kind text span).NamesDistinct := by
  intro n hn
  simp [Node.leaf, Node.walk, Field.walkEntries] at hn
  subst hn
  simp

/-- A shorthand property of a query matches one of a file if it stands for any subtree or its text
matches. -/
theorem ComparesForms.shorthand_on_shorthand (h : ComparesForms cx) :
    (validate cx (shorthandOf name span) (shorthandOf text other) .empty).agrees =
      (cx.standsForTree (shorthandOf text other) || matchTogether cx.config name [text]) := by
  have hmeets : MeetsUses cx
      (fun b => (validate cx (shorthandOf name span) (shorthandOf text other) b).bindings?)
      (cx.nodeUses? (shorthandOf name span) (shorthandOf text other) text name) :=
    h.name_meets (by decide)
  have hleaf : (shorthandOf name span).NamesDistinct := namesDistinct_leaf _
  rw [Validation.agrees_eq_isSome, Bool.eq_iff_iff, Bool.or_eq_true, matchTogether_one_iff,
    hmeets.isSome_iff (allDistinct_nodeUses? hleaf _ _ _), MatchContext.nodeUses?]
  cases htree : cx.standsForTree (shorthandOf text other) with
  | true =>
      rw [if_pos rfl]
      exact iff_of_true ⟨_, rfl, AliasUse.allAgree_tree hleaf _⟩ (Or.inl rfl)
  | false => simp

theorem kind_explicitOf_mem :
    (explicitOf name keySpan valueSpan span).kind ∈ "pair" :: formNames := List.mem_cons_self

/-- The pair that a shorthand property is short for has no two fields of one name. -/
theorem namesDistinct_explicitOf : (explicitOf name keySpan valueSpan span).NamesDistinct := by
  intro n hn
  simp only [explicitOf, pairOf, Node.leaf, Node.walk, Field.walkEntries, Field.walk,
    List.append_nil, List.mem_cons, List.mem_append, List.not_mem_nil, or_false] at hn
  rcases hn with rfl | rfl | rfl <;> simp

/-- A wildcard that is part of the name of a shorthand property does not match a pair, which is no
name. -/
theorem ComparesForms.part_on_explicit (h : ComparesForms cx)
    (hhas : cx.markers.hasWildcard text = true)
    (hpart : cx.standsForTree (shorthandOf text other) = false) :
    (validate cx (explicitOf name keySpan valueSpan span) (shorthandOf text other) .empty).agrees =
      false := by
  have hwildcard : cx.nameWildcard? (shorthandOf text other) = some text :=
    (h.nameWildcard?_leaf (by decide)).trans (if_pos hhas)
  have hwhole : cx.markers.isNodeTree text = false := by
    simpa [MatchContext.standsForTree, hwildcard] using hpart
  have hcompare : compare cx (explicitOf name keySpan valueSpan span) (shorthandOf text other)
      .empty = _ := (h.compare_eq kind_explicitOf_mem _ _).trans (comparePlain_of_name hwildcard _)
  have hno : cx.fileName? (explicitOf name keySpan valueSpan span) = none := by
    have hpair : cx.kinds.isIdentifier "pair" = false := h.isIdentifier_pair
    rw [MatchContext.fileName?, explicitOf, pairOf, Node.kind_mk, hpair]
    rfl
  rw [compareIdentifier_name hwhole, hno] at hcompare
  rw [Validation.agrees_eq_isSome,
    bindings?_validate_of_not_agrees (by rw [hcompare]; exact Bool.false_ne_true)]
  rfl

/-- A shorthand property without wildcards matches a pair just if it is the name. -/
theorem ComparesForms.plain_on_explicit (h : ComparesForms cx)
    (hhas : cx.markers.hasWildcard text = false) :
    (validate cx (explicitOf name keySpan valueSpan span) (shorthandOf text other) .empty).agrees =
      matchTogether cx.config name [text] := by
  have hwildcard : cx.nameWildcard? (shorthandOf text other) = none := by
    refine (h.nameWildcard?_leaf (by decide)).trans (if_neg ?_)
    rw [hhas]
    exact Bool.false_ne_true
  have hnumber : cx.isAnyNumber (shorthandOf text other) = false := by
    have hkind : (shorthandOf text other).kind ∈ "pair" :: formNames := kind_shorthandOf_mem
    rw [MatchContext.isAnyNumber, (h.plain hkind).2.2.1]
    rfl
  have hmatch : ∀ b, matchOrCompare cx.config text name .identifier b =
      if Text.sameText cx.config.ignoreCase text name then some b else none := by
    intro b
    rw [MatchContext.markers] at hhas
    rw [matchOrCompare, hhas, if_neg Bool.false_ne_true]
  have hrule : propertyShapes cx.config (explicitOf name keySpan valueSpan span)
      (shorthandOf text other) .empty =
        settle .empty (if Text.sameText cx.config.ignoreCase text name then
          matchOrCompare cx.config text name .identifier .empty else none) := by
    unfold propertyShapes
    dsimp only
    rw [if_neg (by simp [h.mode]), if_pos ⟨rfl, rfl⟩]
    rfl
  rw [hmatch] at hrule
  rw [Validation.agrees_eq_isSome, matchTogether, matchAll_one, hmatch]
  cases hsame : Text.sameText cx.config.ignoreCase text name with
  | true =>
      rw [hsame] at hrule
      rw [h.bindings?_of_accept kind_explicitOf_mem hwildcard hnumber hrule]
      rfl
  | false =>
      rw [hsame] at hrule
      rw [h.bindings?_of_reject kind_explicitOf_mem hwildcard hnumber hrule]
      rfl

/-- A shorthand property of a query matches a pair if it stands for any subtree, or has no wildcard
and is the name. -/
theorem ComparesForms.shorthand_on_explicit (h : ComparesForms cx) :
    (validate cx (explicitOf name keySpan valueSpan span) (shorthandOf text other) .empty).agrees =
      (cx.standsForTree (shorthandOf text other) ||
        !cx.markers.hasWildcard text && matchTogether cx.config name [text]) := by
  cases htree : cx.standsForTree (shorthandOf text other) with
  | true =>
      have hmeets : MeetsUses cx (fun b => (validate cx (explicitOf name keySpan valueSpan span)
          (shorthandOf text other) b).bindings?) _ :=
        tree_meets (h.compare_eq kind_explicitOf_mem _) htree
      rw [Validation.agrees_eq_isSome, Bool.true_or,
        hmeets.isSome_iff (allDistinct_tree namesDistinct_explicitOf _)]
      exact ⟨_, rfl, AliasUse.allAgree_tree namesDistinct_explicitOf _⟩
  | false =>
      cases hhas : cx.markers.hasWildcard text with
      | true => exact h.part_on_explicit hhas htree
      | false => exact h.plain_on_explicit hhas

/-- A pair of a query matches a shorthand property by its texts. -/
theorem ComparesForms.pair_on_shorthand_agrees (h : ComparesForms cx) :
    (validate cx (shorthandOf name span) (pairOf key value other) .empty).agrees = true ↔
      ∃ text pattern, keyText? key = some text ∧ valueText? value = some pattern ∧
        matchTogether cx.config name [text, pattern] = true := by
  rw [Validation.agrees_eq_isSome, h.pair_on_shorthand]
  cases keyText? key with
  | none => simp
  | some text =>
      cases valueText? value with
      | none => simp
      | some pattern =>
          have hswap : matchTogether cx.config name [text, pattern] =
            (matchAll cx.config name [pattern, text] .empty).isSome := matchTogether_swap
          simp [hswap]

/-- A pair of a query matches the pair that has a name for key and value by the texts of what does
not stand for subtrees, unless one alias stands for both. -/
theorem ComparesForms.pair_on_explicit (h : ComparesForms cx) (hkey : IsPart cx key)
    (hvalue : IsPart cx value) :
    (validate cx (explicitOf name keySpan valueSpan span) (pairOf key value other)
        .empty).agrees = true ↔
      ∃ text pattern, partText? cx keyText? key = some text ∧
        partText? cx valueText? value = some pattern ∧
        matchTogether cx.config name
          (textsBesideTrees cx [(key, text), (value, pattern)]) = true ∧
        ¬ ShareAlias cx key value := by
  have hkeyMeets : MeetsUses cx (fun b => (pairAgainstPair cx.config
      (explicitOf name keySpan valueSpan span) (pairOf key value other) b).getD
        (validate cx (.leaf "property_identifier" name keySpan) key b).bindings?) _ :=
    h.key_meets hkey
  have hvalueMeets : MeetsUses cx
      (fun b => (validate cx (.leaf "identifier" name valueSpan) value b).bindings?) _ :=
    h.value_meets hvalue
  have hdistinct : ∀ (read : Option String) (kind : String) (place : Span) (n : Node),
      AliasUse.AllDistinct (read.bind fun pattern =>
        cx.nodeUses? (.leaf kind name place) n pattern name) := by
    intro read kind place n
    cases read with
    | none => simp [AliasUse.AllDistinct]
    | some pattern => exact allDistinct_nodeUses? (namesDistinct_leaf kind) n pattern name
  rw [Validation.agrees_eq_isSome, explicitOf, h.pair_on_pair]
  refine (hkeyMeets.both_isSome_iff hvalueMeets (hdistinct _ _ _ _) (hdistinct _ _ _ _)).trans ?_
  cases partText? cx keyText? key with
  | none => simp
  | some text =>
      cases partText? cx valueText? value with
      | none => simp
      | some pattern =>
          refine (nodeUses?_agree_iff (by simp [Node.leaf]) (namesDistinct_leaf _)
            (namesDistinct_leaf _)).trans ?_
          simp

theorem shorthandOf_inj : shorthandOf name span = shorthandOf text other ↔
    name = text ∧ span = other := by
  simp [shorthandOf, Node.leaf]

theorem pairOf_inj {key' value' : Node} : pairOf key value span = pairOf key' value' other ↔
    key = key' ∧ value = value' ∧ span = other := by
  simp [pairOf, and_assoc]

theorem shorthandOf_ne_pairOf : shorthandOf name span ≠ pairOf key value other := by
  simp [shorthandOf, pairOf, Node.leaf]

theorem tellsApart_shorthand_iff : TellsApart cx name (shorthandOf text span) ↔
    cx.markers.hasWildcard text = true ∧ cx.standsForTree (shorthandOf text span) = false ∧
      matchTogether cx.config name [text] = true := by
  constructor
  · intro htells
    cases htells with
    | part hquery hwildcard hpart hmatch =>
        obtain ⟨rfl, -⟩ := shorthandOf_inj.1 hquery
        exact ⟨hwildcard, hpart, hmatch⟩
    | sameAlias hquery => exact absurd hquery shorthandOf_ne_pairOf
    | beside hquery => exact absurd hquery shorthandOf_ne_pairOf
    | unread hquery => exact absurd hquery shorthandOf_ne_pairOf
  · rintro ⟨hwildcard, hpart, hmatch⟩
    exact TellsApart.part rfl hwildcard hpart hmatch

/-- Where key and value of a pair are read. -/
theorem tellsApart_read_iff {pattern : String} (hkey : keyText? key = some text)
    (hvalue : valueText? value = some pattern) : TellsApart cx name (pairOf key value span) ↔
      (ShareAlias cx key value ∧ matchTogether cx.config name [text, pattern] = true ∨
        ¬ ShareAlias cx key value ∧ matchTogether cx.config name
          (textsBesideTrees cx [(key, text), (value, pattern)]) = true ∧
            matchTogether cx.config name [text, pattern] = false) := by
  constructor
  · intro htells
    cases htells with
    | part hquery => exact absurd hquery.symm shorthandOf_ne_pairOf
    | sameAlias hquery hkey' hvalue' haliases hmatch =>
        obtain ⟨rfl, rfl, -⟩ := pairOf_inj.1 hquery
        obtain rfl := Option.some.inj (hkey.symm.trans hkey')
        obtain rfl := Option.some.inj (hvalue.symm.trans hvalue')
        exact Or.inl ⟨haliases, hmatch⟩
    | beside hquery hkey' hvalue' haliases hbeside hmatch =>
        obtain ⟨rfl, rfl, -⟩ := pairOf_inj.1 hquery
        obtain rfl := Option.some.inj (hkey.symm.trans hkey')
        obtain rfl := Option.some.inj (hvalue.symm.trans hvalue')
        exact Or.inr ⟨haliases, hbeside, hmatch⟩
    | unread hquery _ _ hunread =>
        obtain ⟨rfl, rfl, -⟩ := pairOf_inj.1 hquery
        simp [hkey, hvalue] at hunread
  · rintro (⟨haliases, hmatch⟩ | ⟨haliases, hbeside, hmatch⟩)
    · exact TellsApart.sameAlias rfl hkey hvalue haliases hmatch
    · exact TellsApart.beside rfl hkey hvalue haliases hbeside hmatch

/-- Where the key or the value of a pair is not read. -/
theorem tellsApart_unread_iff (hunread : keyText? key = none ∨ valueText? value = none) :
    TellsApart cx name (pairOf key value span) ↔
      ∃ text pattern, partText? cx keyText? key = some text ∧
        partText? cx valueText? value = some pattern ∧
        matchTogether cx.config name
          (textsBesideTrees cx [(key, text), (value, pattern)]) = true ∧
        ¬ ShareAlias cx key value := by
  constructor
  · intro htells
    cases htells with
    | part hquery => exact absurd hquery.symm shorthandOf_ne_pairOf
    | sameAlias hquery hkey hvalue =>
        obtain ⟨rfl, rfl, -⟩ := pairOf_inj.1 hquery
        simp [hkey, hvalue] at hunread
    | beside hquery hkey hvalue =>
        obtain ⟨rfl, rfl, -⟩ := pairOf_inj.1 hquery
        simp [hkey, hvalue] at hunread
    | unread hquery hkey hvalue _ haliases hbeside =>
        obtain ⟨rfl, rfl, -⟩ := pairOf_inj.1 hquery
        exact ⟨_, _, hkey, hvalue, hbeside, haliases⟩
  · rintro ⟨text, pattern, hkey, hvalue, hbeside, haliases⟩
    exact TellsApart.unread rfl hkey hvalue hunread haliases hbeside

/-- **Shorthand and explicit properties**: a query for a property matches the one form just if it
matches the other, unless it tells the two apart. -/
theorem ComparesForms.forms_agree_iff (h : ComparesForms cx) {query : Node}
    (hquery : IsProperty cx query) :
    (validate cx (shorthandOf name span) query .empty).agrees =
        (validate cx (explicitOf name keySpan valueSpan pairSpan) query .empty).agrees ↔
      ¬ TellsApart cx name query := by
  cases hquery with
  | shorthand text place =>
      rw [h.shorthand_on_shorthand, h.shorthand_on_explicit, tellsApart_shorthand_iff]
      cases cx.standsForTree (shorthandOf text place) <;> cases cx.markers.hasWildcard text <;>
        simp
  | @pair key value hkey hvalue place =>
      rw [Bool.eq_iff_iff, h.pair_on_shorthand_agrees, h.pair_on_explicit hkey hvalue]
      by_cases hunread : keyText? key = none ∨ valueText? value = none
      · -- what is not read does not match the shorthand property
        have hshorthand : ¬ ∃ text pattern, keyText? key = some text ∧
            valueText? value = some pattern ∧
              matchTogether cx.config name [text, pattern] = true := by
          rintro ⟨text, pattern, hread, hread', -⟩
          simp [hread, hread'] at hunread
        rw [tellsApart_unread_iff hunread, iff_false_left hshorthand]
      · rw [not_or, ← ne_eq, ← ne_eq, Option.ne_none_iff_exists', Option.ne_none_iff_exists']
          at hunread
        obtain ⟨⟨text, hread⟩, ⟨pattern, hread'⟩⟩ := hunread
        rw [tellsApart_read_iff hread hread']
        simp only [partText?, hread, hread', Option.some_or, Option.some.injEq, exists_and_left,
          exists_eq_left', ← Bool.not_eq_true (matchTogether _ _ _)]
        have hbeside : matchTogether cx.config name [text, pattern] = true →
            matchTogether cx.config name
              (textsBesideTrees cx [(key, text), (value, pattern)]) = true :=
          matchTogether_beside
        tauto

end

end Ecma

/-! ## The languages -/

namespace Language

theorem comparesForms {language : Language}
    (h : language ∈ [Language.javaScript, .typeScript, .tsx]) (parsers : ParserSet)
    {config : SearchConfig} (source : String) (hmode : config.mode.allowsExtra = true) :
    Ecma.ComparesForms (language.context parsers config source) := by
  have hrules := language.hasRules h parsers config source
  have hstrings : ∀ kind text, kind ≠ "string" →
      (if kind = "string" then stripQuotes Ecma.quotes text else text) = text :=
    fun kind text hkind => if_neg hkind
  simp only [List.mem_cons, List.not_mem_nil, or_false] at h
  rcases h with rfl | rfl | rfl
  · exact ⟨hrules, Or.inl rfl, hstrings, hmode⟩
  · exact ⟨hrules, Or.inr rfl, hstrings, hmode⟩
  · exact ⟨hrules, Or.inr rfl, hstrings, hmode⟩

/-- **The forms of a property are interchangeable** in JavaScript and TypeScript where further code
is ignored: for a name `a` and a query for a property, whatever wildcards and aliases it has, the
query matches the shorthand property `a` just if it matches the pair `a: a`, unless it tells the two
apart. It does if a wildcard is part of the name of a shorthand property; if one alias stands for
key and value as subtrees; if what does not stand for subtrees matches the name, but all that is
written does not match it as text; or if the wildcards of a name that is not read match. -/
theorem property_forms_agree_iff {language : Language}
    (hlanguage : language ∈ [Language.javaScript, .typeScript, .tsx]) (parsers : ParserSet)
    {config : SearchConfig} (source : String) (hmode : config.mode.allowsExtra = true)
    (name : String) (shorthandSpan keySpan valueSpan pairSpan : Span) {query : Node}
    (hquery : Ecma.IsProperty (language.context parsers config source) query) :
    (validate (language.context parsers config source) (Ecma.shorthandOf name shorthandSpan) query
        .empty).agrees =
      (validate (language.context parsers config source)
        (Ecma.explicitOf name keySpan valueSpan pairSpan) query .empty).agrees ↔
      ¬ Ecma.TellsApart (language.context parsers config source) name query :=
  (comparesForms hlanguage parsers source hmode).forms_agree_iff hquery

/-- A property of a query whose key and value are the same text. -/
def repeatedPair (text : String) : Node :=
  Ecma.pairOf (.leaf "property_identifier" text .zero) (.leaf "identifier" text .zero) .zero

theorem isProperty_repeatedPair (cx : MatchContext) (text : String) :
    Ecma.IsProperty cx (repeatedPair text) :=
  Ecma.IsProperty.pair (fun _ => ⟨text, .zero, rfl⟩) (fun _ => ⟨text, .zero, rfl⟩) .zero

/-- The property `$$_x: $$_x` matches both forms. -/
theorem property_forms_agree_iff_repeated :
    Language.javaScript ∈ [Language.javaScript, .typeScript, .tsx] ∧
      Mode.contained.allowsExtra = true ∧
      Ecma.IsProperty (bareContext .javaScript .contained) (repeatedPair "$$_x") ∧
      (validate (bareContext .javaScript .contained) (Ecma.shorthandOf "a" .zero)
        (repeatedPair "$$_x") .empty).agrees = true ∧
      (validate (bareContext .javaScript .contained) (Ecma.explicitOf "a" .zero .zero .zero)
        (repeatedPair "$$_x") .empty).agrees = true ∧
      ¬ Ecma.TellsApart (bareContext .javaScript .contained) "a" (repeatedPair "$$_x") := by
  have hproperty := isProperty_repeatedPair (bareContext .javaScript .contained) "$$_x"
  have hlanguage : Language.javaScript ∈ [Language.javaScript, .typeScript, .tsx] := by decide
  refine ⟨hlanguage, rfl, hproperty, by decide +kernel, by decide +kernel, ?_⟩
  exact (property_forms_agree_iff hlanguage bareParsers "" rfl "a" .zero .zero .zero .zero
    hproperty).1 (by decide +kernel)

/-- The shorthand property `$$` and the pair `$$$_x: $$$_x` match the shorthand property `a`, but
not the pair `a: a`. -/
theorem property_forms_differ :
    (Ecma.IsProperty (bareContext .javaScript .contained) (Ecma.shorthandOf "$$" .zero) ∧
      (validate (bareContext .javaScript .contained) (Ecma.shorthandOf "a" .zero)
        (Ecma.shorthandOf "$$" .zero) .empty).agrees = true ∧
      (validate (bareContext .javaScript .contained) (Ecma.explicitOf "a" .zero .zero .zero)
        (Ecma.shorthandOf "$$" .zero) .empty).agrees = false) ∧
    Ecma.IsProperty (bareContext .javaScript .contained) (repeatedPair "$$$_x") ∧
      (validate (bareContext .javaScript .contained) (Ecma.shorthandOf "a" .zero)
        (repeatedPair "$$$_x") .empty).agrees = true ∧
      (validate (bareContext .javaScript .contained) (Ecma.explicitOf "a" .zero .zero .zero)
        (repeatedPair "$$$_x") .empty).agrees = false :=
  ⟨⟨Ecma.IsProperty.shorthand "$$" .zero, by decide +kernel, by decide +kernel⟩,
    isProperty_repeatedPair _ _, by decide +kernel, by decide +kernel⟩

end Language

end CodeSearch

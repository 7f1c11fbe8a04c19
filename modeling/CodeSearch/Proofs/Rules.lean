import CodeSearch.Language.Registry
import CodeSearch.Proofs.Growth
import CodeSearch.Proofs.Trees

/-!
# What the rules of the languages compare

Two languages have rules of their own for pairs of nodes that the general comparison does not fit.
This file says for each rule what it has compared when it accepts a pair, with which bindings, and
which fields it leaves to agree; and that a rule which has no verdict binds nothing. What is
proved of searches in those languages starts from these cases.
-/

set_option autoImplicit false

namespace CodeSearch

/-! ## Verdicts -/

/-- A pair that is rejected does not agree. -/
theorem Verdict.not_agrees_of_reject {verdict : Verdict} (h : some Verdict.reject = some verdict) :
    ¬ verdict.agrees = true := by
  rw [← Option.some.inj h]
  exact Bool.false_ne_true

/-- The verdict of several rules is that of the first one, or of the others after it had none. -/
theorem Rule.first?_cons_eq_some {config : MatchSettings} {file query : Node} {rule : Rule}
    {rules : List Rule} {b c : Bindings} {verdict : Verdict}
    (h : Rule.first? config file query (rule :: rules) b = (some verdict, c)) :
    rule config file query b = (some verdict, c) ∨ ∃ d, rule config file query b = (none, d) ∧
      Rule.first? config file query rules d = (some verdict, c) := by
  rw [Rule.first?] at h
  split at h
  next heq => exact Or.inl (heq.trans h)
  next d heq => exact Or.inr ⟨d, heq, h⟩

namespace Ecma

variable {config : MatchSettings} {file query : Node} {b c : Bindings} {verdict : Verdict}

/-! ## Texts -/

/-- A pattern that is matched or compared with a value: it has a wildcard and matches, or it has
none and is the same text. -/
theorem matchOrCompare_eq_some {pattern value : String} {kind : WildcardKind}
    (h : matchOrCompare config pattern value kind b = some c) :
    config.markers.hasWildcard pattern = true ∧ b.matchText? config.ignoreCase
        (.ofText config.markers pattern) value kind = some c ∨
      config.markers.hasWildcard pattern = false ∧
        Text.sameText config.ignoreCase pattern value = true ∧ c = b := by
  unfold matchOrCompare at h
  split at h
  next hwildcard => exact Or.inl ⟨hwildcard, h⟩
  next hwildcard =>
    split at h
    next hsame => exact Or.inr ⟨by simpa using hwildcard, hsame, (Option.some.inj h).symm⟩
    next => simp at h

theorem matchOrCompare_extends {P : Node → Prop} {pattern value : String} {kind : WildcardKind}
    (hkind : kind ≠ .nodeTree) (h : matchOrCompare config pattern value kind b = some c) :
    Bindings.Extends P b c := by
  rcases matchOrCompare_eq_some h with ⟨-, hmatch⟩ | ⟨-, -, rfl⟩
  · exact Bindings.extends_of_matchText? hkind hmatch
  · exact Bindings.Extends.refl

theorem settle_agrees {outcome : Option Bindings} (h : settle b outcome = (some verdict, c))
    (hagrees : verdict.agrees = true) : outcome = some c ∧ verdict = .accept [] := by
  cases outcome with
  | none =>
      exact absurd hagrees (Verdict.not_agrees_of_reject (Prod.mk.inj h).1)
  | some bound =>
      obtain ⟨hverdict, rfl⟩ := Prod.mk.inj h
      exact ⟨rfl, (Option.some.inj hverdict).symm⟩

theorem settle_extends {P : Node → Prop} {outcome : Option Bindings}
    (h : ∀ bound, outcome = some bound → Bindings.Extends P b bound) :
    Bindings.Extends P b (settle b outcome).2 := by
  cases outcome with
  | none => exact Bindings.Extends.refl
  | some bound => exact h bound rfl

theorem keyText?_eq_some {key : Node} {value : String} (h : keyText? key = some value) :
    ∃ text, key.text = some text ∧ (key.kind = "property_identifier" ∧ value = text ∨
      key.kind = "number" ∧ value = text ∨
        key.kind = "string" ∧ value = stripQuotes quotes text) := by
  unfold keyText? at h
  split at h
  next hkind =>
    refine ⟨value, h, ?_⟩
    rcases hkind with hkind | hkind
    · exact Or.inl ⟨hkind, rfl⟩
    · exact Or.inr (Or.inl ⟨hkind, rfl⟩)
  next =>
    split at h
    next hkind =>
      obtain ⟨text, htext, rfl⟩ := Option.map_eq_some_iff.1 h
      exact ⟨text, htext, Or.inr (Or.inr ⟨hkind, rfl⟩)⟩
    next => simp at h

theorem plainKey?_eq_some {pair : Node} {value : String} (h : plainKey? pair = some value) :
    ∃ key, pair.child? "key" = some key ∧ key.kind = "property_identifier" ∧
      key.text = some value := by
  obtain ⟨key, hkey, htext⟩ := Option.bind_eq_some_iff.1 h
  obtain ⟨hchild, hkind⟩ := Option.filter_eq_some_iff.1 hkey
  exact ⟨key, hchild, by simpa using hkind, htext⟩

/-- A node is a shorthand with some text or a pair that renames the name with that text. -/
def Destructures (n : Node) (key : String) : Prop :=
  n.kind = "shorthand_property_identifier_pattern" ∧ n.text = some key ∨
    n.kind = "pair_pattern" ∧ renames n = true ∧ plainKey? n = some key

theorem destructures_of_destructuredKeys? {queryKey fileKey : String}
    (h : destructuredKeys? file query = some (queryKey, fileKey)) :
    Destructures query queryKey ∧ Destructures file fileKey := by
  unfold destructuredKeys? at h
  dsimp only at h
  split at h
  next hkinds =>
    obtain ⟨name, hname, h⟩ := Option.bind_eq_some_iff.1 h
    obtain ⟨key, hkey, h⟩ := Option.bind_eq_some_iff.1 h
    obtain ⟨rfl, rfl⟩ := Prod.mk.inj (Option.some.inj h)
    exact ⟨Or.inl ⟨hkinds.1, hname⟩, Or.inr ⟨hkinds.2.1, hkinds.2.2, hkey⟩⟩
  next =>
    split at h
    next hkinds =>
      obtain ⟨key, hkey, h⟩ := Option.bind_eq_some_iff.1 h
      obtain ⟨name, hname, h⟩ := Option.bind_eq_some_iff.1 h
      obtain ⟨rfl, rfl⟩ := Prod.mk.inj (Option.some.inj h)
      exact ⟨Or.inr ⟨hkinds.1, hkinds.2.2, hkey⟩, Or.inl ⟨hkinds.2.1, hname⟩⟩
    next =>
      split at h
      next hkinds =>
        obtain ⟨key, hkey, h⟩ := Option.bind_eq_some_iff.1 h
        obtain ⟨other, hother, h⟩ := Option.bind_eq_some_iff.1 h
        obtain ⟨rfl, rfl⟩ := Prod.mk.inj (Option.some.inj h)
        exact ⟨Or.inr ⟨hkinds.1, hkinds.2.2.1, hkey⟩, Or.inr ⟨hkinds.2.1, hkinds.2.2.2, hother⟩⟩
      next => simp at h

/-! ## Rules after wildcards -/

/-- **What the rules after wildcards have compared** when they accept a pair. -/
inductive Accepts (config : MatchSettings) (file query : Node) (b : Bindings) :
    Verdict → Bindings → Prop
  /-- The names of two destructured properties. -/
  | destructured {queryKey fileKey : String} {c : Bindings}
      (hquery : Destructures query queryKey) (hfile : Destructures file fileKey)
      (hmatch : matchOrCompare config queryKey fileKey .identifier b = some c) :
      Accepts config file query b (.accept []) c
  /-- A shorthand property and the key of a pair that has that name for its value. -/
  | shorthand {name key : String} {keyNode value : Node} {c : Bindings}
      (hquery : query.kind = "shorthand_property_identifier") (hfile : file.kind = "pair")
      (hname : query.text = some name) (hkeyNode : file.child? "key" = some keyNode)
      (hkey : keyText? keyNode = some key) (hvalue : file.child? "value" = some value)
      (hkind : value.kind = "identifier")
      (hsame : value.text.any (Text.sameText config.ignoreCase name ·) = true)
      (hmatch : matchOrCompare config name key .identifier b = some c) :
      Accepts config file query b (.accept []) c
  /-- The value and the key of a pair and a shorthand property. -/
  | expanded {name key pattern : String} {keyNode value : Node} {b₁ c : Bindings}
      (hquery : query.kind = "pair") (hfile : file.kind = "shorthand_property_identifier")
      (hname : file.text = some name) (hkeyNode : query.child? "key" = some keyNode)
      (hkey : keyText? keyNode = some key) (hvalue : query.child? "value" = some value)
      (hkind : value.kind = "identifier") (hpattern : value.text = some pattern)
      (hfirst : matchOrCompare config pattern name .identifier b = some b₁)
      (hsecond : matchOrCompare config key name .identifier b₁ = some c) :
      Accepts config file query b (.accept []) c
  /-- The keys of two pairs, one written in another way than the other. -/
  | keyed {queryKey fileKey : Node} {key other : String} {c : Bindings}
      (hquery : query.kind = "pair") (hfile : file.kind = "pair")
      (hqueryKey : query.child? "key" = some queryKey)
      (hfileKey : file.child? "key" = some fileKey) (hkinds : queryKey.kind ≠ fileKey.kind)
      (hkey : keyText? queryKey = some key) (hother : keyText? fileKey = some other)
      (hmatch : matchOrCompare config key other .string b = some c) :
      Accepts config file query b (.accept [(["value"], ["value"])]) c
  /-- Nothing of two chains; all that they consist of is left to agree. -/
  | chained (hquery : query.kind ∈ ["member_expression", "subscript_expression", "call_expression"])
      (hchain : (query.field? "optional_chain").isSome = true) :
      Accepts config file query b
        (.accept ((query.childFields.filter (· != "optional_chain")).map fun name =>
          ([name], [name]))) b

theorem destructuring_accepts (h : destructuring config file query b = (some verdict, c))
    (hagrees : verdict.agrees = true) :
    config.mode.allowsExtra = true ∧ Accepts config file query b verdict c := by
  unfold destructuring at h
  split at h
  next hmode =>
    split at h
    next queryKey fileKey hkeys =>
      obtain ⟨hmatch, rfl⟩ := settle_agrees h hagrees
      obtain ⟨hquery, hfile⟩ := destructures_of_destructuredKeys? hkeys
      exact ⟨hmode, Accepts.destructured hquery hfile hmatch⟩
    next => simp at h
  next => simp at h

theorem shorthandAgainstPair_eq_some {outcome : Option Bindings}
    (h : shorthandAgainstPair config file query b = some outcome) {bound : Bindings}
    (hbound : outcome = some bound) :
    ∃ name keyNode key value, query.text = some name ∧ file.child? "key" = some keyNode ∧
      keyText? keyNode = some key ∧ file.child? "value" = some value ∧
      value.kind = "identifier" ∧
      value.text.any (Text.sameText config.ignoreCase name ·) = true ∧
      matchOrCompare config name key .identifier b = some bound := by
  obtain ⟨name, hname, h⟩ := Option.bind_eq_some_iff.1 h
  obtain ⟨keyNode, hkeyNode, h⟩ := Option.bind_eq_some_iff.1 h
  obtain ⟨key, hkey, h⟩ := Option.bind_eq_some_iff.1 h
  obtain ⟨value, hvalue, h⟩ := Option.bind_eq_some_iff.1 h
  have h := Option.some.inj h
  rw [hbound] at h
  split at h
  next hsame =>
    rw [Bool.and_eq_true, beq_iff_eq] at hsame
    exact ⟨name, keyNode, key, value, hname, hkeyNode, hkey, hvalue, hsame.1, hsame.2, h⟩
  next => simp at h

theorem pairAgainstShorthand_eq_some {outcome : Bool × Bindings}
    (h : pairAgainstShorthand config file query b = some outcome) :
    ∃ name keyNode key value, file.text = some name ∧ query.child? "key" = some keyNode ∧
      keyText? keyNode = some key ∧ query.child? "value" = some value ∧
      (outcome = (false, b) ∨ value.kind = "identifier" ∧ ∃ pattern b₁,
        value.text = some pattern ∧ matchOrCompare config pattern name .identifier b = some b₁ ∧
          (outcome = (false, b₁) ∨ ∃ c, outcome = (true, c) ∧
            matchOrCompare config key name .identifier b₁ = some c)) := by
  obtain ⟨name, hname, h⟩ := Option.bind_eq_some_iff.1 h
  obtain ⟨keyNode, hkeyNode, h⟩ := Option.bind_eq_some_iff.1 h
  obtain ⟨key, hkey, h⟩ := Option.bind_eq_some_iff.1 h
  obtain ⟨value, hvalue, h⟩ := Option.bind_eq_some_iff.1 h
  refine ⟨name, keyNode, key, value, hname, hkeyNode, hkey, hvalue, ?_⟩
  dsimp only at h
  split at h
  next => exact Or.inl (Option.some.inj h).symm
  next b₁ hbound =>
    split at hbound
    next hkind =>
      obtain ⟨pattern, hpattern, hfirst⟩ := Option.bind_eq_some_iff.1 hbound
      refine Or.inr ⟨hkind, pattern, b₁, hpattern, hfirst, ?_⟩
      split at h
      next c hsecond => exact Or.inr ⟨c, (Option.some.inj h).symm, hsecond⟩
      next => exact Or.inl (Option.some.inj h).symm
    next => simp at hbound

theorem pairAgainstPair_eq_some {outcome : Option Bindings}
    (h : pairAgainstPair config file query b = some outcome) :
    ∃ queryKey fileKey key other, query.child? "key" = some queryKey ∧
      file.child? "key" = some fileKey ∧ queryKey.kind ≠ fileKey.kind ∧
      keyText? queryKey = some key ∧ keyText? fileKey = some other ∧
      outcome = matchOrCompare config key other .string b := by
  obtain ⟨queryKey, hqueryKey, h⟩ := Option.bind_eq_some_iff.1 h
  obtain ⟨fileKey, hfileKey, h⟩ := Option.bind_eq_some_iff.1 h
  split at h
  next => simp at h
  next hkinds =>
    obtain ⟨key, hkey, h⟩ := Option.bind_eq_some_iff.1 h
    obtain ⟨other, hother, h⟩ := Option.bind_eq_some_iff.1 h
    exact ⟨queryKey, fileKey, key, other, hqueryKey, hfileKey, hkinds, hkey, hother,
      (Option.some.inj h).symm⟩

theorem propertyShapes_accepts (h : propertyShapes config file query b = (some verdict, c))
    (hagrees : verdict.agrees = true) :
    config.mode.allowsExtra = true ∧ Accepts config file query b verdict c := by
  unfold propertyShapes at h
  dsimp only at h
  split at h
  next => simp at h
  next hmode =>
    refine ⟨by simpa using hmode, ?_⟩
    split at h
    next hkinds =>
      split at h
      next outcome houtcome =>
        obtain ⟨hbound, rfl⟩ := settle_agrees h hagrees
        obtain ⟨name, keyNode, key, value, hname, hkeyNode, hkey, hvalue, hkind, hsame, hmatch⟩ :=
          shorthandAgainstPair_eq_some houtcome hbound
        exact Accepts.shorthand hkinds.1 hkinds.2 hname hkeyNode hkey hvalue hkind hsame hmatch
      next => simp at h
    next =>
      split at h
      next hkinds =>
        split at h
        next bound houtcome =>
          obtain ⟨hverdict, rfl⟩ := Prod.mk.inj h
          obtain rfl := Option.some.inj hverdict
          obtain ⟨name, keyNode, key, value, hname, hkeyNode, hkey, hvalue, hcase⟩ :=
            pairAgainstShorthand_eq_some houtcome
          -- only the outcome with both texts matched says yes
          rcases hcase with hno | ⟨hkind, pattern, b₁, hpattern, hfirst, hno | ⟨d, hyes, hsecond⟩⟩
          · simp at hno
          · simp at hno
          · obtain ⟨-, rfl⟩ := Prod.mk.inj hyes
            exact Accepts.expanded hkinds.1 hkinds.2 hname hkeyNode hkey hvalue hkind hpattern
              hfirst hsecond
        next bound houtcome =>
          exact absurd hagrees (Verdict.not_agrees_of_reject (Prod.mk.inj h).1)
        next => simp at h
      next =>
        split at h
        next hkinds =>
          split at h
          next bound houtcome =>
            obtain ⟨hverdict, rfl⟩ := Prod.mk.inj h
            obtain rfl := Option.some.inj hverdict
            obtain
              ⟨queryKey, fileKey, key, other, hqueryKey, hfileKey, hne, hkey, hother, hmatch⟩ :=
              pairAgainstPair_eq_some houtcome
            exact Accepts.keyed hkinds.1 hkinds.2 hqueryKey hfileKey hne hkey hother hmatch.symm
          next houtcome =>
            exact absurd hagrees (Verdict.not_agrees_of_reject (Prod.mk.inj h).1)
          next => simp at h
        next => simp at h

theorem optionalChain_accepts (h : optionalChain config file query b = (some verdict, c))
    (hagrees : verdict.agrees = true) :
    config.mode.allowsExtra = true ∧ Accepts config file query b verdict c := by
  unfold optionalChain at h
  dsimp only at h
  split at h
  next hguard =>
    simp only [Bool.and_eq_true] at hguard
    obtain ⟨⟨⟨⟨hmode, hkind⟩, -⟩, hchain⟩, -⟩ := hguard
    refine ⟨hmode, ?_⟩
    split at h
    next =>
      exact absurd hagrees (Verdict.not_agrees_of_reject (Prod.mk.inj h).1)
    next =>
      obtain ⟨hverdict, rfl⟩ := Prod.mk.inj h
      obtain rfl := Option.some.inj hverdict
      exact Accepts.chained (List.contains_iff_mem.1 hkind) hchain
  next => simp at h

theorem destructuring_none (h : destructuring config file query b = (none, c)) : c = b := by
  unfold destructuring at h
  split at h
  next =>
    split at h
    next queryKey fileKey _ =>
      cases hbound : matchOrCompare config queryKey fileKey .identifier b <;>
        simp [hbound, settle] at h
    next => exact (Prod.mk.inj h).2.symm
  next => exact (Prod.mk.inj h).2.symm

theorem propertyShapes_none (h : propertyShapes config file query b = (none, c)) : c = b := by
  unfold propertyShapes at h
  dsimp only at h
  split at h
  next => exact (Prod.mk.inj h).2.symm
  next =>
    split at h
    next =>
      split at h
      next outcome _ => cases outcome <;> simp [settle] at h
      next => exact (Prod.mk.inj h).2.symm
    next =>
      split at h
      next =>
        split at h
        next => simp at h
        next => simp at h
        next => exact (Prod.mk.inj h).2.symm
      next =>
        split at h
        next =>
          split at h
          next => simp at h
          next => simp at h
          next => exact (Prod.mk.inj h).2.symm
        next => exact (Prod.mk.inj h).2.symm

theorem optionalChain_none (h : optionalChain config file query b = (none, c)) : c = b := by
  unfold optionalChain at h
  dsimp only at h
  split at h
  next => split at h <;> simp at h
  next => exact (Prod.mk.inj h).2.symm

/-- The rules after wildcards accept a pair only where further code is ignored. -/
theorem rulesAfter_accepts
    (h : Rule.first? config file query [destructuring, propertyShapes, optionalChain] b =
      (some verdict, c)) (hagrees : verdict.agrees = true) :
    config.mode.allowsExtra = true ∧ Accepts config file query b verdict c := by
  -- rules without a verdict bind nothing, so that each starts from the same bindings
  rcases Rule.first?_cons_eq_some h with hfirst | ⟨d, hnone, hrest⟩
  · exact destructuring_accepts hfirst hagrees
  obtain rfl := destructuring_none hnone
  rcases Rule.first?_cons_eq_some hrest with hsecond | ⟨e, hnone', hlast⟩
  · exact propertyShapes_accepts hsecond hagrees
  obtain rfl := propertyShapes_none hnone'
  rcases Rule.first?_cons_eq_some hlast with hthird | ⟨_, -, hno⟩
  · exact optionalChain_accepts hthird hagrees
  · simp [Rule.first?] at hno

theorem destructuring_bindsTexts : Rule.BindsTexts destructuring := by
  intro config file query b
  unfold destructuring
  split
  next =>
    split
    next => exact settle_extends fun _ h => matchOrCompare_extends (by decide) h
    next => exact Bindings.Extends.refl
  next => exact Bindings.Extends.refl

theorem propertyShapes_bindsTexts : Rule.BindsTexts propertyShapes := by
  intro config file query b
  have hshorthand : ∀ outcome, pairAgainstShorthand config file query b = some outcome →
      Bindings.Extends (fun _ => False) b outcome.2 := by
    intro outcome h
    obtain ⟨_, _, _, _, _, _, _, _, hcase⟩ := pairAgainstShorthand_eq_some h
    rcases hcase with rfl | ⟨-, pattern, b₁, -, hfirst, rfl | ⟨d, rfl, hsecond⟩⟩
    · exact Bindings.Extends.refl
    · exact matchOrCompare_extends (by decide) hfirst
    · exact (matchOrCompare_extends (by decide) hfirst).trans
        (matchOrCompare_extends (by decide) hsecond)
  unfold propertyShapes
  dsimp only
  split
  next => exact Bindings.Extends.refl
  next =>
    split
    next =>
      split
      next outcome houtcome =>
        refine settle_extends fun bound hbound => ?_
        obtain ⟨_, _, _, _, _, _, _, _, _, _, hmatch⟩ :=
          shorthandAgainstPair_eq_some houtcome hbound
        exact matchOrCompare_extends (by decide) hmatch
      next => exact Bindings.Extends.refl
    next =>
      split
      next =>
        split
        next bound houtcome => exact hshorthand _ houtcome
        next bound houtcome => exact hshorthand _ houtcome
        next => exact Bindings.Extends.refl
      next =>
        split
        next =>
          split
          next bound houtcome =>
            obtain ⟨_, _, _, _, _, _, _, _, _, hmatch⟩ := pairAgainstPair_eq_some houtcome
            exact matchOrCompare_extends (by decide) hmatch.symm
          next => exact Bindings.Extends.refl
          next => exact Bindings.Extends.refl
        next => exact Bindings.Extends.refl

theorem optionalChain_bindsTexts : Rule.BindsTexts optionalChain := by
  intro config file query b
  unfold optionalChain
  dsimp only
  split
  next => split <;> exact Bindings.Extends.refl
  next => exact Bindings.Extends.refl

/-! ## Elements of markup -/

/-- Two tags whose names and attributes are paired: those that the query has are left to agree. -/
theorem mem_queryKeys_of_pairTags {exact : Bool} {queryTag fileTag : FieldPath}
    {fields : List String} {pairs : List (FieldPath × FieldPath)}
    (h : pairTags exact query queryTag file fileTag fields pairs = verdict)
    (hagrees : verdict.agrees = true) :
    (∀ pair ∈ pairs, pair.1 ∈ verdict.queryKeys) ∧
      ∀ field ∈ fields, (query.resolve (queryTag ++ [field])).isSome = true →
        queryTag ++ [field] ∈ verdict.queryKeys := by
  induction fields generalizing pairs with
  | nil =>
      obtain rfl : Verdict.accept pairs = verdict := h
      exact ⟨fun pair hpair => List.mem_map_of_mem hpair, by simp⟩
  | cons field rest ih =>
      rw [pairTags] at h
      -- a field that the query lacks asks for nothing
      have hskip : (query.resolve (queryTag ++ [field])).isSome = false →
          pairTags exact query queryTag file fileTag rest pairs = verdict →
          (∀ pair ∈ pairs, pair.1 ∈ verdict.queryKeys) ∧
            ∀ name ∈ field :: rest, (query.resolve (queryTag ++ [name])).isSome = true →
              queryTag ++ [name] ∈ verdict.queryKeys := by
        intro hnone h
        obtain ⟨hpairs, hfields⟩ := ih h
        refine ⟨hpairs, List.forall_mem_cons.2 ⟨fun hsome => ?_, hfields⟩⟩
        rw [hnone] at hsome
        exact absurd hsome (by simp)
      split at h
      next hquery hfile =>
        obtain ⟨hpairs, hfields⟩ := ih h
        refine ⟨fun pair hpair => hpairs pair (List.mem_append_left _ hpair), ?_⟩
        refine List.forall_mem_cons.2 ⟨fun _ => ?_, hfields⟩
        exact hpairs (queryTag ++ [field], fileTag ++ [field])
          (List.mem_append_right _ (List.mem_singleton.2 rfl))
      next => simp [← h, Verdict.reject] at hagrees
      next hquery hfile =>
        split at h
        next => simp [← h, Verdict.reject] at hagrees
        next => exact hskip hquery h
      next hquery hfile => exact hskip hquery h

/-- **What the rule for elements that close themselves has compared**: nothing yet, but the names
and the attributes that the query has are left to agree. -/
theorem selfClosing_accepts (h : selfClosing config file query b = (some verdict, c))
    (hagrees : verdict.agrees = true) :
    c = b ∧ (query.kind = "jsx_self_closing_element" ∧
        (∀ name ∈ ["name", "attribute"], (query.resolve [name]).isSome = true →
          [name] ∈ verdict.queryKeys) ∨
      query.kind = "jsx_element" ∧ hasContent query = false ∧
        ∀ name ∈ ["name", "attribute"], (query.resolve ["open_tag", name]).isSome = true →
          ["open_tag", name] ∈ verdict.queryKeys) := by
  obtain ⟨hverdict, hbindings⟩ := Prod.mk.inj h
  refine ⟨hbindings.symm, ?_⟩
  split at hverdict
  next hkinds =>
    split at hverdict
    next =>
      exact absurd hagrees (Verdict.not_agrees_of_reject hverdict)
    next =>
      obtain ⟨-, hfields⟩ := mem_queryKeys_of_pairTags (Option.some.inj hverdict) hagrees
      exact Or.inl ⟨hkinds.1, hfields⟩
  next =>
    split at hverdict
    next hkinds =>
      split at hverdict
      next =>
        exact absurd hagrees (Verdict.not_agrees_of_reject hverdict)
      next hcontent =>
        obtain ⟨-, hfields⟩ := mem_queryKeys_of_pairTags (Option.some.inj hverdict) hagrees
        exact Or.inr ⟨hkinds.1, by simpa using hcontent, hfields⟩
    next => simp at hverdict

theorem selfClosing_none (h : selfClosing config file query b = (none, c)) : c = b :=
  (Prod.mk.inj h).2.symm

theorem rulesBefore_accepts
    (h : Rule.first? config file query [selfClosing] b = (some verdict, c)) :
    selfClosing config file query b = (some verdict, c) := by
  rcases Rule.first?_cons_eq_some h with hfirst | ⟨_, -, hno⟩
  · exact hfirst
  · simp [Rule.first?] at hno

theorem selfClosing_bindsTexts : Rule.BindsTexts selfClosing :=
  fun _ _ _ _ => Bindings.Extends.refl

end Ecma

namespace Css

variable {config : MatchSettings} {file query : Node} {b c : Bindings} {verdict : Verdict}

/-! ## Dimensions and colours -/

/-- Two units match: as a pattern and a text, or as equal texts. -/
def UnitsMatch (config : MatchSettings) (queryUnit fileUnit : String) (b c : Bindings) : Prop :=
  config.markers.hasWildcard queryUnit = true ∧ b.matchText? config.ignoreCase
      (.ofText config.markers queryUnit) fileUnit .string = some c ∨
    config.markers.hasWildcard queryUnit = false ∧ c = b ∧
      (config.ignoreCase = false → queryUnit = fileUnit)

/-- **What the rules for dimensions and colours have compared** when they accept a pair, which is
all there is to it. -/
inductive Accepts (config : MatchSettings) (file query : Node) (b : Bindings) :
    Verdict → Bindings → Prop
  /-- The units of two numbers, the query's being the one that stands for any. -/
  | anyNumber {queryText fileText : String} {unit fileNumber fileUnit : List Char} {c : Bindings}
      (hquery : kinds.isNumber query.kind = true) (hfile : kinds.isNumber file.kind = true)
      (hqueryText : query.text = some queryText) (hfileText : file.text = some fileText)
      (hnumeric : config.markers.numeric.toList.isPrefixOf? queryText.toList = some unit)
      (hsplit : splitDimension fileText.toList = (fileNumber, fileUnit))
      (hunits : UnitsMatch config (String.ofList unit) (String.ofList fileUnit) b c) :
      Accepts config file query b (.accept []) c
  /-- Two equal numbers and their units. -/
  | sameNumber {queryText fileText : String} {number unit fileUnit : List Char} {c : Bindings}
      (hquery : kinds.isNumber query.kind = true) (hfile : kinds.isNumber file.kind = true)
      (hqueryText : query.text = some queryText) (hfileText : file.text = some fileText)
      (hnumeric : config.markers.numeric.toList.isPrefixOf? queryText.toList = none)
      (hquerySplit : splitDimension queryText.toList = (number, unit))
      (hsplit : splitDimension fileText.toList = (number, fileUnit))
      (hunits : UnitsMatch config (String.ofList unit) (String.ofList fileUnit) b c) :
      Accepts config file query b (.accept []) c
  /-- A value with a wildcard and the digits of a colour. -/
  | colour {pattern colour : String} {digits : List Char} {c : Bindings}
      (hquery : query.kind = "plain_value") (hfile : file.kind = "color_value")
      (hpattern : query.text = some pattern) (hcolour : file.text = some colour)
      (hwildcard : config.markers.hasWildcard pattern = true)
      (hdigits : colour.toList = '#' :: digits)
      (hmatch : b.matchText? config.ignoreCase (.ofText config.markers pattern)
        (String.ofList digits) .string = some c) :
      Accepts config file query b (.accept []) c

/-- The verdict on two units. -/
def unitsVerdict (config : MatchSettings) (queryUnit fileUnit : String) (b : Bindings) :
    Option Verdict × Bindings :=
  if config.markers.hasWildcard queryUnit then
    match b.matchText? config.ignoreCase (.ofText config.markers queryUnit) fileUnit .string with
    | some bound => (some (.accept []), bound)
    | none => (some .reject, b)
  else if config.ignoreCase then
    if Text.lowercaseAscii queryUnit = Text.lowercaseAscii fileUnit then (some (.accept []), b)
    else (some .reject, b)
  else if queryUnit = fileUnit then (some (.accept []), b)
  else (some .reject, b)

theorem unitsVerdict_isSome (config : MatchSettings) (queryUnit fileUnit : String)
    (b : Bindings) : (unitsVerdict config queryUnit fileUnit b).1.isSome = true := by
  unfold unitsVerdict
  split
  next => split <;> rfl
  next =>
    split
    next => split <;> rfl
    next => split <;> rfl

theorem unitsVerdict_extends {P : Node → Prop} (config : MatchSettings)
    (queryUnit fileUnit : String) (b : Bindings) :
    Bindings.Extends P b (unitsVerdict config queryUnit fileUnit b).2 := by
  unfold unitsVerdict
  split
  next =>
    split
    next bound hmatch => exact Bindings.extends_of_matchText? (by decide) hmatch
    next => exact Bindings.Extends.refl
  next =>
    split
    next => split <;> exact Bindings.Extends.refl
    next => split <;> exact Bindings.Extends.refl

theorem unitsVerdict_accepts {queryUnit fileUnit : String}
    (h : unitsVerdict config queryUnit fileUnit b = (some verdict, c))
    (hagrees : verdict.agrees = true) :
    verdict = .accept [] ∧ UnitsMatch config queryUnit fileUnit b c := by
  -- a branch that rejects cannot have led here
  have hreject : ∀ {d : Bindings}, (some Verdict.reject, d) ≠ (some verdict, c) :=
    fun heq => Verdict.not_agrees_of_reject (Prod.mk.inj heq).1 hagrees
  unfold unitsVerdict at h
  split at h
  next hwildcard =>
    split at h
    next bound hmatch =>
      obtain ⟨hverdict, rfl⟩ := Prod.mk.inj h
      exact ⟨(Option.some.inj hverdict).symm, Or.inl ⟨hwildcard, hmatch⟩⟩
    next => exact absurd h hreject
  next hwildcard =>
    have hwildcard : config.markers.hasWildcard queryUnit = false := by simpa using hwildcard
    split at h
    next hcase =>
      split at h
      next =>
        obtain ⟨hverdict, rfl⟩ := Prod.mk.inj h
        refine ⟨(Option.some.inj hverdict).symm, Or.inr ⟨hwildcard, rfl, fun hno => ?_⟩⟩
        rw [hno] at hcase
        exact absurd hcase (by simp)
      next => exact absurd h hreject
    next =>
      split at h
      next heq =>
        obtain ⟨hverdict, rfl⟩ := Prod.mk.inj h
        exact ⟨(Option.some.inj hverdict).symm, Or.inr ⟨hwildcard, rfl, fun _ => heq⟩⟩
      next => exact absurd h hreject

/-- Between two numbers with texts the rule for dimensions comes down to the verdict on their
units, unless the numbers differ. -/
theorem dimensions_eq (config : MatchSettings) (b : Bindings) {queryText fileText : String}
    (hquery : kinds.isNumber query.kind = true) (hfile : kinds.isNumber file.kind = true)
    (hqueryText : query.text = some queryText) (hfileText : file.text = some fileText) :
    dimensions config file query b =
      match config.markers.numeric.toList.isPrefixOf? queryText.toList with
      | some unit => unitsVerdict config (String.ofList unit)
          (String.ofList (splitDimension fileText.toList).2) b
      | none =>
          if (splitDimension queryText.toList).1 = (splitDimension fileText.toList).1 then
            unitsVerdict config (String.ofList (splitDimension queryText.toList).2)
              (String.ofList (splitDimension fileText.toList).2) b
          else (some .reject, b) := by
  unfold dimensions
  rw [hqueryText, hfileText]
  simp only [hquery, hfile, Bool.and_self, if_true]
  generalize splitDimension fileText.toList = fileParts
  generalize splitDimension queryText.toList = queryParts
  cases config.markers.numeric.toList.isPrefixOf? queryText.toList with
  | some unit => rfl
  | none =>
      by_cases hsame : queryParts.1 = fileParts.1
      · have hbeq : (queryParts.1 == fileParts.1) = true := beq_iff_eq.2 hsame
        simp only [hbeq]
        rw [if_pos hsame]
        rfl
      · have hbeq : (queryParts.1 == fileParts.1) = false := beq_eq_false_iff_ne.2 hsame
        simp only [hbeq]
        rw [if_neg hsame]
        rfl

/-- The rule for dimensions has a verdict on two numbers with texts only. -/
theorem dimensions_cases (config : MatchSettings) (file query : Node) (b : Bindings) :
    dimensions config file query b = (none, b) ∨
      ∃ queryText fileText, kinds.isNumber query.kind = true ∧ kinds.isNumber file.kind = true ∧
        query.text = some queryText ∧ file.text = some fileText := by
  by_cases h : ∃ queryText fileText, kinds.isNumber query.kind = true ∧
      kinds.isNumber file.kind = true ∧ query.text = some queryText ∧ file.text = some fileText
  · exact Or.inr h
  · refine Or.inl ?_
    unfold dimensions
    split
    next queryText fileText hqueryText hfileText =>
      rw [if_neg]
      rw [Bool.and_eq_true]
      exact fun hkinds => h ⟨queryText, fileText, hkinds.1, hkinds.2, hqueryText, hfileText⟩
    next => rfl

theorem dimensions_accepts (h : dimensions config file query b = (some verdict, c))
    (hagrees : verdict.agrees = true) : Accepts config file query b verdict c := by
  rcases dimensions_cases config file query b with
    hnone | ⟨queryText, fileText, hquery, hfile, hqueryText, hfileText⟩
  · simp [hnone] at h
  · rw [dimensions_eq config b hquery hfile hqueryText hfileText] at h
    split at h
    next unit hnumeric =>
      obtain ⟨rfl, hunits⟩ := unitsVerdict_accepts h hagrees
      exact Accepts.anyNumber hquery hfile hqueryText hfileText hnumeric (Prod.eta _).symm hunits
    next hnumeric =>
      split at h
      next hsame =>
        obtain ⟨rfl, hunits⟩ := unitsVerdict_accepts h hagrees
        have hsplit : splitDimension fileText.toList =
            ((splitDimension queryText.toList).1, (splitDimension fileText.toList).2) := by
          rw [hsame]
        exact Accepts.sameNumber hquery hfile hqueryText hfileText hnumeric (Prod.eta _).symm hsplit
          hunits
      next =>
        exact absurd hagrees (Verdict.not_agrees_of_reject (Prod.mk.inj h).1)

theorem dimensions_none (h : dimensions config file query b = (none, c)) : c = b := by
  rcases dimensions_cases config file query b with
    hnone | ⟨queryText, fileText, hquery, hfile, hqueryText, hfileText⟩
  · exact (Prod.mk.inj (hnone.symm.trans h)).2.symm
  · rw [dimensions_eq config b hquery hfile hqueryText hfileText] at h
    have hdecided : ∀ queryUnit fileUnit,
        unitsVerdict config queryUnit fileUnit b = (none, c) → c = b := by
      intro queryUnit fileUnit heq
      have hsome := unitsVerdict_isSome config queryUnit fileUnit b
      rw [heq] at hsome
      simp at hsome
    split at h
    next => exact hdecided _ _ h
    next =>
      split at h
      next => exact hdecided _ _ h
      next => simp at h

theorem dimensions_bindsTexts : Rule.BindsTexts dimensions := by
  intro config file query b
  rcases dimensions_cases config file query b with
    hnone | ⟨queryText, fileText, hquery, hfile, hqueryText, hfileText⟩
  · rw [hnone]
    exact Bindings.Extends.refl
  · rw [dimensions_eq config b hquery hfile hqueryText hfileText]
    split
    next => exact unitsVerdict_extends config _ _ b
    next =>
      split
      next => exact unitsVerdict_extends config _ _ b
      next => exact Bindings.Extends.refl

theorem hashWildcard_accepts (h : hashWildcard config file query b = (some verdict, c)) :
    Accepts config file query b verdict c := by
  unfold hashWildcard at h
  split at h
  next pattern colour hpattern hcolour =>
    split at h
    next hguard =>
      simp only [Bool.and_eq_true, beq_iff_eq] at hguard
      split at h
      next digits hdigits =>
        split at h
        next bound hmatch =>
          obtain ⟨hverdict, rfl⟩ := Prod.mk.inj h
          obtain rfl := Option.some.inj hverdict
          exact Accepts.colour hguard.1.1 hguard.1.2 hpattern hcolour hguard.2 hdigits hmatch
        next => simp at h
      next => simp at h
    next => simp at h
  next => simp at h

/-- A colour whose digits do not match is left to later steps, with nothing bound. -/
theorem hashWildcard_none (h : hashWildcard config file query b = (none, c)) : c = b := by
  unfold hashWildcard at h
  split at h
  next =>
    split at h
    next =>
      split at h
      next =>
        split at h
        next => simp at h
        next => exact (Prod.mk.inj h).2.symm
      next => exact (Prod.mk.inj h).2.symm
    next => exact (Prod.mk.inj h).2.symm
  next => exact (Prod.mk.inj h).2.symm

theorem rulesBefore_accepts
    (h : Rule.first? config file query [dimensions, hashWildcard] b = (some verdict, c))
    (hagrees : verdict.agrees = true) : Accepts config file query b verdict c := by
  rcases Rule.first?_cons_eq_some h with hfirst | ⟨d, hnone, hrest⟩
  · exact dimensions_accepts hfirst hagrees
  obtain rfl := dimensions_none hnone
  rcases Rule.first?_cons_eq_some hrest with hsecond | ⟨_, -, hno⟩
  · exact hashWildcard_accepts hsecond
  · simp [Rule.first?] at hno

theorem hashWildcard_bindsTexts : Rule.BindsTexts hashWildcard := by
  intro config file query b
  unfold hashWildcard
  split
  next =>
    split
    next =>
      split
      next =>
        split
        next bound hmatch => exact Bindings.extends_of_matchText? (by decide) hmatch
        next => exact Bindings.Extends.refl
      next => exact Bindings.Extends.refl
    next => exact Bindings.Extends.refl
  next => exact Bindings.Extends.refl

end Css

/-! ## All languages -/

/-- What stays the same while a source is searched in a language. -/
def Language.context (language : Language) (parsers : ParserSet) (config : SearchConfig)
    (source : String) : MatchContext :=
  ⟨language.grammar parsers config.markers, config, source⟩

/-- What holds of each rule there is holds of the rules of every language. -/
theorem Language.forall_rules {P : Rule → Prop} (hselfClosing : P Ecma.selfClosing)
    (hdestructuring : P Ecma.destructuring) (hpropertyShapes : P Ecma.propertyShapes)
    (hoptionalChain : P Ecma.optionalChain) (hdimensions : P Css.dimensions)
    (hhashWildcard : P Css.hashWildcard) (language : Language) :
    ∀ rule ∈ language.dialect.rulesBefore ++ language.dialect.rulesAfter, P rule := by
  have hnone : ∀ rule ∈ ([] : List Rule), P rule := by simp
  have hecma : ∀ rule ∈ [Ecma.selfClosing, Ecma.destructuring, Ecma.propertyShapes,
      Ecma.optionalChain], P rule := by
    simp only [List.forall_mem_cons]
    exact ⟨hselfClosing, hdestructuring, hpropertyShapes, hoptionalChain, hnone⟩
  have hcss : ∀ rule ∈ [Css.dimensions, Css.hashWildcard], P rule := by
    simp only [List.forall_mem_cons]
    exact ⟨hdimensions, hhashWildcard, hnone⟩
  cases language with
  | javaScript => exact hecma
  | typeScript => exact hecma
  | tsx => exact hecma
  | css => exact hcss
  | python => exact hnone
  | cSharp => exact hnone
  | html => exact hnone
  | rust => exact hnone
  | lua => exact hnone

/-- The rules of all languages bind nothing but texts. -/
theorem Language.bindsTexts (parsers : ParserSet) (markers : Markers) (language : Language) :
    (language.grammar parsers markers).BindsTexts :=
  forall_rules Ecma.selfClosing_bindsTexts Ecma.destructuring_bindsTexts
    Ecma.propertyShapes_bindsTexts Ecma.optionalChain_bindsTexts Css.dimensions_bindsTexts
    Css.hashWildcard_bindsTexts language

end CodeSearch

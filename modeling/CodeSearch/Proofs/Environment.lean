import CodeSearch.Proofs.Locality
import CodeSearch.Proofs.Soundness

/-!
# Matching again where further code is ignored

A query that has matched can be matched once more, in the mode that ignores further code and the
order of lists. This file is about one comparison of the second match. It starts with other
bindings than in the first, but with such as are **compatible** with those the first ended with,
its environment; then it succeeds as well and the bindings stay compatible.

What aliases stand for is not quite the same in the two matches: letter case may differ where it
is ignored, and a name with a default value counts as a name in the second.
-/

set_option autoImplicit false

namespace CodeSearch

namespace MatchContext

/-- The same search in another mode. -/
def withMode (cx : MatchContext) (mode : Mode) : MatchContext :=
  { cx with config := { cx.config with mode } }

section

variable (cx : MatchContext) (mode : Mode)

@[simp] theorem grammar_withMode : (cx.withMode mode).grammar = cx.grammar := rfl

@[simp] theorem kinds_withMode : (cx.withMode mode).kinds = cx.kinds := rfl

@[simp] theorem code_withMode (n : Node) : (cx.withMode mode).code n = cx.code n := rfl

@[simp] theorem treeAlias?_withMode (name : String) :
    (cx.withMode mode).treeAlias? name = cx.treeAlias? name := rfl

/-- The elements of a query choose in the same order in every mode. -/
@[simp] theorem choosingOrder_withMode (query : List Node) :
    choosingOrder (cx.withMode mode) query = choosingOrder cx query := by
  have hinsert : insertToChoose (cx.withMode mode) = insertToChoose cx := by
    funext a order
    induction order with
    | nil => rfl
    | cons b rest ih =>
        rw [insertToChoose, insertToChoose, ih]
        rfl
  rw [choosingOrder, choosingOrder, hinsert]

end

end MatchContext

/-! ## Names with default values -/

namespace NodeKinds

variable {kinds : NodeKinds} {a b c root : Node}

/-- The **name** that a node of the file counts as where further code is ignored: the one that has
the default value, if it is a name with one, and else the node itself. -/
inductive NameOf (kinds : NodeKinds) : Node → Node → Prop
  | itself {n : Node} (h : kinds.defaultValueField? n.kind = none) : NameOf kinds n n
  | value {n inner name : Node} {field : String}
      (h : kinds.defaultValueField? n.kind = some field) (hinner : n.child? field = some inner)
      (hname : NameOf kinds inner name) : NameOf kinds n name

/-- Every name with a default value in a tree has its name. -/
def HoldsNames (kinds : NodeKinds) (root : Node) : Prop :=
  ∀ n ∈ root.walk, ∀ field ∈ kinds.defaultValueField? n.kind, (n.child? field).isSome = true

instance (kinds : NodeKinds) (root : Node) : Decidable (kinds.HoldsNames root) :=
  inferInstanceAs (Decidable (∀ n ∈ root.walk, ∀ field ∈ kinds.defaultValueField? n.kind,
    (n.child? field).isSome = true))

/-- Kinds of names with default values are no numbers and no files, and do not compare as names. -/
def DefaultsApart (kinds : NodeKinds) : Prop :=
  ∀ entry ∈ kinds.defaultValues, kinds.isNumber entry.1 = false ∧
    kinds.isProgram entry.1 = false ∧
    ∀ name ∈ kinds.identifiers, kinds.sameKind name entry.1 = false

instance (kinds : NodeKinds) : Decidable kinds.DefaultsApart :=
  inferInstanceAs (Decidable (∀ entry ∈ kinds.defaultValues, kinds.isNumber entry.1 = false ∧
    kinds.isProgram entry.1 = false ∧
    ∀ name ∈ kinds.identifiers, kinds.sameKind name entry.1 = false))

theorem DefaultsApart.of_field (h : kinds.DefaultsApart) {kind field : String}
    (hfield : kinds.defaultValueField? kind = some field) :
    kinds.isNumber kind = false ∧ kinds.isProgram kind = false ∧
      ∀ name, kinds.isIdentifier name = true → kinds.sameKind name kind = false := by
  obtain ⟨before, after, heq, -⟩ := List.lookup_eq_some_iff.1 hfield
  have hmem : (kind, field) ∈ kinds.defaultValues := by
    rw [heq]
    simp
  obtain ⟨hnumber, hprogram, hname⟩ := h _ hmem
  exact ⟨hnumber, hprogram, fun name hidentifier =>
    hname name (List.contains_iff_mem.1 hidentifier)⟩

theorem NameOf.mem_walk (h : kinds.NameOf a b) : b ∈ a.walk := by
  induction h with
  | itself => exact Node.mem_walk_self _
  | value _ hinner _ ih =>
      exact Node.mem_walk_of_mem_offspring (Node.mem_offspring_of_child? hinner) ih

theorem NameOf.unique (hb : kinds.NameOf a b) (hc : kinds.NameOf a c) : b = c := by
  induction hb with
  | itself h =>
      cases hc with
      | itself => rfl
      | value h' => simp [h] at h'
  | value h hinner _ ih =>
      cases hc with
      | itself h' => simp [h] at h'
      | value h' hinner' hname' =>
          obtain rfl := Option.some.inj (h.symm.trans h')
          obtain rfl := Option.some.inj (hinner.symm.trans hinner')
          exact ih hname'

/-- Where names with default values have their names, every node counts as one. -/
theorem exists_nameOf (hroot : kinds.HoldsNames root) (h : a ∈ root.walk) :
    ∃ b, kinds.NameOf a b := by
  induction a using Node.offspring_induction with
  | step a ih =>
      cases hfield : kinds.defaultValueField? a.kind with
      | none => exact ⟨a, NameOf.itself hfield⟩
      | some field =>
          obtain ⟨inner, hinner⟩ := Option.isSome_iff_exists.1 (hroot a h field hfield)
          have hoffspring := Node.mem_offspring_of_child? hinner
          obtain ⟨b, hb⟩ := ih inner hoffspring
            (Node.mem_walk_trans (Node.mem_walk_of_mem_offspring hoffspring
              (Node.mem_walk_self inner)) h)
          exact ⟨b, NameOf.value hfield hinner hb⟩

/-- Equal nodes count as equal names. -/
theorem NameOf.structEq {x y : Node} (hx : kinds.NameOf a x) (hy : kinds.NameOf b y)
    (h : a.structEq b = true) : x.structEq y = true := by
  induction hx generalizing b with
  | itself hfield =>
      obtain ⟨hkind, -, -, -⟩ := Node.structEq_iff.1 h
      cases hy with
      | itself => exact h
      | value hfield' => simp [← hkind, hfield] at hfield'
  | value hfield hinner _ ih =>
      obtain ⟨hkind, -, -, hfields⟩ := Node.structEq_iff.1 h
      cases hy with
      | itself hfield' => simp [← hkind, hfield] at hfield'
      | @value _ inner' _ field' hfield' hinner' hname' =>
          rw [← hkind, hfield] at hfield'
          obtain rfl := Option.some.inj hfield'
          obtain ⟨g, hg, heq⟩ :=
            hfields _ (Node.mem_fields_of_field? (Node.field?_of_child? hinner))
          obtain rfl := Option.some.inj (hg.symm.trans (Node.field?_of_child? hinner'))
          rw [Field.structEq] at heq
          exact ih hname' heq

end NodeKinds

/-! ## Compatible bindings -/

theorem Text.sameText_symm {ignoreCase : Bool} {left right : String}
    (h : Text.sameText ignoreCase left right = true) :
    Text.sameText ignoreCase right left = true := by
  cases ignoreCase with
  | false => exact Text.sameText_false.2 (Text.sameText_false.1 h).symm
  | true => exact Text.sameText_iff.2 (Text.sameText_iff.1 h).symm

theorem Text.sameText_trans {ignoreCase : Bool} {left middle right : String}
    (h : Text.sameText ignoreCase left middle = true)
    (h' : Text.sameText ignoreCase middle right = true) :
    Text.sameText ignoreCase left right = true := by
  cases ignoreCase with
  | false =>
      exact Text.sameText_false.2 ((Text.sameText_false.1 h).trans (Text.sameText_false.1 h'))
  | true => exact Text.sameText_iff.2 ((Text.sameText_iff.1 h).trans (Text.sameText_iff.1 h'))

/-- Bindings are **compatible** with an environment at an alias: it stands for nothing yet or for
what the environment has, letter case apart where it is ignored, and for the name alone where the
environment has one with a default value. -/
def MatchContext.Compatible (cx : MatchContext) (env b : Bindings) : Alias → Prop
  | .text name => ∀ text, b.text? name = some text →
      ∃ bound, env.text? name = some bound ∧
        Text.sameText cx.config.ignoreCase bound text = true
  | .tree name => ∀ node, b.tree? name = some node →
      ∃ bound core, env.tree? name = some bound ∧ cx.kinds.NameOf bound core ∧
        node.structEq core = true

section

variable {cx : MatchContext} {env b c : Bindings} {a : Alias}

theorem MatchContext.Compatible.congr (h : cx.Compatible env b a) (hsame : b.SameAt c a) :
    cx.Compatible env c a := by
  cases a with
  | text name => exact fun text htext => h text (Eq.trans hsame htext)
  | tree name => exact fun node hnode => h node (Eq.trans hsame hnode)

theorem MatchContext.compatible_of_unbound (h : b.Unbound a) : cx.Compatible env b a := by
  cases a with
  | text name =>
      intro text htext
      rw [Bindings.Unbound, htext] at h
      simp at h
  | tree name =>
      intro node hnode
      rw [Bindings.Unbound, hnode] at h
      simp at h

/-- Captures that the environment holds agree with compatible bindings, and so does what is new
among them. -/
theorem fresh?_of_hold {captures : List Capture} (found : List (String × String))
    (henv : env.Hold cx.config.ignoreCase captures)
    (hb : ∀ capture ∈ captures, cx.Compatible env b (.text capture.aliasName))
    (hfound : ∀ entry ∈ found, ∃ bound, env.text? entry.1 = some bound ∧
      Text.sameText cx.config.ignoreCase bound entry.2 = true) :
    ∃ fresh, b.fresh? cx.config.ignoreCase captures found = some fresh ∧
      ∀ entry ∈ fresh, ∃ bound, env.text? entry.1 = some bound ∧
        Text.sameText cx.config.ignoreCase bound entry.2 = true := by
  induction captures generalizing found with
  | nil => exact ⟨found, rfl, hfound⟩
  | cons capture rest ih =>
      obtain ⟨⟨bound, hbound, hsame⟩, henvrest⟩ := List.forall_mem_cons.1 henv
      obtain ⟨hhead, hbrest⟩ := List.forall_mem_cons.1 hb
      rw [Bindings.fresh?_cons]
      cases hold : (b.text? capture.aliasName).or (found.lookup capture.aliasName) with
      | none =>
          refine ih _ henvrest hbrest fun entry hentry => ?_
          rcases List.mem_append.1 hentry with hentry | hentry
          · exact hfound entry hentry
          · rw [List.mem_singleton.1 hentry]
            exact ⟨bound, hbound, hsame⟩
      | some text =>
          -- what the alias stands for, or was found for it before, is that of the environment
          obtain ⟨bound', hbound', hsame'⟩ : ∃ bound', env.text? capture.aliasName = some bound' ∧
              Text.sameText cx.config.ignoreCase bound' text = true := by
            rcases Option.or_eq_some_iff.1 hold with htext | ⟨-, hlookup⟩
            · exact hhead text htext
            · obtain ⟨before, after, heq, -⟩ := List.lookup_eq_some_iff.1 hlookup
              exact hfound (capture.aliasName, text) (by rw [heq]; simp)
          obtain rfl := Option.some.inj (hbound.symm.trans hbound')
          simp only [Text.sameText_trans (Text.sameText_symm hsame') hsame, if_true]
          exact ih found henvrest hbrest hfound

/-- A text that matches under the environment matches from compatible bindings, and they stay so. -/
theorem matchText?_of_textMatches {pattern value : String} {kind : WildcardKind}
    (hkind : kind ≠ .nodeTree) (henv : TextMatches cx env pattern value)
    (hb : ∀ name ∈ (Pattern.ofText cx.markers pattern).aliasNames,
      cx.Compatible env b (.text name)) :
    ∃ c, cx.matchText? pattern value kind b = some c ∧
      ∀ name ∈ (Pattern.ofText cx.markers pattern).aliasNames,
        cx.Compatible env c (.text name) := by
  obtain ⟨captures, hcaptures, hhold⟩ := henv
  obtain ⟨fresh, hfresh, hfreshenv⟩ := fresh?_of_hold (b := b) [] hhold
    (fun capture hcapture => hb _ (Pattern.aliasName_mem_of_captures? hcaptures hcapture))
    (by simp)
  obtain ⟨hmatch, htext⟩ := Bindings.text?_matchText? hkind hcaptures hfresh
  refine ⟨_, hmatch, fun name hname text hbound => ?_⟩
  rw [htext] at hbound
  rcases Option.or_eq_some_iff.1 hbound with hlookup | ⟨-, hold⟩
  · obtain ⟨before, after, heq, -⟩ := List.lookup_eq_some_iff.1 hlookup
    exact hfreshenv (name, text) (by rw [heq]; simp)
  · exact hb name hname text hold

/-- A subtree equal to the name that the environment has for an alias agrees with compatible
bindings, and they stay so. -/
theorem matchNode?_of_compatible {name code : String} {node bound core : Node}
    (hbound : env.tree? name = some bound) (hcore : cx.kinds.NameOf bound core)
    (hto : core.structEq node = true) (hfrom : node.structEq core = true)
    (hb : cx.Compatible env b (.tree name)) :
    ∃ c, b.matchNode? name code node = some c ∧ cx.Compatible env c (.tree name) := by
  rw [Bindings.matchNode?_eq]
  cases htree : b.tree? name with
  | none =>
      refine ⟨_, rfl, fun other hother => ?_⟩
      rw [Bindings.tree?_bind_nodeTree, if_pos rfl] at hother
      obtain rfl := Option.some.inj hother
      exact ⟨bound, core, hbound, hcore, hfrom⟩
  | some old =>
      obtain ⟨bound', core', hbound', hcore', hold⟩ := hb old htree
      obtain rfl := Option.some.inj (hbound.symm.trans hbound')
      obtain rfl := hcore.unique hcore'
      refine ⟨b, ?_, hb⟩
      dsimp only
      rw [if_pos (Node.structEq_trans hold hto)]

end

/-! ## Comparing again -/

section

variable {cx : MatchContext} {file query : Node} {b : Bindings}

/-- Where further code is ignored, a wildcard for subtrees matches the name that a node counts
as. -/
theorem compare_treeWildcard (cx : MatchContext) (hbefore : cx.grammar.rulesBefore = [])
    (hextra : cx.config.mode.allowsExtra = true) {text : String} {core : Node}
    (hname : cx.nameWildcard? query = some text) (htree : cx.markers.isNodeTree text = true)
    (hcore : cx.kinds.NameOf file core) (b : Bindings) :
    ∃ found, compare cx file query b = (found, (cx.matchTree? text core b).getD b) ∧
      found.agrees = (cx.matchTree? text core b).isSome ∧ found.queryKeys = [] ∧
      found.fileKeys = [] := by
  have hkind := (MatchContext.nameWildcard?_eq_some hname).1
  have hvalue : ∀ n : Node, valueField? cx n.kind query = cx.kinds.defaultValueField? n.kind := by
    intro n
    rw [valueField?, hextra, hkind]
    rfl
  induction hcore with
  | @itself n hfield =>
      have hcompare : compare cx n query b = compareIdentifier cx n query text b := by
        rw [compare_eq]
        simp only [hbefore, Rule.first?, hvalue, hfield]
        exact comparePlain_of_name hname b
      rw [hcompare, compareIdentifier_tree htree]
      exact ⟨_, rfl, rfl, rfl, rfl⟩
  | @value n inner name field hfield hinner _ ih =>
      obtain ⟨found, hcompare, hagrees, hqueryKeys, hfileKeys⟩ := ih
      rw [compare_eq]
      simp only [hbefore, Rule.first?, hvalue, hfield, hinner, compareOptional, hcompare]
      exact ⟨_, rfl, hagrees, hqueryKeys, by rw [hfileKeys]; rfl⟩

/-- Nodes that agree key by key still do where further code is ignored, and in the same way. -/
theorem compareFields_contained (hquery : cx.config.mode = .exact → query.keys.Nodup)
    (h : (compareFields cx file query).agrees = true) :
    compareFields (cx.withMode .contained) file query = compareFields cx file query := by
  have hcounted : countedKeys (cx.withMode .contained) file query = countedKeys cx file query := by
    cases hmode : cx.config.mode with
    | contained =>
        rw [countedKeys, countedKeys, hmode]
        rfl
    | ordered =>
        rw [countedKeys, countedKeys, hmode]
        rfl
    | exact =>
        obtain ⟨hkeys, -⟩ := compareFields_agrees h
        have hall : countedKeys cx file query = file.keys := by
          rw [countedKeys, hmode]
          rfl
        have hlength := hkeys.length
        have hsubset := hkeys.keys
        rw [hall] at hlength hsubset
        -- all keys of the query are the file's, of which there are no more
        have hperm : query.keys.Perm file.keys :=
          ((hquery hmode).subperm hsubset).perm_of_length_le (Nat.le_of_eq hlength.symm)
        rw [hall]
        show (file.keys.filter fun key => query.keys.contains key || _) = file.keys
        refine List.filter_eq_self.2 fun key hkey => ?_
        rw [Bool.or_eq_true, List.contains_iff_mem]
        exact Or.inl (hperm.mem_iff.2 hkey)
  unfold compareFields
  rw [hcounted]
  rfl

variable {root : Node} {env : Bindings}

/-- What the second match takes for granted of a tree of the file: field names are distinct, names
with default values have their names and, where all of the code counts in the first, are no
numbers, files or names; and the environment has subtrees of the tree. -/
structure Rematch (cx : MatchContext) (root : Node) (env : Bindings) : Prop where
  before : cx.grammar.rulesBefore = []
  after : cx.grammar.rulesAfter = []
  defaults : cx.config.mode = .exact → cx.kinds.DefaultsApart
  names : root.NamesDistinct
  holds : cx.kinds.HoldsNames root
  trees : env.TreesAmong (· ∈ root.walk)

/-- A wildcard for subtrees that has matched a node matches again. -/
theorem compare_tree_contained (h : Rematch cx root env) {text : String}
    (hfile : file ∈ root.walk) (hname : cx.nameWildcard? query = some text)
    (htree : cx.markers.isNodeTree text = true)
    (henv : ∀ aliasName, cx.treeAlias? text = some aliasName →
      ∃ bound, env.tree? aliasName = some bound ∧ (bound = file ∨ bound.structEq file = true))
    (hb : ∀ a ∈ cx.ownAliases query, cx.Compatible env b a) :
    ∃ found c, compare (cx.withMode .contained) file query b = (found, c) ∧
      found.agrees = true ∧ found.queryKeys = [] ∧ found.fileKeys = [] ∧
      ∀ a ∈ cx.ownAliases query, cx.Compatible env c a := by
  obtain ⟨core, hcore⟩ := NodeKinds.exists_nameOf h.holds hfile
  obtain ⟨found, hcompare, hagrees, hqueryKeys, hfileKeys⟩ :=
    compare_treeWildcard (cx.withMode .contained) h.before rfl hname htree hcore b
  rw [cx.ownAliases_of_isNodeTree hname htree] at hb ⊢
  obtain ⟨c, hc, hcompatible⟩ : ∃ c, (cx.withMode .contained).matchTree? text core b = some c ∧
      ∀ a ∈ (cx.treeAlias? text).toList.map Alias.tree, cx.Compatible env c a := by
    simp only [MatchContext.matchTree?, MatchContext.treeAlias?_withMode,
      MatchContext.code_withMode]
    cases halias : cx.treeAlias? text with
    | none => exact ⟨b, rfl, by simp⟩
    | some aliasName =>
        obtain ⟨bound, hbound, heq⟩ := henv aliasName halias
        have hmem := h.trees _ _ hbound
        -- the environment's subtree and the node are equal, either way round
        have hto : bound.structEq file = true := by
          rcases heq with rfl | heq
          · exact Node.structEq_refl (h.names.of_mem_walk hfile)
          · exact heq
        have hfrom := Node.structEq_symm (h.names.of_mem_walk hmem) hto
        obtain ⟨boundCore, hboundCore⟩ := NodeKinds.exists_nameOf h.holds hmem
        rw [halias] at hb
        obtain ⟨c, hc, hcompatible⟩ : ∃ c, b.matchNode? aliasName (cx.code core) core = some c ∧
            cx.Compatible env c (.tree aliasName) :=
          matchNode?_of_compatible hbound hboundCore (hboundCore.structEq hcore hto)
            (hcore.structEq hboundCore hfrom) (hb (.tree aliasName) (by simp))
        refine ⟨c, hc, fun a ha => ?_⟩
        obtain rfl : a = .tree aliasName := by simpa using ha
        exact hcompatible
  rw [hc] at hcompare hagrees
  exact ⟨found, c, hcompare, hagrees, hqueryKeys, hfileKeys, hcompatible⟩

theorem NodeKinds.sameKind_refl (kinds : NodeKinds) (kind : String) :
    kinds.sameKind kind kind = true := by
  simp [NodeKinds.sameKind]

/-- A node that agrees with a name other than as a subtree is no name with a default value. -/
theorem valueField?_contained (h : cx.config.mode = .exact → cx.kinds.DefaultsApart)
    (hfirst : valueField? cx file.kind query = none)
    (hagrees : cx.kinds.isIdentifier file.kind = true ∨ cx.kinds.isNumber file.kind = true ∨
      cx.kinds.isProgram file.kind = true ∨ cx.kinds.sameKind query.kind file.kind = true) :
    valueField? (cx.withMode .contained) file.kind query = none := by
  by_cases hmode : cx.config.mode = .exact
  · rw [valueField?]
    split
    next hquery =>
      rw [Bool.and_eq_true] at hquery
      by_contra hsome
      obtain ⟨field, hfield⟩ := Option.ne_none_iff_exists'.1 hsome
      obtain ⟨hnumber, hprogram, hname⟩ := (h hmode).of_field hfield
      rcases hagrees with hkind | hkind | hkind | hkind
      · exact absurd (cx.kinds.sameKind_refl file.kind) (by simp [hname file.kind hkind])
      · simp [hnumber] at hkind
      · simp [hprogram] at hkind
      · exact absurd hkind (by simp [hname query.kind hquery.2])
    next => rfl
  · -- further code is ignored in the first match already
    have hextra : cx.config.mode.allowsExtra = true := by
      cases hcase : cx.config.mode with
      | exact => exact absurd hcase hmode
      | contained => rfl
      | ordered => rfl
    rw [valueField?, hextra] at hfirst
    exact hfirst

theorem compare_contained_of_plain (h : Rematch cx root env)
    (hquery : cx.config.mode = .exact → query.keys.Nodup) {b₀ c₀ : Bindings} {found : Comparison}
    (hfield : valueField? cx file.kind query = none)
    (hagree : AgreePlainly cx file query b₀ found c₀) (hfile : file ∈ root.walk)
    (henv : c₀.Keeps env)
    (hb : ∀ a ∈ cx.ownAliases query, cx.Compatible env b a) :
    ∃ found' c, compare (cx.withMode .contained) file query b = (found', c) ∧
      found'.agrees = true ∧ found'.queryKeys = found.queryKeys ∧
      found'.fileKeys = found.fileKeys ∧ ∀ a ∈ cx.ownAliases query, cx.Compatible env c a := by
  -- a name with a default value could only have agreed as a subtree
  have hplain : ∀ {found c}, (cx.kinds.isIdentifier file.kind = true ∨
        cx.kinds.isNumber file.kind = true ∨ cx.kinds.isProgram file.kind = true ∨
        cx.kinds.sameKind query.kind file.kind = true) →
      AgreePlainly (cx.withMode .contained) file query b found c →
      compare (cx.withMode .contained) file query b = (found, c) := by
    intro found c hkind hagree
    rw [compare_eq]
    simp only [MatchContext.grammar_withMode, h.before, Rule.first?,
      valueField?_contained h.defaults hfield hkind, hagree.comparePlain_eq]
  cases hagree with
  | anyTree hname htree halias =>
      exact compare_tree_contained h hfile hname htree (by simp [halias]) hb
  | tree hname htree halias hmatch =>
      obtain ⟨-, -, bound, hbound, heq⟩ := Bindings.matchNode?_eq_some hmatch
      refine compare_tree_contained h hfile hname htree (fun aliasName hsome => ?_) hb
      obtain rfl := Option.some.inj (halias.symm.trans hsome)
      exact ⟨bound, henv.tree _ _ hbound, heq⟩
  | @name text value c hname htree hkind hvalue hmatch htyping =>
      rw [cx.ownAliases_of_name hname htree] at hb ⊢
      obtain ⟨d, hd, hcompatible⟩ : ∃ d, cx.matchText? text value .identifier b = some d ∧
          ∀ name ∈ (Pattern.ofText cx.markers text).aliasNames, cx.Compatible env d (.text name) :=
        matchText?_of_textMatches (by decide) (textMatches_of_matchText? (by decide) hmatch henv)
          fun name hname => hb (.text name) (List.mem_map_of_mem hname)
      have hagree : AgreePlainly (cx.withMode .contained) file query b _ d :=
        .name hname htree hkind hvalue hd rfl
      exact ⟨_, d, hplain (Or.inl hkind) hagree, rfl, rfl, rfl, List.forall_mem_map.2 hcompatible⟩
  | @string pattern c hname hstring hmatch =>
      have hkind : cx.kinds.sameKind query.kind file.kind = true := by
        unfold MatchContext.stringWildcard? at hstring
        split at hstring
        next hkind =>
          rw [Bool.and_eq_true, beq_iff_eq] at hkind
          rw [hkind.2]
          exact cx.kinds.sameKind_refl _
        next => simp at hstring
      rw [cx.ownAliases_of_string hname hstring] at hb ⊢
      obtain ⟨d, hd, hcompatible⟩ : ∃ d,
          cx.matchText? pattern ((cx.sanitized file).getD "") .string b = some d ∧
          ∀ name ∈ (Pattern.ofText cx.markers pattern).aliasNames,
            cx.Compatible env d (.text name) :=
        matchText?_of_textMatches (by decide) (textMatches_of_matchText? (by decide) hmatch henv)
          fun name hname => hb (.text name) (List.mem_map_of_mem hname)
      have hagree : AgreePlainly (cx.withMode .contained) file query b _ d :=
        .string hname hstring hd
      exact ⟨_, d, hplain (Or.inr (Or.inr (Or.inr hkind))) hagree, rfl, rfl, rfl,
        List.forall_mem_map.2 hcompatible⟩
  | number hname hstring hany hkind =>
      have hagree : AgreePlainly (cx.withMode .contained) file query b _ b :=
        .number hname hstring hany hkind
      exact ⟨_, b, hplain (Or.inr (Or.inl hkind)) hagree, rfl, rfl, rfl, hb⟩
  | block hname hstring hany hwhole =>
      have hkind : cx.kinds.isProgram file.kind = true := by
        rw [MatchContext.isWholeFile, Bool.and_eq_true] at hwhole
        exact hwhole.2
      have hagree : AgreePlainly (cx.withMode .contained) file query b _ b :=
        .block hname hstring hany hwhole
      exact ⟨_, b, hplain (Or.inr (Or.inr (Or.inl hkind))) hagree, rfl, rfl, rfl, hb⟩
  | rule hname hstring hany hrule hagrees => simp [h.after, Rule.first?] at hrule
  | fields hname hstring hany hrule hagrees hwhole =>
      obtain ⟨hkeys, -⟩ := compareFields_agrees hagrees
      have hfields := compareFields_contained hquery hagrees
      have hagree : AgreePlainly (cx.withMode .contained) file query b _ b :=
        .fields hname hstring hany (by simp [h.after, Rule.first?]) (hfields ▸ hagrees) hwhole
      rw [hfields] at hagree
      exact ⟨_, b, hplain (Or.inr (Or.inr (Or.inr hkeys.kind))) hagree, hagrees, rfl, rfl, hb⟩

/-- **Nodes that agree still do** where further code is ignored, from bindings compatible with an
environment that keeps what the first comparison bound. The same fields are left to agree, and the
bindings stay compatible. -/
theorem compare_contained (h : Rematch cx root env)
    (hquery : cx.config.mode = .exact → query.keys.Nodup) {b₀ c₀ : Bindings} {found : Comparison}
    (hagree : Agree cx file query b₀ found c₀)
    (hfile : file ∈ root.walk) (henv : c₀.Keeps env)
    (hb : ∀ a ∈ cx.ownAliases query, cx.Compatible env b a) :
    ∃ found' c, compare (cx.withMode .contained) file query b = (found', c) ∧
      found'.agrees = true ∧ found'.queryKeys = found.queryKeys ∧
      found'.fileKeys = found.fileKeys ∧ ∀ a ∈ cx.ownAliases query, cx.Compatible env c a := by
  induction hagree with
  | rule hrule hagrees => simp [h.before, Rule.first?] at hrule
  | @value file query inner b₀ b₁ c field found hrule hfield hinner _ ih =>
      have hoffspring := Node.mem_offspring_of_child? hinner
      have hmem : inner ∈ root.walk := Node.mem_walk_trans
        (Node.mem_walk_of_mem_offspring hoffspring (Node.mem_walk_self inner)) hfile
      obtain ⟨found', c, hcompare, hagrees, hqueryKeys, hfileKeys, hcompatible⟩ :=
        ih hquery hmem henv hb
      have hfield' : valueField? (cx.withMode .contained) file.kind query = some field := by
        unfold valueField? at hfield ⊢
        split at hfield
        next hcondition =>
          rw [Bool.and_eq_true] at hcondition
          have hcondition' : ((cx.withMode .contained).config.mode.allowsExtra &&
              cx.kinds.isIdentifier query.kind) = true := hcondition.2
          rw [MatchContext.kinds_withMode, if_pos hcondition']
          exact hfield
        next => simp at hfield
      rw [compare_eq]
      simp only [MatchContext.grammar_withMode, h.before, Rule.first?, hfield', hinner,
        compareOptional, hcompare]
      exact ⟨_, c, rfl, hagrees, hqueryKeys, by rw [hfileKeys], hcompatible⟩
  | plain hrule hfield hplain =>
      exact compare_contained_of_plain h hquery hfield hplain hfile henv hb

end

end CodeSearch

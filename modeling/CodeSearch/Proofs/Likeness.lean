import CodeSearch.Proofs.SelfMatch
import CodeSearch.Proofs.TwoRuns

/-!
# Matching depends on structure alone

Code that is moved or laid out anew gives a tree with other spans, whose nodes may have their fields
in another order. Such trees are **alike**, and so are bindings that hold the same texts and, under
the same node-tree aliases, trees that are alike. A query treats alike what is alike: from bindings
that are alike it has one verdict on both trees, and ends with bindings that are alike again. This
is so for every grammar that itself looks at structure alone.
-/

set_option autoImplicit false

namespace CodeSearch

/-! ## Trees -/

/-- Two trees without two fields of one name in a node are **alike** if they are structurally
equal. -/
structure Node.Alike (a b : Node) : Prop where
  distinct : a.NamesDistinct
  equal : a.structEq b = true

theorem Node.forall₂_of_structEqList {as bs : List Node} (h : Node.structEqList as bs = true) :
    List.Forall₂ (fun a b => a ∈ as ∧ a.structEq b = true) as bs := by
  induction as generalizing bs with
  | nil =>
      cases bs with
      | nil => exact .nil
      | cons _ _ => simp [Node.structEqList] at h
  | cons a as ih =>
      cases bs with
      | nil => simp [Node.structEqList] at h
      | cons b bs =>
          rw [Node.structEqList, Bool.and_eq_true] at h
          refine .cons ⟨List.mem_cons_self, h.1⟩ ((ih h.2).imp fun _ _ hpair => ?_)
          exact hpair.imp_left (List.mem_cons_of_mem a)

theorem Field.rel_of_structEq {f g : Field} (h : f.structEq g = true) :
    Field.Rel (fun a b => a ∈ f.members ∧ a.structEq b = true) f g := by
  cases f <;> cases g <;> simp only [Field.structEq, Bool.false_eq_true] at h
  case node.node => exact .node ⟨List.mem_singleton.2 rfl, h⟩
  case nodes.nodes => exact .nodes (Node.forall₂_of_structEqList h)
  case token.token =>
      rw [beq_iff_eq.1 h]
      exact .token _

namespace Node

/-- What is structurally equal to a tree with distinct names has distinct names. -/
theorem NamesDistinct.of_structEq {a b : Node} (ha : a.NamesDistinct) (h : a.structEq b = true) :
    b.NamesDistinct := by
  induction a using Node.offspring_induction generalizing b with
  | step a ih =>
      have hnames := ha a (Node.mem_walk_self a)
      have hperm := Node.names_perm_of_structEq hnames h
      obtain ⟨-, -, -, hfields⟩ := Node.structEq_iff.1 h
      intro m hm
      rcases Node.mem_walk.1 hm with rfl | ⟨d, hd, hmd⟩
      · exact hperm.nodup_iff.1 hnames
      · obtain ⟨⟨name, g⟩, hg, hdg⟩ := List.mem_flatMap.1 hd
        obtain ⟨⟨_, f⟩, hf, rfl⟩ := List.mem_map.1 (hperm.mem_iff.2 (List.mem_map_of_mem hg))
        obtain ⟨g', hg', hequal⟩ := hfields _ hf
        obtain rfl := Option.some.inj (hg'.symm.trans
          (Node.field?_of_mem_fields (hperm.nodup_iff.1 hnames) hg))
        obtain ⟨c, hcf, -, hcd⟩ := (Field.rel_of_structEq hequal).exists_of_mem hdg
        have hc : c ∈ a.offspring := List.mem_flatMap.2 ⟨_, hf, hcf⟩
        exact ih c hc (ha.of_mem_offspring hc) hcd m hmd

namespace Alike

variable {a b : Node}

theorem symm (h : a.Alike b) : b.Alike a :=
  ⟨h.distinct.of_structEq h.equal, structEq_symm h.distinct h.equal⟩

theorem kind (h : a.Alike b) : a.kind = b.kind := (structEq_iff.1 h.equal).1

theorem text (h : a.Alike b) : a.text = b.text := (structEq_iff.1 h.equal).2.1

/-- Trees that are alike have the same keys, up to order. -/
theorem keys_perm (h : a.Alike b) : a.keys.Perm b.keys := by
  rw [keys, keys, h.text]
  exact (names_perm_of_structEq (h.distinct a (mem_walk_self a)) h.equal).append_right _

/-- Trees that are alike hold what is alike under each name. -/
theorem field? (h : a.Alike b) (name : String) :
    Option.Rel (Field.Rel Node.Alike) (a.field? name) (b.field? name) := by
  have hfield := rel_field?_of_structEq (h.distinct a (mem_walk_self a)) h.equal name
  generalize hleft : a.field? name = left at hfield ⊢
  generalize b.field? name = right at hfield ⊢
  cases hfield with
  | none => exact .none
  | some hfield =>
      refine .some ((Field.rel_of_structEq hfield).mono fun c d hcd => ⟨?_, hcd.2⟩)
      exact h.distinct.of_mem_offspring (mem_offspring_of_field? hleft hcd.1)

theorem child? (h : a.Alike b) (name : String) :
    Option.Rel Node.Alike (a.child? name) (b.child? name) := by
  have hfield := h.field? name
  rw [Node.child?, Node.child?]
  generalize a.field? name = left at hfield ⊢
  generalize b.field? name = right at hfield ⊢
  cases hfield with
  | none => exact .none
  | some hfield =>
      cases hfield with
      | node h => exact .some h
      | nodes _ => exact .none
      | token _ => exact .none

theorem children (h : a.Alike b) : List.Forall₂ Node.Alike a.children b.children := by
  have hfield := h.field? childrenField
  rw [Node.children, Node.children]
  generalize a.field? childrenField = left at hfield ⊢
  generalize b.field? childrenField = right at hfield ⊢
  cases hfield with
  | none => exact .nil
  | some hfield =>
      cases hfield with
      | node _ => exact .nil
      | nodes h => exact h
      | token _ => exact .nil

/-- A path leads to what is alike in trees that are alike. -/
theorem resolve (h : a.Alike b) (path : FieldPath) :
    Option.Rel (Field.Rel Node.Alike) (a.resolve path) (b.resolve path) := by
  induction path generalizing a b with
  | nil => exact .none
  | cons name rest ih =>
      cases rest with
      | nil => exact h.field? name
      | cons next rest =>
          have hchild := h.child? name
          rw [Node.resolve, Node.resolve]
          generalize a.child? name = left at hchild ⊢
          generalize b.child? name = right at hchild ⊢
          cases hchild with
          | none => exact .none
          | some hchild => exact ih hchild

theorem isSome_resolve (h : a.Alike b) (path : FieldPath) :
    (a.resolve path).isSome = (b.resolve path).isSome := by
  have hfield := h.resolve path
  generalize a.resolve path = left at hfield ⊢
  generalize b.resolve path = right at hfield ⊢
  cases hfield <;> rfl

theorem isSome_field? (h : a.Alike b) (name : String) :
    (a.field? name).isSome = (b.field? name).isSome :=
  h.isSome_resolve [name]

end Alike

end Node

/-! ## Bindings -/

/-- Two bindings of a node-tree alias are **alike** if they hold no trees, or trees that are alike.
The code that these were taken from may differ. -/
structure Binding.Alike (left right : Binding) : Prop where
  node : Option.Rel Node.Alike left.node right.node

/-- Two sets of bindings are **alike** if they bind the same aliases to the same texts and the same
node-tree aliases to trees that are alike. -/
structure Bindings.Alike (b c : Bindings) : Prop where
  identifier : b.identifier = c.identifier
  string : b.string = c.string
  nodeTree : EntriesRel Binding.Alike b.nodeTree c.nodeTree

theorem AliasMap.insert_alike {left right : Binding} {lefts rights : AliasMap}
    (hbinding : left.Alike right) (h : EntriesRel Binding.Alike lefts rights) (name : String) :
    EntriesRel Binding.Alike (insert name left lefts) (insert name right rights) := by
  induction h with
  | nil => exact .cons ⟨rfl, hbinding⟩ .nil
  | @cons entry other rest others hentry hrest ih =>
      obtain ⟨key, old⟩ := entry
      obtain ⟨key', old'⟩ := other
      obtain ⟨rfl, hold⟩ := hentry
      rw [AliasMap.insert, AliasMap.insert]
      split
      next => exact .cons ⟨rfl, hbinding⟩ hrest
      next =>
        split
        next => exact .cons ⟨rfl, hbinding⟩ (.cons ⟨rfl, hold⟩ hrest)
        next => exact .cons ⟨rfl, hold⟩ ih

namespace Bindings

variable {b c : Bindings}

/-- Two results of one run on what is alike: they are equal, and the bindings that come with them
are alike. -/
def AlikeWith {α : Type} (left right : α × Bindings) : Prop :=
  left.1 = right.1 ∧ left.2.Alike right.2

namespace Alike

theorem text? (h : b.Alike c) (name : String) : b.text? name = c.text? name := by
  rw [Bindings.text?, Bindings.text?, textual?, textual?, h.identifier, h.string]

theorem tree? (h : b.Alike c) (name : String) :
    Option.Rel Node.Alike (b.tree? name) (c.tree? name) := by
  have hentry := EntriesRel.lookup h.nodeTree name
  rw [Bindings.tree?, Bindings.tree?]
  generalize b.nodeTree.lookup name = left at hentry ⊢
  generalize c.nodeTree.lookup name = right at hentry ⊢
  cases hentry with
  | none => exact .none
  | some hentry => exact hentry.node

theorem bind (h : b.Alike c) (kind : WildcardKind) (name text : String) :
    (b.bind kind name ⟨text, none⟩).Alike (c.bind kind name ⟨text, none⟩) := by
  cases kind with
  | identifier => exact ⟨congrArg (AliasMap.insert name _) h.identifier, h.string, h.nodeTree⟩
  | string => exact ⟨h.identifier, congrArg (AliasMap.insert name _) h.string, h.nodeTree⟩
  | nodeTree => exact ⟨h.identifier, h.string, AliasMap.insert_alike ⟨.none⟩ h.nodeTree name⟩

theorem bindTexts (h : b.Alike c) (kind : WildcardKind) (texts : List (String × String)) :
    (b.bindTexts kind texts).Alike (c.bindTexts kind texts) := by
  induction texts generalizing b c with
  | nil => exact h
  | cons entry rest ih => exact ih (h.bind kind entry.1 entry.2)

theorem fresh? (h : b.Alike c) (ignoreCase : Bool) (captures : List Capture)
    (found : List (String × String)) :
    b.fresh? ignoreCase captures found = c.fresh? ignoreCase captures found := by
  induction captures generalizing found with
  | nil => rfl
  | cons capture rest ih =>
      rw [fresh?_cons, fresh?_cons, h.text?]
      simp only [ih]

/-- A pattern matches a text from both bindings or from neither. -/
theorem matchText? (h : b.Alike c) (ignoreCase : Bool) (pattern : Pattern) (value : String)
    (kind : WildcardKind) :
    Option.Rel Bindings.Alike (b.matchText? ignoreCase pattern value kind)
      (c.matchText? ignoreCase pattern value kind) := by
  rw [Bindings.matchText?, Bindings.matchText?]
  cases pattern.captures? ignoreCase value with
  | none => exact .none
  | some captures =>
      simp only [Option.bind_eq_bind, Option.bind_some, h.fresh?]
      cases c.fresh? ignoreCase captures [] with
      | none => exact .none
      | some fresh => exact .some (h.bindTexts kind fresh)

/-- A node-tree alias agrees with both of two trees that are alike or with neither, wherever their
code stands. -/
theorem matchNode? (h : b.Alike c) {f g : Node} (hfile : f.Alike g) (name code other : String) :
    Option.Rel Bindings.Alike (b.matchNode? name code f) (c.matchNode? name other g) := by
  have hbound := h.tree? name
  rw [Bindings.tree?, Bindings.tree?] at hbound
  rw [Bindings.matchNode?, Bindings.matchNode?]
  generalize (b.nodeTree.lookup name).bind Binding.node = left at hbound ⊢
  generalize (c.nodeTree.lookup name).bind Binding.node = right at hbound ⊢
  cases hbound with
  | none =>
      exact .some ⟨h.identifier, h.string, AliasMap.insert_alike ⟨.some hfile⟩ h.nodeTree name⟩
  | @some m n hbound =>
      have hsame : m.structEq f = n.structEq g := by
        rw [Bool.eq_iff_iff]
        constructor
        · intro hequal
          exact Node.structEq_trans hbound.symm.equal (Node.structEq_trans hequal hfile.equal)
        · intro hequal
          exact Node.structEq_trans hbound.equal (Node.structEq_trans hequal hfile.symm.equal)
      dsimp only
      rw [hsame]
      split
      next => exact .some h
      next => exact .none

end Alike

end Bindings

/-! ## Grammars that look at structure alone -/

/-- A rule **looks at structure alone** if it has one verdict on file nodes that are alike, from
bindings that are alike, and leaves bindings that are alike. -/
def Rule.IsStructural (rule : Rule) : Prop :=
  ∀ (config : MatchSettings) {f g : Node} (query : Node) {b c : Bindings}, f.Alike g → b.Alike c →
    Bindings.AlikeWith (rule config f query b) (rule config g query c)

/-- A grammar looks at structure alone if its rules do, and if of two nodes that are alike it
compares both or neither. -/
structure Grammar.IsStructural (grammar : Grammar) : Prop where
  rulesBefore : ∀ rule ∈ grammar.rulesBefore, rule.IsStructural
  rulesAfter : ∀ rule ∈ grammar.rulesAfter, rule.IsStructural
  comparable : ∀ a b : Node, a.Alike b → grammar.isComparable a = grammar.isComparable b

theorem Rule.first?_alike {rules : List Rule} (hrules : ∀ rule ∈ rules, rule.IsStructural)
    (config : MatchSettings) {f g : Node} (query : Node) {b c : Bindings} (h : f.Alike g)
    (hb : b.Alike c) :
    Bindings.AlikeWith (first? config f query rules b) (first? config g query rules c) := by
  induction rules generalizing b c with
  | nil => exact ⟨rfl, hb⟩
  | cons rule rest ih =>
      obtain ⟨hrule, hrest⟩ := List.forall_mem_cons.1 hrules
      obtain ⟨hverdict, hafter⟩ := hrule config query h hb
      rw [Rule.first?, Rule.first?]
      generalize rule config f query b = left at hverdict hafter ⊢
      generalize rule config g query c = right at hverdict hafter ⊢
      obtain ⟨verdict, b⟩ := left
      obtain ⟨_, c⟩ := right
      obtain rfl : verdict = _ := hverdict
      cases verdict with
      | some verdict => exact ⟨rfl, hafter⟩
      | none => exact ih hrest hafter

/-! ## Comparing two nodes -/

namespace MatchContext

/-- The same search in a file with another text. -/
def inText (cx : MatchContext) (source : String) : MatchContext := { cx with source }

variable (cx : MatchContext) (source : String)

@[simp] theorem grammar_inText : (cx.inText source).grammar = cx.grammar := rfl
@[simp] theorem config_inText : (cx.inText source).config = cx.config := rfl
@[simp] theorem kinds_inText : (cx.inText source).kinds = cx.kinds := rfl
@[simp] theorem markers_inText : (cx.inText source).markers = cx.markers := rfl
@[simp] theorem matchText?_inText : (cx.inText source).matchText? = cx.matchText? := rfl
@[simp] theorem sanitized_inText : (cx.inText source).sanitized = cx.sanitized := rfl
@[simp] theorem nameWildcard?_inText : (cx.inText source).nameWildcard? = cx.nameWildcard? := rfl
@[simp] theorem stringWildcard?_inText :
    (cx.inText source).stringWildcard? = cx.stringWildcard? := rfl
@[simp] theorem isAnyNumber_inText : (cx.inText source).isAnyNumber = cx.isAnyNumber := rfl
@[simp] theorem isWholeFile_inText : (cx.inText source).isWholeFile = cx.isWholeFile := rfl

end MatchContext

/-- Two outcomes of comparing what is alike. -/
def Comparison.AlikeWith (left right : Comparison × Bindings) : Prop :=
  left.1.Alike right.1 ∧ left.2.Alike right.2

section Comparing

variable {cx : MatchContext} (source : String) {f g : Node} (query : Node) {b c : Bindings}

theorem Comparison.alike_closed (f g : Node) (agrees : Bool) :
    (closed f agrees).Alike (closed g agrees) := ⟨rfl, rfl, rfl⟩

theorem Comparison.alike_sameFields (f g : Node) (agrees : Bool) (names : List String) :
    (sameFields f agrees names).Alike (sameFields g agrees names) := ⟨rfl, rfl, rfl⟩

theorem Comparison.alike_ofVerdict (f g : Node) (verdict : Verdict) :
    (ofVerdict f verdict).Alike (ofVerdict g verdict) := ⟨rfl, rfl, rfl⟩

theorem sameTyping_alike (h : f.Alike g) :
    cx.sameTyping f query = (cx.inText source).sameTyping g query := by
  rw [MatchContext.sameTyping, MatchContext.sameTyping]
  simp only [MatchContext.config_inText, MatchContext.kinds_inText, h.isSome_field?]

/-- A wildcard for subtrees matches both of two trees that are alike or neither. -/
theorem matchTree?_alike (h : f.Alike g) (hb : b.Alike c) (name : String) :
    Option.Rel Bindings.Alike (cx.matchTree? name f b)
      ((cx.inText source).matchTree? name g c) := by
  have halias : (cx.inText source).treeAlias? name = cx.treeAlias? name := rfl
  rw [MatchContext.matchTree?, MatchContext.matchTree?, halias]
  cases cx.treeAlias? name with
  | none => exact .some hb
  | some aliasName => exact hb.matchNode? h aliasName _ _

/-- A name with a wildcard compares alike with nodes that are alike. -/
theorem compareIdentifier_alike (h : f.Alike g) (hb : b.Alike c) (name : String) :
    Comparison.AlikeWith (compareIdentifier cx f query name b)
      (compareIdentifier (cx.inText source) g query name c) := by
  cases htree : cx.markers.isNodeTree name with
  | true =>
      have hother : (cx.inText source).markers.isNodeTree name = true := htree
      obtain ⟨hsame, hafter⟩ := rel_getD (matchTree?_alike source h hb name) hb
      rw [compareIdentifier_tree htree, compareIdentifier_tree hother, hsame]
      exact ⟨Comparison.alike_closed f g _, hafter⟩
  | false =>
      have hother : (cx.inText source).markers.isNodeTree name = false := htree
      have hname : cx.fileName? f = (cx.inText source).fileName? g := by
        rw [MatchContext.fileName?, MatchContext.fileName?, h.kind, h.text]
        rfl
      have hmatch : Option.Rel Bindings.Alike
          ((cx.fileName? f).bind fun value => cx.matchText? name value .identifier b)
          (((cx.inText source).fileName? g).bind fun value =>
            (cx.inText source).matchText? name value .identifier c) := by
        rw [hname]
        cases (cx.inText source).fileName? g with
        | none => exact .none
        | some value => exact hb.matchText? _ (.ofText cx.markers name) value .identifier
      obtain ⟨hsame, hafter⟩ := rel_getD hmatch hb
      rw [compareIdentifier_name htree, compareIdentifier_name hother, hsame,
        sameTyping_alike source query h]
      exact ⟨Comparison.alike_sameFields f g _ _, hafter⟩

/-- Trees that are alike have equally many keys that count, and the same ones. -/
theorem countedKeys_perm (h : f.Alike g) :
    (countedKeys cx f query).Perm (countedKeys (cx.inText source) g query) := by
  rw [countedKeys, countedKeys]
  simp only [MatchContext.config_inText, MatchContext.grammar_inText, h.kind]
  by_cases hmode : cx.config.mode.allowsExtra = true
  · simp only [hmode, if_true]
    exact h.keys_perm.filter _
  · simp only [hmode, Bool.false_eq_true, if_false]
    exact h.keys_perm

theorem compareKey_alike (h : f.Alike g) {fileKeys others : List String}
    (hkeys : fileKeys.Perm others) (key : String) :
    compareKey cx f query fileKeys key = compareKey (cx.inText source) g query others key := by
  have hcontains : fileKeys.contains key = others.contains key := by
    rw [Bool.eq_iff_iff, List.contains_iff_mem, List.contains_iff_mem]
    exact hkeys.mem_iff
  have hfield := h.field? key
  rw [compareKey, compareKey]
  simp only [MatchContext.config_inText, MatchContext.grammar_inText, h.kind, h.text, hcontains]
  generalize f.field? key = left at hfield ⊢
  generalize g.field? key = right at hfield ⊢
  cases hfield with
  | none => rfl
  | some hfield =>
      cases query.field? key with
      | none => rfl
      | some theirs => cases theirs <;> cases hfield <;> rfl

/-- Key by key, a query compares alike with nodes that are alike. -/
theorem compareFields_alike (h : f.Alike g) :
    (compareFields cx f query).Alike (compareFields (cx.inText source) g query) := by
  have hkeys : (countedKeys cx f query).Perm (countedKeys (cx.inText source) g query) :=
    countedKeys_perm source query h
  have hsettled : ∀ key, compareKey cx f query (countedKeys cx f query) key =
      compareKey (cx.inText source) g query (countedKeys (cx.inText source) g query) key :=
    compareKey_alike source query h hkeys
  rw [compareFields, compareFields]
  simp only [MatchContext.kinds_inText, h.kind, hkeys.length_eq, hsettled]
  by_cases hguard : (!cx.kinds.sameKind query.kind g.kind ||
      query.keys.length != (countedKeys (cx.inText source) g query).length) = true
  · simp only [hguard, if_true]
    exact Comparison.alike_closed f g false
  · simp only [hguard, Bool.false_eq_true, if_false]
    exact Comparison.alike_sameFields f g _ _

theorem comparePlain_alike (hgrammar : cx.grammar.IsStructural) (h : f.Alike g)
    (hb : b.Alike c) :
    Comparison.AlikeWith (comparePlain cx f query b)
      (comparePlain (cx.inText source) g query c) := by
  have hstring : cx.stringWildcard? f query = cx.stringWildcard? g query := by
    simp only [MatchContext.stringWildcard?, h.kind]
  have hfile : cx.isWholeFile f query = cx.isWholeFile g query := by
    simp only [MatchContext.isWholeFile, h.kind]
  have hsanitized : cx.sanitized f = cx.sanitized g := by
    simp only [MatchContext.sanitized, h.kind, h.text]
  rw [comparePlain, comparePlain, compareWildcard?_eq, compareWildcard?_eq]
  simp only [MatchContext.nameWildcard?_inText, MatchContext.stringWildcard?_inText,
    MatchContext.sanitized_inText, MatchContext.matchText?_inText,
    MatchContext.isAnyNumber_inText, MatchContext.isWholeFile_inText, MatchContext.kinds_inText,
    MatchContext.config_inText, MatchContext.grammar_inText, hstring, hfile, hsanitized, h.kind]
  cases cx.nameWildcard? query with
  | some name => exact compareIdentifier_alike source query h hb name
  | none =>
      cases cx.stringWildcard? g query with
      | some pattern =>
          have hmatch : Option.Rel Bindings.Alike
              (cx.matchText? pattern ((cx.sanitized g).getD "") .string b)
              (cx.matchText? pattern ((cx.sanitized g).getD "") .string c) :=
            hb.matchText? _ _ _ .string
          dsimp only
          generalize cx.matchText? pattern ((cx.sanitized g).getD "") .string b = left at hmatch ⊢
          generalize cx.matchText? pattern ((cx.sanitized g).getD "") .string c = right at hmatch ⊢
          cases hmatch with
          | none => exact ⟨Comparison.alike_closed f g false, hb⟩
          | some hmatch => exact ⟨Comparison.alike_closed f g true, hmatch⟩
      | none =>
          by_cases hany : cx.isAnyNumber query = true
          · simp only [hany, if_true]
            exact ⟨Comparison.alike_closed f g _, hb⟩
          simp only [hany, Bool.false_eq_true, if_false]
          by_cases hwhole : cx.isWholeFile g query = true
          · simp only [hwhole, if_true]
            exact ⟨Comparison.alike_sameFields f g true _, hb⟩
          simp only [hwhole, Bool.false_eq_true, if_false]
          obtain ⟨hverdict, hafter⟩ := Rule.first?_alike hgrammar.rulesAfter cx.config query h hb
          generalize Rule.first? cx.config f query cx.grammar.rulesAfter b = left
            at hverdict hafter ⊢
          generalize Rule.first? cx.config g query cx.grammar.rulesAfter c = right
            at hverdict hafter ⊢
          obtain ⟨verdict, b⟩ := left
          obtain ⟨_, c⟩ := right
          obtain rfl : verdict = _ := hverdict
          cases verdict with
          | some verdict => exact ⟨Comparison.alike_ofVerdict f g verdict, hafter⟩
          | none => exact ⟨compareFields_alike source query h, hafter⟩

/-- **A query compares alike with nodes that are alike.** -/
theorem compare_alike (hgrammar : cx.grammar.IsStructural) (h : f.Alike g) (hb : b.Alike c) :
    Comparison.AlikeWith (compare cx f query b) (compare (cx.inText source) g query c) := by
  induction f using Node.offspring_induction generalizing g b c with
  | step f ih =>
      obtain ⟨hverdict, hafter⟩ := Rule.first?_alike hgrammar.rulesBefore cx.config query h hb
      have hvalue : valueField? (cx.inText source) g.kind query = valueField? cx f.kind query := by
        rw [h.kind]
        rfl
      rw [compare_eq, compare_eq, hvalue]
      simp only [MatchContext.config_inText, MatchContext.grammar_inText]
      generalize Rule.first? cx.config f query cx.grammar.rulesBefore b = left
        at hverdict hafter ⊢
      generalize Rule.first? cx.config g query cx.grammar.rulesBefore c = right
        at hverdict hafter ⊢
      obtain ⟨verdict, b⟩ := left
      obtain ⟨_, c⟩ := right
      obtain rfl : verdict = _ := hverdict
      cases verdict with
      | some verdict => exact ⟨Comparison.alike_ofVerdict f g verdict, hafter⟩
      | none =>
          cases valueField? cx f.kind query with
          | none => exact comparePlain_alike source query hgrammar h hafter
          | some name =>
              have hchild := h.child? name
              dsimp only
              generalize hleft : f.child? name = left at hchild ⊢
              generalize g.child? name = right at hchild ⊢
              cases hchild with
              | none => exact ⟨⟨rfl, rfl, rfl⟩, hafter⟩
              | some hchild =>
                  obtain ⟨⟨hagrees, hqueryKeys, hfileKeys⟩, hinner⟩ :=
                    ih _ (Node.mem_offspring_of_child? hleft) hchild hafter
                  exact ⟨⟨hagrees, hqueryKeys, congrArg (List.map (name :: ·)) hfileKeys⟩, hinner⟩

end Comparing

/-! ## Matching at every depth -/

/-- Two validations have one verdict, met as many violations and end with bindings that are
alike. -/
structure Validation.Alike (left right : Validation) : Prop where
  agrees : left.agrees = right.agrees
  violations : left.violations = right.violations
  bindings : left.bindings.Alike right.bindings

/-- What is alike, in whatever texts it stands, is searched in lockstep. -/
theorem Grammar.IsStructural.lockstep {cx : MatchContext} (hgrammar : cx.grammar.IsStructural)
    (source : String) :
    Lockstep cx (cx.inText source) Bindings.Alike Node.Alike Eq where
  mode := rfl
  compare {_ _ q _ _ _} h hquery hb := hquery ▸ compare_alike source q hgrammar h hb
  file h path := h.resolve path
  query {q _} hquery path := by
    obtain rfl := hquery
    cases q.resolve path with
    | none => exact .none
    | some field => exact .some (.refl (fun _ => rfl) field)
  fileComparable h := hgrammar.comparable _ _ h
  queryComparable hquery := congrArg cx.grammar.isComparable hquery
  rank hquery := congrArg (Specificity.ofNode cx) hquery

/-- **A query matches alike what is alike.** From bindings that are alike it has one verdict on two
trees that are alike, and ends with bindings that are alike, in whatever texts the trees stand. -/
theorem validate_alike {cx : MatchContext} {source : String} (hgrammar : cx.grammar.IsStructural)
    (query : Node) {f g : Node} {b c : Bindings} (h : f.Alike g) (hb : b.Alike c) :
    (validate cx f query b).Alike (validate (cx.inText source) g query c) := by
  obtain ⟨hagrees, hviolations, hbindings⟩ :=
    (hgrammar.lockstep source).validate (q := query) rfl h hb
  exact ⟨hagrees, hviolations, hbindings⟩

end CodeSearch

import CodeSearch.Bindings
import CodeSearch.Grammar
import Mathlib.Data.List.Nodup
import Mathlib.Logic.Relation

/-!
# Bindings only grow

While a query is matched, bindings change in two ways only: a pattern is matched with a text, or
a node-tree alias with a subtree. Either **step** leaves all that was bound as it was, and makes
the bindings agree with what it matched. So whatever an early step matched still agrees with the
bindings at the end.
-/

set_option autoImplicit false

namespace CodeSearch

/-! ## Texts that agree -/

@[simp] theorem Text.sameText_false {left right : String} :
    Text.sameText false left right = true ↔ left = right := by
  simp [Text.sameText]

theorem Text.sameText_iff {left right : String} :
    Text.sameText true left right = true ↔
      Text.lowercase left.toList = Text.lowercase right.toList := by
  simp [Text.sameText]

theorem Text.sameText_refl (ignoreCase : Bool) (text : String) :
    Text.sameText ignoreCase text text = true := by
  cases ignoreCase with
  | false => exact Text.sameText_false.2 rfl
  | true => exact Text.sameText_iff.2 rfl

namespace Bindings

/-! ## What aliases stand for -/

/-- The text that an identifier or string alias stands for. -/
def text? (b : Bindings) (aliasName : String) : Option String :=
  (b.textual? aliasName).map Binding.value

/-- The subtree that a node-tree alias stands for. -/
def tree? (b : Bindings) (aliasName : String) : Option Node :=
  (b.nodeTree.lookup aliasName).bind Binding.node

/-- Whatever an alias stands for in the first bindings it stands for in the second. -/
structure Keeps (b c : Bindings) : Prop where
  text : ∀ aliasName value, b.text? aliasName = some value → c.text? aliasName = some value
  tree : ∀ aliasName node, b.tree? aliasName = some node → c.tree? aliasName = some node

theorem Keeps.refl (b : Bindings) : b.Keeps b := ⟨fun _ _ h => h, fun _ _ h => h⟩

theorem Keeps.trans {b c d : Bindings} (hbc : b.Keeps c) (hcd : c.Keeps d) : b.Keeps d :=
  ⟨fun _ _ h => hcd.text _ _ (hbc.text _ _ h), fun _ _ h => hcd.tree _ _ (hbc.tree _ _ h)⟩

/-- The bindings hold a text for every capture, the same up to letter case if that is ignored. -/
def Hold (b : Bindings) (ignoreCase : Bool) (captures : List Capture) : Prop :=
  ∀ capture ∈ captures, ∃ bound, b.text? capture.aliasName = some bound ∧
    Text.sameText ignoreCase bound capture.text = true

theorem Keeps.hold {b c : Bindings} (h : b.Keeps c) {ignoreCase : Bool} {captures : List Capture}
    (hb : b.Hold ignoreCase captures) : c.Hold ignoreCase captures := by
  intro capture hcapture
  obtain ⟨bound, hbound, hsame⟩ := hb capture hcapture
  exact ⟨bound, h.text _ _ hbound, hsame⟩

/-! ## Binding texts -/

theorem text?_bind {b : Bindings} {kind : WildcardKind} {aliasName other text : String}
    (hkind : kind ≠ .nodeTree) (hfree : b.text? aliasName = none) :
    (b.bind kind aliasName ⟨text, none⟩).text? other =
      if other = aliasName then some text else b.text? other := by
  have hnone : b.identifier.lookup aliasName = none ∧ b.string.lookup aliasName = none := by
    simpa [text?, textual?] using hfree
  cases kind with
  | identifier =>
      simp only [text?, textual?, bind, AliasMap.lookup_insert]
      by_cases h : other = aliasName
      · simp [h]
      · simp [h]
  | string =>
      simp only [text?, textual?, bind, AliasMap.lookup_insert]
      by_cases h : other = aliasName
      · subst h
        simp [hnone.1]
      · simp [h]
  | nodeTree => exact absurd rfl hkind

theorem tree?_bind {b : Bindings} {kind : WildcardKind} {aliasName other : String}
    {binding : Binding} (hkind : kind ≠ .nodeTree) :
    (b.bind kind aliasName binding).tree? other = b.tree? other := by
  cases kind with
  | identifier => rfl
  | string => rfl
  | nodeTree => exact absurd rfl hkind

/-- Other aliases that stand for nothing still do when a text is bound. -/
theorem new_bind {b : Bindings} {kind : WildcardKind} (hkind : kind ≠ .nodeTree)
    {aliasName : String} (hfree : b.text? aliasName = none) (text : String)
    {texts : List (String × String)} (hnew : ∀ entry ∈ texts, b.text? entry.1 = none)
    (hother : aliasName ∉ texts.map Prod.fst) :
    ∀ entry ∈ texts, (b.bind kind aliasName ⟨text, none⟩).text? entry.1 = none := by
  intro entry hentry
  have hne : entry.1 ≠ aliasName := by
    rintro rfl
    exact hother (List.mem_map.2 ⟨entry, hentry, rfl⟩)
  rw [text?_bind hkind hfree, if_neg hne]
  exact hnew entry hentry

/-- Texts bound under new aliases are found under them, and nothing else changes. -/
theorem text?_bindTexts {kind : WildcardKind} (hkind : kind ≠ .nodeTree)
    {texts : List (String × String)} {b : Bindings} {other : String}
    (hnew : ∀ entry ∈ texts, b.text? entry.1 = none) (hdistinct : (texts.map Prod.fst).Nodup) :
    (b.bindTexts kind texts).text? other = (texts.lookup other).or (b.text? other) := by
  induction texts generalizing b with
  | nil => simp [bindTexts]
  | cons entry rest ih =>
      obtain ⟨aliasName, text⟩ := entry
      rw [List.map_cons, List.nodup_cons] at hdistinct
      have hfree : b.text? aliasName = none := hnew _ List.mem_cons_self
      have hlater : ∀ e ∈ rest, b.text? e.1 = none := fun e he =>
        hnew e (List.mem_cons_of_mem _ he)
      have hlast := ih (new_bind hkind hfree text hlater hdistinct.1) hdistinct.2
      rw [bindTexts, List.foldl_cons]
      rw [bindTexts] at hlast
      rw [hlast, text?_bind hkind hfree, List.lookup_cons]
      -- the name bound first is not among the later ones, which would else overwrite it
      by_cases h : other = aliasName
      · subst h
        have hlookup : rest.lookup other = none := by
          rw [List.lookup_eq_none_iff]
          intro e he
          rw [bne_iff_ne]
          rintro rfl
          exact hdistinct.1 (List.mem_map.2 ⟨e, he, rfl⟩)
        simp [hlookup]
      · have hne : (other == aliasName) = false := beq_false_of_ne h
        simp [hne, h]

theorem tree?_bindTexts {kind : WildcardKind} (hkind : kind ≠ .nodeTree)
    {texts : List (String × String)} {b : Bindings} {other : String} :
    (b.bindTexts kind texts).tree? other = b.tree? other := by
  induction texts generalizing b with
  | nil => rfl
  | cons entry rest ih =>
      have hlast := ih (b := b.bind kind entry.1 ⟨entry.2, none⟩)
      rw [tree?_bind hkind] at hlast
      exact hlast

theorem fresh?_cons (b : Bindings) (ignoreCase : Bool) (capture : Capture) (rest : List Capture)
    (found : List (String × String)) :
    b.fresh? ignoreCase (capture :: rest) found =
      match (b.text? capture.aliasName).or (found.lookup capture.aliasName) with
      | some bound =>
          if Text.sameText ignoreCase bound capture.text then b.fresh? ignoreCase rest found
          else none
      | none => b.fresh? ignoreCase rest (found ++ [(capture.aliasName, capture.text)]) := rfl

theorem lookup_eq_none_of_new {b : Bindings} {entries : List (String × String)}
    (hnew : ∀ entry ∈ entries, b.text? entry.1 = none) {aliasName text : String}
    (h : b.text? aliasName = some text) : entries.lookup aliasName = none := by
  rw [List.lookup_eq_none_iff]
  intro entry hentry
  rw [bne_iff_ne]
  rintro rfl
  rw [hnew entry hentry] at h
  exact absurd h (by simp)

/-- A text of an alias that neither stands for anything nor is found yet joins what is found: all of
it is new and of different aliases. -/
theorem new_concat {b : Bindings} {found : List (String × String)}
    (hnew : ∀ entry ∈ found, b.text? entry.1 = none) (hdistinct : (found.map Prod.fst).Nodup)
    {name : String} (text : String) (hfree : b.text? name = none)
    (hlookup : found.lookup name = none) :
    (∀ entry ∈ found ++ [(name, text)], b.text? entry.1 = none) ∧
      ((found ++ [(name, text)]).map Prod.fst).Nodup := by
  have hname : name ∉ found.map Prod.fst := by
    intro hmem
    obtain ⟨entry, hentry, heq⟩ := List.mem_map.1 hmem
    have hne := List.lookup_eq_none_iff.1 hlookup entry hentry
    simp [heq] at hne
  refine ⟨fun entry hentry => ?_, ?_⟩
  · rcases List.mem_append.1 hentry with hentry | hentry
    · exact hnew entry hentry
    · rw [List.mem_singleton.1 hentry]
      exact hfree
  · rw [List.map_append, List.nodup_append]
    refine ⟨hdistinct, List.nodup_singleton _, ?_⟩
    rintro other hmem _ hlast rfl
    obtain rfl := List.mem_singleton.1 hlast
    exact hname hmem

/-- What is found to be new: texts of aliases that stand for nothing yet, each once. With the
bindings they agree with all captures. -/
theorem fresh?_eq_some {b : Bindings} {ignoreCase : Bool} {captures : List Capture}
    {found fresh : List (String × String)} (h : b.fresh? ignoreCase captures found = some fresh)
    (hnew : ∀ entry ∈ found, b.text? entry.1 = none) (hdistinct : (found.map Prod.fst).Nodup) :
    (∀ entry ∈ fresh, b.text? entry.1 = none) ∧ (fresh.map Prod.fst).Nodup ∧
      (∀ aliasName text, found.lookup aliasName = some text → fresh.lookup aliasName = some text) ∧
      ∀ capture ∈ captures, ∃ bound,
        (fresh.lookup capture.aliasName).or (b.text? capture.aliasName) = some bound ∧
          Text.sameText ignoreCase bound capture.text = true := by
  induction captures generalizing found with
  | nil =>
      obtain rfl : found = fresh := by simpa [fresh?] using h
      exact ⟨hnew, hdistinct, fun _ _ hlookup => hlookup, by simp⟩
  | cons capture rest ih =>
      rw [fresh?_cons] at h
      cases hbound : (b.text? capture.aliasName).or (found.lookup capture.aliasName) with
      | none =>
          rw [hbound] at h
          obtain ⟨hfree, hlookup⟩ := Option.or_eq_none_iff.1 hbound
          -- a new capture joins what is found, so that it has to be new there as well
          obtain ⟨hnew', hdistinct'⟩ := new_concat hnew hdistinct capture.text hfree hlookup
          obtain ⟨hfresh, hnodup, hkept, hrest⟩ := ih h hnew' hdistinct'
          have hself : fresh.lookup capture.aliasName = some capture.text := by
            refine hkept _ _ ?_
            rw [List.lookup_append, hlookup]
            simp
          refine ⟨hfresh, hnodup, fun aliasName text hfound => hkept _ _ ?_, ?_⟩
          · rw [List.lookup_append, hfound]
            rfl
          · refine List.forall_mem_cons.2 ⟨⟨capture.text, ?_, Text.sameText_refl _ _⟩, hrest⟩
            rw [hself]
            rfl
      | some bound =>
          simp only [hbound] at h
          split at h
          next hsame =>
            -- a capture that is found or bound already is checked and adds nothing
            obtain ⟨hfresh, hnodup, hkept, hrest⟩ := ih h hnew hdistinct
            refine ⟨hfresh, hnodup, hkept, List.forall_mem_cons.2 ⟨⟨bound, ?_, hsame⟩, hrest⟩⟩
            cases htext : b.text? capture.aliasName with
            | none =>
                rw [htext, Option.none_or] at hbound
                rw [hkept _ _ hbound]
                rfl
            | some text =>
                rw [htext, Option.some_or] at hbound
                rw [lookup_eq_none_of_new hfresh htext, Option.none_or]
                exact hbound
          next => simp at h

/-- A pattern that matches keeps what was bound, and its captures agree with the bindings. -/
theorem matchText?_eq_some {b c : Bindings} {ignoreCase : Bool} {pattern : Pattern}
    {value : String} {kind : WildcardKind} (hkind : kind ≠ .nodeTree)
    (h : b.matchText? ignoreCase pattern value kind = some c) :
    b.Keeps c ∧ (∀ aliasName, c.tree? aliasName = b.tree? aliasName) ∧
      ∃ captures, pattern.captures? ignoreCase value = some captures ∧
        c.Hold ignoreCase captures := by
  obtain ⟨captures, hcaptures, h⟩ := Option.bind_eq_some_iff.1 h
  obtain ⟨fresh, hfresh, h⟩ := Option.bind_eq_some_iff.1 h
  obtain rfl : b.bindTexts kind fresh = c := Option.some.inj h
  obtain ⟨hnew, hdistinct, -, hagree⟩ := fresh?_eq_some hfresh (by simp) (by simp)
  have htext : ∀ aliasName, (b.bindTexts kind fresh).text? aliasName =
      (fresh.lookup aliasName).or (b.text? aliasName) :=
    fun _ => text?_bindTexts hkind hnew hdistinct
  have htree : ∀ aliasName, (b.bindTexts kind fresh).tree? aliasName = b.tree? aliasName :=
    fun _ => tree?_bindTexts hkind
  refine ⟨⟨fun aliasName value hvalue => ?_, fun aliasName node hnode => ?_⟩, htree,
    captures, hcaptures, fun capture hcapture => ?_⟩
  · rw [htext, lookup_eq_none_of_new hnew hvalue, Option.none_or]
    exact hvalue
  · rw [htree]
    exact hnode
  · rw [htext]
    exact hagree capture hcapture

/-! ## Binding subtrees -/

/-- A subtree that agrees with its alias keeps what was bound, and the alias then stands for that
subtree or for one that is structurally equal to it. -/
theorem matchNode?_eq_some {b c : Bindings} {aliasName code : String} {node : Node}
    (h : b.matchNode? aliasName code node = some c) :
    b.Keeps c ∧ (∀ other bound, c.tree? other = some bound →
        b.tree? other = some bound ∨ bound = node) ∧
      ∃ bound, c.tree? aliasName = some bound ∧ (bound = node ∨ bound.structEq node = true) := by
  unfold matchNode? at h
  cases hbound : (b.nodeTree.lookup aliasName).bind Binding.node with
  | some bound =>
      -- the alias is bound, and the subtree is compared with what it is bound to
      simp only [hbound] at h
      split at h
      next heq =>
        obtain rfl := Option.some.inj h
        exact ⟨Keeps.refl b, fun _ _ hother => Or.inl hother, bound, hbound, Or.inr heq⟩
      next => simp at h
  | none =>
      simp only [hbound] at h
      obtain rfl := Option.some.inj h
      have htree : ∀ other, (b.bind .nodeTree aliasName ⟨code, some node⟩).tree? other =
          if other = aliasName then some node else b.tree? other := by
        intro other
        simp only [tree?, bind, AliasMap.lookup_insert]
        by_cases hother : other = aliasName
        · simp [hother]
        · simp [hother]
      refine ⟨⟨fun _ _ hvalue => hvalue, fun other bound hold => ?_⟩, fun other bound hnew => ?_,
        node, ?_, Or.inl rfl⟩
      · rw [htree, if_neg]
        · exact hold
        · rintro rfl
          exact absurd (hbound.symm.trans hold) (by simp)
      · rw [htree] at hnew
        split at hnew
        next => exact Or.inr (Option.some.inj hnew).symm
        next => exact Or.inl hnew
      · rw [htree, if_pos rfl]

/-! ## Steps -/

/-- A step that extends bindings: a pattern is matched with a text, or a node-tree alias with a
subtree of the given sort. -/
inductive Step (IsSubtree : Node → Prop) (b c : Bindings) : Prop
  | text (ignoreCase : Bool) (pattern : Pattern) (value : String) (kind : WildcardKind)
      (hkind : kind ≠ .nodeTree) (h : b.matchText? ignoreCase pattern value kind = some c)
  | subtree (aliasName code : String) (node : Node) (hnode : IsSubtree node)
      (h : b.matchNode? aliasName code node = some c)

/-- The second bindings are made of the first step by step. -/
def Extends (IsSubtree : Node → Prop) : Bindings → Bindings → Prop :=
  Relation.ReflTransGen (Step IsSubtree)

/-- All subtrees that aliases stand for are of some sort. -/
def TreesAmong (b : Bindings) (IsSubtree : Node → Prop) : Prop :=
  ∀ aliasName node, b.tree? aliasName = some node → IsSubtree node

section

variable {P Q : Node → Prop} {b c d : Bindings}

theorem Step.keeps (h : Step P b c) : b.Keeps c := by
  cases h with
  | text ignoreCase pattern value kind hkind h => exact (matchText?_eq_some hkind h).1
  | subtree aliasName code node hnode h => exact (matchNode?_eq_some h).1

theorem Step.treesAmong (h : Step P b c) (hb : b.TreesAmong P) : c.TreesAmong P := by
  cases h with
  | text ignoreCase pattern value kind hkind h =>
      obtain ⟨-, htree, -⟩ := matchText?_eq_some hkind h
      intro aliasName node hnode
      rw [htree] at hnode
      exact hb aliasName node hnode
  | subtree aliasName code node hnode h =>
      obtain ⟨-, hnew, -⟩ := matchNode?_eq_some h
      intro other bound hbound
      rcases hnew other bound hbound with hold | rfl
      · exact hb other bound hold
      · exact hnode

theorem Step.mono (hPQ : ∀ n, P n → Q n) (h : Step P b c) : Step Q b c := by
  cases h with
  | text ignoreCase pattern value kind hkind h =>
      exact Step.text ignoreCase pattern value kind hkind h
  | subtree aliasName code node hnode h =>
      exact Step.subtree aliasName code node (hPQ node hnode) h

theorem Extends.refl : Extends P b b := Relation.ReflTransGen.refl

theorem Extends.trans (hbc : Extends P b c) (hcd : Extends P c d) : Extends P b d :=
  Relation.ReflTransGen.trans hbc hcd

theorem Extends.mono (hPQ : ∀ n, P n → Q n) (h : Extends P b c) : Extends Q b c :=
  Relation.ReflTransGen.mono (fun _ _ => Step.mono hPQ) _ _ h

/-- Whatever was bound stays bound to the same. -/
theorem Extends.keeps (h : Extends P b c) : b.Keeps c := by
  induction h with
  | refl => exact Keeps.refl b
  | tail _ hstep ih => exact ih.trans hstep.keeps

theorem Extends.treesAmong (h : Extends P b c) (hb : b.TreesAmong P) : c.TreesAmong P := by
  induction h with
  | refl => exact hb
  | tail _ hstep ih => exact hstep.treesAmong ih

/-- Matching a text extends the bindings. -/
theorem extends_of_matchText? {ignoreCase : Bool} {pattern : Pattern} {value : String}
    {kind : WildcardKind} (hkind : kind ≠ .nodeTree)
    (h : b.matchText? ignoreCase pattern value kind = some c) : Extends P b c :=
  Relation.ReflTransGen.single (Step.text ignoreCase pattern value kind hkind h)

end

theorem empty_treesAmong (P : Node → Prop) : empty.TreesAmong P := by
  intro aliasName node h
  simp [tree?, empty] at h

end Bindings

/-- The rule binds nothing but texts, whatever it is given. -/
def Rule.BindsTexts (rule : Rule) : Prop :=
  ∀ config file query b, Bindings.Extends (fun _ => False) b (rule config file query b).2

/-- The rules of the grammar bind nothing but texts. -/
def Grammar.BindsTexts (grammar : Grammar) : Prop :=
  ∀ rule ∈ grammar.rulesBefore ++ grammar.rulesAfter, rule.BindsTexts

theorem Grammar.bindsTexts_of_noRules {grammar : Grammar} (hbefore : grammar.rulesBefore = [])
    (hafter : grammar.rulesAfter = []) : grammar.BindsTexts := by
  intro rule hrule
  simp [hbefore, hafter] at hrule

theorem Rule.first?_extends {rules : List Rule} (hrules : ∀ rule ∈ rules, rule.BindsTexts)
    (config : MatchSettings) (file query : Node) (b : Bindings) :
    Bindings.Extends (fun _ => False) b (Rule.first? config file query rules b).2 := by
  induction rules generalizing b with
  | nil => exact Bindings.Extends.refl
  | cons rule rest ih =>
      have hhead := hrules rule List.mem_cons_self config file query b
      rw [Rule.first?]
      split
      next verdict c heq =>
        rw [heq] at hhead
        exact hhead
      next c heq =>
        rw [heq] at hhead
        exact hhead.trans (ih (fun r hr => hrules r (List.mem_cons_of_mem _ hr)) c)

end CodeSearch

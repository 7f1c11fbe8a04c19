import CodeSearch.Proofs.Attempts

/-!
# The aliases of a query

Matching reads the bindings of the aliases in the query, and binds no others. So bindings that
agree on these aliases lead to the same verdict and to bindings that agree on them again, and all
other aliases stay as they were.

Aliases of texts and aliases of subtrees have a name space each, so an alias is a name and the
name space that it is looked up in.
-/

set_option autoImplicit false

namespace CodeSearch

/-- An alias: of a text, or of a subtree. -/
inductive Alias where
  | text (name : String)
  | tree (name : String)
  deriving DecidableEq, Repr

namespace Bindings

/-- An alias stands for the same in both bindings, or for nothing in both. -/
def SameAt (b c : Bindings) : Alias → Prop
  | .text name => b.text? name = c.text? name
  | .tree name => b.tree? name = c.tree? name

/-- Some aliases stand for the same in both bindings. -/
def SameOn (b c : Bindings) (aliases : List Alias) : Prop := ∀ a ∈ aliases, b.SameAt c a

/-- An alias stands for nothing. -/
def Unbound (b : Bindings) : Alias → Prop
  | .text name => b.text? name = none
  | .tree name => b.tree? name = none

section

variable {b c d : Bindings} {a : Alias} {aliases others : List Alias}

theorem SameAt.refl (b : Bindings) (a : Alias) : b.SameAt b a := by cases a <;> rfl

theorem SameAt.symm (h : b.SameAt c a) : c.SameAt b a := by
  cases a with
  | text name => exact Eq.symm h
  | tree name => exact Eq.symm h

theorem SameAt.trans (hbc : b.SameAt c a) (hcd : c.SameAt d a) : b.SameAt d a := by
  cases a with
  | text name => exact Eq.trans hbc hcd
  | tree name => exact Eq.trans hbc hcd

theorem SameOn.refl (b : Bindings) (aliases : List Alias) : b.SameOn b aliases :=
  fun a _ => SameAt.refl b a

theorem SameOn.symm (h : b.SameOn c aliases) : c.SameOn b aliases := fun a ha => (h a ha).symm

theorem SameOn.trans (hbc : b.SameOn c aliases) (hcd : c.SameOn d aliases) : b.SameOn d aliases :=
  fun a ha => (hbc a ha).trans (hcd a ha)

theorem SameOn.subset (h : b.SameOn c aliases) (hsubset : others ⊆ aliases) :
    b.SameOn c others :=
  fun a ha => h a (hsubset ha)

theorem SameAt.unbound (h : b.SameAt c a) (hb : b.Unbound a) : c.Unbound a := by
  cases a with
  | text name => exact (Eq.symm h).trans hb
  | tree name => exact (Eq.symm h).trans hb

theorem unbound_empty (a : Alias) : empty.Unbound a := by cases a <;> rfl

/-- What stands for nothing in the end did so from the beginning. -/
theorem Keeps.unbound (h : b.Keeps c) (hc : c.Unbound a) : b.Unbound a := by
  cases a with
  | text name =>
      by_contra hb
      obtain ⟨text, htext⟩ := Option.ne_none_iff_exists'.1 hb
      rw [Unbound, h.text _ _ htext] at hc
      simp at hc
  | tree name =>
      by_contra hb
      obtain ⟨node, hnode⟩ := Option.ne_none_iff_exists'.1 hb
      rw [Unbound, h.tree _ _ hnode] at hc
      simp at hc

/-- What stands for something goes on standing for it. -/
theorem Keeps.sameAt (h : b.Keeps c) (hb : ¬ b.Unbound a) : b.SameAt c a := by
  cases a with
  | text name =>
      obtain ⟨text, htext⟩ := Option.ne_none_iff_exists'.1 hb
      exact htext.trans (h.text _ _ htext).symm
  | tree name =>
      obtain ⟨node, hnode⟩ := Option.ne_none_iff_exists'.1 hb
      exact hnode.trans (h.tree _ _ hnode).symm

end

end Bindings

/-- A step that starts from bindings is **local** to some aliases: its result depends on these
alone, and it leaves all others as they are. -/
structure Local {α : Type} (aliases : List Alias) (run : Bindings → α × Bindings) : Prop where
  same : ∀ b c : Bindings, b.SameOn c aliases →
    (run b).1 = (run c).1 ∧ (run b).2.SameOn (run c).2 aliases
  frame : ∀ (b : Bindings) (a : Alias), a ∉ aliases → b.SameAt (run b).2 a

namespace Local

variable {α : Type} {aliases others : List Alias} {run : Bindings → α × Bindings}

/-- Whatever bindings agree on beyond the aliases of a step, they agree on after it. -/
theorem mono (h : Local aliases run) (hsubset : aliases ⊆ others) : Local others run where
  same := by
    intro b c hsame
    obtain ⟨hresult, hafter⟩ := h.same b c (hsame.subset hsubset)
    refine ⟨hresult, fun a ha => ?_⟩
    by_cases hmem : a ∈ aliases
    · exact hafter a hmem
    · exact ((h.frame b a hmem).symm.trans (hsame a ha)).trans (h.frame c a hmem)
  frame b a ha := h.frame b a fun hmem => ha (hsubset hmem)

/-- A step that binds nothing is local to any aliases. -/
theorem of_constant (aliases : List Alias) (result : α) :
    Local aliases fun b => (result, b) where
  same _ _ hsame := ⟨rfl, hsame⟩
  frame b a _ := Bindings.SameAt.refl b a

/-- What a step finds may be read in another way. -/
theorem map {β : Type} (h : Local aliases run) (f : α → β) :
    Local aliases fun b => (f (run b).1, (run b).2) where
  same b c hsame := by
    obtain ⟨hresult, hafter⟩ := h.same b c hsame
    exact ⟨congrArg f hresult, hafter⟩
  frame := h.frame

/-- One step after another, chosen by what the first one finds. -/
theorem bind {β : Type} {next : α → Bindings → β × Bindings} (h : Local aliases run)
    (hnext : ∀ b, Local aliases (next (run b).1)) :
    Local aliases fun b => next (run b).1 (run b).2 where
  same := by
    intro b c hsame
    obtain ⟨hresult, hafter⟩ := h.same b c hsame
    rw [hresult]
    exact (hnext _).same _ _ hafter
  frame b a ha := (h.frame b a ha).trans ((hnext _).frame _ a ha)

end Local

/-! ## Matching texts and subtrees -/

namespace Pattern

/-- The names of the aliases in a pattern. -/
def aliasNames (p : Pattern) : List String :=
  p.gaps.filterMap fun gap => gap.aliasName.map String.ofList

theorem aliasName_mem_of_capturesFrom {gaps : List Gap} {index : Nat}
    {fillers : List (List Char)} {capture : Capture}
    (h : capture ∈ capturesFrom index gaps fillers) :
    ∃ gap ∈ gaps, gap.aliasName.map String.ofList = some capture.aliasName := by
  induction gaps generalizing index fillers with
  | nil => simp [capturesFrom] at h
  | cons gap rest ih =>
      cases fillers with
      | nil => simp [capturesFrom] at h
      | cons filler fillers =>
          have hlater : capture ∈ capturesFrom (index + 1) rest fillers →
              ∃ gap' ∈ gap :: rest, gap'.aliasName.map String.ofList = some capture.aliasName := by
            intro hmem
            obtain ⟨gap', hgap, hname⟩ := ih hmem
            exact ⟨gap', List.mem_cons_of_mem _ hgap, hname⟩
          rw [capturesFrom] at h
          cases hname : gap.aliasName with
          | none =>
              rw [hname] at h
              exact hlater h
          | some name =>
              rw [hname] at h
              rcases List.mem_cons.1 h with rfl | h
              · exact ⟨gap, List.mem_cons_self, by rw [hname]; rfl⟩
              · exact hlater h

/-- Whatever is captured belongs to an alias of the pattern. -/
theorem aliasName_mem_of_captures? {p : Pattern} {ignoreCase : Bool} {value : String}
    {captures : List Capture} (h : p.captures? ignoreCase value = some captures)
    {capture : Capture} (hcapture : capture ∈ captures) : capture.aliasName ∈ p.aliasNames := by
  obtain ⟨fillers, -, rfl⟩ := Option.map_eq_some_iff.1 h
  exact List.mem_filterMap.2 (aliasName_mem_of_capturesFrom hcapture)

end Pattern

namespace Bindings

section

variable {b c : Bindings} {ignoreCase : Bool}

/-- What is new depends on the aliases of the captures. -/
theorem fresh?_congr {captures : List Capture}
    (h : ∀ capture ∈ captures, b.text? capture.aliasName = c.text? capture.aliasName)
    (found : List (String × String)) :
    b.fresh? ignoreCase captures found = c.fresh? ignoreCase captures found := by
  induction captures generalizing found with
  | nil => rfl
  | cons capture rest ih =>
      obtain ⟨hhead, hrest⟩ := List.forall_mem_cons.1 h
      rw [fresh?_cons, fresh?_cons, hhead]
      split
      next => rw [ih hrest]
      next => exact ih hrest _

/-- Whatever is new belongs to a capture. -/
theorem aliasName_mem_of_fresh? {captures : List Capture} {found fresh : List (String × String)}
    (h : b.fresh? ignoreCase captures found = some fresh) {entry : String × String}
    (hentry : entry ∈ fresh) :
    entry ∈ found ∨ ∃ capture ∈ captures, capture.aliasName = entry.1 := by
  induction captures generalizing found with
  | nil =>
      obtain rfl : found = fresh := by simpa [fresh?] using h
      exact Or.inl hentry
  | cons capture rest ih =>
      have hlater : (∃ later ∈ rest, later.aliasName = entry.1) →
          ∃ capture' ∈ capture :: rest, capture'.aliasName = entry.1 := by
        rintro ⟨later, hmem, hname⟩
        exact ⟨later, List.mem_cons_of_mem _ hmem, hname⟩
      rw [fresh?_cons] at h
      split at h
      next =>
        split at h
        next => exact (ih h).imp_right hlater
        next => simp at h
      next =>
        rcases ih h with hfound | hmem
        · rcases List.mem_append.1 hfound with hold | hnew
          · exact Or.inl hold
          · rw [List.mem_singleton.1 hnew]
            exact Or.inr ⟨capture, List.mem_cons_self, rfl⟩
        · exact Or.inr (hlater hmem)

/-- What aliases stand for once a pattern has matched: a new capture, or what they stood for. -/
theorem text?_matchText? {pattern : Pattern} {value : String} {kind : WildcardKind}
    (hkind : kind ≠ .nodeTree) {captures : List Capture} {fresh : List (String × String)}
    (hcaptures : pattern.captures? ignoreCase value = some captures)
    (hfresh : b.fresh? ignoreCase captures [] = some fresh) :
    b.matchText? ignoreCase pattern value kind = some (b.bindTexts kind fresh) ∧
      ∀ name, (b.bindTexts kind fresh).text? name = (fresh.lookup name).or (b.text? name) := by
  obtain ⟨hnew, hdistinct, -, -⟩ := fresh?_eq_some hfresh (by simp) (by simp)
  refine ⟨?_, fun name => text?_bindTexts hkind hnew hdistinct⟩
  rw [matchText?, hcaptures, Option.bind_eq_bind, Option.bind_some, Option.bind_eq_bind, hfresh]
  rfl

/-- Matching a text is local to the aliases of the pattern. -/
theorem matchText?_local (ignoreCase : Bool) (pattern : Pattern) (value : String)
    {kind : WildcardKind} (hkind : kind ≠ .nodeTree) :
    Local (pattern.aliasNames.map .text) fun b =>
      ((b.matchText? ignoreCase pattern value kind).isSome,
        (b.matchText? ignoreCase pattern value kind).getD b) := by
  cases hcaptures : pattern.captures? ignoreCase value with
  | none =>
      have hnone : ∀ b : Bindings, b.matchText? ignoreCase pattern value kind = none := by
        intro b
        rw [matchText?, hcaptures]
        rfl
      simp only [hnone]
      exact Local.of_constant _ _
  | some captures =>
      have hname : ∀ capture ∈ captures, capture.aliasName ∈ pattern.aliasNames :=
        fun _ => Pattern.aliasName_mem_of_captures? hcaptures
      have hnone : ∀ b : Bindings, b.fresh? ignoreCase captures [] = none →
          b.matchText? ignoreCase pattern value kind = none := by
        intro b hfresh
        rw [matchText?, hcaptures, Option.bind_eq_bind, Option.bind_some, Option.bind_eq_bind,
          hfresh]
        rfl
      refine ⟨fun b c hsame => ?_, fun b a ha => ?_⟩
      · have hsame' : ∀ name ∈ pattern.aliasNames, b.text? name = c.text? name := fun name hmem =>
          hsame (.text name) (List.mem_map.2 ⟨name, hmem, rfl⟩)
        have hcongr : b.fresh? ignoreCase captures [] = c.fresh? ignoreCase captures [] :=
          fresh?_congr (fun capture hcapture => hsame' _ (hname capture hcapture)) []
        cases hfresh : b.fresh? ignoreCase captures [] with
        | none =>
            simp only [hnone b hfresh, hnone c (hcongr ▸ hfresh)]
            exact ⟨trivial, hsame⟩
        | some fresh =>
            obtain ⟨hb, htextb⟩ := text?_matchText? hkind hcaptures hfresh
            obtain ⟨hc, htextc⟩ := text?_matchText? hkind hcaptures (hcongr ▸ hfresh)
            simp only [hb, hc]
            refine ⟨rfl, fun a ha => ?_⟩
            obtain ⟨name, hmem, rfl⟩ := List.mem_map.1 ha
            show (b.bindTexts kind fresh).text? name = (c.bindTexts kind fresh).text? name
            rw [htextb, htextc, hsame' name hmem]
      · cases hfresh : b.fresh? ignoreCase captures [] with
        | none =>
            simp only [hnone b hfresh]
            exact SameAt.refl b a
        | some fresh =>
            obtain ⟨hb, htext⟩ := text?_matchText? hkind hcaptures hfresh
            simp only [hb]
            cases a with
            | tree name => exact (tree?_bindTexts hkind).symm
            | text name =>
                -- an alias that is not in the pattern is not among what is new
                have hlookup : fresh.lookup name = none := by
                  rw [List.lookup_eq_none_iff]
                  intro entry hentry
                  rw [bne_iff_ne]
                  rintro rfl
                  rcases aliasName_mem_of_fresh? hfresh hentry with hnil | ⟨capture, hmem, heq⟩
                  · simp at hnil
                  · refine ha (List.mem_map.2 ⟨entry.1, ?_, rfl⟩)
                    rw [← heq]
                    exact hname capture hmem
                show b.text? name = (b.bindTexts kind fresh).text? name
                rw [htext, hlookup, Option.none_or]

theorem matchNode?_eq (b : Bindings) (name code : String) (node : Node) :
    b.matchNode? name code node =
      match b.tree? name with
      | some bound => if bound.structEq node then some b else none
      | none => some (b.bind .nodeTree name ⟨code, some node⟩) := rfl

theorem tree?_bind_nodeTree (b : Bindings) (name other code : String) (node : Node) :
    (b.bind .nodeTree name ⟨code, some node⟩).tree? other =
      if other = name then some node else b.tree? other := by
  simp only [tree?, bind, AliasMap.lookup_insert]
  by_cases hother : other = name
  · simp [hother]
  · simp [hother]

/-- Matching a subtree is local to its alias. -/
theorem matchNode?_local (name code : String) (node : Node) :
    Local [.tree name] fun b =>
      ((b.matchNode? name code node).isSome, (b.matchNode? name code node).getD b) := by
  refine ⟨fun b c hsame => ?_, fun b a ha => ?_⟩
  · have htree : b.tree? name = c.tree? name := hsame (.tree name) List.mem_cons_self
    dsimp only
    rw [matchNode?_eq, matchNode?_eq, ← htree]
    cases hbound : b.tree? name with
    | some bound =>
        by_cases heq : bound.structEq node = true
        · simpa [heq] using hsame
        · simpa [heq] using hsame
    | none =>
        refine ⟨rfl, fun a ha => ?_⟩
        obtain rfl := List.mem_singleton.1 ha
        show (b.bind .nodeTree name ⟨code, some node⟩).tree? name =
          (c.bind .nodeTree name ⟨code, some node⟩).tree? name
        rw [tree?_bind_nodeTree, tree?_bind_nodeTree, if_pos rfl, if_pos rfl]
  · dsimp only
    rw [matchNode?_eq]
    cases hbound : b.tree? name with
    | some bound =>
        by_cases heq : bound.structEq node = true
        · simpa [heq] using SameAt.refl b a
        · simpa [heq] using SameAt.refl b a
    | none =>
        cases a with
        | text other => rfl
        | tree other =>
            show b.tree? other = (b.bind .nodeTree name ⟨code, some node⟩).tree? other
            rw [tree?_bind_nodeTree, if_neg]
            rintro rfl
            exact ha List.mem_cons_self

end

end Bindings

/-! ## The aliases of a query -/

namespace MatchContext

/-- The aliases in the text of a node of a query. -/
def ownAliases (cx : MatchContext) (n : Node) : List Alias :=
  let textAliases := fun text => (Pattern.ofText cx.markers text).aliasNames.map Alias.text
  match cx.nameWildcard? n with
  | some name =>
      if cx.markers.isNodeTree name then (cx.treeAlias? name).toList.map .tree
      else textAliases name
  | none =>
      if cx.kinds.isString n.kind then
        (((cx.sanitized n).filter cx.markers.hasWildcard).map textAliases).getD []
      else []

/-- The aliases of a query, each as often as it is used. -/
def aliases (cx : MatchContext) (n : Node) : List Alias := n.walk.flatMap cx.ownAliases

/-- The aliases of some queries. -/
def aliasesOf (cx : MatchContext) (nodes : List Node) : List Alias := nodes.flatMap cx.aliases

/-- The aliases in what a path leads to. -/
def aliasesAt (cx : MatchContext) (n : Node) (path : FieldPath) : List Alias :=
  ((n.resolve path).map fun field => cx.aliasesOf field.members).getD []

variable {cx : MatchContext} {m n : Node}

theorem ownAliases_of_isNodeTree {name : String} (hname : cx.nameWildcard? n = some name)
    (htree : cx.markers.isNodeTree name = true) :
    cx.ownAliases n = (cx.treeAlias? name).toList.map .tree := by
  simp [ownAliases, hname, htree]

theorem ownAliases_of_name {name : String} (hname : cx.nameWildcard? n = some name)
    (htree : cx.markers.isNodeTree name = false) :
    cx.ownAliases n = (Pattern.ofText cx.markers name).aliasNames.map .text := by
  simp [ownAliases, hname, htree]

theorem ownAliases_of_string {pattern : String} (hname : cx.nameWildcard? n = none)
    (hstring : cx.stringWildcard? m n = some pattern) :
    cx.ownAliases n = (Pattern.ofText cx.markers pattern).aliasNames.map .text := by
  unfold stringWildcard? at hstring
  split at hstring
  next hkind =>
    rw [Bool.and_eq_true] at hkind
    simp only [ownAliases, hname, hkind.1, if_true]
    rw [sanitized, hstring]
    rfl
  next => simp at hstring

theorem ownAliases_subset (cx : MatchContext) (n : Node) : cx.ownAliases n ⊆ cx.aliases n :=
  fun _ ha => List.mem_flatMap.2 ⟨n, Node.mem_walk_self n, ha⟩

/-- The aliases of a subtree are aliases of the tree. -/
theorem aliases_subset (h : m ∈ n.walk) : cx.aliases m ⊆ cx.aliases n := by
  intro a ha
  obtain ⟨d, hd, ha⟩ := List.mem_flatMap.1 ha
  exact List.mem_flatMap.2 ⟨d, Node.mem_walk_trans hd h, ha⟩

end MatchContext

/-! ## Matching is local to the aliases of the query -/

/-- What matching comes to: the verdict and the bindings. -/
def Validation.result (v : Validation) : Bool × Bindings := (v.agrees, v.bindings)

section

variable {cx : MatchContext}

theorem compareIdentifier_local {file query : Node} {name : String}
    (hname : cx.nameWildcard? query = some name) :
    Local (cx.ownAliases query) (compareIdentifier cx file query name) := by
  cases htree : cx.markers.isNodeTree name with
  | true =>
      rw [MatchContext.ownAliases_of_isNodeTree hname htree,
        funext (compareIdentifier_tree htree file query)]
      simp only [MatchContext.matchTree?]
      cases cx.treeAlias? name with
      | none => exact Local.of_constant _ (Comparison.closed file true)
      | some aliasName =>
          exact (Bindings.matchNode?_local aliasName (cx.code file) file).map
            (Comparison.closed file)
  | false =>
      let verdict := fun matched : Bool =>
        Comparison.sameFields file (matched && cx.sameTyping file query) query.childFields
      rw [MatchContext.ownAliases_of_name hname htree,
        funext (compareIdentifier_name htree file query)]
      cases cx.fileName? file with
      | none => exact Local.of_constant _ (verdict false)
      | some value =>
          exact (Bindings.matchText?_local cx.config.ignoreCase
            (Pattern.ofText cx.markers name) value (by decide)).map verdict

/-- Without rules of the grammar, the steps after the one for default values read and bind the
aliases in the text of the query node. -/
theorem comparePlain_local (hafter : cx.grammar.rulesAfter = []) (file query : Node) :
    Local (cx.ownAliases query) (comparePlain cx file query) := by
  cases hname : cx.nameWildcard? query with
  | some name =>
      rw [funext (comparePlain_of_name hname)]
      exact compareIdentifier_local hname
  | none =>
      cases hstring : cx.stringWildcard? file query with
      | some pattern =>
          rw [MatchContext.ownAliases_of_string hname hstring,
            funext (comparePlain_of_string hname hstring)]
          exact (Bindings.matchText?_local cx.config.ignoreCase (Pattern.ofText cx.markers pattern)
            ((cx.sanitized file).getD "") (by decide)).map (Comparison.closed file)
      | none =>
          -- no alias is read or bound
          rw [funext (comparePlain_of_noWildcard hafter hname hstring)]
          exact Local.of_constant _ _

/-- Without rules of the grammar, a comparison reads and binds the aliases in the text of the
query node. -/
theorem compare_local (hbefore : cx.grammar.rulesBefore = [])
    (hafter : cx.grammar.rulesAfter = []) (file query : Node) :
    Local (cx.ownAliases query) (compare cx file query) := by
  induction file using Node.offspring_induction with
  | step file ih =>
      cases hfield : valueField? cx file.kind query with
      | none =>
          have heq : compare cx file query = comparePlain cx file query := by
            funext b
            simp only [compare_eq, hbefore, Rule.first?, hfield]
          rw [heq]
          exact comparePlain_local hafter file query
      | some name =>
          let outer := fun inner : Comparison =>
            { inner with fileKeys := inner.fileKeys.map (name :: ·), descend := file.childFields }
          have heq : compare cx file query = fun b =>
              (outer (compareOptional cx (file.child? name) (some query) b).1,
                (compareOptional cx (file.child? name) (some query) b).2) := by
            funext b
            simp only [compare_eq, hbefore, Rule.first?, hfield, outer]
          rw [heq]
          have hinner : Local (cx.ownAliases query)
              (compareOptional cx (file.child? name) (some query)) := by
            cases hchild : file.child? name with
            | none => exact Local.of_constant _ _
            | some child => exact ih child (Node.mem_offspring_of_child? hchild)
          exact hinner.map outer

/-- Steps taken in turn. -/
theorem inTurn_local {aliases : List Alias} {steps : List (Bindings → Validation)}
    (h : ∀ step ∈ steps, Local aliases fun b => (step b).result) :
    Local aliases fun b => (Validation.inTurn steps b).result := by
  induction steps with
  | nil => exact Local.of_constant _ _
  | cons step rest ih =>
      have hrest := ih fun s hs => h s (List.mem_cons_of_mem _ hs)
      let next : Bool → Bindings → Bool × Bindings := fun agrees c =>
        if agrees then (Validation.inTurn rest c).result else (false, c)
      have heq : (fun b => (Validation.inTurn (step :: rest) b).result) =
          fun b => next (step b).result.1 (step b).result.2 := by
        funext b
        rw [Validation.inTurn, Validation.andThen]
        cases hagrees : (step b).agrees <;> simp [next, Validation.result, hagrees]
      rw [heq]
      refine (h step List.mem_cons_self).bind fun b => ?_
      cases (step b).result.1 with
      | true => exact hrest
      | false => exact Local.of_constant _ _

section

variable {v : Validator} {aliases : List Alias}

/-- An element that claims another: neither which one nor what it binds depends on any other
aliases. -/
theorem claim_local {query : Node} {free : List Placed}
    (h : ∀ entry ∈ free, Local aliases fun b => (v entry.2 query b).result) :
    Local aliases fun b =>
      ((claim v query b free).taken.map fun taken => (taken.1, taken.2.2),
        ((claim v query b free).taken.map fun taken => taken.2.1).getD b) := by
  induction free with
  | nil => exact Local.of_constant _ none
  | cons head tail ih =>
      obtain ⟨hhead, htail⟩ := List.forall_mem_cons.1 h
      have hlater := ih htail
      refine ⟨fun b c hsame => ?_, fun b a ha => ?_⟩
      · obtain ⟨hagrees, hbindings⟩ := hhead.same b c hsame
        obtain ⟨htaken, hbindings'⟩ := hlater.same b c hsame
        simp only [Validation.result] at hagrees hbindings
        rw [claim, claim]
        simp only [hagrees]
        split
        next => exact ⟨rfl, hbindings⟩
        next =>
          refine ⟨?_, ?_⟩
          · simpa [Option.map_map, Function.comp_def] using
              congrArg (Option.map fun taken => (taken.1, head :: taken.2)) htaken
          · simpa [Option.map_map, Function.comp_def] using hbindings'
      · have hframe := hhead.frame b a ha
        have hframe' := hlater.frame b a ha
        simp only [Validation.result] at hframe
        rw [claim]
        dsimp only
        split
        next => exact hframe
        next => simpa [Option.map_map, Function.comp_def] using hframe'

/-- Elements that claim others one after another. -/
theorem claimAll_local {order free : List Placed}
    (h : ∀ q ∈ order, ∀ f ∈ free, Local aliases fun b => (v f.2 q.2 b).result) :
    Local aliases fun b =>
      ((claimAll v order free b).places, (claimAll v order free b).bindings) := by
  induction order generalizing free with
  | nil => exact Local.of_constant _ (some [])
  | cons entry rest ih =>
      obtain ⟨place, query⟩ := entry
      let next : Option (Nat × List Placed) → Bindings → Option (List (Nat × Nat)) × Bindings :=
        fun taken c =>
          match taken with
          | none => (none, c)
          | some (found, free') =>
              ((claimAll v rest free' c).places.map ((place, found) :: ·),
                (claimAll v rest free' c).bindings)
      have heq : (fun b => ((claimAll v ((place, query) :: rest) free b).places,
            (claimAll v ((place, query) :: rest) free b).bindings)) = fun b =>
          next ((claim v query b free).taken.map fun taken => (taken.1, taken.2.2))
            (((claim v query b free).taken.map fun taken => taken.2.1).getD b) := by
        funext b
        rw [claimAll]
        cases (claim v query b free).taken <;> rfl
      rw [heq]
      refine (claim_local (h _ List.mem_cons_self)).bind fun b => ?_
      cases htaken : (claim v query b free).taken with
      | none => exact Local.of_constant _ none
      | some taken =>
          obtain ⟨found, c, free'⟩ := taken
          have hfree : ∀ q ∈ rest, ∀ f ∈ free',
              Local aliases fun b => (v f.2 q.2 b).result := fun q hq f hf =>
            h q (List.mem_cons_of_mem _ hq) f ((claim_sublist htaken).subset hf)
          exact (ih hfree).map (Option.map ((place, found) :: ·))

end

theorem validateComparable_local {v : Validator} {aliases : List Alias}
    {file query : List Node}
    (h : ∀ f ∈ file, ∀ q ∈ query, Local aliases fun b => (v f q b).result) :
    Local aliases fun b => (validateComparable cx v file query b).result := by
  by_cases hmode : cx.config.mode = .exact
  · by_cases hlength : file.length = query.length
    · simp only [validateComparable_eq, if_pos hmode, if_pos hlength]
      refine inTurn_local fun step hstep => ?_
      obtain ⟨pair, hpair, rfl⟩ := List.mem_map.1 hstep
      exact h pair.1 (List.of_mem_zip hpair).1 pair.2 (List.of_mem_zip hpair).2
    · simp only [validateComparable_eq, if_pos hmode, if_neg hlength]
      exact Local.of_constant _ false
  · by_cases hlength : file.length < query.length
    · simp only [validateComparable_eq, if_neg hmode, if_pos hlength]
      exact Local.of_constant _ false
    · have hrun : ∀ q ∈ choosingOrder cx query, ∀ f ∈ placed file,
          Local aliases fun b => (v f.2 q.2 b).result := fun q hq f hf =>
        h f.2 (List.mem_of_getElem? (mem_placed.1 hf)) q.2 (mem_of_mem_choosingOrder hq)
      have hclaims := claimAll_local hrun
      let verdict : Option (List (Nat × Nat)) → Bool := fun places? =>
        (places?.map fun places =>
          cx.config.mode != .ordered || increasing (claimedPlaces places)).getD false
      have heq : (fun b => (validateComparable cx v file query b).result) = fun b =>
          (verdict (claimAll v (choosingOrder cx query) (placed file) b).places,
            (claimAll v (choosingOrder cx query) (placed file) b).bindings) := by
        funext b
        simp only [validateComparable_eq, if_neg hmode, if_neg hlength]
        cases hplaces : (claimAll v (choosingOrder cx query) (placed file) b).places <;>
          simp [verdict, Validation.result]
      rw [heq]
      exact hclaims.map verdict

theorem validatePath_local {v : Validator} {aliases : List Alias} {file query : Node}
    (filePath : FieldPath) {queryPath : FieldPath}
    (h : ∀ field, query.resolve queryPath = some field → ∀ q ∈ field.members, ∀ f,
      Local aliases fun b => (v f q b).result) :
    Local aliases fun b => (validatePath cx v file query filePath queryPath b).result := by
  unfold validatePath
  split
  next f q hfile hquery => exact h _ hquery q (by simp [Field.members]) f
  next fs qs hfile hquery =>
    exact validateComparable_local fun f hf q hq => h _ hquery q (List.mem_filter.1 hq).1 f
  next => exact Local.of_constant _ false

/-- **Matching is local to the aliases of the query.** Without rules of the grammar it reads and
binds no others. -/
theorem validate_local (hbefore : cx.grammar.rulesBefore = [])
    (hafter : cx.grammar.rulesAfter = []) (file query : Node) :
    Local (cx.aliases query) fun b => (validate cx file query b).result := by
  induction query using Node.height_induction generalizing file with
  | step query ih =>
      have hpath : ∀ filePath queryPath, Local (cx.aliases query) fun b =>
          (validatePath cx (validate cx) file query filePath queryPath b).result :=
        fun filePath queryPath => validatePath_local filePath fun field hfield q hq f =>
          (ih q (Node.height_lt_of_resolve hfield hq) f).mono
            (cx.aliases_subset (Node.mem_walk_of_resolve hfield hq))
      let next : Comparison → Bindings → Bool × Bindings := fun found c =>
        (validateFound cx (validate cx) file query (found, c)).result
      have heq : (fun b => (validate cx file query b).result) = fun b =>
          next (compare cx file query b).1 (compare cx file query b).2 := by
        funext b
        rw [validate_eq]
      rw [heq]
      refine ((compare_local hbefore hafter file query).mono (cx.ownAliases_subset query)).bind
        fun b => ?_
      simp only [next, validateFound]
      split
      next =>
        unfold validateKeys
        split
        next =>
          refine inTurn_local fun step hstep => ?_
          obtain ⟨pair, -, rfl⟩ := List.mem_map.1 hstep
          exact hpath pair.1 pair.2
        next => exact Local.of_constant _ false
      next => exact Local.of_constant _ false

/-- Matching two fields is local to the aliases in the field of the query. -/
theorem validatePath_local_aliasesAt (hbefore : cx.grammar.rulesBefore = [])
    (hafter : cx.grammar.rulesAfter = []) (file query : Node) (filePath queryPath : FieldPath) :
    Local (cx.aliasesAt query queryPath) fun b =>
      (validatePath cx (validate cx) file query filePath queryPath b).result := by
  refine validatePath_local filePath fun field hfield q hq f => ?_
  refine (validate_local hbefore hafter f q).mono fun a ha => ?_
  rw [MatchContext.aliasesAt, hfield]
  exact List.mem_flatMap.2 ⟨q, hq, ha⟩

end

end CodeSearch

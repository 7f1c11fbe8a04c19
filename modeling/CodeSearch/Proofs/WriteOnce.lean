import CodeSearch.Proofs.Attempts
import CodeSearch.Proofs.Accounting
import CodeSearch.Proofs.Rules

/-!
# Bindings are written once

Identifier and string aliases share one name space, though each sort has a map of its own. Bindings
in which no alias is bound in both, and in which every node-tree alias has a subtree, are
**settled**. A step from settled bindings leaves every entry as it is, and the bindings settled:
a text is bound only to an alias that stands for none, and a subtree only to one that has none.
So whatever is made of settled bindings, by comparing or matching nodes, successfully or not, has
all their entries and is settled again.
-/

set_option autoImplicit false

namespace CodeSearch

namespace Bindings

/-- No alias is bound both as an identifier and as a string, and every node-tree alias that is bound
has a subtree. -/
structure Settled (b : Bindings) : Prop where
  apart : ∀ aliasName, (b.identifier.lookup aliasName).isSome = true →
    b.string.lookup aliasName = none
  trees : ∀ aliasName binding, b.nodeTree.lookup aliasName = some binding →
    binding.node.isSome = true

/-- Every alias is bound in the second bindings to what it is bound to in the first, text and
subtree, as an alias of the same sort. -/
structure Preserves (b c : Bindings) : Prop where
  identifier : ∀ aliasName binding, b.identifier.lookup aliasName = some binding →
    c.identifier.lookup aliasName = some binding
  string : ∀ aliasName binding, b.string.lookup aliasName = some binding →
    c.string.lookup aliasName = some binding
  nodeTree : ∀ aliasName binding, b.nodeTree.lookup aliasName = some binding →
    c.nodeTree.lookup aliasName = some binding

/-- The second bindings are settled and have all that the first have. -/
def WrittenOnce (b c : Bindings) : Prop := c.Settled ∧ b.Preserves c

variable {b c d : Bindings}

theorem Preserves.refl (b : Bindings) : b.Preserves b :=
  ⟨fun _ _ h => h, fun _ _ h => h, fun _ _ h => h⟩

theorem Preserves.trans (hbc : b.Preserves c) (hcd : c.Preserves d) : b.Preserves d where
  identifier _ _ h := hcd.identifier _ _ (hbc.identifier _ _ h)
  string _ _ h := hcd.string _ _ (hbc.string _ _ h)
  nodeTree _ _ h := hcd.nodeTree _ _ (hbc.nodeTree _ _ h)

theorem settled_empty : empty.Settled where
  apart _ h := by simp [empty] at h
  trees _ _ h := by simp [empty] at h

/-! ## One step -/

/-- An entry of a new alias replaces none. -/
theorem lookup_insert_of_free {entries : AliasMap} {aliasName other : String}
    {binding found : Binding} (hfree : entries.lookup aliasName = none)
    (h : entries.lookup other = some found) :
    (AliasMap.insert aliasName binding entries).lookup other = some found := by
  have hne : other ≠ aliasName := by
    rintro rfl
    exact absurd (hfree.symm.trans h) (by simp)
  rw [AliasMap.lookup_insert, if_neg hne, h]

/-- A text is bound to an alias that stands for none. -/
theorem Settled.bind (hb : b.Settled) {kind : WildcardKind} (hkind : kind ≠ .nodeTree)
    {aliasName : String} (hfree : b.text? aliasName = none) (text : String) :
    b.WrittenOnce (b.bind kind aliasName ⟨text, none⟩) := by
  -- what stands for no text is in neither map, whichever of them it is bound in
  obtain ⟨hidentifier, hstring⟩ :
      b.identifier.lookup aliasName = none ∧ b.string.lookup aliasName = none := by
    simpa [text?, textual?] using hfree
  cases kind with
  | identifier =>
      refine ⟨⟨fun other h => ?_, hb.trees⟩,
        ⟨fun _ _ h => lookup_insert_of_free hidentifier h, fun _ _ h => h, fun _ _ h => h⟩⟩
      by_cases hother : other = aliasName
      · rw [hother]
        exact hstring
      · refine hb.apart other ?_
        rwa [Bindings.bind, AliasMap.lookup_insert, if_neg hother] at h
  | string =>
      refine ⟨⟨fun other h => ?_, hb.trees⟩,
        ⟨fun _ _ h => h, fun _ _ h => lookup_insert_of_free hstring h, fun _ _ h => h⟩⟩
      have hother : other ≠ aliasName := by
        rintro rfl
        exact absurd h (by simp [Bindings.bind, hidentifier])
      rw [Bindings.bind, AliasMap.lookup_insert, if_neg hother]
      exact hb.apart other h
  | nodeTree => exact absurd rfl hkind

/-- Texts are bound one after another to different aliases that stand for none. -/
theorem Settled.bindTexts (hb : b.Settled) {kind : WildcardKind} (hkind : kind ≠ .nodeTree)
    {texts : List (String × String)} (hnew : ∀ entry ∈ texts, b.text? entry.1 = none)
    (hdistinct : (texts.map Prod.fst).Nodup) : b.WrittenOnce (b.bindTexts kind texts) := by
  induction texts generalizing b with
  | nil => exact ⟨hb, .refl b⟩
  | cons entry rest ih =>
      obtain ⟨aliasName, text⟩ := entry
      obtain ⟨hfree, hlater⟩ := List.forall_mem_cons.1 hnew
      rw [List.map_cons, List.nodup_cons] at hdistinct
      obtain ⟨hsettled, hfirst⟩ := hb.bind hkind hfree text
      obtain ⟨hsettled, hrest⟩ :=
        ih hsettled (new_bind hkind hfree text hlater hdistinct.1) hdistinct.2
      exact ⟨hsettled, hfirst.trans hrest⟩

/-- A pattern that matches binds texts to aliases that stand for none. -/
theorem Settled.matchText? (hb : b.Settled) {ignoreCase : Bool} {pattern : Pattern}
    {value : String} {kind : WildcardKind} (hkind : kind ≠ .nodeTree)
    (h : b.matchText? ignoreCase pattern value kind = some c) : b.WrittenOnce c := by
  obtain ⟨captures, -, h⟩ := Option.bind_eq_some_iff.1 h
  obtain ⟨fresh, hfresh, h⟩ := Option.bind_eq_some_iff.1 h
  obtain rfl : b.bindTexts kind fresh = c := Option.some.inj h
  obtain ⟨hnew, hdistinct, -⟩ := fresh?_eq_some hfresh (by simp) (by simp)
  exact hb.bindTexts hkind hnew hdistinct

/-- A subtree is bound to an alias that has none: in settled bindings, to one that is not bound. -/
theorem Settled.matchNode? (hb : b.Settled) {aliasName code : String} {node : Node}
    (h : b.matchNode? aliasName code node = some c) : b.WrittenOnce c := by
  unfold Bindings.matchNode? at h
  cases hbound : (b.nodeTree.lookup aliasName).bind Binding.node with
  | some bound =>
      simp only [hbound] at h
      split at h
      next =>
        obtain rfl := Option.some.inj h
        exact ⟨hb, .refl b⟩
      next => simp at h
  | none =>
      simp only [hbound] at h
      obtain rfl := Option.some.inj h
      -- an alias without a subtree is not bound at all, or else this would replace its code
      have hfree : b.nodeTree.lookup aliasName = none := by
        cases hlookup : b.nodeTree.lookup aliasName with
        | none => rfl
        | some binding =>
            have hnode := hb.trees aliasName binding hlookup
            rw [hlookup, Option.bind_some] at hbound
            simp [hbound] at hnode
      refine ⟨⟨hb.apart, fun other binding hother => ?_⟩,
        ⟨fun _ _ h => h, fun _ _ h => h, fun _ _ h => lookup_insert_of_free hfree h⟩⟩
      rw [Bindings.bind, AliasMap.lookup_insert] at hother
      split at hother
      next =>
        obtain rfl := Option.some.inj hother
        rfl
      next => exact hb.trees other binding hother

variable {P : Node → Prop}

/-- **A step writes nothing twice.** -/
theorem Step.writtenOnce (h : Step P b c) (hb : b.Settled) : b.WrittenOnce c := by
  cases h with
  | text ignoreCase pattern value kind hkind h => exact hb.matchText? hkind h
  | subtree aliasName code node hnode h => exact hb.matchNode? h

/-! ## All steps -/

/-- What is made of settled bindings step by step is settled and has all their entries. -/
theorem Extends.writtenOnce (h : Extends P b c) (hb : b.Settled) : b.WrittenOnce c := by
  induction h with
  | refl => exact ⟨hb, .refl b⟩
  | tail _ hstep ih =>
      obtain ⟨hsettled, hpreserves⟩ := ih
      obtain ⟨hsettled, hlast⟩ := hstep.writtenOnce hsettled
      exact ⟨hsettled, hpreserves.trans hlast⟩

end Bindings

/-! ## Matching -/

/-- The grammar is that of a language, or one without rules. -/
def Grammar.IsKnown (grammar : Grammar) : Prop :=
  (∃ (language : Language) (parsers : ParserSet) (markers : Markers),
    grammar = language.grammar parsers markers) ∨
    grammar.rulesBefore = [] ∧ grammar.rulesAfter = []

theorem Grammar.IsKnown.bindsTexts {grammar : Grammar} (h : grammar.IsKnown) :
    grammar.BindsTexts := by
  rcases h with ⟨language, parsers, markers, rfl⟩ | ⟨hbefore, hafter⟩
  · exact language.bindsTexts parsers markers
  · exact Grammar.bindsTexts_of_noRules hbefore hafter

section Matching

variable {cx : MatchContext} {b : Bindings}

/-- Comparing two nodes writes nothing twice, whether or not they agree. -/
theorem compare_writtenOnce (hgrammar : cx.grammar.BindsTexts) (file query : Node)
    (hb : b.Settled) : b.WrittenOnce (compare cx file query b).2 :=
  (compare_extends hgrammar file query b).writtenOnce hb

/-- Matching two nodes writes nothing twice, whether or not they match. -/
theorem validate_writtenOnce (hgrammar : cx.grammar.BindsTexts) (file query : Node)
    (hb : b.Settled) : b.WrittenOnce (validate cx file query b).bindings :=
  (validate_extends hgrammar file query b).writtenOnce hb

/-- What an attempt is given and what it ends with is kept in the bindings of the successful attempt
that it takes part in. -/
theorem Attempt.TakesPart.writtenOnce (hgrammar : cx.grammar.BindsTexts) {a a' : Attempt}
    (h : a.TakesPart cx a') (ha : (a.outcome cx).agrees = true) (hb : a.bindings.Settled) :
    a'.bindings.Preserves (a.outcome cx).bindings ∧
      (a'.outcome cx).bindings.Preserves (a.outcome cx).bindings := by
  obtain ⟨-, -, -, hbefore, hafter⟩ := h.between hgrammar ha
  obtain ⟨hstart, -⟩ := hbefore.writtenOnce hb
  obtain ⟨hend, hattempt⟩ := validate_writtenOnce hgrammar a'.file a'.query hstart
  have hlast := (hafter.writtenOnce hend).2
  exact ⟨hattempt.trans hlast, hlast⟩

end Matching

/-! ## Searching -/

section Searching

variable {resolve : Resolver} {queries : List String} {P : Match → Prop}

/-- What holds of all matches in a file holds of all matches after that file. -/
theorem SearchState.forall_found_step {settings : MatchSettings} {file : SourceFile}
    (hfile : ∀ grammar results, resolve file.path = some grammar →
      ∀ m ∈ (searchFile grammar settings file results).found, P m)
    {s : SearchState} (hs : ∀ m ∈ s.found, P m) :
    ∀ m ∈ (s.step resolve settings queries file).found, P m := by
  unfold SearchState.step
  dsimp only
  intro m hm
  split at hm
  next => exact hs m (by simpa [SearchState.add] using hm)
  next grammar hgrammar =>
    rcases List.mem_append.1 hm with hm | hm
    · rw [(queriesFor_found settings queries _ grammar).1] at hm
      exact hs m (by simpa [SearchState.add] using hm)
    · exact hfile grammar _ hgrammar m hm

theorem SearchState.forall_found_after {settings : MatchSettings} {files : List SourceFile}
    (hfiles : ∀ file ∈ files, ∀ grammar results, resolve file.path = some grammar →
      ∀ m ∈ (searchFile grammar settings file results).found, P m)
    {s : SearchState} (hs : ∀ m ∈ s.found, P m) :
    ∀ m ∈ (s.after resolve settings queries files).found, P m := by
  induction files generalizing s with
  | nil => exact hs
  | cons file rest ih =>
      obtain ⟨hfile, hrest⟩ := List.forall_mem_cons.1 hfiles
      exact ih hrest (SearchState.forall_found_step hfile hs)

/-- What holds of all matches in files holds of all matches that a search reports. -/
theorem forall_found_search {config : SearchConfig} {files : List SourceFile}
    (hfiles : ∀ file ∈ files, ∀ grammar results, resolve file.path = some grammar →
      ∀ m ∈ (searchFile grammar config.toMatchSettings file results).found, P m)
    (stopAt : Option Nat) : ∀ m ∈ (search resolve config queries files stopAt).found, P m := by
  obtain ⟨k, -, hsearch, -⟩ := search_eq resolve config queries files stopAt
  intro m hm
  rw [hsearch] at hm
  dsimp only at hm
  rw [wholeSearch_eq] at hm
  have hlast : ∀ m ∈ ((SearchState.start queries.length).after resolve config.toMatchSettings
      queries (files.take k)).found, P m :=
    SearchState.forall_found_after (fun file hfile => hfiles file (List.mem_of_mem_take hfile))
      (by simp [SearchState.start])
  exact hlast m (((Match.upTo_sublist _ _).trans (Match.dedupFrom_sublist [] _)).subset hm)

end Searching

/-- A match **comes of** an attempt from no bindings at a node of one of the files: the attempt
succeeds, and its bindings are reported. -/
def Match.ComesOf (resolve : Resolver) (settings : MatchSettings) (files : List SourceFile)
    (m : Match) (cx : MatchContext) (a : Attempt) : Prop :=
  (∃ file ∈ files, ∃ grammar root, resolve file.path = some grammar ∧
      grammar.parse file.content = .ok root ∧ cx = ⟨grammar, settings, file.content⟩ ∧
      a.file ∈ root.walk) ∧
    a.bindings = .empty ∧ (a.outcome cx).agrees = true ∧ m.bindings = (a.outcome cx).bindings

/-- **Bindings are written once**, in all languages and in every grammar without rules. From settled
bindings, comparing two nodes and matching them leave every alias bound to what it was bound to, and
the bindings settled, whether or not they succeed. So all bindings that a search reports with a
match are settled, and no attempt that took part in the match had an alias bound to anything
else. -/
theorem bindings_written_once :
    (∀ cx : MatchContext, cx.grammar.IsKnown → ∀ (file query : Node) (b : Bindings), b.Settled →
      b.WrittenOnce (compare cx file query b).2 ∧
        b.WrittenOnce (validate cx file query b).bindings) ∧
      ∀ resolve : Resolver, (∀ path grammar, resolve path = some grammar → grammar.IsKnown) →
        ∀ (config : SearchConfig) (queries : List String) (files : List SourceFile)
          (stopAt : Option Nat), ∀ m ∈ (search resolve config queries files stopAt).found,
          m.bindings.Settled ∧ ∃ cx a, m.ComesOf resolve config files cx a ∧
            ∀ a', a.TakesPart cx a' →
              a'.bindings.Preserves m.bindings ∧ (a'.outcome cx).bindings.Preserves m.bindings := by
  constructor
  · intro cx hgrammar file query b hb
    exact ⟨compare_writtenOnce hgrammar.bindsTexts file query hb,
      validate_writtenOnce hgrammar.bindsTexts file query hb⟩
  · intro resolve hresolve config queries files stopAt
    refine forall_found_search (fun file hfile grammar results hgrammar m hm => ?_) stopAt
    have hbinds := (hresolve _ _ hgrammar).bindsTexts
    obtain ⟨root, index, query, hroot, -, found, hfound, hmatch⟩ :=
      exists_found_of_mem_searchFile hm
    obtain ⟨hnode, hagrees, houtcome⟩ := isMatch_of_traverse hfound
    have hbindings : m.bindings = found.bindings := by
      rw [hmatch]
      rfl
    have hcomes : m.ComesOf resolve config files _ ⟨found.node, query.node, .empty⟩ :=
      ⟨⟨file, hfile, grammar, root, hgrammar, hroot, rfl, hnode⟩, rfl, hagrees,
        hbindings.trans houtcome⟩
    refine ⟨?_, _, _, hcomes, fun a' ha' => ?_⟩
    · rw [hbindings, houtcome]
      exact (validate_writtenOnce hbinds _ _ Bindings.settled_empty).1
    · rw [hbindings, houtcome]
      exact ha'.writtenOnce hbinds hagrees Bindings.settled_empty

/-- Where one alias stands for a word, another is bound to the next word, and the first one keeps
its own. -/
theorem bindings_written_once_words :
    let b : Bindings := { identifier := [("a", ⟨"x", none⟩)] }
    let validation := validate ⟨wordGrammar, {}, "y"⟩ (.leaf "word" "y" .zero)
      (.leaf "word" "$$_b" .zero) b
    b.Settled ∧ validation.bindings.Settled ∧
      validation.bindings.identifier.lookup "a" = some ⟨"x", none⟩ ∧
      (validation.bindings.identifier.lookup "b").map Binding.value = some "y" := by
  intro b validation
  have hb : b.Settled := ⟨fun _ _ => rfl, fun _ _ h => by simp [b] at h⟩
  obtain ⟨-, hsettled, hpreserves⟩ :=
    bindings_written_once.1 ⟨wordGrammar, {}, "y"⟩ (.inr ⟨rfl, rfl⟩) (.leaf "word" "y" .zero)
      (.leaf "word" "$$_b" .zero) b hb
  exact ⟨hb, hsettled, hpreserves.identifier "a" _ rfl, by decide +kernel⟩

end CodeSearch

import CodeSearch.Proofs.AliasConstraints
import CodeSearch.Proofs.SourceText
import CodeSearch.Proofs.TokenFilter
import CodeSearch.Proofs.Visits
import CodeSearch.Search

/-!
# The part of a block that is reported

Several statements match as a block, and the match is narrowed to the statements that the query
names: each picks its first match below the block that none has picked before, and the span covers
the picks. A pick is a match of one statement by itself. It need not be the statement that was
matched with it as part of the block: a match nested in a statement further up comes first. Where
nothing comes first but what belongs to statements of the query further up, the statement is
picked, and covered.
-/

set_option autoImplicit false

namespace CodeSearch

/-! ## Spans -/

namespace Span

/-- A span **contains** another if it starts no later and ends no earlier. -/
def Contains (outer inner : Span) : Prop :=
  outer.startByte ≤ inner.startByte ∧ inner.endByte ≤ outer.endByte

instance (outer inner : Span) : Decidable (outer.Contains inner) :=
  inferInstanceAs (Decidable (_ ∧ _))

theorem Contains.refl (s : Span) : s.Contains s := ⟨Nat.le_refl _, Nat.le_refl _⟩

theorem Contains.trans {a b c : Span} (hab : a.Contains b) (hbc : b.Contains c) : a.Contains c :=
  ⟨hab.1.trans hbc.1, hbc.2.trans hab.2⟩

theorem cover_contains_left (a b : Span) : (a.cover b).Contains a := by
  simp [Contains]

theorem cover_contains_right (a b : Span) : (a.cover b).Contains b := by
  simp [Contains]

end Span

/-! ## What stands in front of a node -/

/-- The nodes in front of a place, in pre-order. -/
def Node.visitsBefore (n : Node) (place : Place) : List (Place × Node) :=
  (n.visits []).takeWhile (·.1 != place)

/-- A tree is gone through up to a node of it, then from the node on. -/
theorem Node.exists_visits_eq {n : Node} {visit : Place × Node} (h : visit ∈ n.visits []) :
    ∃ back, n.visits [] = n.visitsBefore visit.1 ++ visit :: back := by
  obtain ⟨front, back, hvisits⟩ := List.append_of_mem h
  have hplaces : ((n.visits []).map Prod.fst).Nodup := Node.visits_nodup n
  rw [hvisits, List.map_append, List.map_cons, List.nodup_append] at hplaces
  obtain ⟨-, -, hdisjoint⟩ := hplaces
  have hfront : ∀ other ∈ front, (other.1 != visit.1) = true := fun other hother =>
    bne_iff_ne.2 (hdisjoint _ (List.mem_map_of_mem hother) _ List.mem_cons_self)
  refine ⟨back, ?_⟩
  rw [Node.visitsBefore, hvisits, List.takeWhile_append_of_pos hfront,
    List.takeWhile_cons_of_neg (by simp), List.append_nil]

theorem Node.mem_visits_of_mem_visitsBefore {n : Node} {place : Place} {other : Place × Node}
    (h : other ∈ n.visitsBefore place) : other ∈ n.visits [] :=
  (List.takeWhile_sublist _).subset h

/-- In a tree whose nodes start in the order of a traversal, what stands in front of a node starts
no later. -/
theorem Node.startByte_le_of_mem_visitsBefore {n : Node}
    (hordered : (n.walk.map (·.span.startByte)).Pairwise (· ≤ ·)) {visit other : Place × Node}
    (hvisit : visit ∈ n.visits []) (hother : other ∈ n.visitsBefore visit.1) :
    other.2.span.startByte ≤ visit.2.span.startByte := by
  obtain ⟨back, hvisits⟩ := Node.exists_visits_eq hvisit
  rw [← Node.visits_snd [], hvisits, List.map_map, List.map_append, List.pairwise_append]
    at hordered
  obtain ⟨-, -, hfront⟩ := hordered
  exact hfront _ (List.mem_map_of_mem hother) _ (List.mem_map_of_mem List.mem_cons_self)

/-! ## One pick -/

section Pick

variable {cx : MatchContext} {matched : Node} {picks : Picks} {statement : Node}

/-- Whether a statement matches a node by itself. -/
def MatchesAlone (cx : MatchContext) (statement : Node) (n : Node) : Prop :=
  (validate cx n statement .empty).agrees = true

instance (statement n : Node) : Decidable (MatchesAlone cx statement n) :=
  inferInstanceAs (Decidable (_ = true))

/-- The picks below a block are covered by the span. -/
def Picks.Covers (matched : Node) (picks : Picks) : Prop :=
  ∀ visit ∈ matched.visits [], visit.1 ∈ picks.places → visit.1 ≠ [] →
    ∃ span, picks.span = some span ∧ span.Contains visit.2.span

/-- A pick is one of the nodes below the block that the statement matches by itself. -/
theorem mem_visits_of_found {found : Found}
    (h : found ∈ (traverse cx matched statement).found) :
    (found.place, found.node) ∈ matched.visits [] ∧ MatchesAlone cx statement found.node := by
  rw [found_traverse] at h
  obtain ⟨visit, hvisit, hfound⟩ := List.mem_filterMap.1 h
  obtain ⟨hagrees, rfl⟩ := foundAt_eq_some.1 hfound
  exact ⟨hvisit, hagrees⟩

/-- What was picked stays picked. -/
theorem places_subset_pick : picks.places ⊆ (pick cx matched picks statement).places := by
  intro place hplace
  rw [pick]
  split
  next => exact hplace
  next => exact List.mem_cons_of_mem _ hplace

/-- One more pick is covered as well. -/
theorem pick_covers (h : picks.Covers matched) :
    (pick cx matched picks statement).Covers matched := by
  intro visit hvisit hplace hroot
  rw [pick] at hplace ⊢
  split at hplace
  next => exact h visit hvisit hplace hroot
  next found hfound =>
    obtain ⟨hpicked, -⟩ := mem_visits_of_found (List.mem_of_find?_eq_some hfound)
    refine ⟨_, rfl, ?_⟩
    rcases List.mem_cons.1 hplace with hnew | hold
    · -- places are the nodes' own, so that the node at the place is the one picked
      have hsame : visit = (found.place, found.node) :=
        List.inj_on_of_nodup_map (Node.visits_nodup matched) hvisit hpicked hnew
      rw [hsame]
      cases picks.span with
      | none => exact Span.Contains.refl _
      | some covered => exact Span.cover_contains_right _ _
    · obtain ⟨covered, hspan, hcontains⟩ := h visit hvisit hold hroot
      rw [hspan]
      exact (Span.cover_contains_left _ _).trans hcontains

/-- **What is picked.** A node that a statement matches by itself is picked then, if it was not
before, unless the pick is a match in front of it that was not picked before. -/
theorem mem_pick {visit : Place × Node} (hvisit : visit ∈ matched.visits [])
    (hmatch : MatchesAlone cx statement visit.2) :
    visit.1 ∈ (pick cx matched picks statement).places ∨
      ∃ other ∈ matched.visitsBefore visit.1, MatchesAlone cx statement other.2 ∧
        other.1 ∉ picks.places ∧ other.1 ∈ (pick cx matched picks statement).places := by
  obtain ⟨back, hvisits⟩ := Node.exists_visits_eq hvisit
  let fresh : Found → Bool := fun found => !picks.places.contains found.place
  have hfound : (traverse cx matched statement).found.find? fresh =
      (((matched.visitsBefore visit.1).filterMap (foundAt cx statement)).find? fresh).or
        (((visit :: back).filterMap (foundAt cx statement)).find? fresh) := by
    rw [found_traverse, hvisits, List.filterMap_append, List.find?_append]
  have hplaces : ∀ found, (traverse cx matched statement).found.find? fresh = some found →
      found.place ∈ (pick cx matched picks statement).places := by
    intro found hsome
    rw [pick]
    dsimp only [fresh] at hsome
    simp only [hsome]
    exact List.mem_cons_self
  cases hfront : ((matched.visitsBefore visit.1).filterMap (foundAt cx statement)).find? fresh with
  | some found =>
      obtain ⟨other, hother, hsome⟩ := List.mem_filterMap.1 (List.mem_of_find?_eq_some hfront)
      obtain ⟨hagrees, rfl⟩ := foundAt_eq_some.1 hsome
      have hfresh : fresh _ = true := List.find?_some hfront
      exact Or.inr ⟨other, hother, hagrees, by simpa [fresh] using hfresh,
        hplaces _ (by rw [hfound, hfront]; rfl)⟩
  | none =>
      refine Or.inl ?_
      obtain ⟨found, hsome⟩ : ∃ found, foundAt cx statement visit = some found :=
        ⟨_, foundAt_eq_some.2 ⟨hmatch, rfl⟩⟩
      obtain ⟨-, hplace⟩ := foundAt_eq_some.1 hsome
      by_cases hpicked : visit.1 ∈ picks.places
      · exact places_subset_pick hpicked
      · have hfresh : fresh found = true := by
          rw [← hplace]
          simpa [fresh] using hpicked
        have hnew : found.place ∈ (pick cx matched picks statement).places := hplaces found (by
          rw [hfound, hfront, List.filterMap_cons, hsome, List.find?_cons, hfresh]
          rfl)
        rwa [← hplace] at hnew

end Pick

/-! ## All picks -/

section Picks

variable {cx : MatchContext} {matched query : Node}

/-- The picks of so many statements of the query, the block itself being none. -/
def picksAfter (cx : MatchContext) (matched query : Node) (count : Nat) : Picks :=
  (query.children.take count).foldl (pick cx matched) ⟨[[]], none, 0⟩

theorem picksAfter_succ {count : Nat} {statement : Node}
    (h : query.children[count]? = some statement) :
    picksAfter cx matched query (count + 1) =
      pick cx matched (picksAfter cx matched query count) statement := by
  rw [picksAfter, List.take_add_one, h, Option.toList_some, List.foldl_append]
  rfl

theorem picksAfter_succ_of_none {count : Nat} (h : query.children[count]? = none) :
    picksAfter cx matched query (count + 1) = picksAfter cx matched query count := by
  rw [picksAfter, List.take_add_one, h, Option.toList_none, List.append_nil]
  rfl

/-- The span that is reported is that of the picks of all statements, or else the block's. -/
theorem narrowedSpan_eq : (narrowedSpan cx matched query).1 =
    (picksAfter cx matched query query.children.length).span.getD matched.span := by
  rw [picksAfter, List.take_length]
  rfl

theorem places_subset_picksAfter {count later : Nat} (h : count ≤ later) :
    (picksAfter cx matched query count).places ⊆ (picksAfter cx matched query later).places := by
  induction later, h using Nat.le_induction with
  | base => exact fun _ hplace => hplace
  | succ later _ ih =>
      cases hstatement : query.children[later]? with
      | none => rwa [picksAfter_succ_of_none hstatement]
      | some statement =>
          rw [picksAfter_succ hstatement]
          exact fun _ hplace => places_subset_pick (ih hplace)

/-- The block itself counts as picked from the start. -/
theorem root_mem_picksAfter (count : Nat) : [] ∈ (picksAfter cx matched query count).places :=
  places_subset_picksAfter (Nat.zero_le count) List.mem_cons_self

/-- All picks are covered. -/
theorem picksAfter_covers (count : Nat) : (picksAfter cx matched query count).Covers matched := by
  induction count with
  | zero =>
      intro visit _ hplace hroot
      exact absurd (List.mem_singleton.1 hplace) hroot
  | succ count ih =>
      cases hstatement : query.children[count]? with
      | none => rwa [picksAfter_succ_of_none hstatement]
      | some statement =>
          rw [picksAfter_succ hstatement]
          exact pick_covers ih

/-- What a statement picks is below the block and in the span that is reported. -/
theorem narrowedSpan_contains_of_mem {count : Nat} {visit : Place × Node}
    (hvisit : visit ∈ matched.visits [])
    (hplace : visit.1 ∈ (picksAfter cx matched query count).places) (hroot : visit.1 ≠ []) :
    (narrowedSpan cx matched query).1.Contains visit.2.span := by
  -- a count beyond the last statement adds no pick, so that the larger of the two stands for both
  have hall : visit.1 ∈ (picksAfter cx matched query query.children.length).places := by
    rcases Nat.le_total count query.children.length with hle | hle
    · exact places_subset_picksAfter hle hplace
    · have heq : picksAfter cx matched query count =
          picksAfter cx matched query query.children.length := by
        rw [picksAfter, picksAfter, List.take_of_length_le hle, List.take_length]
      rwa [← heq]
  obtain ⟨span, hspan, hcontains⟩ := picksAfter_covers _ visit hvisit hall hroot
  rwa [narrowedSpan_eq, hspan]

end Picks

/-! ## Claimed statements -/

section Claimed

variable {cx : MatchContext} {matched query statement : Node} {visit : Place × Node}

/-- A node below a block is **claimed for** a statement if matching the block leads to matching the
two. -/
structure ClaimedFor (cx : MatchContext) (matched query statement : Node) (visit : Place × Node) :
    Prop where
  visited : visit ∈ matched.visits []
  leads : ∃ c, (⟨matched, query, .empty⟩ : Attempt).Leads cx ⟨visit.2, statement, c⟩

/-- What is claimed is not the block itself. -/
theorem ClaimedFor.ne_root (h : ClaimedFor cx matched query statement visit) : visit.1 ≠ [] := by
  obtain ⟨hvisit, c, hleads⟩ := h
  intro hroot
  have hsame : visit = ([], matched) :=
    List.inj_on_of_nodup_map (Node.visits_nodup matched) hvisit (Node.mem_visits_self [] matched)
      hroot
  obtain rfl : visit.2 = matched := by rw [hsame]
  cases hleads with
  | mk hreached hfile hquery hfield =>
      exact Nat.lt_irrefl _ (Node.height_lt_of_resolve hfile hfield.mem.1)

/-- A statement is sure to match by itself what is claimed for it: all of the code counts, or the
statement has no aliases, or it does. -/
def KeepsAlone (cx : MatchContext) (statement n : Node) : Prop :=
  cx.config.mode = .exact ∨ cx.aliases statement = [] ∨ MatchesAlone cx statement n

instance (statement n : Node) : Decidable (KeepsAlone cx statement n) :=
  inferInstanceAs (Decidable (_ ∨ _ ∨ _))

/-- What is claimed for a statement in a match of the whole block matches it by itself, unless the
bindings of the block are needed for that. -/
theorem ClaimedFor.matchesAlone (hbefore : cx.grammar.rulesBefore = [])
    (hafter : cx.grammar.rulesAfter = []) (hmatched : matched.NamesDistinct)
    (hagrees : (validate cx matched query .empty).agrees = true)
    (h : ClaimedFor cx matched query statement visit)
    (halone : KeepsAlone cx statement visit.2) : MatchesAlone cx statement visit.2 := by
  obtain ⟨hvisit, c, hleads⟩ := h
  have hgrammar := Grammar.bindsTexts_of_noRules hbefore hafter
  obtain ⟨hclaimed, hbound, -⟩ := hleads.between hgrammar hagrees
  change (validate cx visit.2 statement c).agrees = true at hclaimed
  rcases halone with hmode | haliases | halone
  · -- uses that succeed from the bindings met so far agree two by two, so that they do from none
    obtain ⟨hfree, huses⟩ :=
      (validate_iff_useAll? hbefore hafter hmode visit.2 statement c .empty).1 hclaimed
    have hdistinct : ∀ u ∈ aliasUses cx visit.2 statement, u.NamesDistinct :=
      namesDistinct_aliasUses (hmatched.of_mem_walk (Node.mem_walk_of_visit hvisit))
    have hbindings : c.TreesAmong Node.NamesDistinct := by
      have hcompared := compare_extends hgrammar matched query .empty
      intro name node hnode
      exact hmatched.of_mem_walk
        (hbound.treesAmong (hcompared.treesAmong (Bindings.empty_treesAmong _)) name node hnode)
    obtain ⟨-, hpairs⟩ := (Bindings.useAll?_isSome_iff hbindings hdistinct).1 huses
    refine (validate_iff_useAll? hbefore hafter hmode visit.2 statement .empty .empty).2
      ⟨hfree, (Bindings.useAll?_isSome_iff ?_ hdistinct).2 ⟨?_, hpairs⟩⟩
    · exact Bindings.empty_treesAmong _
    · exact fun u _ => Bindings.allows_empty u
  · have hlocal := validate_local hbefore hafter visit.2 statement
    rw [haliases] at hlocal
    obtain ⟨hsame, -⟩ := hlocal.same c .empty fun a ha => absurd ha List.not_mem_nil
    exact hsame.symm.trans hclaimed
  · exact halone

/-- Comparing blocks leaves the statements of the query to agree. -/
theorem Agree.mem_queryKeys_children (hbefore : cx.grammar.rulesBefore = [])
    (hafter : cx.grammar.rulesAfter = []) {file : Node} {b c : Bindings} {found : Comparison}
    (h : Agree cx file query b found c) (hread : cx.mayStandUnread query = false) {field : Field}
    (hfield : query.field? childrenField = some field) (hnodes : field.holdsNodes = true) :
    [childrenField] ∈ found.queryKeys := by
  induction h with
  | rule hrule => simp [hbefore, Rule.first?] at hrule
  | value hrule hvalue hinner _ ih => exact ih hread hfield
  | plain hrule hvalue h =>
      refine (h.mem_queryKeys hread hfield hnodes (by decide) fun _ => rfl).resolve_left ?_
      rintro ⟨verdict, -, -, hrule⟩
      simp [hafter, Rule.first?] at hrule

/-- Where a block matches, something is claimed for every statement that is compared. -/
theorem exists_claimedFor (hbefore : cx.grammar.rulesBefore = [])
    (hafter : cx.grammar.rulesAfter = []) (hread : cx.mayStandUnread query = false)
    (hagrees : (validate cx matched query .empty).agrees = true)
    (hstatement : statement ∈ cx.comparable query.children) :
    ∃ visit, ClaimedFor cx matched query statement visit := by
  have hgrammar := Grammar.bindsTexts_of_noRules hbefore hafter
  obtain ⟨statements, hfield, rfl⟩ : ∃ statements,
      query.field? childrenField = some (.nodes statements) ∧ statements = query.children := by
    rw [Node.children] at hstatement ⊢
    cases hfield : query.field? childrenField with
    | none => simp [hfield, MatchContext.comparable] at hstatement
    | some field => cases field <;> simp_all [Field.nodes?, MatchContext.comparable]
  -- the statements are left to agree, with a list of the file that they are placed in
  obtain ⟨hcompared, hlength, -⟩ := Attempt.outcome_eq (a := ⟨matched, query, .empty⟩) hagrees
  have hkey : [childrenField] ∈ (Attempt.found cx ⟨matched, query, .empty⟩).queryKeys :=
    (compare_agrees hcompared).mem_queryKeys_children hbefore hafter hread hfield rfl
  rw [← List.map_snd_zip (Nat.le_of_eq hlength)] at hkey
  obtain ⟨pair, hpair, hpath⟩ := List.mem_map.1 hkey
  obtain ⟨file, asked, -, hasked, hfields⟩ :=
    Attempt.fieldsAgree (a := ⟨matched, query, .empty⟩) hgrammar hagrees hpair
  rw [hpath] at hasked
  obtain rfl : Field.nodes query.children = asked := Option.some.inj (hfield.symm.trans hasked)
  cases hfields with
  | nodes place hplace hleads =>
      obtain ⟨i, rfl⟩ := List.get_of_mem hstatement
      obtain ⟨c, hc⟩ := hleads i
      have hwalk := hc.mem.1
      rw [← Node.visits_snd []] at hwalk
      obtain ⟨visit, hvisit, hnode⟩ := List.mem_map.1 hwalk
      exact ⟨visit, hvisit, c, by rwa [hnode]⟩

/-- Where blocks leave just their statements to agree, what the statements of the query are matched
with is claimed for them. -/
theorem claimedFor_of_listLeads {statements asked : List Node} {c : Bindings}
    (hvisit : visit ∈ matched.visits [])
    (hpairs : Attempt.pairs cx ⟨matched, query, .empty⟩ = [([childrenField], [childrenField])])
    (hfile : matched.field? childrenField = some (.nodes statements))
    (hquery : query.field? childrenField = some (.nodes asked))
    (h : ListLeads cx statements asked (Attempt.compared cx ⟨matched, query, .empty⟩) visit.2
      statement c) : ClaimedFor cx matched query statement visit := by
  have hreached : Attempt.Reaches cx ⟨matched, query, .empty⟩ ([childrenField], [childrenField])
      (Attempt.compared cx ⟨matched, query, .empty⟩) := by
    rw [Attempt.Reaches, hpairs]
    exact Reached.head _ _ _
  exact ⟨hvisit, c, Attempt.Leads.mk hreached hfile hquery (FieldLeads.nodes h)⟩

end Claimed

/-! ## What the reported span covers -/

section Narrowed

variable {cx : MatchContext} {matched query : Node} {site : Nat → Option (Place × Node)}

/-- What is claimed for a statement of the query stands **undisturbed**: the statement matches it by
itself, and in front of it nothing but the block and what is claimed for statements further up. -/
def Undisturbed (cx : MatchContext) (matched query : Node) (site : Nat → Option (Place × Node))
    (i : Nat) : Prop :=
  ∀ statement ∈ query.children[i]?, ∀ visit ∈ site i, KeepsAlone cx statement visit.2 ∧
    ∀ other ∈ matched.visitsBefore visit.1, MatchesAlone cx statement other.2 →
      other.1 = [] ∨ ∃ j < i, ∃ earlier ∈ site j, earlier.1 = other.1

instance (matched query : Node) (site : Nat → Option (Place × Node)) (i : Nat) :
    Decidable (Undisturbed cx matched query site i) :=
  inferInstanceAs (Decidable (∀ statement ∈ query.children[i]?, ∀ visit ∈ site i,
    KeepsAlone cx statement visit.2 ∧
      ∀ other ∈ matched.visitsBefore visit.1, MatchesAlone cx statement other.2 →
        other.1 = [] ∨ ∃ j < i, ∃ earlier ∈ site j, earlier.1 = other.1))

/-- While what is claimed stands undisturbed, it is what is picked. -/
theorem mem_picksAfter_of_undisturbed (hbefore : cx.grammar.rulesBefore = [])
    (hafter : cx.grammar.rulesAfter = []) (hmatched : matched.NamesDistinct)
    (hagrees : (validate cx matched query .empty).agrees = true)
    (hsite : ∀ i, ∀ statement ∈ query.children[i]?, ∀ visit ∈ site i,
      ClaimedFor cx matched query statement visit)
    {k : Nat} (hundisturbed : ∀ i ≤ k, Undisturbed cx matched query site i) {statement : Node}
    (hstatement : query.children[k]? = some statement) {visit : Place × Node}
    (hvisit : site k = some visit) :
    visit.1 ∈ (picksAfter cx matched query (k + 1)).places := by
  induction k using Nat.strong_induction_on generalizing statement visit with
  | h k ih =>
      have hclaimed := hsite k statement hstatement visit hvisit
      obtain ⟨halone, hfront⟩ := hundisturbed k (Nat.le_refl k) statement hstatement visit hvisit
      have hmatches := hclaimed.matchesAlone hbefore hafter hmatched hagrees halone
      rw [picksAfter_succ hstatement]
      refine (mem_pick hclaimed.visited hmatches).resolve_right ?_
      rintro ⟨other, hother, hagrees', hfresh, -⟩
      rcases hfront other hother hagrees' with hroot | ⟨j, hj, earlier, hearlier, hplace⟩
      · exact hfresh (hroot ▸ root_mem_picksAfter k)
      · -- what stands in front was picked by the statement that it is claimed for
        have hlength : k < query.children.length := (List.getElem?_eq_some_iff.1 hstatement).1
        have hpicked := ih j hj (fun i hi => hundisturbed i (hi.trans hj.le))
          (List.getElem?_eq_getElem (hj.trans hlength)) hearlier
        exact hfresh (hplace ▸ places_subset_picksAfter hj hpicked)

/-- **What the narrowed span of a block covers.** Without rules of the grammar, whatever was claimed
for a statement of the query is covered if it stands undisturbed, together with what was claimed for
all statements further up. And if the nodes of the block start in the order of a traversal, the
span starts no later than what was claimed for any statement, where that matches it by itself. -/
theorem narrowedSpan_contains_claimed (hbefore : cx.grammar.rulesBefore = [])
    (hafter : cx.grammar.rulesAfter = []) (hmatched : matched.NamesDistinct)
    (hagrees : (validate cx matched query .empty).agrees = true)
    (hsite : ∀ i, ∀ statement ∈ query.children[i]?, ∀ visit ∈ site i,
      ClaimedFor cx matched query statement visit) {k : Nat} {statement : Node}
    (hstatement : query.children[k]? = some statement) {visit : Place × Node}
    (hvisit : site k = some visit) :
    ((∀ i ≤ k, Undisturbed cx matched query site i) →
      (narrowedSpan cx matched query).1.Contains visit.2.span) ∧
    ((matched.walk.map (·.span.startByte)).Pairwise (· ≤ ·) → KeepsAlone cx statement visit.2 →
      (narrowedSpan cx matched query).1.startByte ≤ visit.2.span.startByte) := by
  have hclaimed := hsite k statement hstatement visit hvisit
  constructor
  · intro hundisturbed
    exact narrowedSpan_contains_of_mem hclaimed.visited
      (mem_picksAfter_of_undisturbed hbefore hafter hmatched hagrees hsite hundisturbed hstatement
        hvisit) hclaimed.ne_root
  · intro hordered halone
    have hmatches := hclaimed.matchesAlone hbefore hafter hmatched hagrees halone
    have hpick := @mem_pick cx matched (picksAfter cx matched query k) statement visit
      hclaimed.visited hmatches
    rw [← picksAfter_succ hstatement] at hpick
    rcases hpick with hpicked | ⟨other, hother, -, hfresh, hpicked⟩
    · exact (narrowedSpan_contains_of_mem hclaimed.visited hpicked hclaimed.ne_root).1
    · -- a match in front of it was picked, which starts no later
      have hroot : other.1 ≠ [] := fun hroot => hfresh (hroot ▸ root_mem_picksAfter k)
      refine (narrowedSpan_contains_of_mem (Node.mem_visits_of_mem_visitsBefore hother) hpicked
        hroot).1.trans ?_
      exact Node.startByte_le_of_mem_visitsBefore hordered hclaimed.visited hother

end Narrowed

/-! ## Calls one after another -/

/-- A name at some byte of a source of one line. -/
def namedAt (name : String) (start : Nat) : Node :=
  .leaf "name" name (lineSpan start (start + name.utf8ByteSize))

/-- A call of a name on some nodes. -/
def callAt (name : String) (start stop : Nat) (arguments : List Node) : Node :=
  .mk "call" none
    [("function", .node (namedAt name start)), (childrenField, .nodes arguments)]
    (lineSpan start stop)

/-- Calls, one after another, up to some byte. -/
def callsUpTo (stop : Nat) (calls : List Node) : Node :=
  .mk "block" none [(childrenField, .nodes calls)] (lineSpan 0 stop)

/-- Calls are searched in some mode. -/
def callsIn (mode : Mode) : MatchContext := ⟨callGrammar, { mode }, ""⟩

/-- Two calls of one name are claimed for two statements that each match both, and covered. -/
theorem narrowedSpan_contains_claimed_twice :
    (narrowedSpan (callsIn .exact)
        (callsUpTo 10 [callAt "f" 0 4 [namedAt "x" 2], callAt "f" 6 10 [namedAt "y" 8]])
        (callsUpTo 14 [callAt "f" 0 6 [namedAt "$$$" 2], callAt "f" 8 14 [namedAt "$$$" 10]])
      ).1.Contains (lineSpan 6 10) := by
  let sites : List (Place × Node) :=
    [([(0, 0)], callAt "f" 0 4 [namedAt "x" 2]), ([(0, 1)], callAt "f" 6 10 [namedAt "y" 8])]
  let query := callsUpTo 14 [callAt "f" 0 6 [namedAt "$$$" 2], callAt "f" 8 14 [namedAt "$$$" 10]]
  refine (@narrowedSpan_contains_claimed (callsIn .exact) (callsUpTo 10 (sites.map Prod.snd)) query
    (fun i => sites[i]?) rfl rfl (by decide) (by decide +kernel) ?_ 1 _ rfl _ rfl).1 ?_
  · rintro (_ | _ | i) statement hstatement visit hvisit
    · cases hstatement
      cases hvisit
      exact claimedFor_of_listLeads (List.mem_of_getElem? (i := 1) rfl) (by decide +kernel) rfl rfl
        (.pair rfl (.head _ _ _))
    · cases hstatement
      cases hvisit
      exact claimedFor_of_listLeads (List.mem_of_getElem? (i := 4) rfl) (by decide +kernel) rfl rfl
        (.pair rfl (.tail (.head _ _ _)))
    · cases hvisit
  · decide +kernel

/-- The code `a(b()); b()`. -/
def callsOfB : Node := callsUpTo 11 [callAt "a" 0 6 [callAt "b" 2 5 []], callAt "b" 8 11 []]

/-- The query `a($$$); b()`. -/
def queryForB : Node := callsUpTo 11 [callAt "a" 0 6 [namedAt "$$$" 2], callAt "b" 8 11 []]

/-- The call `g(h(k(w)), h(u()))`. -/
def linkedCall : Node :=
  callAt "g" 8 26 [callAt "h" 10 17 [callAt "k" 12 16 [namedAt "w" 14]],
    callAt "h" 19 25 [callAt "u" 21 24 []]]

/-- The code `f(u()); g(h(k(w)), h(u()))`. -/
def linkedCode : Node := callsUpTo 26 [callAt "f" 0 6 [callAt "u" 2 5 []], linkedCall]

/-- The statement `g(h($$$_x), h(k($$$_y)))`. -/
def linkedStatement : Node :=
  callAt "g" 10 34 [callAt "h" 12 20 [namedAt "$$$_x" 14],
    callAt "h" 22 33 [callAt "k" 24 32 [namedAt "$$$_y" 26]]]

/-- The query `f($$$_x); g(h($$$_x), h(k($$$_y)))`. -/
def linkedQuery : Node := callsUpTo 34 [callAt "f" 0 8 [namedAt "$$$_x" 2], linkedStatement]

/-- What is claimed for a statement need not be covered: the inner call of `b` is picked for the
second statement, in front of the one that was claimed for it. Nor is it where further code is
ignored and a statement matches only with what an earlier one has bound. -/
theorem narrowedSpan_misses :
    ((validate (callsIn .exact) callsOfB queryForB .empty).agrees = true ∧
      ClaimedFor (callsIn .exact) callsOfB queryForB (callAt "b" 8 11 [])
        ([(0, 1)], callAt "b" 8 11 []) ∧
      ¬ (narrowedSpan (callsIn .exact) callsOfB queryForB).1.Contains (lineSpan 8 11)) ∧
    (validate (callsIn .contained) linkedCode linkedQuery .empty).agrees = true ∧
      ClaimedFor (callsIn .contained) linkedCode linkedQuery linkedStatement
        ([(0, 1)], linkedCall) ∧
      ¬ (narrowedSpan (callsIn .contained) linkedCode linkedQuery).1.Contains (lineSpan 8 26) := by
  refine ⟨⟨by decide +kernel, ?_, by decide +kernel⟩, by decide +kernel, ?_, by decide +kernel⟩
  · exact claimedFor_of_listLeads (List.mem_of_getElem? (i := 5) rfl) (by decide +kernel) rfl rfl
      (.pair rfl (.tail (.head _ _ _)))
  · -- the first statement chooses first, the second among the calls that it leaves
    have hsecond : (claim (validate (callsIn .contained)) linkedStatement
        (validate (callsIn .contained) (callAt "f" 0 6 [callAt "u" 2 5 []])
          (callAt "f" 0 8 [namedAt "$$$_x" 2])
          (Attempt.compared (callsIn .contained) ⟨linkedCode, linkedQuery, .empty⟩)).bindings
        [(1, linkedCall)]).taken.map Prod.fst = some 1 := by
      decide +kernel
    obtain ⟨⟨found, c, rest⟩, htaken, rfl⟩ := Option.map_eq_some_iff.1 hsecond
    exact claimedFor_of_listLeads (List.mem_of_getElem? (i := 5) rfl) (by decide +kernel) rfl rfl
      (.claim (by decide) (.tail rfl (.head htaken List.mem_cons_self)))

end CodeSearch

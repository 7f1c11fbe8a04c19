import CodeSearch.Proofs.Narrowing

/-!
# What a narrowed span is made of

The statements of a query pick one after another, each its first match below the block that none has
picked before. So the picks are nodes of their own, no more than one for each statement, and the
first statement that has a match below the block has picked: nothing was picked before it. The span
that is reported is the smallest one that contains the picks, hence within the block's where nodes
stand within their parents.

`narrowedSpan_within` says so for every grammar, whatever its rules.
-/

set_option autoImplicit false

namespace CodeSearch

/-! ## Smallest spans -/

namespace Span

/-- The **hull** of some spans contains them, starts where one of them starts and ends where one of
them ends. -/
structure IsHull (s : Span) (spans : List Span) : Prop where
  contains : ∀ t ∈ spans, s.Contains t
  start : ∃ t ∈ spans, t.startByte = s.startByte ∧ t.start = s.start
  stop : ∃ t ∈ spans, t.endByte = s.endByte ∧ t.stop = s.stop

variable {s outer : Span} {spans : List Span}

/-- No smaller span contains all of them. -/
theorem IsHull.least (h : s.IsHull spans) (houter : ∀ t ∈ spans, outer.Contains t) :
    outer.Contains s := by
  obtain ⟨first, hfirst, hstart, -⟩ := h.start
  obtain ⟨last, hlast, hstop, -⟩ := h.stop
  exact ⟨hstart ▸ (houter first hfirst).1, hstop ▸ (houter last hlast).2⟩

theorem isHull_singleton (s : Span) : s.IsHull [s] where
  contains := fun _ ht => List.mem_singleton.1 ht ▸ Contains.refl s
  start := ⟨s, List.mem_cons_self, rfl, rfl⟩
  stop := ⟨s, List.mem_cons_self, rfl, rfl⟩

/-- Covering one more span makes the hull of all. -/
theorem IsHull.cover (h : s.IsHull spans) (t : Span) : (s.cover t).IsHull (t :: spans) where
  contains := by
    intro u hu
    rcases List.mem_cons.1 hu with rfl | hu
    · exact cover_contains_right s u
    · exact (cover_contains_left s t).trans (h.contains u hu)
  start := by
    by_cases hbefore : t.startByte < s.startByte
    · refine ⟨t, List.mem_cons_self, ?_⟩
      rw [Span.cover, if_pos hbefore, if_pos hbefore]
      exact ⟨rfl, rfl⟩
    · obtain ⟨first, hfirst, hstart⟩ := h.start
      refine ⟨first, List.mem_cons_of_mem _ hfirst, ?_⟩
      rw [Span.cover, if_neg hbefore, if_neg hbefore]
      exact hstart
  stop := by
    by_cases hbehind : s.endByte < t.endByte
    · refine ⟨t, List.mem_cons_self, ?_⟩
      rw [Span.cover, if_pos hbehind, if_pos hbehind]
      exact ⟨rfl, rfl⟩
    · obtain ⟨last, hlast, hstop⟩ := h.stop
      refine ⟨last, List.mem_cons_of_mem _ hlast, ?_⟩
      rw [Span.cover, if_neg hbehind, if_neg hbehind]
      exact hstop

end Span

/-! ## Nodes within their parents -/

/-- Every node of the tree stands within its parent. -/
def Node.SpansNest (root : Node) : Prop :=
  ∀ n ∈ root.walk, ∀ c ∈ n.offspring, n.span.Contains c.span

instance (root : Node) : Decidable root.SpansNest :=
  inferInstanceAs (Decidable (∀ n ∈ root.walk, ∀ c ∈ n.offspring, n.span.Contains c.span))

theorem Node.SpansNest.of_mem_walk {n root : Node} (h : root.SpansNest) (hn : n ∈ root.walk) :
    n.SpansNest :=
  fun m hm => h m (Node.mem_walk_trans hm hn)

/-- Then every node stands within the root. -/
theorem Node.SpansNest.contains {n root : Node} (h : root.SpansNest) (hn : n ∈ root.walk) :
    root.span.Contains n.span := by
  induction root using Node.offspring_induction with
  | step root ih =>
      rcases Node.mem_walk.1 hn with rfl | ⟨c, hc, hnc⟩
      · exact Span.Contains.refl _
      · have hinner := ih c hc
          (h.of_mem_walk (Node.mem_walk_of_mem_offspring hc (Node.mem_walk_self c))) hnc
        exact (h root (Node.mem_walk_self root) c hc).trans hinner

/-! ## Choices -/

/-- A statement of a query, by its number, and the node that it chooses, with its place. -/
structure Choice where
  statement : Nat
  place : Place
  node : Node

section Choices

variable {cx : MatchContext} {matched query : Node} {choices : List Choice}

/-- A statement has a match below a block. -/
def HasMatchBelow (cx : MatchContext) (matched statement : Node) : Prop :=
  ∃ visit ∈ matched.visits [], visit.1 ≠ [] ∧ MatchesAlone cx statement visit.2

instance (matched statement : Node) : Decidable (HasMatchBelow cx matched statement) :=
  inferInstanceAs (Decidable (∃ visit ∈ matched.visits [], _ ∧ _))

/-- **Choices** of the statements of a query below a block: nodes at places of their own, no more
than one for each statement, that the statements match by themselves. -/
structure AreChoices (cx : MatchContext) (matched query : Node) (choices : List Choice) : Prop where
  below : ∀ choice ∈ choices, (choice.place, choice.node) ∈ matched.visits [] ∧ choice.place ≠ []
  places : (choices.map Choice.place).Nodup
  statements : (choices.map Choice.statement).Nodup
  agree : ∀ choice ∈ choices, ∃ statement, query.children[choice.statement]? = some statement ∧
    MatchesAlone cx statement choice.node

/-- A statement is the first of a query that has a match below a block. -/
def IsFirstWithMatch (cx : MatchContext) (matched query : Node) (i : Nat) : Prop :=
  (∃ statement, query.children[i]? = some statement ∧ HasMatchBelow cx matched statement) ∧
    ∀ j < i, ∀ earlier, query.children[j]? = some earlier → ¬ HasMatchBelow cx matched earlier

theorem AreChoices.hasMatchBelow (h : AreChoices cx matched query choices) {choice : Choice}
    (hchoice : choice ∈ choices) : ∃ statement, query.children[choice.statement]? = some statement ∧
      HasMatchBelow cx matched statement := by
  obtain ⟨hvisit, hroot⟩ := h.below choice hchoice
  obtain ⟨statement, hstatement, hmatch⟩ := h.agree choice hchoice
  exact ⟨statement, hstatement, _, hvisit, hroot, hmatch⟩

/-- Choices **record** what so many statements have picked, the last of them first. -/
structure Records (cx : MatchContext) (matched query : Node) (count : Nat)
    (choices : List Choice) : Prop where
  areChoices : AreChoices cx matched query choices
  early : ∀ choice ∈ choices, choice.statement < count
  places : (picksAfter cx matched query count).places = choices.map Choice.place ++ [[]]
  span : (picksAfter cx matched query count).span = none ∧ choices = [] ∨
    ∃ s, (picksAfter cx matched query count).span = some s ∧
      s.IsHull (choices.map fun choice => choice.node.span)

theorem records_zero : Records cx matched query 0 [] where
  areChoices := ⟨by simp, List.nodup_nil, List.nodup_nil, by simp⟩
  early := by simp
  places := rfl
  span := Or.inl ⟨rfl, rfl⟩

variable {count : Nat} {statement : Node}

/-- One more statement picks a node that was not picked before, or none. -/
theorem Records.step (h : Records cx matched query count choices)
    (hstatement : query.children[count]? = some statement) :
    ∃ more, Records cx matched query (count + 1) (more ++ choices) := by
  have hpicks : picksAfter cx matched query (count + 1) =
      pick cx matched (picksAfter cx matched query count) statement := picksAfter_succ hstatement
  rw [pick] at hpicks
  split at hpicks
  next hnone =>
    refine ⟨[], h.areChoices, fun choice hchoice => ?_, ?_, ?_⟩
    · exact Nat.lt_succ_of_lt (h.early choice hchoice)
    · rw [hpicks]
      exact h.places
    · rw [hpicks]
      exact h.span
  next found hfound =>
    obtain ⟨hvisit, hmatch⟩ := mem_visits_of_found (List.mem_of_find?_eq_some hfound)
    have hfresh : found.place ∉ choices.map Choice.place ++ [[]] := by
      have hnew := List.find?_some hfound
      rw [h.places] at hnew
      simpa using hnew
    rw [List.mem_append, not_or, List.mem_singleton] at hfresh
    refine ⟨[⟨count, found.place, found.node⟩], ⟨?_, ?_, ?_, ?_⟩, ?_, ?_, ?_⟩
    · exact List.forall_mem_cons.2 ⟨⟨hvisit, hfresh.2⟩, h.areChoices.below⟩
    · exact List.nodup_cons.2 ⟨hfresh.1, h.areChoices.places⟩
    · refine List.nodup_cons.2 ⟨fun hmem => ?_, h.areChoices.statements⟩
      obtain ⟨choice, hchoice, heq⟩ := List.mem_map.1 hmem
      exact absurd (h.early choice hchoice) (by rw [heq]; exact Nat.lt_irrefl _)
    · exact List.forall_mem_cons.2 ⟨⟨statement, hstatement, hmatch⟩, h.areChoices.agree⟩
    · exact List.forall_mem_cons.2 ⟨Nat.lt_succ_self _, fun choice hchoice =>
        Nat.lt_succ_of_lt (h.early choice hchoice)⟩
    · rw [hpicks, h.places]
      rfl
    · rw [hpicks]
      refine Or.inr ⟨_, rfl, ?_⟩
      rcases h.span with ⟨hnone, rfl⟩ | ⟨s, hsome, hhull⟩
      · rw [hnone]
        exact Span.isHull_singleton _
      · rw [hsome]
        exact hhull.cover _

/-- The first statement that has a match below the block picks one: nothing was picked before. -/
theorem Records.chooses_first (h : Records cx matched query (count + 1) choices)
    (hfirst : IsFirstWithMatch cx matched query count) :
    ∃ choice ∈ choices, choice.statement = count := by
  obtain ⟨⟨statement, hstatement, visit, hvisit, hroot, hmatch⟩, hearlier⟩ := hfirst
  -- the statement picks the match, or one in front of it, and neither is the block itself
  have hpicked : ∃ place ∈ (picksAfter cx matched query (count + 1)).places, place ≠ [] := by
    rw [picksAfter_succ hstatement]
    rcases mem_pick hvisit hmatch with hown | ⟨other, -, -, hfresh, hother⟩
    · exact ⟨_, hown, hroot⟩
    · exact ⟨_, hother, fun hblock => hfresh (hblock ▸ root_mem_picksAfter count)⟩
  obtain ⟨place, hplace, hplaceRoot⟩ := hpicked
  rw [h.places, List.mem_append, List.mem_singleton] at hplace
  obtain ⟨choice, hchoice, -⟩ := List.mem_map.1 (hplace.resolve_right hplaceRoot)
  refine ⟨choice, hchoice, ?_⟩
  obtain ⟨earlier, hstatement', hbelow⟩ := h.areChoices.hasMatchBelow hchoice
  have hbound := h.early choice hchoice
  by_contra hne
  exact hearlier choice.statement (by omega) earlier hstatement' hbelow

/-- The picks of so many statements are choices, among them that of the first statement that has a
match below the block. -/
theorem exists_records (cx : MatchContext) (matched : Node)
    (hcount : count ≤ query.children.length) :
    ∃ choices, Records cx matched query count choices ∧
      ∀ i < count, IsFirstWithMatch cx matched query i →
        ∃ choice ∈ choices, choice.statement = i := by
  induction count with
  | zero => exact ⟨[], records_zero, fun i hi => absurd hi (Nat.not_lt_zero i)⟩
  | succ count ih =>
      obtain ⟨choices, hrecords, hfirst⟩ := ih (by omega)
      obtain ⟨more, hmore⟩ := hrecords.step (List.getElem?_eq_getElem hcount)
      refine ⟨more ++ choices, hmore, fun i hi hfirstMatch => ?_⟩
      rcases Nat.lt_succ_iff_lt_or_eq.1 hi with hi | rfl
      · obtain ⟨choice, hchoice, heq⟩ := hfirst i hi hfirstMatch
        exact ⟨choice, List.mem_append_right _ hchoice, heq⟩
      · exact hmore.chooses_first hfirstMatch

/-- If any statement has a match below the block, there is a first one. -/
theorem exists_isFirstWithMatch
    (h : ∃ statement ∈ query.children, HasMatchBelow cx matched statement) :
    ∃ i < query.children.length, IsFirstWithMatch cx matched query i := by
  have hsome : ∃ i : Nat, ∃ statement, query.children[i]? = some statement ∧
      HasMatchBelow cx matched statement := by
    obtain ⟨statement, hmem, hbelow⟩ := h
    obtain ⟨i, hi⟩ := List.mem_iff_getElem?.1 hmem
    exact ⟨i, statement, hi, hbelow⟩
  classical
  obtain ⟨statement, hstatement, hbelow⟩ := Nat.find_spec hsome
  refine ⟨Nat.find hsome, (List.getElem?_eq_some_iff.1 hstatement).1,
    ⟨statement, hstatement, hbelow⟩, fun j hj earlier hearlier hmatch => ?_⟩
  exact Nat.find_min hsome hj ⟨earlier, hearlier, hmatch⟩

/-- Where a statement has chosen a node, it has a match below the block. -/
theorem AreChoices.exists_hasMatchBelow (h : AreChoices cx matched query choices) {choice : Choice}
    (hchoice : choice ∈ choices) : ∃ statement ∈ query.children,
      HasMatchBelow cx matched statement := by
  obtain ⟨statement, hstatement, hbelow⟩ := h.hasMatchBelow hchoice
  exact ⟨statement, List.mem_of_getElem? hstatement, hbelow⟩

end Choices

/-! ## The span that is reported -/

/-- **What the narrowed span of a block is.** Whatever the rules of the grammar, and where nodes
stand within their parents, the span is within that of the block. If some statement of the query has
a match below the block, it is the hull of nodes that the statements choose there, among them one of
the first statement that has a match; otherwise it is the span of the block. -/
theorem narrowedSpan_within (cx : MatchContext) {root matched : Node} (query : Node)
    (hnest : root.SpansNest) (hmatched : matched ∈ root.walk) :
    matched.span.Contains (narrowedSpan cx matched query).1 ∧
      ((∃ statement ∈ query.children, HasMatchBelow cx matched statement) →
        ∃ choices, AreChoices cx matched query choices ∧
          (∀ i, IsFirstWithMatch cx matched query i →
            ∃ choice ∈ choices, choice.statement = i) ∧
          (narrowedSpan cx matched query).1.IsHull
            (choices.map fun choice => choice.node.span)) ∧
      ((¬ ∃ statement ∈ query.children, HasMatchBelow cx matched statement) →
        (narrowedSpan cx matched query).1 = matched.span) := by
  obtain ⟨choices, hrecords, hfirst⟩ :=
    exists_records cx matched (Nat.le_refl query.children.length)
  have hchosen : (∃ statement ∈ query.children, HasMatchBelow cx matched statement) →
      ∃ choice, choice ∈ choices := by
    intro hbelow
    obtain ⟨i, hi, hfirstMatch⟩ := exists_isFirstWithMatch hbelow
    obtain ⟨choice, hchoice, -⟩ := hfirst i hi hfirstMatch
    exact ⟨choice, hchoice⟩
  rw [narrowedSpan_eq]
  rcases hrecords.span with ⟨hnone, rfl⟩ | ⟨s, hsome, hhull⟩
  · rw [hnone]
    refine ⟨Span.Contains.refl _, fun hbelow => ?_, fun _ => rfl⟩
    obtain ⟨choice, hchoice⟩ := hchosen hbelow
    exact absurd hchoice List.not_mem_nil
  · rw [hsome]
    refine ⟨hhull.least fun t ht => ?_, fun _ => ⟨choices, hrecords.areChoices, ?_, hhull⟩, ?_⟩
    · obtain ⟨choice, hchoice, rfl⟩ := List.mem_map.1 ht
      exact (hnest.of_mem_walk hmatched).contains
        (Node.mem_walk_of_visit (hrecords.areChoices.below choice hchoice).1)
    · intro i hfirstMatch
      obtain ⟨statement, hstatement, -⟩ := hfirstMatch.1
      exact hfirst i (List.getElem?_eq_some_iff.1 hstatement).1 hfirstMatch
    · intro hnothing
      obtain ⟨t, ht, -⟩ := hhull.start
      obtain ⟨choice, hchoice, -⟩ := List.mem_map.1 ht
      exact absurd (hrecords.areChoices.exists_hasMatchBelow hchoice) hnothing

/-- In `a(b()); b()` the second of the statements `a($$$); b()` chooses the call that is nested in
what the first one has chosen. -/
theorem narrowedSpan_within_nested :
    callsOfB.SpansNest ∧ (narrowedSpan (callsIn .exact) callsOfB queryForB).1 = lineSpan 0 6 ∧
      callsOfB.span.Contains (narrowedSpan (callsIn .exact) callsOfB queryForB).1 ∧
      ∃ choices, AreChoices (callsIn .exact) callsOfB queryForB choices ∧
        (∃ choice ∈ choices, choice.statement = 0) ∧
        (narrowedSpan (callsIn .exact) callsOfB queryForB).1.IsHull
          (choices.map fun choice => choice.node.span) := by
  have hnest : callsOfB.SpansNest := by decide +kernel
  have hfirst : HasMatchBelow (callsIn .exact) callsOfB (callAt "a" 0 6 [namedAt "$$$" 2]) := by
    decide +kernel
  obtain ⟨hwithin, hchosen, -⟩ :=
    narrowedSpan_within (callsIn .exact) queryForB hnest (Node.mem_walk_self callsOfB)
  obtain ⟨choices, hchoices, hrepresented, hhull⟩ := hchosen ⟨_, List.mem_cons_self, hfirst⟩
  exact ⟨hnest, by decide +kernel, hwithin, choices, hchoices,
    hrepresented 0 ⟨⟨_, rfl, hfirst⟩, fun j hj => absurd hj (Nat.not_lt_zero j)⟩, hhull⟩

end CodeSearch

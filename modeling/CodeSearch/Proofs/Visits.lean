import CodeSearch.Proofs.Attempts

/-!
# The places a traversal visits

A place leads down a tree step by step. The nodes of a tree stand at places of their own, so that
equal nodes are told apart, and a traversal visits each place once: it reports the nodes that match,
in the order in which the tree is walked, with what each of them bound by itself.
-/

set_option autoImplicit false

namespace CodeSearch

/-! ## Where a place leads -/

/-- The child that a step leads to. -/
def Node.childAt? (n : Node) (step : Nat × Nat) : Option Node :=
  n.fields[step.1]?.bind fun entry => entry.2.members[step.2]?

/-- The node that a place leads to, from the root of a tree. -/
def Node.nodeAt? (root : Node) : Place → Option Node
  | [] => some root
  | step :: place => (root.nodeAt? place).bind (·.childAt? step)

section At

variable {root : Node}

mutual

theorem Node.nodeAt?_of_mem_visits {place : Place} {n : Node} (hn : root.nodeAt? place = some n) :
    ∀ visit ∈ n.visits place, root.nodeAt? visit.1 = some visit.2 := by
  intro visit hvisit
  cases n with
  | mk kind text fields span =>
      rw [Node.visits] at hvisit
      rcases List.mem_cons.1 hvisit with rfl | hvisit
      · exact hn
      · refine Field.nodeAt?_of_mem_visitsEntries (i := 0) hn (fun k => ?_) visit hvisit
        rw [Node.fields_mk, Nat.zero_add]

theorem Field.nodeAt?_of_mem_visits {place : Place} {i : Nat} {f : Field}
    (hf : ∀ k, root.nodeAt? ((i, k) :: place) = f.members[k]?) :
    ∀ visit ∈ f.visits place i, root.nodeAt? visit.1 = some visit.2 := by
  cases f with
  | node child => exact Node.nodeAt?_of_mem_visits (hf 0)
  | nodes children =>
      exact Node.nodeAt?_of_mem_visitsList fun k => (congrArg _ (by rw [Nat.zero_add])).trans (hf k)
  | token text => exact fun visit hvisit => absurd hvisit List.not_mem_nil

theorem Node.nodeAt?_of_mem_visitsList {place : Place} {i j : Nat} {nodes : List Node}
    (hnodes : ∀ k, root.nodeAt? ((i, j + k) :: place) = nodes[k]?) :
    ∀ visit ∈ Node.visitsList place i j nodes, root.nodeAt? visit.1 = some visit.2 := by
  intro visit hvisit
  cases nodes with
  | nil => exact absurd hvisit List.not_mem_nil
  | cons node rest =>
      rw [Node.visitsList] at hvisit
      rcases List.mem_append.1 hvisit with hvisit | hvisit
      · exact Node.nodeAt?_of_mem_visits (hnodes 0) visit hvisit
      · refine Node.nodeAt?_of_mem_visitsList (fun k => ?_) visit hvisit
        rw [Nat.add_assoc, Nat.add_comm 1, hnodes, List.getElem?_cons_succ]

theorem Field.nodeAt?_of_mem_visitsEntries {place : Place} {i : Nat} {n : Node}
    {fields : List (String × Field)} (hn : root.nodeAt? place = some n)
    (hfields : ∀ k, n.fields[i + k]? = fields[k]?) :
    ∀ visit ∈ Field.visitsEntries place i fields, root.nodeAt? visit.1 = some visit.2 := by
  intro visit hvisit
  cases fields with
  | nil => exact absurd hvisit List.not_mem_nil
  | cons entry rest =>
      obtain ⟨name, field⟩ := entry
      rw [Field.visitsEntries] at hvisit
      rcases List.mem_append.1 hvisit with hvisit | hvisit
      · refine Field.nodeAt?_of_mem_visits (fun k => ?_) visit hvisit
        have hentry := hfields 0
        rw [Nat.add_zero, List.getElem?_cons_zero] at hentry
        rw [Node.nodeAt?, hn, Option.bind_some, Node.childAt?, hentry, Option.bind_some]
      · refine Field.nodeAt?_of_mem_visitsEntries hn (fun k => ?_) visit hvisit
        rw [Nat.add_assoc, Nat.add_comm 1, hfields, List.getElem?_cons_succ]

end

end At

/-! ## No place is visited twice -/

/-- Of two steps on from one place that lie on one way down, each is the other. -/
theorem Place.step_unique {place way : Place} {a b : Nat × Nat} (ha : (a :: place) <:+ way)
    (hb : (b :: place) <:+ way) : a = b := by
  have hsuffix : (a :: place) <:+ (b :: place) :=
    List.suffix_of_suffix_length_le ha hb (Nat.le_refl _)
  exact (List.cons.inj (hsuffix.eq_of_length rfl)).1

mutual

/-- What is visited below a node lies on from its place. -/
theorem Node.suffix_of_mem_visits {place : Place} {n : Node} :
    ∀ visit ∈ n.visits place, place <:+ visit.1 := by
  intro visit hvisit
  cases n with
  | mk kind text fields span =>
      rw [Node.visits] at hvisit
      rcases List.mem_cons.1 hvisit with rfl | hvisit
      · exact List.suffix_rfl
      · obtain ⟨i, j, -, hsuffix⟩ := Field.suffix_of_mem_visitsEntries visit hvisit
        exact (List.suffix_cons _ _).trans hsuffix

theorem Field.suffix_of_mem_visits {place : Place} {i : Nat} {f : Field} :
    ∀ visit ∈ f.visits place i, ∃ j, ((i, j) :: place) <:+ visit.1 := by
  intro visit hvisit
  cases f with
  | node child => exact ⟨0, Node.suffix_of_mem_visits visit hvisit⟩
  | nodes children =>
      obtain ⟨j, -, hsuffix⟩ := Node.suffix_of_mem_visitsList visit hvisit
      exact ⟨j, hsuffix⟩
  | token text => exact absurd hvisit List.not_mem_nil

theorem Node.suffix_of_mem_visitsList {place : Place} {i j : Nat} {nodes : List Node} :
    ∀ visit ∈ Node.visitsList place i j nodes, ∃ k, j ≤ k ∧ ((i, k) :: place) <:+ visit.1 := by
  intro visit hvisit
  cases nodes with
  | nil => exact absurd hvisit List.not_mem_nil
  | cons node rest =>
      rw [Node.visitsList] at hvisit
      rcases List.mem_append.1 hvisit with hvisit | hvisit
      · exact ⟨j, Nat.le_refl _, Node.suffix_of_mem_visits visit hvisit⟩
      · obtain ⟨k, hk, hsuffix⟩ := Node.suffix_of_mem_visitsList visit hvisit
        exact ⟨k, by omega, hsuffix⟩

theorem Field.suffix_of_mem_visitsEntries {place : Place} {i : Nat}
    {fields : List (String × Field)} :
    ∀ visit ∈ Field.visitsEntries place i fields,
      ∃ k j, i ≤ k ∧ ((k, j) :: place) <:+ visit.1 := by
  intro visit hvisit
  cases fields with
  | nil => exact absurd hvisit List.not_mem_nil
  | cons entry rest =>
      obtain ⟨name, field⟩ := entry
      rw [Field.visitsEntries] at hvisit
      rcases List.mem_append.1 hvisit with hvisit | hvisit
      · obtain ⟨j, hsuffix⟩ := Field.suffix_of_mem_visits visit hvisit
        exact ⟨i, j, Nat.le_refl _, hsuffix⟩
      · obtain ⟨k, j, hk, hsuffix⟩ := Field.suffix_of_mem_visitsEntries visit hvisit
        exact ⟨k, j, by omega, hsuffix⟩

end

mutual

/-- The nodes of a tree stand at places of their own. -/
theorem Node.visits_nodup {place : Place} (n : Node) : ((n.visits place).map Prod.fst).Nodup := by
  cases n with
  | mk kind text fields span =>
      rw [Node.visits, List.map_cons, List.nodup_cons]
      refine ⟨fun hmem => ?_, Field.visitsEntries_nodup fields⟩
      obtain ⟨visit, hvisit, heq⟩ := List.mem_map.1 hmem
      obtain ⟨k, j, -, hsuffix⟩ := Field.suffix_of_mem_visitsEntries visit hvisit
      have hlonger := hsuffix.length_le
      simp only [heq, List.length_cons] at hlonger
      omega

theorem Field.visits_nodup {place : Place} {i : Nat} (f : Field) :
    ((f.visits place i).map Prod.fst).Nodup := by
  cases f with
  | node child => exact Node.visits_nodup child
  | nodes children => exact Node.visitsList_nodup children
  | token text => exact List.nodup_nil

theorem Node.visitsList_nodup {place : Place} {i j : Nat} (nodes : List Node) :
    ((Node.visitsList place i j nodes).map Prod.fst).Nodup := by
  cases nodes with
  | nil => exact List.nodup_nil
  | cons node rest =>
      rw [Node.visitsList, List.map_append]
      refine (Node.visits_nodup node).append (Node.visitsList_nodup rest) ?_
      -- the places in the first tree and those in the later ones part at the first step
      intro way hfirst hlater
      obtain ⟨visit, hvisit, rfl⟩ := List.mem_map.1 hfirst
      obtain ⟨visit', hvisit', heq⟩ := List.mem_map.1 hlater
      obtain ⟨k, hk, hsuffix⟩ := Node.suffix_of_mem_visitsList visit' hvisit'
      have hstep := Place.step_unique (Node.suffix_of_mem_visits visit hvisit) (heq ▸ hsuffix)
      rw [Prod.mk.injEq] at hstep
      omega

theorem Field.visitsEntries_nodup {place : Place} {i : Nat} (fields : List (String × Field)) :
    ((Field.visitsEntries place i fields).map Prod.fst).Nodup := by
  cases fields with
  | nil => exact List.nodup_nil
  | cons entry rest =>
      obtain ⟨name, field⟩ := entry
      rw [Field.visitsEntries, List.map_append]
      refine (Field.visits_nodup field).append (Field.visitsEntries_nodup rest) ?_
      intro way hfirst hlater
      obtain ⟨visit, hvisit, rfl⟩ := List.mem_map.1 hfirst
      obtain ⟨visit', hvisit', heq⟩ := List.mem_map.1 hlater
      obtain ⟨j, hsuffix⟩ := Field.suffix_of_mem_visits visit hvisit
      obtain ⟨k, j', hk, hsuffix'⟩ := Field.suffix_of_mem_visitsEntries visit' hvisit'
      have hstep := Place.step_unique hsuffix (heq ▸ hsuffix')
      rw [Prod.mk.injEq] at hstep
      omega

end

/-! ## What a traversal reports -/

section Reports

variable {cx : MatchContext}

theorem node_bindings_foundAt (query : Node) (visits : List (Place × Node)) :
    (visits.filterMap (foundAt cx query)).map (fun found => (found.node, found.bindings)) =
      (visits.map Prod.snd).filterMap fun n =>
        let tried := validate cx n query .empty
        if tried.agrees then some (n, tried.bindings) else none := by
  rw [List.map_filterMap, List.filterMap_map]
  refine List.filterMap_congr fun visit _ => ?_
  rw [foundAt]
  split
  next hagrees => exact (if_pos hagrees).symm
  next hagrees => exact (if_neg hagrees).symm

theorem places_foundAt_sublist (query : Node) (visits : List (Place × Node)) :
    ((visits.filterMap (foundAt cx query)).map Found.place).Sublist (visits.map Prod.fst) := by
  induction visits with
  | nil => exact List.Sublist.refl _
  | cons visit rest ih =>
      rw [List.filterMap_cons]
      cases hfound : foundAt cx query visit with
      | none => exact ih.cons _
      | some found =>
          obtain ⟨-, rfl⟩ := foundAt_eq_some.1 hfound
          exact ih.cons_cons _

end Reports

/-- **A traversal misses nothing and mixes nothing up.** Whatever the rules of the grammar, it
reports exactly the nodes of the tree that the query matches from no bindings, in the order in which
the tree is walked, each with the bindings that its own match ended with; and it reports no place
of the tree twice. -/
theorem traverse_eq_filterMap_walk (cx : MatchContext) (root query : Node) :
    ((traverse cx root query).found.map fun found => (found.node, found.bindings)) =
        (root.walk.filterMap fun n =>
          let tried := validate cx n query .empty
          if tried.agrees then some (n, tried.bindings) else none) ∧
      ((traverse cx root query).found.map Found.place).Nodup ∧
      ∀ found ∈ (traverse cx root query).found, root.nodeAt? found.place = some found.node := by
  rw [found_traverse]
  refine ⟨?_, (Node.visits_nodup root).sublist (places_foundAt_sublist query _), ?_⟩
  · rw [node_bindings_foundAt, Node.visits_snd]
  · intro found hfound
    obtain ⟨visit, hvisit, hsome⟩ := List.mem_filterMap.1 hfound
    obtain ⟨-, rfl⟩ := foundAt_eq_some.1 hsome
    exact Node.nodeAt?_of_mem_visits rfl visit hvisit

end CodeSearch

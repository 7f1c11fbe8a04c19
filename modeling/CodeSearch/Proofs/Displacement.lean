import CodeSearch.Proofs.Environment

/-!
# Claiming again where further code is ignored

Elements of a query that have a place each in a list of the file, in the order of the list, choose
again where further code is ignored: one after another, the most constrained first, each taking
the first element that it matches. They all find something to claim if none takes the place of
another that needs it. Either every element claims its own place; or elements may claim others as
long as what they bind does not matter elsewhere and only those lose their places that match
anything.
-/

set_option autoImplicit false

namespace CodeSearch

/-! ## Steps that can be repeated -/

section Repeatable

/-- Bindings are **ready** for a step with some aliases: those that are shared stand for nothing or
for what the environment has, and the others stand for nothing. -/
def MatchContext.Ready (cx : MatchContext) (env : Bindings) (shared : Alias → Prop)
    (aliases : List Alias) (b : Bindings) : Prop :=
  ∀ a ∈ aliases, (shared a → cx.Compatible env b a) ∧ (¬ shared a → b.Unbound a)

/-- A step is **repeatable** in an environment: local to its aliases, it succeeds from bindings that
are ready, and the shared aliases stay compatible. -/
structure Repeatable (cx : MatchContext) (env : Bindings) (shared : Alias → Prop)
    (aliases : List Alias) (run : Bindings → Validation) : Prop where
  locality : Local aliases fun b => (run b).result
  succeeds : ∀ b, cx.Ready env shared aliases b → (run b).agrees = true ∧
    ∀ a ∈ aliases, shared a → cx.Compatible env (run b).bindings a

variable {cx : MatchContext} {env b : Bindings} {shared : Alias → Prop}
  {aliases others : List Alias} {run : Bindings → Validation}

theorem MatchContext.Ready.subset (h : cx.Ready env shared aliases b) (hsubset : others ⊆ aliases) :
    cx.Ready env shared others b :=
  fun a ha => h a (hsubset ha)

theorem MatchContext.Ready.compatible (h : cx.Ready env shared aliases b) {a : Alias}
    (ha : a ∈ aliases) : cx.Compatible env b a := by
  by_cases hshared : shared a
  · exact (h a ha).1 hshared
  · exact MatchContext.compatible_of_unbound ((h a ha).2 hshared)

theorem MatchContext.Ready.congr {c : Bindings} (h : cx.Ready env shared aliases b)
    (hsame : b.SameOn c aliases) : cx.Ready env shared aliases c :=
  fun a ha => ⟨fun hshared => ((h a ha).1 hshared).congr (hsame a ha),
    fun hshared => (hsame a ha).unbound ((h a ha).2 hshared)⟩

/-- After a step, bindings are ready for another with which it has only shared aliases in common. -/
theorem MatchContext.Ready.after {α : Type} {step : Bindings → α × Bindings}
    (hothers : cx.Ready env shared others b) (hlocal : Local aliases step)
    (hcompatible : ∀ a ∈ aliases, shared a → cx.Compatible env (step b).2 a)
    (hapart : ∀ a ∈ aliases, a ∈ others → shared a) :
    cx.Ready env shared others (step b).2 := by
  intro a ha
  by_cases hmem : a ∈ aliases
  · exact ⟨hcompatible a hmem, fun hshared => absurd (hapart a hmem ha) hshared⟩
  · have hsame := hlocal.frame b a hmem
    exact ⟨fun hshared => ((hothers a ha).1 hshared).congr hsame,
      fun hshared => hsame.unbound ((hothers a ha).2 hshared)⟩

namespace Repeatable

theorem mono (h : Repeatable cx env shared aliases run) (hsubset : aliases ⊆ others) :
    Repeatable cx env shared others run where
  locality := h.locality.mono hsubset
  succeeds b hb := by
    obtain ⟨hagrees, hcompatible⟩ := h.succeeds b (hb.subset hsubset)
    refine ⟨hagrees, fun a ha hshared => ?_⟩
    by_cases hmem : a ∈ aliases
    · exact hcompatible a hmem hshared
    · exact ((hb a ha).1 hshared).congr (h.locality.frame b a hmem)

/-- After a repeatable step, bindings are ready for others with which it has only shared aliases in
common. -/
theorem ready_after (h : Repeatable cx env shared aliases run)
    (hb : cx.Ready env shared aliases b) (hothers : cx.Ready env shared others b)
    (hapart : ∀ a ∈ aliases, a ∈ others → shared a) :
    cx.Ready env shared others (run b).bindings :=
  hothers.after h.locality (h.succeeds b hb).2 hapart

/-- Steps that have only shared aliases in common are repeatable in turn. -/
theorem inTurn {α : Type} {r : α → Bindings → Validation} {aliases : α → List Alias} {xs : List α}
    (h : ∀ x ∈ xs, Repeatable cx env shared (aliases x) (r x))
    (hapart : xs.Pairwise fun x y => ∀ a ∈ aliases x, a ∈ aliases y → shared a) :
    Repeatable cx env shared (xs.flatMap aliases) (Validation.inTurn (xs.map r)) := by
  induction xs with
  | nil => exact ⟨Local.of_constant _ _, fun b _ => ⟨rfl, by simp⟩⟩
  | cons x rest ih =>
      obtain ⟨hx, hrest⟩ := List.forall_mem_cons.1 h
      obtain ⟨hxrest, hpairs⟩ := List.pairwise_cons.1 hapart
      have hlater := ih hrest hpairs
      refine ⟨inTurn_local (List.forall_mem_map.2 fun y hy =>
        (h y hy).locality.mono fun a ha => List.mem_flatMap.2 ⟨y, hy, ha⟩), fun b hb => ?_⟩
      rw [List.flatMap_cons] at hb ⊢
      have hbx := hb.subset (List.subset_append_left _ _)
      obtain ⟨hagrees, hcompatible⟩ := hx.succeeds b hbx
      have hready : cx.Ready env shared (rest.flatMap aliases) (r x b).bindings := by
        refine hx.ready_after hbx (hb.subset (List.subset_append_right _ _)) fun a ha hmem => ?_
        obtain ⟨y, hy, hay⟩ := List.mem_flatMap.1 hmem
        exact hxrest y hy a ha hay
      obtain ⟨hagrees', hcompatible'⟩ := hlater.succeeds _ hready
      obtain ⟨hturn, hbindings⟩ := inTurn_cons (r := r) x rest b
      rw [hturn, hbindings hagrees, hagrees, hagrees']
      refine ⟨rfl, fun a ha hshared => ?_⟩
      by_cases hmem : a ∈ rest.flatMap aliases
      · exact hcompatible' a hmem hshared
      · have hax : a ∈ aliases x := (List.mem_append.1 ha).resolve_right hmem
        exact (hcompatible a hax hshared).congr (hlater.locality.frame _ a hmem)

end Repeatable

end Repeatable

/-! ## The order in which elements choose -/

namespace Specificity

theorem before_trans {a b c : Specificity} (hab : a.before b = true) (hbc : b.before c = true) :
    a.before c = true := by
  simp only [before, Bool.or_eq_true, Bool.and_eq_true, decide_eq_true_eq, beq_iff_eq] at *
  omega

theorem before_total (a b : Specificity) : a.before b = true ∨ b.before a = true := by
  simp only [before, Bool.or_eq_true, Bool.and_eq_true, decide_eq_true_eq, beq_iff_eq]
  omega

theorem rank_le (cx : MatchContext) (n : Node) : (ofNode cx n).rank ≤ 2 := by
  unfold ofNode
  dsimp only
  split
  next => exact Nat.zero_le _
  next => split <;> simp

end Specificity

section Order

variable {cx : MatchContext}

/-- Whether a query node may choose before another. -/
def MatchContext.mayPrecede (cx : MatchContext) (m n : Node) : Bool :=
  (Specificity.ofNode cx m).before (Specificity.ofNode cx n)

/-- A query node that is a wildcard for subtrees. -/
def MatchContext.IsTreeWildcard (cx : MatchContext) (n : Node) : Prop :=
  (Specificity.ofNode cx n).rank = 2

instance (n : Node) : Decidable (cx.IsTreeWildcard n) :=
  inferInstanceAs (Decidable ((Specificity.ofNode cx n).rank = 2))

theorem MatchContext.IsTreeWildcard.exists_name {n : Node} (h : cx.IsTreeWildcard n) :
    ∃ text, cx.nameWildcard? n = some text ∧ cx.markers.isNodeTree text = true := by
  unfold IsTreeWildcard Specificity.ofNode at h
  dsimp only at h
  split at h
  next => simp at h
  next text htext =>
    split at h
    next htree => exact ⟨text, htext, htree⟩
    next => simp at h

/-- What chooses after a wildcard for subtrees is one itself. -/
theorem MatchContext.IsTreeWildcard.of_mayPrecede {m n : Node} (h : cx.IsTreeWildcard m)
    (hmn : cx.mayPrecede m n = true) : cx.IsTreeWildcard n := by
  have hle := Specificity.rank_le cx n
  simp only [mayPrecede, Specificity.before, Bool.or_eq_true, Bool.and_eq_true, decide_eq_true_eq,
    beq_iff_eq] at hmn
  unfold IsTreeWildcard at h ⊢
  omega

theorem insertToChoose_pairwise (a : Placed) {order : List Placed}
    (h : order.Pairwise fun x y => cx.mayPrecede x.2 y.2 = true) :
    (insertToChoose cx a order).Pairwise fun x y => cx.mayPrecede x.2 y.2 = true := by
  induction order with
  | nil => exact List.pairwise_singleton _ a
  | cons b rest ih =>
      obtain ⟨hb, hrest⟩ := List.pairwise_cons.1 h
      rw [insertToChoose]
      split
      next hab =>
        refine List.pairwise_cons.2 ⟨List.forall_mem_cons.2 ⟨hab, fun c hc => ?_⟩, h⟩
        exact Specificity.before_trans hab (hb c hc)
      next hab =>
        refine List.pairwise_cons.2 ⟨fun c hc => ?_, ih hrest⟩
        rcases List.mem_cons.1 ((insertToChoose_perm cx a rest).mem_iff.1 hc) with rfl | hc
        · exact (Specificity.before_total _ _).resolve_left hab
        · exact hb c hc

/-- The most constrained elements choose first. -/
theorem choosingOrder_pairwise (cx : MatchContext) (query : List Node) :
    (choosingOrder cx query).Pairwise fun x y => cx.mayPrecede x.2 y.2 = true := by
  rw [choosingOrder]
  induction placed query with
  | nil => exact List.Pairwise.nil
  | cons a rest ih => exact insertToChoose_pairwise a ih

theorem insertToChoose_stable {a : Placed} {order : List Placed}
    (h : order.Pairwise fun x y => cx.mayPrecede y.2 x.2 = true → x.1 < y.1)
    (ha : ∀ e ∈ order, a.1 < e.1) :
    (insertToChoose cx a order).Pairwise fun x y => cx.mayPrecede y.2 x.2 = true → x.1 < y.1 := by
  induction order with
  | nil => exact List.pairwise_singleton _ a
  | cons b rest ih =>
      obtain ⟨hb, hrest⟩ := List.pairwise_cons.1 h
      rw [insertToChoose]
      split
      next hab => exact List.pairwise_cons.2 ⟨fun e he _ => ha e he, h⟩
      next hab =>
        refine List.pairwise_cons.2
          ⟨fun e he => ?_, ih hrest fun e he => ha e (List.mem_cons_of_mem _ he)⟩
        rcases List.mem_cons.1 ((insertToChoose_perm cx a rest).mem_iff.1 he) with rfl | he
        · exact fun hprecede => absurd hprecede hab
        · exact hb e he

theorem placed_pairwise (nodes : List Node) : (placed nodes).Pairwise fun x y => x.1 < y.1 := by
  rw [← List.pairwise_map, placed_fst]
  exact List.pairwise_lt_range

/-- Elements that may choose before each other do so in the order of the list. -/
theorem choosingOrder_stable (cx : MatchContext) (query : List Node) :
    (choosingOrder cx query).Pairwise fun x y => cx.mayPrecede y.2 x.2 = true → x.1 < y.1 := by
  have hsorted := placed_pairwise query
  rw [choosingOrder]
  generalize placed query = entries at hsorted
  induction entries with
  | nil => exact List.Pairwise.nil
  | cons a rest ih =>
      obtain ⟨ha, hrest⟩ := List.pairwise_cons.1 hsorted
      exact insertToChoose_stable (ih hrest) fun e he =>
        ha e ((foldr_insertToChoose_perm cx rest).mem_iff.1 he)

/-- Of two elements, the one in front chooses first if it may. -/
theorem mem_earlier_of_mayPrecede {query : List Node} {x y : Placed} {earlier later : List Placed}
    (hx : x ∈ placed query) (hlt : x.1 < y.1) (hxy : cx.mayPrecede x.2 y.2 = true)
    (horder : choosingOrder cx query = earlier ++ y :: later) : x ∈ earlier := by
  have hmem := (choosingOrder_perm cx query).mem_iff.2 hx
  have hstable := choosingOrder_stable cx query
  rw [horder] at hmem hstable
  rcases List.mem_append.1 hmem with hmem | hmem
  · exact hmem
  · rcases List.mem_cons.1 hmem with rfl | hmem
    · exact absurd hlt (Nat.lt_irrefl _)
    · obtain ⟨-, hlater, -⟩ := List.pairwise_append.1 hstable
      have := (List.pairwise_cons.1 hlater).1 x hmem hxy
      omega

/-- What holds of any two elements of a list holds of them in the order in which they choose. -/
theorem pairwise_choosingOrder {R : Placed → Placed → Prop} (hsymm : ∀ {x y}, R x y → R y x)
    {query : List Node} (h : (placed query).Pairwise R) : (choosingOrder cx query).Pairwise R :=
  ((choosingOrder_perm cx query).pairwise_iff hsymm).2 h

theorem pairwise_nodes_choosingOrder {R : Node → Node → Prop} (hsymm : ∀ {m n}, R m n → R n m)
    {query : List Node} (h : query.Pairwise R) :
    (choosingOrder cx query).Pairwise fun x y => R x.2 y.2 := by
  refine pairwise_choosingOrder hsymm ?_
  rwa [← List.pairwise_map (f := Prod.snd) (R := R), placed_snd]

/-- What the elements of a list give, they give in the order in which they choose as well. -/
theorem mem_flatMap_choosingOrder {β : Type} {query : List Node} {g : Node → List β} {b : β} :
    b ∈ query.flatMap g ↔ b ∈ (choosingOrder cx query).flatMap fun q => g q.2 := by
  have hplaced : query.flatMap g = (placed query).flatMap fun q => g q.2 := by
    rw [← List.flatMap_map Prod.snd g, placed_snd]
  rw [hplaced]
  exact ((choosingOrder_perm cx query).symm.flatMap_right _).mem_iff

end Order

/-! ## Free elements in the order of their places -/

section Free

variable {free : List Placed} {p : Placed → Bool} {entry e : Placed}

/-- Where an element could be found, the first one that is stands in front of it or is it. -/
theorem exists_first (hsorted : free.Pairwise fun x y => x.1 < y.1) (he : e ∈ free)
    (hp : p e = true) :
    ∃ entry ∈ free, free.find? p = some entry ∧ p entry = true ∧ (entry.1 < e.1 ∨ entry = e) := by
  induction free with
  | nil => simp at he
  | cons head tail ih =>
      obtain ⟨hhead, htail⟩ := List.pairwise_cons.1 hsorted
      cases hcase : p head with
      | true =>
          refine ⟨head, List.mem_cons_self, by rw [List.find?_cons, hcase], hcase, ?_⟩
          rcases List.mem_cons.1 he with rfl | he
          · exact Or.inr rfl
          · exact Or.inl (hhead e he)
      | false =>
          rcases List.mem_cons.1 he with rfl | he
          · simp [hp] at hcase
          · obtain ⟨entry, hmem, hfind, hagrees, hfront⟩ := ih htail he
            refine ⟨entry, List.mem_cons_of_mem _ hmem, ?_, hagrees, hfront⟩
            rw [List.find?_cons, hcase]
            exact hfind

/-- What is left is all but the element found. -/
theorem mem_eraseP_of_find? (hsorted : free.Pairwise fun x y => x.1 < y.1)
    (h : free.find? p = some entry) : e ∈ free.eraseP p ↔ e ∈ free ∧ e.1 ≠ entry.1 := by
  induction free with
  | nil => simp at h
  | cons head tail ih =>
      obtain ⟨hhead, htail⟩ := List.pairwise_cons.1 hsorted
      rw [List.find?_cons] at h
      rw [List.eraseP_cons]
      cases hcase : p head with
      | true =>
          rw [hcase] at h
          obtain rfl := Option.some.inj h
          constructor
          · exact fun he => ⟨List.mem_cons_of_mem _ he, (Nat.ne_of_lt (hhead e he)).symm⟩
          · rintro ⟨he, hne⟩
            rcases List.mem_cons.1 he with rfl | he
            · exact absurd rfl hne
            · exact he
      | false =>
          rw [hcase] at h
          have hentry := hhead entry (List.mem_of_find?_eq_some h)
          show e ∈ head :: tail.eraseP p ↔ _
          rw [List.mem_cons, ih htail h, List.mem_cons]
          constructor
          · rintro (rfl | ⟨he, hne⟩)
            · exact ⟨Or.inl rfl, Nat.ne_of_lt hentry⟩
            · exact ⟨Or.inr he, hne⟩
          · rintro ⟨rfl | he, hne⟩
            · exact Or.inl rfl
            · exact Or.inr ⟨he, hne⟩

end Free

/-! ## Choosing again -/

section Choosing

variable {cx : MatchContext} {env : Bindings} {shared : Alias → Prop} {place : Nat → Nat}

/-- An element of the query **may claim** a node of the file where further code is ignored: it
matches the node from some bindings that are ready for it. -/
def MatchContext.MayClaim (cx : MatchContext) (env : Bindings) (shared : Alias → Prop)
    (file query : Node) : Prop :=
  ∃ b, cx.Ready env shared (cx.aliases query) b ∧
    (validate (cx.withMode .contained) file query b).agrees = true

theorem validate_contained_local (hbefore : cx.grammar.rulesBefore = [])
    (hafter : cx.grammar.rulesAfter = []) (file query : Node) :
    Local (cx.aliases query) fun b => (validate (cx.withMode .contained) file query b).result :=
  @validate_local (cx.withMode .contained) hbefore hafter file query

/-- **Everyone in their own place.** Elements that choose one after another all claim their own
places if these are free and no element may claim one in front of its own but those of elements
that choose before it. -/
theorem claimAll_own (hbefore : cx.grammar.rulesBefore = []) (hafter : cx.grammar.rulesAfter = [])
    {order free : List Placed} {b : Bindings}
    (hsorted : free.Pairwise fun x y => x.1 < y.1)
    (hown : ∀ q ∈ order, ∃ f, (place q.1, f) ∈ free ∧
      Repeatable cx env shared (cx.aliases q.2) (validate (cx.withMode .contained) f q.2))
    (hplaces : order.Pairwise fun x y => place x.1 ≠ place y.1)
    (hfirst : ∀ earlier q later, order = earlier ++ q :: later → ∀ e ∈ free, e.1 < place q.1 →
      cx.MayClaim env shared e.2 q.2 → ∃ q' ∈ earlier, place q'.1 = e.1)
    (hapart : order.Pairwise fun x y => ∀ a ∈ cx.aliases x.2, a ∈ cx.aliases y.2 → shared a)
    (hb : cx.Ready env shared (order.flatMap fun q => cx.aliases q.2) b) :
    (claimAll (validate (cx.withMode .contained)) order free b).places.isSome = true ∧
      ∀ a ∈ order.flatMap (fun q => cx.aliases q.2), shared a →
        cx.Compatible env (claimAll (validate (cx.withMode .contained)) order free b).bindings a :=
      by
  induction order generalizing free b with
  | nil => exact ⟨rfl, by simp⟩
  | cons head rest ih =>
      obtain ⟨i, query⟩ := head
      obtain ⟨⟨f, hf, hrepeat⟩, hownrest⟩ := List.forall_mem_cons.1 hown
      obtain ⟨hplace, hplacesrest⟩ := List.pairwise_cons.1 hplaces
      obtain ⟨hquery, hapartrest⟩ := List.pairwise_cons.1 hapart
      rw [List.flatMap_cons] at hb ⊢
      have hbquery := hb.subset (List.subset_append_left _ _)
      obtain ⟨hagrees, hcompatible⟩ := hrepeat.succeeds b hbquery
      -- the first one found is that in the element's own place
      have hfind : (free.find? fun e => (validate (cx.withMode .contained) e.2 query b).agrees) =
          some (place i, f) := by
        obtain ⟨entry, hmem, hentry, hmatches, hlt | rfl⟩ := exists_first
          (p := fun e => (validate (cx.withMode .contained) e.2 query b).agrees) hsorted hf hagrees
        · obtain ⟨q', hq', -⟩ :=
            hfirst [] (i, query) rest rfl entry hmem hlt ⟨b, hbquery, hmatches⟩
          simp at hq'
        · exact hentry
      obtain ⟨hclaims, hbindings⟩ := claimAll_of_find? i rest hfind
      have hleft := fun e : Placed => mem_eraseP_of_find? (e := e) hsorted hfind
      have hready := hrepeat.ready_after hbquery (hb.subset (List.subset_append_right _ _))
        fun a ha hmem => by
          obtain ⟨q, hq, haq⟩ := List.mem_flatMap.1 hmem
          exact hquery q hq a ha haq
      obtain ⟨hall, hcompatible'⟩ := ih (hsorted.sublist List.eraseP_sublist)
        (fun q hq => by
          obtain ⟨g, hg, hrepeatg⟩ := hownrest q hq
          exact ⟨g, (hleft _).2 ⟨hg, (hplace q hq).symm⟩, hrepeatg⟩)
        hplacesrest
        (fun earlier q later heq e he hlt hmay => by
          obtain ⟨hefree, hne⟩ := (hleft e).1 he
          obtain ⟨q', hq', hplace'⟩ := hfirst ((i, query) :: earlier) q later
            (by rw [heq, List.cons_append]) e hefree hlt hmay
          rcases List.mem_cons.1 hq' with rfl | hq'
          · exact absurd hplace'.symm hne
          · exact ⟨q', hq', hplace'⟩)
        hapartrest hready
      rw [hclaims, Option.isSome_map, hbindings]
      refine ⟨hall, fun a ha hshared => ?_⟩
      by_cases hmem : a ∈ rest.flatMap fun q => cx.aliases q.2
      · exact hcompatible' a hmem hshared
      · -- an alias of this element alone is not touched any more
        have hlocal : ∀ left : List Placed, Local (rest.flatMap fun q => cx.aliases q.2) fun b =>
            ((claimAll (validate (cx.withMode .contained)) rest left b).places,
              (claimAll (validate (cx.withMode .contained)) rest left b).bindings) := fun _ =>
          claimAll_local fun q hq f _ => (validate_contained_local hbefore hafter f.2 q.2).mono
            fun a ha => List.mem_flatMap.2 ⟨q, hq, ha⟩
        have haquery := (List.mem_append.1 ha).resolve_right hmem
        exact (hcompatible a haquery hshared).congr ((hlocal _).frame _ a hmem)

/-- Elements may claim **any places** among what is free: there is enough, those that are no
wildcards for subtrees find their own places free, and whatever one of them may claim in front of
its own is the place of one that chooses before it or no other's but those of wildcards for
subtrees, which match everything and choose last. -/
structure AnyPlace (cx : MatchContext) (env : Bindings) (shared : Alias → Prop)
    (place : Nat → Nat) (order free : List Placed) : Prop where
  sorted : free.Pairwise fun x y => x.1 < y.1
  enough : order.length ≤ free.length
  own : ∀ q ∈ order, ¬ cx.IsTreeWildcard q.2 → ∃ f, (place q.1, f) ∈ free ∧
    Repeatable cx env shared (cx.aliases q.2) (validate (cx.withMode .contained) f q.2)
  wildcards : ∀ q ∈ order, cx.IsTreeWildcard q.2 → ∀ e ∈ free, ∀ b,
    cx.Ready env shared (cx.aliases q.2) b →
      (validate (cx.withMode .contained) e.2 q.2 b).agrees = true
  apart : order.Pairwise fun x y => place x.1 ≠ place y.1
  chooses : order.Pairwise fun x y => cx.mayPrecede x.2 y.2 = true
  first : ∀ earlier q later, order = earlier ++ q :: later → ¬ cx.IsTreeWildcard q.2 →
    ∀ e ∈ free, e.1 < place q.1 → cx.MayClaim env shared e.2 q.2 →
      (∃ q' ∈ earlier, place q'.1 = e.1) ∨
        ∀ q' ∈ later, place q'.1 = e.1 → cx.IsTreeWildcard q'.2

namespace AnyPlace

variable {order free : List Placed} {i : Nat} {query : Node}

/-- The first element finds something to claim, and nothing that is needed by another which is no
wildcard for subtrees. -/
theorem exists_claim (h : AnyPlace cx env shared place ((i, query) :: order) free) {b : Bindings}
    (hb : cx.Ready env shared (cx.aliases query) b) :
    ∃ entry ∈ free,
      (free.find? fun e => (validate (cx.withMode .contained) e.2 query b).agrees) = some entry ∧
      (validate (cx.withMode .contained) entry.2 query b).agrees = true ∧
      ∀ q ∈ order, ¬ cx.IsTreeWildcard q.2 → place q.1 ≠ entry.1 := by
  have henough : 0 < free.length := Nat.lt_of_lt_of_le (Nat.succ_pos _) h.enough
  by_cases hwildcard : cx.IsTreeWildcard query
  · -- whatever chooses after a wildcard for subtrees is one as well
    obtain ⟨e, he⟩ := List.exists_mem_of_length_pos henough
    obtain ⟨entry, hmem, hentry, hmatches, -⟩ := exists_first
      (p := fun e => (validate (cx.withMode .contained) e.2 query b).agrees) h.sorted he
      (h.wildcards _ List.mem_cons_self hwildcard e he b hb)
    exact ⟨entry, hmem, hentry, hmatches, fun q hq hnot =>
      absurd (hwildcard.of_mayPrecede ((List.pairwise_cons.1 h.chooses).1 q hq)) hnot⟩
  · obtain ⟨f, hf, hrepeat⟩ := h.own _ List.mem_cons_self hwildcard
    obtain ⟨entry, hmem, hentry, hmatches, hfront⟩ := exists_first
      (p := fun e => (validate (cx.withMode .contained) e.2 query b).agrees) h.sorted hf
      (hrepeat.succeeds b hb).1
    refine ⟨entry, hmem, hentry, hmatches, fun q hq hnot hsame => ?_⟩
    rcases hfront with hlt | rfl
    · rcases h.first [] (i, query) order rfl hwildcard entry hmem hlt
        ⟨b, hb, hmatches⟩ with ⟨q', hq', -⟩ | htaken
      · simp at hq'
      · exact hnot (htaken q hq hsame)
    · exact (List.pairwise_cons.1 h.apart).1 q hq hsame.symm

/-- The others may claim any places among what the first one leaves. -/
theorem tail (h : AnyPlace cx env shared place ((i, query) :: order) free) {p : Placed → Bool}
    {entry : Placed} (hmem : entry ∈ free) (hentry : free.find? p = some entry)
    (hp : p entry = true)
    (hneeded : ∀ q ∈ order, ¬ cx.IsTreeWildcard q.2 → place q.1 ≠ entry.1) :
    AnyPlace cx env shared place order (free.eraseP p) := by
  have hleft := fun e : Placed => mem_eraseP_of_find? (e := e) h.sorted hentry
  have hlater : ∀ {q}, q ∈ order → q ∈ (i, query) :: order := List.mem_cons_of_mem _
  refine
    { sorted := h.sorted.sublist List.eraseP_sublist
      enough := ?_
      own := fun q hq hnot => ?_
      wildcards := fun q hq hwildcard e he =>
        h.wildcards q (hlater hq) hwildcard e (List.eraseP_subset he)
      apart := (List.pairwise_cons.1 h.apart).2
      chooses := (List.pairwise_cons.1 h.chooses).2
      first := fun earlier q later heq hnot e he hlt hmay => ?_ }
  · have henough := h.enough
    rw [List.length_cons] at henough
    rw [List.length_eraseP_of_mem hmem hp]
    omega
  · obtain ⟨g, hg, hrepeat⟩ := h.own q (hlater hq) hnot
    exact ⟨g, (hleft _).2 ⟨hg, hneeded q hq hnot⟩, hrepeat⟩
  · rcases h.first ((i, query) :: earlier) q later (by rw [heq, List.cons_append]) hnot e
      ((hleft e).1 he).1 hlt hmay with ⟨q', hq', hplace⟩ | htaken
    · rcases List.mem_cons.1 hq' with rfl | hq'
      · -- the place of the first element may be left, but is no other's
        refine Or.inr fun q'' hq'' hplace' => ?_
        have hmem : q'' ∈ order := by
          rw [heq]
          simp [hq'']
        exact absurd (hplace.trans hplace'.symm) ((List.pairwise_cons.1 h.apart).1 q'' hmem)
      · exact Or.inl ⟨q', hq', hplace⟩
    · exact Or.inr htaken

end AnyPlace

/-- **Any place will do** for elements that share no alias: they all find something to claim. -/
theorem claimAll_any {order free : List Placed} {b : Bindings}
    (h : AnyPlace cx env shared place order free)
    (hlocal : ∀ q ∈ order, ∀ f, Local (cx.aliases q.2) fun b =>
      (validate (cx.withMode .contained) f q.2 b).result)
    (hnone : ∀ q ∈ order, ∀ a ∈ cx.aliases q.2, ¬ shared a)
    (hapart : order.Pairwise fun x y => ∀ a ∈ cx.aliases x.2, a ∈ cx.aliases y.2 → shared a)
    (hb : cx.Ready env shared (order.flatMap fun q => cx.aliases q.2) b) :
    (claimAll (validate (cx.withMode .contained)) order free b).places.isSome = true := by
  induction order generalizing free b with
  | nil => rfl
  | cons head rest ih =>
      obtain ⟨i, query⟩ := head
      obtain ⟨hnonequery, hnonerest⟩ := List.forall_mem_cons.1 hnone
      obtain ⟨hlocalquery, hlocalrest⟩ := List.forall_mem_cons.1 hlocal
      obtain ⟨hquery, hapartrest⟩ := List.pairwise_cons.1 hapart
      rw [List.flatMap_cons] at hb
      obtain ⟨entry, hmem, hentry, hmatches, hneeded⟩ :=
        h.exists_claim (hb.subset (List.subset_append_left _ _))
      obtain ⟨hclaims, -⟩ := claimAll_of_find? i rest hentry
      rw [hclaims, Option.isSome_map]
      refine ih (h.tail hmem hentry hmatches hneeded) hlocalrest hnonerest hapartrest ?_
      refine (hb.subset (List.subset_append_right _ _)).after (hlocalquery entry.2)
        (fun a ha hshared => absurd hshared (hnonequery a ha)) fun a ha hmem => ?_
      obtain ⟨q, hq, haq⟩ := List.mem_flatMap.1 hmem
      exact hquery q hq a ha haq

/-- The elements of a list of the query that are placed at elements of the file's are
**undisplaced**: where one of them may claim an element in front of its own, that is the place of
one that chooses before it; or it is the place of none but wildcards for subtrees, and no alias in
the list is shared. -/
def MatchContext.Undisplaced (cx : MatchContext) (env : Bindings) (shared : Alias → Prop)
    (file query : List Node) (place : Nat → Nat) : Prop :=
  ∀ q ∈ placed query, ∀ f ∈ placed file, f.1 < place q.1 → cx.MayClaim env shared f.2 q.2 →
    (∃ q' ∈ placed query, place q'.1 = f.1 ∧ cx.mayPrecede q'.2 q.2 = true) ∨
      (∀ a ∈ cx.aliasesOf query, ¬ shared a) ∧
        ∀ q' ∈ placed query, place q'.1 = f.1 → cx.IsTreeWildcard q'.2

/-- A wildcard for subtrees whose alias stands for nothing matches every node that counts as a
name. -/
theorem MatchContext.IsTreeWildcard.agrees (hbefore : cx.grammar.rulesBefore = [])
    {f core q : Node} (hq : cx.IsTreeWildcard q) (hcore : cx.kinds.NameOf f core) {b : Bindings}
    (hb : ∀ a ∈ cx.ownAliases q, b.Unbound a) :
    (validate (cx.withMode .contained) f q b).agrees = true := by
  obtain ⟨text, hname, htree⟩ := hq.exists_name
  obtain ⟨found, hcompare, hagrees, hqueryKeys, hfileKeys⟩ :=
    compare_treeWildcard (cx.withMode .contained) hbefore rfl hname htree hcore b
  have hmatch : ((cx.withMode .contained).matchTree? text core b).isSome = true := by
    rw [MatchContext.matchTree?, MatchContext.treeAlias?_withMode]
    cases halias : cx.treeAlias? text with
    | none => rfl
    | some aliasName =>
        have hunbound : b.tree? aliasName = none := hb (.tree aliasName) (by
          rw [MatchContext.ownAliases_of_isNodeTree hname htree, halias]
          exact List.mem_singleton_self _)
        simp [Bindings.matchNode?_eq, hunbound]
  rw [validate_of_compare hcompare (hagrees.trans hmatch) (by rw [hqueryKeys, hfileKeys]),
    hqueryKeys, hfileKeys]
  rfl

/-- Elements that are undisplaced all find something to claim. -/
theorem claimAll_undisplaced (hbefore : cx.grammar.rulesBefore = [])
    (hafter : cx.grammar.rulesAfter = []) {file query : List Node}
    (hlength : query.length ≤ file.length)
    (hmono : ∀ q ∈ placed query, ∀ q' ∈ placed query, q.1 < q'.1 → place q.1 < place q'.1)
    (hown : ∀ q ∈ placed query, ∃ f, (place q.1, f) ∈ placed file ∧
      Repeatable cx env shared (cx.aliases q.2) (validate (cx.withMode .contained) f q.2))
    (hnames : ∀ f ∈ file, ∃ core, cx.kinds.NameOf f core)
    (hundisplaced : cx.Undisplaced env shared file query place)
    (hapart : query.Pairwise fun m n => ∀ a ∈ cx.aliases m, a ∈ cx.aliases n → shared a)
    {b : Bindings} (hb : cx.Ready env shared (cx.aliasesOf query) b) :
    (claimAll (validate (cx.withMode .contained)) (choosingOrder cx query) (placed file)
        b).places.isSome = true ∧
      ∀ a ∈ cx.aliasesOf query, shared a → cx.Compatible env
        (claimAll (validate (cx.withMode .contained)) (choosingOrder cx query) (placed file)
          b).bindings a := by
  have horder := choosingOrder_perm cx query
  have hmem : ∀ {q}, q ∈ choosingOrder cx query → q ∈ placed query := fun hq => horder.mem_iff.1 hq
  have hborder : cx.Ready env shared
      ((choosingOrder cx query).flatMap fun q => cx.aliases q.2) b :=
    hb.subset fun _ ha => mem_flatMap_choosingOrder.2 ha
  have hdistinct : (choosingOrder cx query).Pairwise fun x y => place x.1 ≠ place y.1 :=
    pairwise_choosingOrder Ne.symm ((placed_pairwise query).imp_of_mem fun hx hy hlt =>
      Nat.ne_of_lt (hmono _ hx _ hy hlt))
  have hapartorder : (choosingOrder cx query).Pairwise
      fun x y => ∀ a ∈ cx.aliases x.2, a ∈ cx.aliases y.2 → shared a :=
    pairwise_nodes_choosingOrder (fun h a ha hmem => h a hmem ha) hapart
  -- an element whose place is in front of another's and that may choose before it has done so
  have hearlier : ∀ {earlier q later q'}, choosingOrder cx query = earlier ++ q :: later →
      q' ∈ placed query → place q'.1 < place q.1 → cx.mayPrecede q'.2 q.2 = true →
        q' ∈ earlier := by
    intro earlier q later q' heq hq' hlt hprecede
    refine mem_earlier_of_mayPrecede hq' (Nat.lt_of_not_le fun hle => ?_) hprecede heq
    rcases Nat.eq_or_lt_of_le hle with hsame | hlt'
    · rw [hsame] at hlt
      exact Nat.lt_irrefl _ hlt
    · exact Nat.lt_asymm hlt (hmono _ (hmem (by rw [heq]; simp)) _ hq' hlt')
  by_cases hnone : ∀ a ∈ cx.aliasesOf query, ¬ shared a
  · -- nothing that is bound matters elsewhere
    have hnoneof : ∀ q ∈ choosingOrder cx query, ∀ a ∈ cx.aliases q.2, ¬ shared a :=
      fun q hq a ha => hnone a (mem_flatMap_choosingOrder.2 (List.mem_flatMap.2 ⟨q, hq, ha⟩))
    have hany : AnyPlace cx env shared place (choosingOrder cx query) (placed file) := by
      refine
        { sorted := placed_pairwise file
          enough := ?_
          own := fun q hq _ => hown q (hmem hq)
          wildcards := fun q hq hwildcard e he c hc => ?_
          apart := hdistinct
          chooses := choosingOrder_pairwise cx query
          first := fun earlier q later heq _ e he hlt hmay => ?_ }
      · rw [horder.length_eq, placed_length, placed_length]
        exact hlength
      · obtain ⟨core, hcore⟩ := hnames e.2 (List.mem_of_getElem? (mem_placed.1 he))
        refine hwildcard.agrees hbefore hcore fun a ha => ?_
        have hmemq := cx.ownAliases_subset _ ha
        exact (hc a hmemq).2 (hnoneof q hq a hmemq)
      · have hin : ∀ q' ∈ earlier ++ q :: later, q' ∈ placed query := fun q' hq' =>
          hmem (heq ▸ hq')
        rcases hundisplaced q (hin q (by simp)) e he hlt hmay with
          ⟨q', hq', hplace, hprecede⟩ | ⟨-, hwildcards⟩
        · exact Or.inl ⟨q', hearlier heq hq' (hplace ▸ hlt) hprecede, hplace⟩
        · exact Or.inr fun q' hq' => hwildcards q' (hin q' (by simp [hq']))
    exact ⟨claimAll_any hany (fun q _ f => validate_contained_local hbefore hafter f q.2) hnoneof
      hapartorder hborder, fun a ha hshared => absurd hshared (hnone a ha)⟩
  · obtain ⟨hall, hcompatible⟩ := claimAll_own hbefore hafter (placed_pairwise file)
      (fun q hq => hown q (hmem hq)) hdistinct
      (fun earlier q later heq e he hlt hmay => by
        rcases hundisplaced q (hmem (by rw [heq]; simp)) e he hlt hmay with
          ⟨q', hq', hplace, hprecede⟩ | ⟨h, -⟩
        · exact ⟨q', hearlier heq hq' (hplace ▸ hlt) hprecede, hplace⟩
        · exact absurd h hnone)
      hapartorder hborder
    exact ⟨hall, fun a ha => hcompatible a (mem_flatMap_choosingOrder.1 ha)⟩

/-- **Lists match again.** A list whose elements match those in the places of the query's elements,
again and again, and are undisplaced, matches where further code and the order are ignored. -/
theorem repeatable_validateComparable (hbefore : cx.grammar.rulesBefore = [])
    (hafter : cx.grammar.rulesAfter = []) {file query : List Node}
    (hlength : query.length ≤ file.length)
    (hmono : ∀ q ∈ placed query, ∀ q' ∈ placed query, q.1 < q'.1 → place q.1 < place q'.1)
    (hown : ∀ q ∈ placed query, ∃ f, (place q.1, f) ∈ placed file ∧
      Repeatable cx env shared (cx.aliases q.2) (validate (cx.withMode .contained) f q.2))
    (hnames : ∀ f ∈ file, ∃ core, cx.kinds.NameOf f core)
    (hundisplaced : cx.Undisplaced env shared file query place)
    (hapart : query.Pairwise fun m n => ∀ a ∈ cx.aliases m, a ∈ cx.aliases n → shared a) :
    Repeatable cx env shared (cx.aliasesOf query)
      (validateComparable (cx.withMode .contained) (validate (cx.withMode .contained)) file
        query) := by
  refine ⟨validateComparable_local fun f _ q hq =>
    (validate_contained_local hbefore hafter f q).mono fun a ha =>
      List.mem_flatMap.2 ⟨q, hq, ha⟩, fun b hb => ?_⟩
  obtain ⟨hall, hcompatible⟩ :=
    claimAll_undisplaced hbefore hafter hlength hmono hown hnames hundisplaced hapart hb
  obtain ⟨-, -, hagrees, hbindings⟩ :=
    @validateComparable_contained (cx.withMode .contained) rfl (validate (cx.withMode .contained))
      file query b (Or.inr ⟨hlength, by rwa [MatchContext.choosingOrder_withMode]⟩)
  rw [hbindings, MatchContext.choosingOrder_withMode]
  exact ⟨hagrees, hcompatible⟩

end Choosing

end CodeSearch

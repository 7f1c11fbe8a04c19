import CodeSearch.Matching.Validation
import CodeSearch.Proofs.Agreement
import Mathlib.Data.List.FinRange
import Mathlib.Order.Monotone.Basic

/-!
# Matching lists

What two lists that match have in common: each comparable element of the query is placed at an
element of the file, in pairs, at different elements or in order as the mode demands, and the two
match. They do so with bindings in between those before and those after the lists, as every
element starts with what the one before it has bound.
-/

set_option autoImplicit false

namespace CodeSearch

/-! ## Steps in turn -/

/-- Of steps that are taken in turn, starting from some bindings, the one for `x` is **reached**
with others. -/
inductive Reached {α : Type} (r : α → Bindings → Validation) :
    List α → Bindings → α → Bindings → Prop
  | head (x : α) (rest : List α) (b : Bindings) : Reached r (x :: rest) b x b
  | tail {x y : α} {rest : List α} {b c : Bindings}
      (h : Reached r rest (r x b).bindings y c) : Reached r (x :: rest) b y c

section Reached

variable {α : Type} {r : α → Bindings → Validation} {P : Node → Prop}

theorem inTurn_cons (x : α) (rest : List α) (b : Bindings) :
    (Validation.inTurn ((x :: rest).map r) b).agrees =
        ((r x b).agrees &&
          (Validation.inTurn (rest.map r) (r x b).bindings).agrees) ∧
      ((r x b).agrees = true → (Validation.inTurn ((x :: rest).map r) b).bindings =
        (Validation.inTurn (rest.map r) (r x b).bindings).bindings) := by
  rw [List.map_cons, Validation.inTurn, Validation.andThen]
  cases hx : (r x b).agrees with
  | true => simp
  | false => simp [hx]

theorem Reached.mem {xs : List α} {x : α} {b c : Bindings} (h : Reached r xs b x c) :
    x ∈ xs := by
  induction h with
  | head x rest b => exact List.mem_cons_self
  | tail _ ih => exact List.mem_cons_of_mem _ ih

/-- Every step is reached. -/
theorem exists_reached {xs : List α} {x : α} (hx : x ∈ xs) (b : Bindings) :
    ∃ c, Reached r xs b x c := by
  induction xs generalizing b with
  | nil => simp at hx
  | cons y rest ih =>
      rcases List.mem_cons.1 hx with rfl | hx
      · exact ⟨b, Reached.head x rest b⟩
      · obtain ⟨c, hc⟩ := ih hx (r y b).bindings
        exact ⟨c, Reached.tail hc⟩

/-- Two runs of the same steps side by side: what holds of the bindings before a step and, if the
first run succeeds there, after it holds throughout, and the second run succeeds as well. -/
theorem inTurn_simulation {s : α → Bindings → Validation}
    {R : List α → Bindings → Bindings → Prop}
    (hstep : ∀ x rest b c, R (x :: rest) b c → (r x b).agrees = true →
      (s x c).agrees = true ∧ R rest (r x b).bindings (s x c).bindings)
    {xs : List α} {b c : Bindings} (hR : R xs b c)
    (h : (Validation.inTurn (xs.map r) b).agrees = true) :
    (Validation.inTurn (xs.map s) c).agrees = true ∧
      R [] (Validation.inTurn (xs.map r) b).bindings
        (Validation.inTurn (xs.map s) c).bindings := by
  induction xs generalizing b c with
  | nil => exact ⟨rfl, hR⟩
  | cons x rest ih =>
      obtain ⟨hr, hrbindings⟩ := inTurn_cons (r := r) x rest b
      obtain ⟨hs, hsbindings⟩ := inTurn_cons (r := s) x rest c
      rw [hr, Bool.and_eq_true] at h
      obtain ⟨hx, hafter⟩ := hstep x rest b c hR h.1
      obtain ⟨hrest, hlast⟩ := ih hafter h.2
      rw [hs, hx, hrest, hrbindings h.1, hsbindings hx]
      exact ⟨rfl, hlast⟩

theorem inTurn_extends {xs : List α}
    (hrun : ∀ x ∈ xs, ∀ b, Bindings.Extends P b (r x b).bindings) (b : Bindings) :
    Bindings.Extends P b (Validation.inTurn (xs.map r) b).bindings := by
  induction xs generalizing b with
  | nil => exact Bindings.Extends.refl
  | cons x rest ih =>
      have hx := hrun x List.mem_cons_self b
      have hrest := ih (fun y hy => hrun y (List.mem_cons_of_mem _ hy)) (r x b).bindings
      rw [List.map_cons, Validation.inTurn, Validation.andThen]
      split
      next => exact hx.trans hrest
      next => exact hx

/-- Where all steps succeed, one that is reached succeeds. It is reached with bindings made of
the first ones, and those at the end are made of what it ends with. -/
theorem Reached.between {xs : List α} {x : α} {b c : Bindings} (h : Reached r xs b x c)
    (hrun : ∀ x ∈ xs, ∀ b, Bindings.Extends P b (r x b).bindings)
    (hall : (Validation.inTurn (xs.map r) b).agrees = true) :
    (r x c).agrees = true ∧ Bindings.Extends P b c ∧
      Bindings.Extends P (r x c).bindings (Validation.inTurn (xs.map r) b).bindings := by
  induction h with
  | head x rest b =>
      obtain ⟨hagrees, hbindings⟩ := inTurn_cons (r := r) x rest b
      rw [hagrees, Bool.and_eq_true] at hall
      refine ⟨hall.1, Bindings.Extends.refl, ?_⟩
      rw [hbindings hall.1]
      exact inTurn_extends (fun y hy => hrun y (List.mem_cons_of_mem _ hy)) _
  | @tail x y rest b c h ih =>
      obtain ⟨hagrees, hbindings⟩ := inTurn_cons (r := r) x rest b
      rw [hagrees, Bool.and_eq_true] at hall
      obtain ⟨hy, hfrom, hto⟩ := ih (fun z hz => hrun z (List.mem_cons_of_mem _ hz)) hall.2
      refine ⟨hy, (hrun x List.mem_cons_self b).trans hfrom, ?_⟩
      rw [hbindings hall.1]
      exact hto

end Reached

/-! ## Elements and their places -/

theorem mem_placed {nodes : List Node} {i : Nat} {n : Node} :
    (i, n) ∈ placed nodes ↔ nodes[i]? = some n := by
  rw [placed, List.mem_map]
  constructor
  · rintro ⟨⟨m, j⟩, hmem, heq⟩
    obtain ⟨rfl, rfl⟩ := Prod.mk.inj heq
    exact List.mem_zipIdx_iff_getElem?.1 hmem
  · exact fun hmem => ⟨(n, i), List.mem_zipIdx_iff_getElem?.2 hmem, rfl⟩

theorem insertToChoose_perm (cx : MatchContext) (a : Placed) (order : List Placed) :
    (insertToChoose cx a order).Perm (a :: order) := by
  induction order with
  | nil => exact List.Perm.refl _
  | cons b rest ih =>
      rw [insertToChoose]
      split
      next => exact List.Perm.refl _
      next => exact (ih.cons b).trans (List.Perm.swap a b rest)

theorem foldr_insertToChoose_perm (cx : MatchContext) (entries : List Placed) :
    (entries.foldr (insertToChoose cx) []).Perm entries := by
  induction entries with
  | nil => exact List.Perm.refl _
  | cons a rest ih => exact (insertToChoose_perm cx a _).trans (ih.cons a)

theorem choosingOrder_perm (cx : MatchContext) (query : List Node) :
    (choosingOrder cx query).Perm (placed query) :=
  foldr_insertToChoose_perm cx (placed query)

theorem mem_of_mem_choosingOrder {cx : MatchContext} {query : List Node} {entry : Placed}
    (h : entry ∈ choosingOrder cx query) : entry.2 ∈ query :=
  List.mem_of_getElem? (mem_placed.1 ((choosingOrder_perm cx query).mem_iff.1 h))

theorem placed_fst (nodes : List Node) : (placed nodes).map Prod.fst = List.range nodes.length := by
  rw [placed, List.map_map]
  show nodes.zipIdx.map (fun entry => entry.2) = _
  rw [List.zipIdx_map_snd, List.range_eq_range']

theorem placed_snd (nodes : List Node) : (placed nodes).map Prod.snd = nodes := by
  rw [placed, List.map_map]
  show nodes.zipIdx.map (fun entry => entry.1) = _
  rw [List.zipIdx_map_fst]

@[simp] theorem placed_length (nodes : List Node) : (placed nodes).length = nodes.length := by
  rw [← List.length_map Prod.snd, placed_snd]

theorem placed_fst_nodup (nodes : List Node) : ((placed nodes).map Prod.fst).Nodup := by
  rw [placed_fst]
  exact List.nodup_range

/-! ## Claims -/

section Claims

variable {v : Validator} {P : Node → Prop}

/-- **The first free element that matches is claimed**, and the others stay free. -/
theorem claim_taken (query : Node) (b : Bindings) (free : List Placed) :
    (claim v query b free).taken =
      (free.find? fun entry => (v entry.2 query b).agrees).map fun entry =>
        (entry.1, (v entry.2 query b).bindings,
          free.eraseP fun entry => (v entry.2 query b).agrees) := by
  induction free with
  | nil => rfl
  | cons head tail ih =>
      rw [claim, List.find?_cons, List.eraseP_cons]
      cases hagrees : (v head.2 query b).agrees with
      | true => simp
      | false =>
          simp only [Bool.false_eq_true, if_false, ih, Option.map_map]
          rfl

/-- What is claimed is a free element that matches. -/
theorem claim_eq_some {query : Node} {b c : Bindings} {free rest : List Placed} {found : Nat}
    (h : (claim v query b free).taken = some (found, c, rest)) :
    ∃ before file after, free = before ++ (found, file) :: after ∧ rest = before ++ after ∧
      (v file query b).agrees = true ∧ (v file query b).bindings = c := by
  induction free generalizing found c rest with
  | nil => simp [claim] at h
  | cons head tail ih =>
      obtain ⟨place, file⟩ := head
      rw [claim] at h
      dsimp only at h
      split at h
      next hagrees =>
        obtain ⟨rfl, rfl, rfl⟩ : place = found ∧ (v file query b).bindings = c ∧ tail = rest := by
          simpa using h
        exact ⟨[], file, tail, rfl, rfl, hagrees, rfl⟩
      next hagrees =>
        obtain ⟨⟨later, d, rest'⟩, htaken, heq⟩ := Option.map_eq_some_iff.1 h
        obtain ⟨rfl, rfl, rfl⟩ : later = found ∧ d = c ∧ (place, file) :: rest' = rest := by
          simpa using heq
        obtain ⟨before, claimed, after, hfree, hrest, hagrees', hbindings⟩ := ih htaken
        refine ⟨(place, file) :: before, claimed, after, ?_, ?_, hagrees', hbindings⟩
        · rw [hfree, List.cons_append]
        · rw [hrest, List.cons_append]

/-- What is left to claim was free before. -/
theorem claim_sublist {query : Node} {b c : Bindings} {free rest : List Placed} {found : Nat}
    (h : (claim v query b free).taken = some (found, c, rest)) : rest.Sublist free := by
  obtain ⟨before, file, after, rfl, rfl, -, -⟩ := claim_eq_some h
  exact (List.sublist_cons_self _ _).append_left before

/-- Of query elements that choose one after another among free elements of the file, starting
from some bindings, one **claims** an element of the file, starting from others. -/
inductive Claimed (v : Validator) :
    List Placed → List Placed → Bindings → Placed → Placed → Bindings → Prop
  | head {place found : Nat} {query file : Node} {rest free free' : List Placed}
      {b c : Bindings} (hclaim : (claim v query b free).taken = some (found, c, free'))
      (hfile : (found, file) ∈ free) :
      Claimed v ((place, query) :: rest) free b (place, query) (found, file) b
  | tail {place found : Nat} {query : Node} {query' file' : Placed}
      {rest free free' : List Placed} {b c d : Bindings}
      (hclaim : (claim v query b free).taken = some (found, c, free'))
      (h : Claimed v rest free' c query' file' d) :
      Claimed v ((place, query) :: rest) free b query' file' d

theorem Claimed.mem {order free : List Placed} {query file : Placed} {b c : Bindings}
    (h : Claimed v order free b query file c) : query ∈ order ∧ file ∈ free := by
  induction h with
  | head hclaim hfile => exact ⟨List.mem_cons_self, hfile⟩
  | tail hclaim h ih =>
      exact ⟨List.mem_cons_of_mem _ ih.1, (claim_sublist hclaim).subset ih.2⟩

/-- Where all elements find something to claim, the first claims an element and the others
choose among the rest. -/
theorem claimAll_cons {place : Nat} {query : Node} {rest free : List Placed} {b : Bindings}
    {places : List (Nat × Nat)}
    (h : (claimAll v ((place, query) :: rest) free b).places = some places) :
    ∃ found c free' later, (claim v query b free).taken = some (found, c, free') ∧
      (claimAll v rest free' c).places = some later ∧ places = (place, found) :: later ∧
      (claimAll v ((place, query) :: rest) free b).bindings =
        (claimAll v rest free' c).bindings := by
  rw [claimAll] at h ⊢
  cases htaken : (claim v query b free).taken with
  | none => simp [htaken] at h
  | some taken =>
      obtain ⟨found, c, free'⟩ := taken
      simp only [htaken] at h ⊢
      obtain ⟨later, hlater, rfl⟩ := Option.map_eq_some_iff.1 h
      exact ⟨found, c, free', later, rfl, hlater, rfl, rfl⟩

/-- Elements find something to claim if the first does and the others do among the rest. -/
theorem claimAll_of_find? {query : Node} {free : List Placed} {b : Bindings} {entry : Placed}
    (place : Nat) (rest : List Placed)
    (h : (free.find? fun e => (v e.2 query b).agrees) = some entry) :
    (claimAll v ((place, query) :: rest) free b).places =
        (claimAll v rest (free.eraseP fun e => (v e.2 query b).agrees)
          (v entry.2 query b).bindings).places.map ((place, entry.1) :: ·) ∧
      (claimAll v ((place, query) :: rest) free b).bindings =
        (claimAll v rest (free.eraseP fun e => (v e.2 query b).agrees)
          (v entry.2 query b).bindings).bindings := by
  have htaken : (claim v query b free).taken = some (entry.1, (v entry.2 query b).bindings,
      free.eraseP fun e => (v e.2 query b).agrees) := by
    rw [claim_taken, h]
    rfl
  rw [claimAll]
  simp only [htaken]
  exact ⟨trivial, trivial⟩

/-- Where all elements find something to claim, there is an element that the first matches. -/
theorem exists_find?_of_claimAll {place : Nat} {query : Node} {rest free : List Placed}
    {b : Bindings} (h : (claimAll v ((place, query) :: rest) free b).places.isSome = true) :
    ∃ entry, (free.find? fun e => (v e.2 query b).agrees) = some entry := by
  obtain ⟨places, hplaces⟩ := Option.isSome_iff_exists.1 h
  obtain ⟨found, c, free', later, htaken, -, -, -⟩ := claimAll_cons hplaces
  rw [claim_taken] at htaken
  obtain ⟨entry, hentry, -⟩ := Option.map_eq_some_iff.1 htaken
  exact ⟨entry, hentry⟩

/-- The elements of the query claim elements of the file at different places. -/
theorem claimAll_eq_some {order free : List Placed} {b : Bindings} {places : List (Nat × Nat)}
    (h : (claimAll v order free b).places = some places)
    (hfree : (free.map Prod.fst).Nodup) :
    places.map Prod.fst = order.map Prod.fst ∧ (places.map Prod.snd).Nodup ∧
      ∀ pair ∈ places, ∃ query file c,
        Claimed v order free b (pair.1, query) (pair.2, file) c := by
  induction order generalizing free b places with
  | nil =>
      obtain rfl : [] = places := by simpa [claimAll] using h
      simp
  | cons entry rest ih =>
      obtain ⟨place, query⟩ := entry
      obtain ⟨found, c, free', later, hclaim, hlater, rfl, -⟩ := claimAll_cons h
      obtain ⟨before, file, after, rfl, rfl, -, -⟩ := claim_eq_some hclaim
      have hsublist := claim_sublist hclaim
      obtain ⟨hfst, hsnd, hclaimed⟩ := ih hlater (hfree.sublist (hsublist.map _))
      refine ⟨?_, ?_, ?_⟩
      · rw [List.map_cons, List.map_cons, hfst]
      · rw [List.map_cons, List.nodup_cons]
        refine ⟨fun hmem => ?_, hsnd⟩
        obtain ⟨pair, hpair, heq⟩ := List.mem_map.1 hmem
        obtain ⟨q, f, d, hclaimedlater⟩ := hclaimed pair hpair
        have hrest : found ∈ (before ++ after).map Prod.fst := by
          exact List.mem_map.2 ⟨_, hclaimedlater.mem.2, heq⟩
        -- the place claimed first is free no more, so that no later element claims it
        rw [List.map_append, List.map_cons] at hfree
        rw [List.map_append] at hrest
        exact (List.nodup_cons.1 (List.nodup_middle.1 hfree)).1 hrest
      · refine List.forall_mem_cons.2 ⟨⟨query, file, b, Claimed.head hclaim (by simp)⟩, ?_⟩
        intro pair hpair
        obtain ⟨q, f, d, hclaimedlater⟩ := hclaimed pair hpair
        exact ⟨q, f, d, Claimed.tail hclaim hclaimedlater⟩

theorem claimAll_extends (order free : List Placed)
    (hrun : ∀ q ∈ order, ∀ f ∈ free, ∀ b, Bindings.Extends P b (v f.2 q.2 b).bindings)
    (b : Bindings) : Bindings.Extends P b (claimAll v order free b).bindings := by
  induction order generalizing free b with
  | nil => exact Bindings.Extends.refl
  | cons entry rest ih =>
      obtain ⟨place, query⟩ := entry
      rw [claimAll]
      cases htaken : (claim v query b free).taken with
      | none => exact Bindings.Extends.refl
      | some taken =>
          obtain ⟨found, c, free'⟩ := taken
          obtain ⟨before, file, after, rfl, rfl, -, rfl⟩ := claim_eq_some htaken
          refine (hrun (place, query) List.mem_cons_self (found, file) (by simp) b).trans
            (ih _ (fun q hq f hf => hrun q (List.mem_cons_of_mem _ hq) f ?_) _)
          exact (claim_sublist htaken).subset hf

/-- Where all elements find something to claim, what is claimed matches. It is claimed with
bindings made of the first ones, and those at the end are made of what the claim ends with. -/
theorem Claimed.between {order free : List Placed} {query file : Placed} {b c : Bindings}
    (h : Claimed v order free b query file c) (hfree : (free.map Prod.fst).Nodup)
    (hrun : ∀ q ∈ order, ∀ f ∈ free, ∀ b, Bindings.Extends P b (v f.2 q.2 b).bindings)
    (hall : (claimAll v order free b).places.isSome = true) :
    (v file.2 query.2 c).agrees = true ∧ Bindings.Extends P b c ∧
      Bindings.Extends P (v file.2 query.2 c).bindings (claimAll v order free b).bindings := by
  obtain ⟨places, hplaces⟩ := Option.isSome_iff_exists.1 hall
  clear hall
  induction h generalizing places with
  | @head place found query file rest free free' b c hclaim hfile =>
      obtain ⟨found₁, c₁, free₁, later, hclaim₁, hlater, -, hbindings⟩ := claimAll_cons hplaces
      obtain ⟨rfl, rfl, rfl⟩ : found = found₁ ∧ c = c₁ ∧ free' = free₁ := by
        simpa [hclaim] using hclaim₁
      obtain ⟨before, file₁, after, rfl, rfl, hagrees, rfl⟩ := claim_eq_some hclaim
      -- the claimed place is that of one element only
      have hmem : (found, file₁) ∈ before ++ (found, file₁) :: after := by simp
      obtain rfl : file = file₁ :=
        congrArg Prod.snd (List.inj_on_of_nodup_map hfree hfile hmem rfl)
      refine ⟨hagrees, Bindings.Extends.refl, ?_⟩
      rw [hbindings]
      exact claimAll_extends _ _ (fun q hq f hf => hrun q (List.mem_cons_of_mem _ hq) f
        ((claim_sublist hclaim).subset hf)) _
  | @tail place found query query' file' rest free free' b c d hclaim h ih =>
      obtain ⟨found₁, c₁, free₁, later, hclaim₁, hlater, -, hbindings⟩ := claimAll_cons hplaces
      obtain ⟨rfl, rfl, rfl⟩ : found = found₁ ∧ c = c₁ ∧ free' = free₁ := by
        simpa [hclaim] using hclaim₁
      obtain ⟨before, file₁, after, rfl, rfl, hagrees, rfl⟩ := claim_eq_some hclaim
      have hsublist := claim_sublist hclaim
      obtain ⟨hagrees', hfrom, hto⟩ := ih (hfree.sublist (hsublist.map _))
        (fun q hq f hf => hrun q (List.mem_cons_of_mem _ hq) f ((claim_sublist hclaim).subset hf))
        later hlater
      refine ⟨hagrees', ?_, ?_⟩
      · exact (hrun (place, query) List.mem_cons_self (found, file₁) (by simp) b).trans hfrom
      · rw [hbindings]
        exact hto

end Claims

/-! ## Lists -/

/-- How a mode lets `n` elements of the query be placed among `m` elements of the file. -/
def Mode.Places {n m : Nat} (mode : Mode) (place : Fin n → Fin m) : Prop :=
  match mode with
  | .exact => n = m ∧ ∀ i, (place i : Nat) = i
  | .contained => Function.Injective place
  | .ordered => StrictMono place

/-- The elements of a list that take part in comparisons. -/
def MatchContext.comparable (cx : MatchContext) (nodes : List Node) : List Node :=
  nodes.filter cx.grammar.isComparable

/-- **The attempts that matching two lists leads to**, from some bindings on: where all of the
code counts, those on the pairs, in turn; else those by which the elements of the query claim
elements of the file. -/
inductive ListLeads (cx : MatchContext) (file query : List Node) (b : Bindings) :
    Node → Node → Bindings → Prop
  | pair {f q : Node} {c : Bindings} (hmode : cx.config.mode = .exact)
      (h : Reached (fun pair => validate cx pair.1 pair.2)
        ((cx.comparable file).zip (cx.comparable query)) b (f, q) c) :
      ListLeads cx file query b f q c
  | claim {i j : Nat} {f q : Node} {c : Bindings} (hmode : cx.config.mode ≠ .exact)
      (h : Claimed (validate cx) (choosingOrder cx (cx.comparable query))
        (placed (cx.comparable file)) b (i, q) (j, f) c) :
      ListLeads cx file query b f q c

/-- Numbers that strictly increase are in strictly increasing order. -/
theorem pairwise_of_increasing {places : List Nat} (h : increasing places = true) :
    places.Pairwise (· < ·) := by
  refine List.isChain_iff_pairwise.1 ?_
  induction places with
  | nil => exact List.IsChain.nil
  | cons a rest ih =>
      cases rest with
      | nil => exact List.IsChain.singleton a
      | cons b rest =>
          rw [increasing, Bool.and_eq_true, decide_eq_true_eq] at h
          exact List.IsChain.cons_cons h.1 (ih h.2)

/-- Claims of different elements by all elements of the query place the latter among the former,
in order if the claimed places increase. -/
theorem exists_place_of_claims {places : List (Nat × Nat)} {n m : Nat}
    (hfst : (places.map Prod.fst).Perm (List.range n)) (hsnd : (places.map Prod.snd).Nodup)
    (hlt : ∀ pair ∈ places, pair.2 < m) :
    ∃ place : Fin n → Fin m, (∀ i : Fin n, ((i : Nat), (place i : Nat)) ∈ places) ∧
      Function.Injective place ∧
      (increasing (claimedPlaces places) = true → StrictMono place) := by
  have hclaimed : ∀ i : Fin n, ∃ j : Fin m, ((i : Nat), (j : Nat)) ∈ places := by
    intro i
    have hmem : (i : Nat) ∈ places.map Prod.fst := hfst.mem_iff.2 (List.mem_range.2 i.isLt)
    obtain ⟨⟨_, j⟩, hpair, rfl⟩ := List.mem_map.1 hmem
    exact ⟨⟨j, hlt _ hpair⟩, hpair⟩
  -- every element of the query has claimed a place: the choice is the placing
  choose place hplace using hclaimed
  refine ⟨place, hplace, fun i j hij => ?_, fun hincreasing i j hij => ?_⟩
  · have hpair := List.inj_on_of_nodup_map hsnd (hplace i) (hplace j) (congrArg Fin.val hij)
    exact Fin.ext (congrArg Prod.fst hpair)
  · have hlookup : ∀ k : Fin n, places.lookup (k : Nat) = some (place k : Nat) := fun k =>
      lookup_of_mem_of_nodup (hfst.nodup_iff.2 List.nodup_range) (hplace k)
    have hlength : places.length = n := by
      rw [← List.length_map Prod.fst, hfst.length_eq, List.length_range]
    -- in the order of the query the claimed places increase
    have hpairwise := pairwise_of_increasing hincreasing
    rw [claimedPlaces, List.pairwise_filterMap, hlength, List.pairwise_iff_getElem] at hpairwise
    have hlast := hpairwise (i : Nat) (j : Nat) (by simp) (by simp) hij
    rw [List.getElem_range, List.getElem_range] at hlast
    exact hlast _ (hlookup i) _ (hlookup j)

/-- Where all elements of a query find something to claim, what they claim places them among the
elements of the file, in order if the claimed places increase. -/
theorem exists_place_of_claimAll {v : Validator} {cx : MatchContext} {file query : List Node}
    {b : Bindings} {places : List (Nat × Nat)}
    (h : (claimAll v (choosingOrder cx query) (placed file) b).places = some places) :
    ∃ place : Fin query.length → Fin file.length, Function.Injective place ∧
      (increasing (claimedPlaces places) = true → StrictMono place) ∧
      (∀ i : Fin query.length, places.lookup (i : Nat) = some (place i : Nat)) ∧
      ∀ i : Fin query.length, ∃ c, Claimed v (choosingOrder cx query) (placed file) b
        ((i : Nat), query.get i) ((place i : Nat), file.get (place i)) c := by
  obtain ⟨hfst, hsnd, hclaimed⟩ := claimAll_eq_some h (placed_fst_nodup _)
  have hperm : (places.map Prod.fst).Perm (List.range query.length) := by
    rw [hfst, ← placed_fst]
    exact (choosingOrder_perm cx query).map _
  have hlt : ∀ pair ∈ places, pair.2 < file.length := by
    intro pair hpair
    obtain ⟨q, f, c, hclaim⟩ := hclaimed pair hpair
    exact (List.getElem?_eq_some_iff.1 (mem_placed.1 hclaim.mem.2)).1
  obtain ⟨place, hplace, hinjective, hmono⟩ := exists_place_of_claims hperm hsnd hlt
  refine ⟨place, hinjective, hmono, fun i => ?_, fun i => ?_⟩
  · exact lookup_of_mem_of_nodup (hperm.nodup_iff.2 List.nodup_range) (hplace i)
  · obtain ⟨q, f, c, hclaim⟩ := hclaimed _ (hplace i)
    -- the two elements are those that stand at the claimed places
    have hq := mem_placed.1 ((choosingOrder_perm cx query).mem_iff.1 hclaim.mem.1)
    have hf := mem_placed.1 hclaim.mem.2
    obtain ⟨_, rfl⟩ := List.getElem?_eq_some_iff.1 hq
    obtain ⟨_, rfl⟩ := List.getElem?_eq_some_iff.1 hf
    exact ⟨c, hclaim⟩

/-- Lists that match: the mode places the elements of the query among those of the file, and
there is an attempt on each element and the one in its place. -/
theorem exists_listLeads {cx : MatchContext} {file query : List Node} {b : Bindings}
    (h : (validateList cx (validate cx) file query b).agrees = true) :
    ∃ place : Fin (cx.comparable query).length → Fin (cx.comparable file).length,
      cx.config.mode.Places place ∧ ∀ i, ∃ c, ListLeads cx file query b
        ((cx.comparable file).get (place i)) ((cx.comparable query).get i) c := by
  change (validateComparable cx (validate cx) (cx.comparable file) (cx.comparable query) b).agrees
    = true at h
  unfold validateComparable at h
  by_cases hmode : cx.config.mode = .exact
  · rw [if_pos hmode] at h
    split at h
    next hlength =>
      -- where all of the code counts, every element is placed at its own index
      refine ⟨fun i => ⟨i, by omega⟩, ?_, fun i => ?_⟩
      · rw [hmode]
        exact ⟨hlength.symm, fun i => rfl⟩
      · have hmem : ((cx.comparable file)[(i : Nat)], (cx.comparable query)[(i : Nat)]) ∈
            (cx.comparable file).zip (cx.comparable query) := by
          rw [← List.getElem_zip (h := by rw [List.length_zip]; omega)]
          exact List.getElem_mem _
        obtain ⟨c, hc⟩ := exists_reached (r := fun pair => validate cx pair.1 pair.2) hmem b
        exact ⟨c, ListLeads.pair hmode hc⟩
    next => simp [Validation.reject] at h
  · rw [if_neg hmode] at h
    split at h
    next => simp [Validation.reject] at h
    next =>
      dsimp only at h
      cases hplaces : (claimAll (validate cx) (choosingOrder cx (cx.comparable query))
          (placed (cx.comparable file)) b).places with
      | none => simp [hplaces] at h
      | some places =>
          simp only [hplaces] at h
          obtain ⟨place, hinjective, hmono, -, hclaimed⟩ := exists_place_of_claimAll hplaces
          refine ⟨place, ?_, fun i => ?_⟩
          · cases hcase : cx.config.mode with
            | exact => exact absurd hcase hmode
            | contained => exact hinjective
            | ordered =>
                rw [hcase] at h
                exact hmono h
          · obtain ⟨c, hclaim⟩ := hclaimed i
            exact ⟨c, ListLeads.claim hmode hclaim⟩

theorem ListLeads.mem {cx : MatchContext} {file query : List Node} {b c : Bindings} {f q : Node}
    (h : ListLeads cx file query b f q c) : f ∈ cx.comparable file ∧ q ∈ cx.comparable query := by
  cases h with
  | pair hmode h => exact List.of_mem_zip h.mem
  | claim hmode h =>
      refine ⟨List.mem_of_getElem? (mem_placed.1 h.mem.2), ?_⟩
      exact mem_of_mem_choosingOrder h.mem.1

section

variable {cx : MatchContext} {file query : List Node} {P : Node → Prop}

theorem validateList_extends
    (hrun : ∀ f ∈ file, ∀ q ∈ query, ∀ b, Bindings.Extends P b (validate cx f q b).bindings)
    (b : Bindings) :
    Bindings.Extends P b (validateList cx (validate cx) file query b).bindings := by
  have hcomparable : ∀ f ∈ cx.comparable file, ∀ q ∈ cx.comparable query, ∀ b,
      Bindings.Extends P b (validate cx f q b).bindings :=
    fun f hf q hq => hrun f (List.mem_filter.1 hf).1 q (List.mem_filter.1 hq).1
  have hclaims := claimAll_extends (choosingOrder cx (cx.comparable query))
    (placed (cx.comparable file)) (fun q hq f hf =>
      hcomparable f.2 (List.mem_of_getElem? (mem_placed.1 hf)) q.2
        (mem_of_mem_choosingOrder hq)) b
  show Bindings.Extends P b
    (validateComparable cx (validate cx) (cx.comparable file) (cx.comparable query) b).bindings
  unfold validateComparable
  split
  next =>
    split
    next =>
      exact inTurn_extends (r := fun pair => validate cx pair.1 pair.2)
        (fun pair hpair => hcomparable pair.1 (List.of_mem_zip hpair).1 pair.2
          (List.of_mem_zip hpair).2) b
    next => exact Bindings.Extends.refl
  next =>
    split
    next => exact Bindings.Extends.refl
    next =>
      dsimp only
      split
      next => exact hclaims
      next => exact hclaims

/-- The attempts that matching two lists leads to succeed if it does, on the way from the first
bindings to the last. -/
theorem ListLeads.between {b c : Bindings} {f q : Node} (h : ListLeads cx file query b f q c)
    (hrun : ∀ f ∈ file, ∀ q ∈ query, ∀ b, Bindings.Extends P b (validate cx f q b).bindings)
    (hall : (validateList cx (validate cx) file query b).agrees = true) :
    (validate cx f q c).agrees = true ∧ Bindings.Extends P b c ∧
      Bindings.Extends P (validate cx f q c).bindings
        (validateList cx (validate cx) file query b).bindings := by
  have hcomparable : ∀ f ∈ cx.comparable file, ∀ q ∈ cx.comparable query, ∀ b,
      Bindings.Extends P b (validate cx f q b).bindings :=
    fun f hf q hq => hrun f (List.mem_filter.1 hf).1 q (List.mem_filter.1 hq).1
  change (validateComparable cx (validate cx) (cx.comparable file) (cx.comparable query) b).agrees
    = true at hall
  show _ ∧ _ ∧ Bindings.Extends P _
    (validateComparable cx (validate cx) (cx.comparable file) (cx.comparable query) b).bindings
  unfold validateComparable at hall ⊢
  cases h with
  | pair hmode h =>
      rw [if_pos hmode] at hall ⊢
      split at hall
      next hlength =>
        rw [if_pos hlength]
        exact h.between
          (fun pair hpair => hcomparable pair.1 (List.of_mem_zip hpair).1 pair.2
            (List.of_mem_zip hpair).2) hall
      next => simp [Validation.reject] at hall
  | claim hmode h =>
      rw [if_neg hmode] at hall ⊢
      split at hall
      next => simp [Validation.reject] at hall
      next hlength =>
        rw [if_neg hlength]
        dsimp only at hall ⊢
        cases hplaces : (claimAll (validate cx) (choosingOrder cx (cx.comparable query))
            (placed (cx.comparable file)) b).places with
        | none => simp [hplaces] at hall
        | some places =>
            have hbetween := h.between (placed_fst_nodup _)
              (fun q hq f hf => hcomparable f.2 (List.mem_of_getElem? (mem_placed.1 hf)) q.2
                (mem_of_mem_choosingOrder hq))
              (by rw [hplaces]; rfl)
            simpa only [hplaces] using hbetween

end

end CodeSearch

import CodeSearch.Proofs.Attempts

/-!
# Two runs in lockstep

Two runs of the matcher, on file nodes and query nodes that are related in some way, go in
**lockstep** if every comparison keeps them so: it has one outcome in both, and from bindings that
are related it leads to bindings that are. All that is above a comparison then does the same in
both: steps in turn, claims, lists, paths, and the whole match. So what two runs have in common need
only be shown of comparing two nodes at their own level.
-/

set_option autoImplicit false

namespace CodeSearch

/-! ## Related fields and lists -/

/-- Of two related lists, each element of the first is related to one of the second. -/
theorem exists_mem_of_forall₂ {α β : Type} {R : α → β → Prop} {lefts : List α} {rights : List β}
    (h : List.Forall₂ R lefts rights) {a : α} (ha : a ∈ lefts) : ∃ b ∈ rights, R a b := by
  obtain ⟨i, hi, rfl⟩ := List.getElem_of_mem ha
  exact ⟨_, List.getElem_mem _, h.get hi (h.length_eq ▸ hi)⟩

/-- Two fields hold the same token, or children of which each is related to the other's. -/
inductive Field.Rel (R : Node → Node → Prop) : Field → Field → Prop
  | node {a b : Node} (h : R a b) : Field.Rel R (.node a) (.node b)
  | nodes {as bs : List Node} (h : List.Forall₂ R as bs) : Field.Rel R (.nodes as) (.nodes bs)
  | token (text : String) : Field.Rel R (.token text) (.token text)

namespace Field.Rel

variable {R S : Node → Node → Prop} {f g : Field}

theorem refl (h : ∀ n, R n n) (f : Field) : Field.Rel R f f := by
  cases f with
  | node child => exact .node (h child)
  | nodes children => exact .nodes (List.forall₂_same.2 fun child _ => h child)
  | token text => exact .token text

/-- Of children that are related, some more may be known. -/
theorem imp_of_mem (hRS : ∀ a ∈ f.members, ∀ b, R a b → S a b) (h : Field.Rel R f g) :
    Field.Rel S f g := by
  cases h with
  | node h => exact .node (hRS _ (List.mem_singleton.2 rfl) _ h)
  | nodes h =>
      have hboth := (List.forall₂_and_left _ _).2 ⟨hRS, h⟩
      exact .nodes (hboth.imp fun a b hab => hab.1 b hab.2)
  | token text => exact .token text

theorem mono (hRS : ∀ a b, R a b → S a b) (h : Field.Rel R f g) : Field.Rel S f g :=
  h.imp_of_mem fun a _ => hRS a

/-- Each child of the second of two related fields is related to one of the first. -/
theorem exists_of_mem (h : Field.Rel R f g) {b : Node} (hb : b ∈ g.members) :
    ∃ a ∈ f.members, R a b := by
  cases h with
  | node h =>
      obtain rfl := List.mem_singleton.1 hb
      exact ⟨_, List.mem_singleton.2 rfl, h⟩
  | nodes h => exact exists_mem_of_forall₂ h.flip hb
  | token _ => simp [Field.members] at hb

end Field.Rel

/-- Entries of two lists have the same keys, and values that are related. -/
def EntriesRel {α β : Type} (R : α → α → Prop) : List (β × α) → List (β × α) → Prop :=
  List.Forall₂ fun left right => left.1 = right.1 ∧ R left.2 right.2

theorem EntriesRel.lookup {α β : Type} [BEq β] {R : α → α → Prop} {lefts rights : List (β × α)}
    (h : EntriesRel R lefts rights) (key : β) :
    Option.Rel R (lefts.lookup key) (rights.lookup key) := by
  induction h with
  | nil => exact .none
  | @cons left right _ _ hentry _ ih =>
      rw [List.lookup_cons, List.lookup_cons, ← hentry.1]
      split
      next => exact .some hentry.2
      next => exact ih

/-- Elements that are related stand in the same places. -/
theorem placed_rel {R : Node → Node → Prop} {files others : List Node}
    (h : List.Forall₂ R files others) : EntriesRel R (placed files) (placed others) := by
  have hfrom : ∀ start, EntriesRel R
      ((files.zipIdx start).map fun entry => (entry.2, entry.1))
      ((others.zipIdx start).map fun entry => (entry.2, entry.1)) := by
    induction h with
    | nil => exact fun _ => .nil
    | cons hnode _ ih => exact fun start => .cons ⟨rfl, hnode⟩ (ih (start + 1))
  exact hfrom 0

/-- Lists that are related element by element are so when they are taken pair by pair. -/
theorem forall₂_zipped {α β γ δ : Type} {R : α → β → Prop} {S : γ → δ → Prop} {as : List α}
    {bs : List β} {cs : List γ} {ds : List δ} (hleft : List.Forall₂ R as bs)
    (hright : List.Forall₂ S cs ds) :
    List.Forall₂ (fun x y => R x.1 y.1 ∧ S x.2 y.2) (as.zip cs) (bs.zip ds) := by
  induction hleft generalizing cs ds with
  | nil => exact .nil
  | cons hfirst _ ih =>
      cases hright with
      | nil => exact .nil
      | cons hsecond hrest => exact .cons ⟨hfirst, hsecond⟩ (ih hrest)

/-- Elements that are related are filtered in lockstep by conditions that hold of both or of
neither. -/
theorem forall₂_filter {α β : Type} {R : α → β → Prop} {p : α → Bool} {q : β → Bool}
    (hpq : ∀ a b, R a b → p a = q b) {as : List α} {bs : List β} (h : List.Forall₂ R as bs) :
    List.Forall₂ R (as.filter p) (bs.filter q) :=
  List.rel_filter (fun a b hab => Iff.of_eq (congrArg (· = true) (hpq a b hab))) h

section Choosing

variable {cx dx : MatchContext} {Q : Node → Node → Prop}

theorem insertToChoose_rel (hrank : ∀ q r, Q q r → Specificity.ofNode cx q = .ofNode dx r)
    {entry entry' : Placed} (hentry : entry.1 = entry'.1 ∧ Q entry.2 entry'.2)
    {order order' : List Placed} (h : EntriesRel Q order order') :
    EntriesRel Q (insertToChoose cx entry order) (insertToChoose dx entry' order') := by
  induction h with
  | nil => exact .cons hentry .nil
  | @cons other other' order order' hother horder ih =>
      rw [insertToChoose, insertToChoose, hrank _ _ hentry.2, hrank _ _ hother.2]
      split
      next => exact .cons hentry (.cons hother horder)
      next => exact .cons hother ih

/-- Elements that are related, and as constrained as each other, choose in the same order. -/
theorem choosingOrder_rel (hrank : ∀ q r, Q q r → Specificity.ofNode cx q = .ofNode dx r)
    {queries queries' : List Node} (h : List.Forall₂ Q queries queries') :
    EntriesRel Q (choosingOrder cx queries) (choosingOrder dx queries') := by
  have hplaced := placed_rel h
  rw [choosingOrder, choosingOrder]
  generalize placed queries = left at hplaced
  generalize placed queries' = right at hplaced
  induction hplaced with
  | nil => exact .nil
  | cons hentry _ ih => exact insertToChoose_rel hrank hentry ih

end Choosing

/-! ## Steps and claims -/

/-- Two validations have one verdict, met as many violations and end with bindings that are
related. -/
structure Validation.Rel (B : Bindings → Bindings → Prop) (left right : Validation) : Prop where
  agrees : left.agrees = right.agrees
  violations : left.violations = right.violations
  bindings : B left.bindings right.bindings

/-- Two steps lead from bindings that are related to validations that are. -/
def Validation.StepsRel (B : Bindings → Bindings → Prop) (step other : Bindings → Validation) :
    Prop :=
  ∀ ⦃b c : Bindings⦄, B b c → (step b).Rel B (other c)

/-- Two ways to match go in lockstep on two query nodes, for all file nodes that are related. -/
def Validator.RelOn (B : Bindings → Bindings → Prop) (F : Node → Node → Prop) (v w : Validator)
    (q r : Node) : Prop :=
  ∀ ⦃f g : Node⦄, F f g → Validation.StepsRel B (v f q) (w g r)

/-- Two comparisons say the same of a pair of nodes and leave the same fields to agree. The fields
below which the search goes on may be listed in another order. -/
structure Comparison.Alike (left right : Comparison) : Prop where
  agrees : left.agrees = right.agrees
  queryKeys : left.queryKeys = right.queryKeys
  fileKeys : left.fileKeys = right.fileKeys

section Runs

variable {B : Bindings → Bindings → Prop} {F Q : Node → Node → Prop} {v w : Validator}
  {b c : Bindings} {free others : List Placed}

/-- Two attempts to extend bindings that both succeed or both fail, and are dropped where they
fail. -/
theorem rel_getD {left right : Option Bindings} (h : Option.Rel B left right) (hb : B b c) :
    left.isSome = right.isSome ∧ B (left.getD b) (right.getD c) := by
  cases h with
  | none => exact ⟨rfl, hb⟩
  | some h => exact ⟨rfl, h⟩

theorem inTurn_rel {steps others : List (Bindings → Validation)}
    (h : List.Forall₂ (Validation.StepsRel B) steps others) :
    Validation.StepsRel B (.inTurn steps) (.inTurn others) := by
  intro b c hb
  induction h generalizing b c with
  | nil => exact ⟨rfl, rfl, hb⟩
  | @cons step other steps others hstep _ ih =>
      obtain ⟨hagrees, hviolations, hbindings⟩ := hstep hb
      rw [Validation.inTurn, Validation.inTurn, Validation.andThen, Validation.andThen, hagrees]
      split
      next =>
        obtain ⟨hagrees, hrest, hbindings⟩ := ih hbindings
        exact ⟨hagrees, congrArg₂ (· + ·) hviolations hrest, hbindings⟩
      next => exact ⟨hagrees, hviolations, hbindings⟩

/-- An element claims in the same place among elements that are related. -/
theorem claim_rel {q r : Node} (hvalid : v.RelOn B F w q r) (hb : B b c)
    (hfree : EntriesRel F free others) :
    Option.Rel (fun left right => left.1 = right.1 ∧ B left.2.1 right.2.1 ∧
        EntriesRel F left.2.2 right.2.2)
      (claim v q b free).taken (claim w r c others).taken ∧
    (claim v q b free).violations = (claim w r c others).violations := by
  induction hfree with
  | nil => exact ⟨.none, rfl⟩
  | @cons entry other free others hentry hfree ih =>
      obtain ⟨place, file⟩ := entry
      obtain ⟨_, file'⟩ := other
      obtain ⟨rfl, hfile⟩ : place = _ ∧ F file file' := hentry
      obtain ⟨hagrees, hviolations, hbindings⟩ := hvalid hfile hb
      obtain ⟨htaken, hlater⟩ := ih
      rw [claim, claim]
      simp only [hagrees, hviolations, hlater]
      split
      next => exact ⟨.some ⟨rfl, hbindings, hfree⟩, rfl⟩
      next =>
        generalize (claim v q b free).taken = left at htaken ⊢
        generalize (claim w r c others).taken = right at htaken ⊢
        cases htaken with
        | none => exact ⟨.none, rfl⟩
        | some htaken =>
            obtain ⟨hplace, hafter, hrest⟩ := htaken
            exact ⟨.some ⟨hplace, hafter, .cons ⟨rfl, hfile⟩ hrest⟩, rfl⟩

/-- Elements claim in the same places among elements that are related. -/
theorem claimAll_rel {order order' : List Placed} (hvalid : EntriesRel (v.RelOn B F w) order order')
    (hb : B b c) (hfree : EntriesRel F free others) :
    (claimAll v order free b).places = (claimAll w order' others c).places ∧
      (claimAll v order free b).violations = (claimAll w order' others c).violations ∧
      B (claimAll v order free b).bindings (claimAll w order' others c).bindings := by
  induction hvalid generalizing free others b c with
  | nil => exact ⟨rfl, rfl, hb⟩
  | @cons entry entry' order order' hfirst _ ih =>
      obtain ⟨place, q⟩ := entry
      obtain ⟨_, r⟩ := entry'
      obtain ⟨rfl, hfirst⟩ : place = _ ∧ v.RelOn B F w q r := hfirst
      obtain ⟨htaken, hviolations⟩ := claim_rel hfirst hb hfree
      rw [claimAll, claimAll, hviolations]
      generalize (claim v q b free).taken = left at htaken ⊢
      generalize (claim w r c others).taken = right at htaken ⊢
      cases htaken with
      | none => exact ⟨rfl, rfl, hb⟩
      | @some left right htaken =>
          obtain ⟨found, b, free⟩ := left
          obtain ⟨_, c, others⟩ := right
          obtain ⟨rfl, hafter, hrest⟩ : found = _ ∧ B b c ∧ EntriesRel F free others := htaken
          obtain ⟨hplaces, hlater, hbindings⟩ := ih hafter hrest
          exact ⟨congrArg (Option.map ((place, found) :: ·)) hplaces, congrArg (_ + ·) hlater,
            hbindings⟩

/-- Lists whose elements are related match in lockstep if the elements do. -/
theorem validateComparable_rel {cx dx : MatchContext} (hmode : cx.config.mode = dx.config.mode)
    (hrank : ∀ q r, Q q r → Specificity.ofNode cx q = .ofNode dx r)
    (hvalid : ∀ q r, Q q r → v.RelOn B F w q r) {files files' queries queries' : List Node}
    (hfiles : List.Forall₂ F files files') (hqueries : List.Forall₂ Q queries queries') :
    Validation.StepsRel B (validateComparable cx v files queries)
      (validateComparable dx w files' queries') := by
  intro b c hb
  have horder : EntriesRel (v.RelOn B F w) (choosingOrder cx queries) (choosingOrder dx queries') :=
    (choosingOrder_rel hrank hqueries).imp fun _ _ hentry =>
      ⟨hentry.1, hvalid _ _ hentry.2⟩
  obtain ⟨hplaces, hviolations, hbindings⟩ := claimAll_rel horder hb (placed_rel hfiles)
  rw [validateComparable_eq, validateComparable_eq, hmode, hfiles.length_eq, hqueries.length_eq]
  dsimp only
  rw [hplaces, hviolations]
  split
  next =>
    split
    next =>
      refine inTurn_rel ?_ hb
      rw [List.forall₂_map_left_iff, List.forall₂_map_right_iff]
      exact (forall₂_zipped hfiles hqueries).imp fun x y hxy => hvalid _ _ hxy.2 hxy.1
    next => exact ⟨rfl, rfl, hb⟩
  next =>
    split
    next => exact ⟨rfl, rfl, hb⟩
    next =>
      split
      next => exact ⟨rfl, rfl, hbindings⟩
      next => exact ⟨rfl, rfl, hbindings⟩

end Runs

/-! ## Matching at every depth -/

/-- Two searches go in **lockstep** if comparing nodes that are related has one outcome in both, and
leads on to nodes that are related, of which both compare the same ones in the same order. -/
structure Lockstep (cx dx : MatchContext) (B : Bindings → Bindings → Prop)
    (F Q : Node → Node → Prop) : Prop where
  mode : cx.config.mode = dx.config.mode
  compare : ∀ {f g q r b c}, F f g → Q q r → B b c →
    (compare cx f q b).1.Alike (compare dx g r c).1 ∧ B (compare cx f q b).2 (compare dx g r c).2
  file : ∀ {f g}, F f g → ∀ path, Option.Rel (Field.Rel F) (f.resolve path) (g.resolve path)
  query : ∀ {q r}, Q q r → ∀ path, Option.Rel (Field.Rel Q) (q.resolve path) (r.resolve path)
  fileComparable : ∀ {f g}, F f g → cx.grammar.isComparable f = dx.grammar.isComparable g
  queryComparable : ∀ {q r}, Q q r → cx.grammar.isComparable q = dx.grammar.isComparable r
  rank : ∀ {q r}, Q q r → Specificity.ofNode cx q = .ofNode dx r

namespace Lockstep

variable {cx dx : MatchContext} {B : Bindings → Bindings → Prop} {F Q : Node → Node → Prop}
  {v w : Validator} {f g q r : Node}

/-- What is at the end of two paths matches in lockstep. -/
theorem validatePath (h : Lockstep cx dx B F Q)
    (hvalid : ∀ q' r' : Node, q'.height < q.height → Q q' r' → v.RelOn B F w q' r') (hfile : F f g)
    (hquery : Q q r) (filePath queryPath : FieldPath) :
    Validation.StepsRel B (validatePath cx v f q filePath queryPath)
      (validatePath dx w g r filePath queryPath) := by
  intro b c hb
  have hleft := h.file hfile filePath
  have hright := h.query hquery queryPath
  rw [CodeSearch.validatePath, CodeSearch.validatePath]
  generalize f.resolve filePath = fileField at hleft ⊢
  generalize g.resolve filePath = fileField' at hleft ⊢
  generalize hasked : q.resolve queryPath = queryField at hright ⊢
  generalize r.resolve queryPath = queryField' at hright ⊢
  cases hleft with
  | none => exact ⟨rfl, rfl, hb⟩
  | some hleft =>
      cases hright with
      | none => cases hleft <;> exact ⟨rfl, rfl, hb⟩
      | some hright =>
          have hright := hright.imp_of_mem (S := fun q' r' => q'.height < q.height ∧ Q q' r')
            fun q' hq' r' hqr => ⟨Node.height_lt_of_resolve hasked hq', hqr⟩
          cases hleft with
          | node hnode =>
              cases hright with
              | node hqr => exact hvalid _ _ hqr.1 hqr.2 hnode hb
              | nodes _ => exact ⟨rfl, rfl, hb⟩
              | token _ => exact ⟨rfl, rfl, hb⟩
          | nodes hnodes =>
              cases hright with
              | node _ => exact ⟨rfl, rfl, hb⟩
              | nodes hqrs =>
                  have hfiles := forall₂_filter (fun _ _ hfg => h.fileComparable hfg) hnodes
                  have hqueries := forall₂_filter (fun _ _ hqr => h.queryComparable hqr.2) hqrs
                  exact validateComparable_rel h.mode (fun _ _ hqr => h.rank hqr.2)
                    (fun _ _ hqr => hvalid _ _ hqr.1 hqr.2) hfiles hqueries hb
              | token _ => exact ⟨rfl, rfl, hb⟩
          | token _ => cases hright <;> exact ⟨rfl, rfl, hb⟩

/-- **Runs whose comparisons go in lockstep do so at every depth.** From bindings that are related
they have one verdict, and end with bindings that are related. -/
theorem validate (h : Lockstep cx dx B F Q) (hquery : Q q r) :
    (validate cx).RelOn B F (validate dx) q r := by
  induction q using Node.height_induction generalizing r with
  | step q ih =>
      intro f g hfile b c hb
      obtain ⟨⟨hagrees, hqueryKeys, hfileKeys⟩, hcompared⟩ := h.compare hfile hquery hb
      rw [validate_eq, validate_eq, validateFound, validateFound, validateKeys_eq, validateKeys_eq,
        hagrees, hqueryKeys, hfileKeys]
      split
      next =>
        split
        next =>
          refine inTurn_rel ?_ hcompared
          rw [List.forall₂_map_left_iff, List.forall₂_map_right_iff, List.forall₂_same]
          exact fun pair _ =>
            h.validatePath (fun q' _ hheight hqr => ih q' hheight hqr) hfile hquery
            pair.1 pair.2
        next => exact ⟨rfl, rfl, hcompared⟩
      next => exact ⟨rfl, rfl, hcompared⟩

end Lockstep

end CodeSearch

import CodeSearch.Proofs.AliasConstraints
import CodeSearch.Proofs.Displacement
import CodeSearch.Proofs.Likeness

/-!
# Matches side by side

Two runs on different trees go **side by side** if both succeed or both fail from any bindings in
which aliases stand for the same texts, and for subtrees that are related in some way. What they
bind is related again as far as it matters to what comes later: an alias that is not met again may
stand for anything. So a match is composed of runs side by side if its parts are, as long as an
alias that two of them share is one for which the runs do keep the relation.
-/

set_option autoImplicit false

namespace CodeSearch

/-! ## Bindings -/

namespace Bindings

section

variable {R : Node → Node → Prop} {b b' c c' : Bindings} {a : Alias} {aliases others : List Alias}

/-- An alias stands for one text in both bindings, or for subtrees that are related, or for nothing
in both. -/
def PairedAt (R : Node → Node → Prop) (b c : Bindings) : Alias → Prop
  | .text name => b.text? name = c.text? name
  | .tree name => Option.Rel R (b.tree? name) (c.tree? name)

/-- Some aliases stand for what is related in both bindings. -/
def PairedOn (R : Node → Node → Prop) (b c : Bindings) (aliases : List Alias) : Prop :=
  ∀ a ∈ aliases, b.PairedAt R c a

theorem pairedAt_empty (a : Alias) : empty.PairedAt R empty a := by
  cases a with
  | text name => rfl
  | tree name => exact .none

theorem PairedAt.congr (hb : b.SameAt b' a) (hc : c.SameAt c' a) (h : b.PairedAt R c a) :
    b'.PairedAt R c' a := by
  cases a with
  | text name => exact (Eq.symm hb).trans (Eq.trans h hc)
  | tree name =>
      have hb' : b.tree? name = b'.tree? name := hb
      have hc' : c.tree? name = c'.tree? name := hc
      show Option.Rel R (b'.tree? name) (c'.tree? name)
      rw [← hb', ← hc']
      exact h

theorem PairedOn.subset (h : b.PairedOn R c aliases) (hsubset : others ⊆ aliases) :
    b.PairedOn R c others :=
  fun a ha => h a (hsubset ha)

/-- Results are related to each other if they are the same as some that are. -/
theorem PairedOn.congr {x x' y y' : Option Bindings} (hx : SameResult x x') (hy : SameResult y y')
    (h : Option.Rel (fun b c => b.PairedOn R c aliases) x' y') :
    Option.Rel (fun b c => b.PairedOn R c aliases) x y := by
  cases h with
  | none =>
      cases hx
      cases hy
      exact .none
  | some h =>
      cases hx with
      | some hx =>
          cases hy with
          | some hy => exact .some fun a ha => (h a ha).congr (hx a).symm (hy a).symm

end

end Bindings

/-! ## Runs -/

/-- What comes of claims: their places and the bindings, if all elements found something. -/
def Claims.outcome? (claims : Claims) : Option (List (Nat × Nat) × Bindings) :=
  claims.places.map fun places => (places, claims.bindings)

/-- Two runs go **side by side**: from bindings in which their aliases and those met later are
related, they come to bindings in which those met later are, or both fail. Of the aliases that they
meet only shared ones may be met later. -/
def SideBySide (R : Node → Node → Prop) (shared : Alias → Prop) (aliases : List Alias)
    (run other : Bindings → Option Bindings) : Prop :=
  ∀ later : List Alias, (∀ a ∈ aliases, a ∈ later → shared a) →
    ∀ b c : Bindings, b.PairedOn R c (aliases ++ later) →
      Option.Rel (fun b' c' => b'.PairedOn R c' later) (run b) (other c)

namespace SideBySide

variable {R : Node → Node → Prop} {shared : Alias → Prop} {aliases others : List Alias}
  {run other next next' : Bindings → Option Bindings}

theorem accept : SideBySide R shared aliases some some :=
  fun _ _ _ _ h => .some (h.subset (List.subset_append_right _ _))

theorem reject : SideBySide R shared aliases (fun _ => none) fun _ => none :=
  fun _ _ _ _ _ => .none

theorem mono (h : SideBySide R shared aliases run other) (hsubset : aliases ⊆ others) :
    SideBySide R shared others run other :=
  fun later hlater b c hbc => h later (fun a ha => hlater a (hsubset ha)) b c
    (hbc.subset (List.append_subset.2 ⟨fun _ ha => List.mem_append_left _ (hsubset ha),
      List.subset_append_right _ _⟩))

/-- Runs that come to the same as two that go side by side do so, too. -/
theorem congr {run' other' : Bindings → Option Bindings}
    (h : SideBySide R shared aliases run other) (hrun : ∀ b, SameResult (run' b) (run b))
    (hother : ∀ c, SameResult (other' c) (other c)) : SideBySide R shared aliases run' other' :=
  fun later hlater b c hbc => Bindings.PairedOn.congr (hrun b) (hother c) (h later hlater b c hbc)

/-- One run after another. -/
theorem bind (h : SideBySide R shared aliases run other)
    (hnext : SideBySide R shared others next next')
    (hapart : ∀ a ∈ aliases, a ∈ others → shared a) :
    SideBySide R shared (aliases ++ others) (fun b => (run b).bind next)
      fun c => (other c).bind next' := by
  intro later hlater b c hbc
  refine rel_bind (h (others ++ later) (fun a ha hmem => ?_) b c ?_) fun b' c' _ hbc' => ?_
  · rcases List.mem_append.1 hmem with hothers | hmem
    · exact hapart a ha hothers
    · exact hlater a (List.mem_append_left _ ha) hmem
  · rwa [← List.append_assoc]
  · exact hnext later (fun a ha => hlater a (List.mem_append_right _ ha)) b' c' hbc'

/-- Steps in turn. -/
theorem inTurn {α β : Type} {r : α → Bindings → Validation} {s : β → Bindings → Validation}
    {aliases : α → List Alias} {xs : List α} {ys : List β}
    (h : List.Forall₂ (fun x y => SideBySide R shared (aliases x) (fun b => (r x b).bindings?)
      fun c => (s y c).bindings?) xs ys)
    (hapart : xs.Pairwise fun x y => ∀ a ∈ aliases x, a ∈ aliases y → shared a) :
    SideBySide R shared (xs.flatMap aliases)
      (fun b => (Validation.inTurn (xs.map r) b).bindings?)
      fun c => (Validation.inTurn (ys.map s) c).bindings? := by
  induction h with
  | nil => exact accept
  | @cons x y xs ys hstep _ ih =>
      obtain ⟨hfirst, hrest⟩ := List.pairwise_cons.1 hapart
      simp only [List.map_cons, Validation.inTurn, Validation.bindings?_andThen,
        List.flatMap_cons]
      refine hstep.bind (ih hrest) fun a ha hmem => ?_
      obtain ⟨z, hz, hmem⟩ := List.mem_flatMap.1 hmem
      exact hfirst z hz a ha hmem

/-! ## Uses of aliases -/

section

variable {cx : MatchContext}

/-- A text is met on both sides. -/
theorem use_text (name value : String) :
    SideBySide R shared [.text name] (fun b => b.use? cx (.text name value))
      fun c => c.use? cx (.text name value) := by
  intro later _ b c hbc
  have hname : b.text? name = c.text? name := hbc (.text name) (by simp)
  have hlater : b.PairedOn R c later := hbc.subset (List.subset_append_right _ _)
  simp only [Bindings.use?, ← hname]
  cases htext : b.text? name with
  | some bound =>
      dsimp only
      split
      next => exact .some hlater
      next => exact .none
  | none =>
      refine .some fun a ha => ?_
      cases a with
      | tree other => exact hlater _ ha
      | text other =>
          have hother : b.text? other = c.text? other := hlater _ ha
          show (b.bind .identifier name _).text? other = (c.bind .identifier name _).text? other
          rw [Bindings.text?_bind (by decide) htext,
            Bindings.text?_bind (by decide) (hname.symm.trans htext), hother]

/-- Related subtrees are met on both sides. An alias that is met again must be bound to what is
related, and what an alias is bound to must be equal to the subtrees on both sides or on neither. -/
theorem use_tree {name : String} {f g : Node} (hequal : ∀ m n, R m n → m.structEq f = n.structEq g)
    (hrel : shared (.tree name) → R f g) :
    SideBySide R shared [.tree name] (fun b => b.use? cx (.tree name f))
      fun c => c.use? cx (.tree name g) := by
  intro later hshared b c hbc
  have hname : Option.Rel R (b.tree? name) (c.tree? name) := hbc (.tree name) (by simp)
  have hlater : b.PairedOn R c later := hbc.subset (List.subset_append_right _ _)
  simp only [Bindings.use?, Bindings.matchNode?_eq]
  generalize b.tree? name = left at hname ⊢
  generalize c.tree? name = right at hname ⊢
  cases hname with
  | some hbound =>
      simp only [hequal _ _ hbound]
      split
      next => exact .some hlater
      next => exact .none
  | none =>
      refine .some fun a ha => ?_
      cases a with
      | text other => exact hlater _ ha
      | tree other =>
          show Option.Rel R ((b.bind .nodeTree name _).tree? other)
            ((c.bind .nodeTree name _).tree? other)
          rw [Bindings.tree?_bind_nodeTree, Bindings.tree?_bind_nodeTree]
          split
          next hother =>
            subst hother
            exact .some (hrel (hshared _ (by simp) ha))
          next => exact hlater _ ha

/-- The captures of a pattern are met on both sides. -/
theorem useAll_captures (htexts : ∀ name, shared (.text name)) (captures : List Capture) :
    SideBySide R shared (captures.map fun capture => .text capture.aliasName)
      (fun b => b.useAll? cx (captures.map .ofCapture))
      fun c => c.useAll? cx (captures.map .ofCapture) := by
  induction captures with
  | nil => exact accept
  | cons capture rest ih =>
      simp only [List.map_cons, Bindings.useAll?_cons, AliasUse.ofCapture]
      refine (use_text capture.aliasName capture.text).bind ih fun a ha _ => ?_
      rw [List.mem_singleton.1 ha]
      exact htexts _

end

/-! ## Lists -/

section

variable {v : Validator} {F : Node → Node → Prop} {aliases : Node → List Alias}

/-- An element claims in the same place on both sides. -/
theorem claim {query query' : Node} {own later : List Alias} {free free' : List Placed}
    (h : ∀ f g, F f g → SideBySide R shared own (fun b => (v f query b).bindings?)
      fun c => (v g query' c).bindings?)
    (hshared : ∀ a ∈ own, a ∈ later → shared a) {b c : Bindings}
    (hbc : b.PairedOn R c (own ++ later)) (hfree : EntriesRel F free free') :
    Option.Rel (fun left right => left.1 = right.1 ∧ left.2.1.PairedOn R right.2.1 later ∧
        EntriesRel F left.2.2 right.2.2)
      (CodeSearch.claim v query b free).taken (CodeSearch.claim v query' c free').taken := by
  induction hfree with
  | nil => exact .none
  | @cons entry entry' free free' hentry hfree ih =>
      obtain ⟨place, file⟩ := entry
      obtain ⟨_, file'⟩ := entry'
      obtain ⟨rfl, hfile⟩ : place = _ ∧ F file file' := hentry
      have htrial := h file file' hfile later hshared b c hbc
      rw [CodeSearch.claim, CodeSearch.claim]
      simp only [Validation.bindings?] at htrial
      cases hleft : (v file query b).agrees <;> cases hright : (v file' query' c).agrees <;>
        simp only [hleft, hright, if_true, Bool.false_eq_true, if_false] at htrial ⊢
      case false.false =>
        -- what a failed attempt bound is forgotten on both sides
        generalize (CodeSearch.claim v query b free).taken = left at ih ⊢
        generalize (CodeSearch.claim v query' c free').taken = right at ih ⊢
        cases ih with
        | none => exact .none
        | some htaken =>
            obtain ⟨hplace, hafter, hrest⟩ := htaken
            exact .some ⟨hplace, hafter, .cons ⟨rfl, hfile⟩ hrest⟩
      case false.true => cases htrial
      case true.false => cases htrial
      case true.true =>
        cases htrial with
        | some hafter => exact .some ⟨rfl, hafter, hfree⟩

/-- Elements claim in the same places on both sides. -/
theorem claimAll {order order' free free' : List Placed} (h : List.Forall₂ (fun q r =>
      q.1 = r.1 ∧ ∀ f g, F f g → SideBySide R shared (aliases q.2)
        (fun b => (v f q.2 b).bindings?) fun c => (v g r.2 c).bindings?) order order')
    (hapart : order.Pairwise fun q r => ∀ a ∈ aliases q.2, a ∈ aliases r.2 → shared a)
    {later : List Alias} (hshared : ∀ a ∈ order.flatMap fun q => aliases q.2, a ∈ later → shared a)
    {b c : Bindings} (hbc : b.PairedOn R c ((order.flatMap fun q => aliases q.2) ++ later))
    (hfree : EntriesRel F free free') :
    Option.Rel (fun left right => left.1 = right.1 ∧ left.2.PairedOn R right.2 later)
      (CodeSearch.claimAll v order free b).outcome?
      (CodeSearch.claimAll v order' free' c).outcome? := by
  induction h generalizing free free' b c with
  | nil => exact .some ⟨rfl, hbc⟩
  | @cons q r order order' hentry _ ih =>
      obtain ⟨place, query⟩ := q
      obtain ⟨_, query'⟩ := r
      obtain ⟨rfl, hvalid⟩ := hentry
      obtain ⟨hfirst, hrest⟩ := List.pairwise_cons.1 hapart
      rw [List.flatMap_cons, List.append_assoc] at hbc
      rw [List.flatMap_cons] at hshared
      have htaken := claim (v := v) hvalid (fun a ha hmem => ?_) hbc hfree
      · rw [CodeSearch.claimAll, CodeSearch.claimAll]
        generalize (CodeSearch.claim v query b free).taken = left at htaken ⊢
        generalize (CodeSearch.claim v query' c free').taken = right at htaken ⊢
        cases htaken with
        | none => exact .none
        | @some left right htaken =>
            obtain ⟨found, b, free⟩ := left
            obtain ⟨_, c, free'⟩ := right
            obtain ⟨rfl, hafter, hfree⟩ : found = _ ∧ b.PairedOn R c _ ∧ EntriesRel F free free' :=
              htaken
            have hlater :=
              ih hrest (fun a ha => hshared a (List.mem_append_right _ ha)) hafter hfree
            simp only [Claims.outcome?, Option.map_map] at hlater ⊢
            generalize (CodeSearch.claimAll v order free b).places = left at hlater ⊢
            generalize (CodeSearch.claimAll v order' free' c).places = right at hlater ⊢
            cases left <;> cases right <;> simp only [Option.map_none, Option.map_some] at hlater ⊢
            case none.none => exact .none
            case none.some => cases hlater
            case some.none => cases hlater
            case some.some =>
              cases hlater with
              | some hlater => exact .some ⟨congrArg (List.cons _) hlater.1, hlater.2⟩
      · rcases List.mem_append.1 hmem with horder | hmem
        · obtain ⟨r, hr, hmem⟩ := List.mem_flatMap.1 horder
          exact hfirst r hr a ha hmem
        · exact hshared a (List.mem_append_left _ ha) hmem

end

section

variable {cx : MatchContext} {Q : Node → Node → Prop}

/-- What comes of matching two lists where further code is ignored. -/
theorem bindings?_validateComparable (hmode : cx.config.mode ≠ .exact) (v : Validator)
    {file query : List Node} (b : Bindings) :
    (CodeSearch.validateComparable cx v file query b).bindings? =
      if file.length < query.length then none
      else (CodeSearch.claimAll v (choosingOrder cx query) (placed file) b).outcome?.bind
        fun claimed => if cx.config.mode != .ordered || increasing (claimedPlaces claimed.1)
          then some claimed.2 else none := by
  rw [validateComparable_eq, if_neg hmode, Claims.outcome?]
  split
  next => rfl
  next =>
    dsimp only
    cases (CodeSearch.claimAll v (choosingOrder cx query) (placed file) b).places with
    | none => rfl
    | some places => simp [Validation.bindings?]

/-- **Lists of comparable nodes** match side by side if their elements do, and an alias that two
elements of the query use is shared. -/
theorem validateComparable {v : Validator} {F : Node → Node → Prop}
    {aliases : Node → List Alias} {files files' queries queries' : List Node}
    (hfiles : List.Forall₂ F files files') (hqueries : List.Forall₂ Q queries queries')
    (hrank : ∀ q r, Q q r → Specificity.ofNode cx q = .ofNode cx r)
    (h : ∀ f g q r, F f g → Q q r → SideBySide R shared (aliases q)
      (fun b => (v f q b).bindings?) fun c => (v g r c).bindings?)
    (hapart : queries.Pairwise fun q r => ∀ a ∈ aliases q, a ∈ aliases r → shared a) :
    SideBySide R shared (queries.flatMap aliases)
      (fun b => (CodeSearch.validateComparable cx v files queries b).bindings?)
      fun c => (CodeSearch.validateComparable cx v files' queries' c).bindings? := by
  by_cases hmode : cx.config.mode = .exact
  · simp only [validateComparable_eq, if_pos hmode, hfiles.length_eq, hqueries.length_eq]
    split
    next hlength =>
      have hlengths : files.length = queries.length := by
        rw [hfiles.length_eq, hqueries.length_eq, hlength]
      have hsnd : (files.zip queries).map Prod.snd = queries :=
        List.map_snd_zip (Nat.le_of_eq hlengths.symm)
      have hpairs : (files.zip queries).Pairwise fun x y =>
          ∀ a ∈ aliases x.2, a ∈ aliases y.2 → shared a := by
        rw [← List.pairwise_map (f := Prod.snd)
          (R := fun q r => ∀ a ∈ aliases q, a ∈ aliases r → shared a), hsnd]
        exact hapart
      refine (inTurn (r := fun x : Node × Node => v x.1 x.2)
        (s := fun y : Node × Node => v y.1 y.2)
        ((forall₂_zipped hfiles hqueries).imp fun x y hxy => h _ _ _ _ hxy.1 hxy.2)
        hpairs).mono fun a ha => ?_
      obtain ⟨pair, hpair, ha⟩ := List.mem_flatMap.1 ha
      exact List.mem_flatMap.2 ⟨pair.2, (List.of_mem_zip hpair).2, ha⟩
    next => exact reject
  · intro later hshared b c hbc
    dsimp only
    rw [bindings?_validateComparable hmode, bindings?_validateComparable hmode,
      hfiles.length_eq, hqueries.length_eq]
    split
    next => exact .none
    next =>
      have hmem : ∀ a, a ∈ (choosingOrder cx queries).flatMap (fun q => aliases q.2) ↔
          a ∈ queries.flatMap aliases := fun a => mem_flatMap_choosingOrder.symm
      refine rel_bind (claimAll ?_ ?_ (fun a ha => hshared a ((hmem a).1 ha))
        (hbc.subset ?_) (placed_rel hfiles)) ?_
      · exact (choosingOrder_rel hrank hqueries).imp fun q r hqr =>
          ⟨hqr.1, fun f g hfg => h f g q.2 r.2 hfg hqr.2⟩
      · exact pairwise_nodes_choosingOrder (fun hqr a ha hmem => hqr a hmem ha) hapart
      · exact List.append_subset.2
          ⟨fun a ha => List.mem_append_left _ ((hmem a).1 ha), List.subset_append_right _ _⟩
      · rintro ⟨places, b'⟩ ⟨_, c'⟩ - ⟨rfl, hafter⟩
        dsimp only
        split
        next => exact .some hafter
        next => exact .none

end

end SideBySide

end CodeSearch

import CodeSearch.Proofs.AliasConstraints

/-!
# Steps and the uses of aliases that they meet

Whatever way two nodes are compared along, what is bound to aliases comes from texts that patterns
match and from subtrees that wildcards stand for. A step of a match **meets** uses of aliases if it
succeeds just if those do, one after another. Steps that follow one another meet the uses of both,
so from no bindings they succeed just if all these uses agree. A use of a text and one of a subtree
have nothing to agree on.
-/

set_option autoImplicit false

namespace CodeSearch

/-! ## Steps -/

/-- A step **meets** uses of aliases, or fails whatever is bound if there are none: it succeeds just
if the uses do one after another, and binds what they bind. -/
def MeetsUses (cx : MatchContext) (step : Bindings → Option Bindings)
    (uses? : Option (List AliasUse)) : Prop :=
  ∀ ⦃b d : Bindings⦄, b.Same d →
    SameResult (step b) (uses?.bind fun uses => d.useAll? cx uses)

namespace AliasUse

/-- All uses of a list agree with each other. -/
def AllAgree (cx : MatchContext) (uses : List AliasUse) : Prop :=
  ∀ u ∈ uses, ∀ w ∈ uses, u.Agrees cx w

/-- All subtrees that uses have met have no two fields of one name. -/
def AllDistinct (uses? : Option (List AliasUse)) : Prop :=
  ∀ uses ∈ uses?, ∀ u ∈ uses, u.NamesDistinct

end AliasUse

namespace MeetsUses

variable {cx : MatchContext} {step later : Bindings → Option Bindings}
  {first second : Option (List AliasUse)}

/-- A step that fails whatever is bound meets no uses. -/
theorem of_eq_none (h : ∀ b, step b = none) : MeetsUses cx step none := by
  intro b d _
  rw [h b]
  exact Option.Rel.none

/-- One step after another meets the uses of both. -/
theorem andThen (h : MeetsUses cx step first) (hlater : MeetsUses cx later second) :
    MeetsUses cx (fun b => (step b).bind later)
      (first.bind fun uses => second.map (uses ++ ·)) := by
  intro b d hsame
  show SameResult ((step b).bind later) _
  have hstep := h hsame
  cases first with
  | none =>
      rw [hstep.eq_none]
      exact Option.Rel.none
  | some uses =>
      have hboth : ((some uses).bind fun uses => second.map (uses ++ ·)).bind
          (fun uses => d.useAll? cx uses) =
          (d.useAll? cx uses).bind fun c => second.bind fun more => c.useAll? cx more := by
        cases second with
        | none => simp
        | some more => exact Bindings.useAll?_append uses more
      rw [hboth]
      exact rel_bind hstep fun c e _ hce => hlater hce

/-- From no bindings a step succeeds just if the uses that it meets agree. -/
theorem isSome_iff (h : MeetsUses cx step first) (hdistinct : AliasUse.AllDistinct first) :
    (step .empty).isSome = true ↔ ∃ uses, first = some uses ∧ AliasUse.AllAgree cx uses := by
  rw [(h fun a => Bindings.SameAt.refl .empty a).isSome]
  cases first with
  | none => simp
  | some uses =>
      rw [Option.bind_some, Bindings.useAll?_empty_iff (hdistinct uses rfl)]
      simp [AliasUse.AllAgree]

/-- From no bindings two steps succeed one after the other just if the uses of both agree. -/
theorem both_isSome_iff (h : MeetsUses cx step first) (hlater : MeetsUses cx later second)
    (hfirst : AliasUse.AllDistinct first) (hsecond : AliasUse.AllDistinct second) :
    ((step .empty).bind later).isSome = true ↔ ∃ uses more, first = some uses ∧
      second = some more ∧ AliasUse.AllAgree cx (uses ++ more) := by
  have hjoined : ∀ all, (first.bind fun uses => second.map (uses ++ ·)) = some all ↔
      ∃ uses more, first = some uses ∧ second = some more ∧ uses ++ more = all := by
    intro all
    simp [Option.bind_eq_some_iff, Option.map_eq_some_iff]
  refine ((h.andThen hlater).isSome_iff fun all hall u hu => ?_).trans ?_
  · obtain ⟨uses, more, huses, hmore, rfl⟩ := (hjoined all).1 hall
    exact (List.mem_append.1 hu).elim (hfirst uses huses u) (hsecond more hmore u)
  · constructor
    · rintro ⟨all, hall, hagree⟩
      obtain ⟨uses, more, huses, hmore, rfl⟩ := (hjoined all).1 hall
      exact ⟨uses, more, huses, hmore, hagree⟩
    · rintro ⟨uses, more, huses, hmore, hagree⟩
      exact ⟨uses ++ more, (hjoined _).2 ⟨uses, more, huses, hmore, rfl⟩, hagree⟩

end MeetsUses

/-! ## Uses of texts and of subtrees -/

namespace AliasUse

variable {cx : MatchContext} {uses more : List AliasUse}

/-- A use of an alias for texts. -/
def IsText : AliasUse → Prop
  | text _ _ => True
  | tree _ _ => False

theorem namesDistinct_of_isText {u : AliasUse} (h : u.IsText) : u.NamesDistinct := by
  cases u with
  | text => trivial
  | tree => exact h.elim

theorem allAgree_append_comm : AllAgree cx (uses ++ more) ↔ AllAgree cx (more ++ uses) := by
  have hmem : ∀ u, u ∈ uses ++ more ↔ u ∈ more ++ uses := fun u => by
    rw [List.mem_append, List.mem_append, or_comm]
  simp only [AllAgree, hmem]

theorem AllAgree.left (h : AllAgree cx (uses ++ more)) : AllAgree cx uses :=
  fun u hu w hw => h u (List.mem_append_left _ hu) w (List.mem_append_left _ hw)

/-- Subtrees and texts have nothing to agree on. -/
theorem allAgree_append_iff (huses : ∀ u ∈ uses, ¬ u.IsText) (hmore : ∀ u ∈ more, u.IsText) :
    AllAgree cx (uses ++ more) ↔ AllAgree cx uses ∧ AllAgree cx more := by
  constructor
  · exact fun h => ⟨h.left, (allAgree_append_comm.1 h).left⟩
  · rintro ⟨htrees, htexts⟩ u hu w hw
    rcases List.mem_append.1 hu with hu | hu
    · rcases List.mem_append.1 hw with hw | hw
      · exact htrees u hu w hw
      · cases u with
        | text => exact absurd trivial (huses _ hu)
        | tree =>
            cases w with
            | text => trivial
            | tree => exact (hmore _ hw).elim
    · rcases List.mem_append.1 hw with hw | hw
      · cases u with
        | tree => exact (hmore _ hu).elim
        | text =>
            cases w with
            | text => exact absurd trivial (huses _ hw)
            | tree => trivial
      · exact htexts u hu w hw

/-- A subtree that an alias stands for agrees with itself. -/
theorem allAgree_tree {file : Node} (hfile : file.NamesDistinct) (aliasName : Option String) :
    AllAgree cx (aliasName.toList.map (.tree · file)) := by
  cases aliasName <;> simp [AllAgree, Agrees, Node.structEq_refl hfile]

/-- A subtree and texts agree if the texts do. -/
theorem allAgree_tree_append_iff {file : Node} (hfile : file.NamesDistinct)
    (aliasName : Option String) (huses : ∀ u ∈ uses, u.IsText) :
    AllAgree cx (aliasName.toList.map (.tree · file) ++ uses) ↔ AllAgree cx uses := by
  rw [allAgree_append_iff (List.forall_mem_map.2 fun _ _ => id) huses,
    and_iff_right (allAgree_tree hfile aliasName)]

/-- Two subtrees of different kinds agree unless one alias stands for both. -/
theorem allAgree_trees_iff {f g : Node} (hkinds : f.kind ≠ g.kind) (hf : f.NamesDistinct)
    (hg : g.NamesDistinct) (left right : Option String) :
    AllAgree cx (left.toList.map (.tree · f) ++ right.toList.map (.tree · g)) ↔
      ¬ ∃ aliasName, left = some aliasName ∧ right = some aliasName := by
  have hdiffer : ¬ f.structEq g = true := fun h => hkinds (Node.structEq_iff.1 h).1
  cases left with
  | none => cases right <;> simp [AllAgree, Agrees, Node.structEq_refl hg]
  | some x =>
      cases right with
      | none => simp [AllAgree, Agrees, Node.structEq_refl hf]
      | some y =>
          by_cases hname : x = y
          · simp [AllAgree, Agrees, hname, hdiffer]
          · simp [AllAgree, Agrees, Node.structEq_refl hf, Node.structEq_refl hg, hname,
              Ne.symm hname]

end AliasUse

/-! ## What a node of a query meets -/

namespace MatchContext

/-- The uses of aliases that a text of a query meets in a value: what its wildcards capture, or
nothing if it is the same text. -/
def textUses? (cx : MatchContext) (pattern value : String) : Option (List AliasUse) :=
  if cx.markers.hasWildcard pattern then
    (cx.captures? pattern value).map fun captures => captures.map .ofCapture
  else if Text.sameText cx.config.ignoreCase pattern value then some [] else none

/-- Whether a node of a query is a wildcard that stands for any subtree. -/
def standsForTree (cx : MatchContext) (query : Node) : Bool :=
  (cx.nameWildcard? query).any cx.markers.isNodeTree

/-- The alias of a node of a query that stands for any subtree. -/
def subtreeAlias? (cx : MatchContext) (query : Node) : Option String :=
  ((cx.nameWildcard? query).filter cx.markers.isNodeTree).bind cx.treeAlias?

/-- The uses of aliases that a node of a query meets in a node of a file. Unless it stands for a
subtree it is read as some text, which meets a value. -/
def nodeUses? (cx : MatchContext) (file query : Node) (pattern value : String) :
    Option (List AliasUse) :=
  if cx.standsForTree query then some ((cx.subtreeAlias? query).toList.map (.tree · file))
  else cx.textUses? pattern value

end MatchContext

section

variable {cx : MatchContext} {file query : Node} {pattern value : String} {b : Bindings}

theorem isText_of_textUses? {uses : List AliasUse} (h : cx.textUses? pattern value = some uses) :
    ∀ u ∈ uses, u.IsText := by
  rw [MatchContext.textUses?] at h
  split at h
  next =>
    obtain ⟨captures, -, rfl⟩ := Option.map_eq_some_iff.1 h
    exact List.forall_mem_map.2 fun _ _ => trivial
  next =>
    split at h
    next =>
      obtain rfl := Option.some.inj h
      simp
    next => cases h

theorem allDistinct_textUses? (pattern value : String) :
    AliasUse.AllDistinct (cx.textUses? pattern value) :=
  fun _ huses u hu => AliasUse.namesDistinct_of_isText (isText_of_textUses? huses u hu)

theorem allDistinct_tree (hfile : file.NamesDistinct) (aliasName : Option String) :
    AliasUse.AllDistinct (some (aliasName.toList.map (.tree · file))) := by
  rintro uses huses u hu
  obtain rfl := Option.some.inj huses
  obtain ⟨name, -, rfl⟩ := List.mem_map.1 hu
  exact hfile

theorem allDistinct_nodeUses? (hfile : file.NamesDistinct) (query : Node)
    (pattern value : String) : AliasUse.AllDistinct (cx.nodeUses? file query pattern value) := by
  rw [MatchContext.nodeUses?]
  split
  next => exact allDistinct_tree hfile _
  next => exact allDistinct_textUses? pattern value

/-- What stands for a subtree is one wildcard. -/
theorem standsForTree_iff : cx.standsForTree query = true ↔
    ∃ name, cx.nameWildcard? query = some name ∧ cx.markers.isNodeTree name = true := by
  rw [MatchContext.standsForTree, Option.any_eq_true]

theorem subtreeAlias?_of_tree {name : String} (hname : cx.nameWildcard? query = some name)
    (htree : cx.markers.isNodeTree name = true) : cx.subtreeAlias? query = cx.treeAlias? name := by
  rw [MatchContext.subtreeAlias?, hname, Option.filter_some, if_pos htree]
  rfl

theorem subtreeAlias?_eq_none (h : cx.standsForTree query = false) :
    cx.subtreeAlias? query = none := by
  have hnone : (cx.nameWildcard? query).filter cx.markers.isNodeTree = none := by
    rw [Option.filter_eq_none_iff]
    intro name hname htree
    rw [standsForTree_iff.2 ⟨name, hname, htree⟩] at h
    cases h
  rw [MatchContext.subtreeAlias?, hnone]
  rfl

/-! ## Matches that a comparison settles -/

theorem Validation.agrees_eq_isSome (v : Validation) : v.agrees = v.bindings?.isSome := by
  rw [bindings?]
  cases v.agrees <;> rfl

/-- A match fails if the comparison does. -/
theorem bindings?_validate_of_not_agrees (h : ¬ (compare cx file query b).1.agrees = true) :
    (validate cx file query b).bindings? = none := by
  rw [validate_eq, validateFound, if_neg h]
  rfl

/-- A match whose comparison leaves no field to agree ends with what the comparison binds. -/
theorem bindings?_validate_of_closed {compared : Comparison × Bindings}
    (h : compare cx file query b = compared) (hquery : compared.1.queryKeys = [])
    (hfile : compared.1.fileKeys = []) :
    (validate cx file query b).bindings? = Comparison.bindings? compared := by
  rw [validate_eq, h, validateFound, validateKeys_eq, hquery, hfile, if_pos rfl,
    Comparison.bindings?]
  split
  next hagrees => simp [Validation.inTurn, Validation.bindings?, Validation.accept]
  next hagrees => simp [Validation.bindings?, Validation.reject]

/-- A wildcard that stands for a subtree meets the use of its alias, if it is compared after rules
and default values. -/
theorem tree_meets (hcompare : ∀ b, compare cx file query b = comparePlain cx file query b)
    (htree : cx.standsForTree query = true) :
    MeetsUses cx (fun b => (validate cx file query b).bindings?)
      (some ((cx.subtreeAlias? query).toList.map (.tree · file))) := by
  intro b d hsame
  show SameResult (validate cx file query b).bindings? _
  obtain ⟨name, hname, hwhole⟩ := standsForTree_iff.1 htree
  have hwildcard := (hcompare b).trans (comparePlain_of_name hname b)
  rw [compareIdentifier_tree hwhole] at hwildcard
  rw [subtreeAlias?_of_tree hname hwhole, bindings?_validate_of_closed hwildcard rfl rfl,
    Comparison.bindings?_getD (.closed file) true (by simp [Comparison.closed]), if_pos rfl,
    MatchContext.matchTree?]
  cases cx.treeAlias? name with
  | none => exact Option.Rel.some hsame
  | some aliasName =>
      have huse : d.useAll? cx [.tree aliasName file] = d.use? cx (.tree aliasName file) := by
        simp [Bindings.useAll?]
      rw [Option.toList_some, List.map_singleton, Option.bind_some, huse]
      exact matchNode?_follows cx hsame aliasName _ _

end

end CodeSearch

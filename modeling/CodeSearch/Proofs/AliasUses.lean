import CodeSearch.Proofs.Locality
import CodeSearch.Proofs.NormalForm

/-!
# Uses of aliases

Each use of an alias has met a text or a subtree. Uses one after another bind what is unbound and
compare what is bound, so that one of them may fail. Whether any does is a matter of the uses two by
two: they succeed just if the bindings at the start allow each of them and any two agree.
-/

set_option autoImplicit false

namespace CodeSearch

/-! ## What a use has met -/

/-- What a use of an alias has met: a captured text, or a subtree. -/
inductive AliasUse where
  | text (name value : String)
  | tree (name : String) (node : Node)

namespace AliasUse

/-- What a capture of a pattern has met. -/
def ofCapture (capture : Capture) : AliasUse := text capture.aliasName capture.text

/-- Two uses **agree** unless they are of one alias and have met texts that differ, beyond letter
case if that is ignored, or subtrees that are not structurally equal. -/
def Agrees (cx : MatchContext) : AliasUse → AliasUse → Prop
  | text name value, text name' value' => name = name' → cx.fold value = cx.fold value'
  | tree name node, tree name' node' => name = name' → node.structEq node' = true
  | _, _ => True

/-- A subtree that a use has met has no two fields of one name in any of its nodes. -/
def NamesDistinct : AliasUse → Prop
  | text _ _ => True
  | tree _ node => node.NamesDistinct

theorem agrees_refl {cx : MatchContext} {u : AliasUse} (hu : u.NamesDistinct) : u.Agrees cx u := by
  cases u with
  | text name value => exact fun _ => rfl
  | tree name node => exact fun _ => Node.structEq_refl hu

theorem agrees_symm {cx : MatchContext} {u w : AliasUse} (hu : u.NamesDistinct)
    (h : u.Agrees cx w) : w.Agrees cx u := by
  cases u <;> cases w
  case text.text => exact fun hname => (h hname.symm).symm
  case tree.tree => exact fun hname => Node.structEq_symm hu (h hname.symm)
  case text.tree => trivial
  case tree.text => trivial

end AliasUse

/-! ## One use after another -/

namespace Bindings

/-- All aliases stand for the same in both bindings. -/
def Same (b c : Bindings) : Prop := ∀ a, b.SameAt c a

/-- The bindings after a use of an alias, none if it stands for something else. -/
def use? (cx : MatchContext) (b : Bindings) : AliasUse → Option Bindings
  | .text name value =>
      match b.text? name with
      | some bound => if Text.sameText cx.config.ignoreCase bound value then some b else none
      | none => some (b.bind .identifier name ⟨value, none⟩)
  | .tree name node => b.matchNode? name "" node

/-- The bindings after some uses, one after another. -/
def useAll? (cx : MatchContext) (b : Bindings) (uses : List AliasUse) : Option Bindings :=
  uses.foldlM (use? cx) b

section

variable {cx : MatchContext} {b c d : Bindings}

theorem useAll?_cons (u : AliasUse) (rest : List AliasUse) :
    b.useAll? cx (u :: rest) = (b.use? cx u).bind fun c => c.useAll? cx rest := by
  rw [useAll?, List.foldlM_cons]
  rfl

theorem useAll?_append (uses later : List AliasUse) :
    b.useAll? cx (uses ++ later) = (b.useAll? cx uses).bind fun c => c.useAll? cx later := by
  rw [useAll?, List.foldlM_append]
  rfl

/-- What an alias stands for **allows** a use. -/
def Allows (cx : MatchContext) (b : Bindings) : AliasUse → Prop
  | .text name value => ∀ bound, b.text? name = some bound → cx.fold bound = cx.fold value
  | .tree name node => ∀ bound, b.tree? name = some bound → bound.structEq node = true

theorem allows_empty (u : AliasUse) : empty.Allows cx u := by
  cases u with
  | text name value => exact fun bound hbound => absurd hbound (by simp [empty, text?, textual?])
  | tree name node => exact fun bound hbound => absurd hbound (by simp [empty, tree?])

/-- A use that is allowed succeeds. -/
theorem use?_isSome_iff {u : AliasUse} : (b.use? cx u).isSome = true ↔ b.Allows cx u := by
  cases u with
  | text name value =>
      rw [use?, Allows]
      cases htext : b.text? name with
      | none => simp
      | some bound => simp [← cx.sameText_iff_fold]
  | tree name node =>
      rw [use?, Allows, matchNode?_eq]
      cases htree : b.tree? name with
      | none => simp
      | some bound => simp

/-- After a use, an alias stands for what it did, or for what the use has met. -/
theorem tree?_use? {u : AliasUse} (h : b.use? cx u = some c) {P : Node → Prop}
    (hb : b.TreesAmong P) (hu : ∀ name node, u = .tree name node → P node) : c.TreesAmong P := by
  cases u with
  | text name value =>
      rw [use?] at h
      split at h
      next =>
        split at h
        next =>
          obtain rfl := Option.some.inj h
          exact hb
        next => simp at h
      next =>
        obtain rfl := Option.some.inj h
        exact hb
  | tree name node =>
      obtain ⟨-, hnew, -⟩ := matchNode?_eq_some h
      intro other bound hbound
      rcases hnew other bound hbound with hold | rfl
      · exact hb other bound hold
      · exact hu name bound rfl

theorem use?_text_allows {name value : String} {w : AliasUse}
    (h : b.use? cx (.text name value) = some c) :
    c.Allows cx w ↔ b.Allows cx w ∧ (AliasUse.text name value).Agrees cx w := by
  have hallows : b.Allows cx (.text name value) := use?_isSome_iff.1 (by rw [h]; rfl)
  rw [use?] at h
  cases htext : b.text? name with
  | some bound =>
      -- the alias stands for something, which both uses have to be the same as
      have hsame := cx.sameText_iff_fold.2 (hallows bound htext)
      simp only [htext, hsame, if_true] at h
      obtain rfl := Option.some.inj h
      refine ⟨fun hw => ⟨hw, ?_⟩, And.left⟩
      cases w with
      | tree => trivial
      | text name' value' =>
          rintro rfl
          exact (hallows bound htext).symm.trans (hw bound htext)
  | none =>
      simp only [htext] at h
      obtain rfl := Option.some.inj h
      have hbind : ∀ other, (b.bind .identifier name ⟨value, none⟩).text? other =
          if other = name then some value else b.text? other :=
        fun other => text?_bind (by decide) htext
      cases w with
      | tree => exact ⟨fun hw => ⟨hw, trivial⟩, And.left⟩
      | text name' value' =>
          simp only [Allows, AliasUse.Agrees, hbind]
          by_cases hname : name' = name
          · subst hname
            simp [htext]
          · simp [hname, Ne.symm hname]

theorem use?_tree_allows {name : String} {node : Node} {w : AliasUse}
    (h : b.use? cx (.tree name node) = some c) (hb : b.TreesAmong Node.NamesDistinct) :
    c.Allows cx w ↔ b.Allows cx w ∧ (AliasUse.tree name node).Agrees cx w := by
  have hallows : b.Allows cx (.tree name node) := use?_isSome_iff.1 (by rw [h]; rfl)
  rw [use?, matchNode?_eq] at h
  cases htree : b.tree? name with
  | some bound =>
      have hequal := hallows bound htree
      simp only [htree, hequal, if_true] at h
      obtain rfl := Option.some.inj h
      refine ⟨fun hw => ⟨hw, ?_⟩, And.left⟩
      cases w with
      | text => trivial
      | tree name' node' =>
          rintro rfl
          exact Node.structEq_trans (Node.structEq_symm (hb name bound htree) hequal)
            (hw bound htree)
  | none =>
      simp only [htree] at h
      obtain rfl := Option.some.inj h
      cases w with
      | text => exact ⟨fun hw => ⟨hw, trivial⟩, And.left⟩
      | tree name' node' =>
          simp only [Allows, AliasUse.Agrees, tree?_bind_nodeTree]
          by_cases hname : name' = name
          · subst hname
            simp [htree]
          · simp [hname, Ne.symm hname]

/-- **One use after another**: a use is allowed after another just if it was before and the two
agree. -/
theorem use?_allows {u w : AliasUse} (h : b.use? cx u = some c)
    (hb : b.TreesAmong Node.NamesDistinct) : c.Allows cx w ↔ b.Allows cx w ∧ u.Agrees cx w := by
  cases u with
  | text name value => exact use?_text_allows h
  | tree name node => exact use?_tree_allows h hb

/-- **Uses one after another succeed** just if each is allowed at the start and they agree two by
two. -/
theorem useAll?_isSome_iff {uses : List AliasUse} (hb : b.TreesAmong Node.NamesDistinct)
    (huses : ∀ u ∈ uses, u.NamesDistinct) :
    (b.useAll? cx uses).isSome = true ↔
      (∀ u ∈ uses, b.Allows cx u) ∧ uses.Pairwise (AliasUse.Agrees cx) := by
  induction uses generalizing b with
  | nil => simp [useAll?]
  | cons u rest ih =>
      obtain ⟨hu, hrest⟩ := List.forall_mem_cons.1 huses
      rw [useAll?_cons, List.forall_mem_cons, List.pairwise_cons]
      cases huse : b.use? cx u with
      | none =>
          have hdenied : ¬ b.Allows cx u := fun hallows => by
            simpa [huse] using use?_isSome_iff.2 hallows
          simp [hdenied]
      | some c =>
          have hallows : b.Allows cx u := use?_isSome_iff.1 (by rw [huse]; rfl)
          have hc : c.TreesAmong Node.NamesDistinct :=
            tree?_use? huse hb (by rintro _ _ rfl; exact hu)
          have hlater : (∀ w ∈ rest, c.Allows cx w) ↔
              (∀ w ∈ rest, b.Allows cx w) ∧ ∀ w ∈ rest, u.Agrees cx w := by
            simp only [use?_allows huse hb, ← forall_and]
          refine (ih hc hrest).trans ?_
          rw [hlater]
          tauto

/-- From no bindings, uses one after another succeed just if any two of them agree. -/
theorem useAll?_empty_iff {uses : List AliasUse} (huses : ∀ u ∈ uses, u.NamesDistinct) :
    (empty.useAll? cx uses).isSome = true ↔ ∀ u ∈ uses, ∀ w ∈ uses, u.Agrees cx w := by
  rw [useAll?_isSome_iff (fun _ _ h => absurd h (by simp [empty, tree?])) huses,
    and_iff_right fun u _ => allows_empty u]
  constructor
  · intro h u hu w hw
    refine List.Pairwise.forall_of_forall_of_flip (fun u hu => AliasUse.agrees_refl (huses u hu)) h
      (h.imp_of_mem fun {u w} hu _ huw => ?_) hu hw
    exact AliasUse.agrees_symm (huses u hu) huw
  · exact fun h => List.pairwise_of_forall_mem_list h

end

end Bindings

end CodeSearch

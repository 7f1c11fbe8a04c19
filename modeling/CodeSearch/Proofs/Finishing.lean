import CodeSearch.Language.Registry
import CodeSearch.Proofs.Templates

/-!
# The last step on a node

Once its children are there, a node may be changed once more: pieces of a template are joined, and
so are the parts of a dimension; contents and values that are empty are put in; an element is cut
off where its last child ends. `Language.LastStep` lists what a language does to which nodes, and
for each of these steps it is shown what may stand in the node afterwards.

`Language.finish_finish`: a node that has been finished is not changed by finishing it again.
-/

set_option autoImplicit false

namespace CodeSearch

/-! ## Steps on the children -/

namespace Node

variable {step : List Node → List Node} {n c : Node}

/-- A node with its list of children changed, if it has one. -/
def mapChildren (step : List Node → List Node) (n : Node) : Node :=
  match n.field? childrenField with
  | some (.nodes children) => n.setField childrenField (.nodes (step children))
  | _ => n

theorem mapChildren_cases (step : List Node → List Node) (n : Node) : n.mapChildren step = n ∨
    n.field? childrenField = some (.nodes n.children) ∧
      n.mapChildren step = n.setField childrenField (.nodes (step n.children)) := by
  unfold mapChildren
  split
  next children hfield =>
    have hchildren : n.children = children := by
      rw [Node.children, hfield]
      rfl
    rw [hchildren]
    exact Or.inr ⟨hfield, rfl⟩
  next => exact Or.inl rfl

theorem mem_offspring_mapChildren (h : c ∈ (n.mapChildren step).offspring) :
    c ∈ n.offspring ∨ c ∈ step n.children := by
  rcases mapChildren_cases step n with heq | ⟨-, heq⟩
  · rw [heq] at h
    exact Or.inl h
  · rw [heq] at h
    exact (Node.mem_offspring_setField h).symm

theorem head_mapChildren (step : List Node → List Node) (n : Node) :
    (n.mapChildren step).kind = n.kind ∧ (n.mapChildren step).text = n.text ∧
      (n.mapChildren step).span = n.span := by
  rcases mapChildren_cases step n with heq | ⟨-, heq⟩
  · rw [heq]
    exact ⟨rfl, rfl, rfl⟩
  · rw [heq]
    exact ⟨rfl, rfl, rfl⟩

theorem HasDistinctFields.mapChildren (h : n.HasDistinctFields) :
    (n.mapChildren step).HasDistinctFields := by
  rcases mapChildren_cases step n with heq | ⟨-, heq⟩
  · rw [heq]
    exact h
  · rw [heq]
    exact h.setField _ _

/-- A step that changes nothing the second time does so in a node. -/
theorem mapChildren_mapChildren (h : step (step n.children) = step n.children) :
    (n.mapChildren step).mapChildren step = n.mapChildren step := by
  rcases mapChildren_cases step n with heq | ⟨-, heq⟩
  · rw [heq, heq]
  · have hagain : (n.setField childrenField (.nodes (step n.children))).mapChildren step =
        (n.setField childrenField (.nodes (step n.children))).setField childrenField
          (.nodes (step (step n.children))) := by
      rw [Node.mapChildren, Node.field?_setField_self]
    rw [heq, hagain, h, Node.setField_setField]

end Node

/-! ## Numbers and units -/

namespace Css

variable {number value joined : Node}

theorem joined?_eq_some (h : joined? number value = some joined) :
    ∃ left right, number.text = some left ∧ value.text = some right ∧
      continues number value = true ∧
      joined = .leaf number.kind (left ++ right) (number.span.cover value.span) := by
  unfold joined? at h
  split at h
  next left right hleft hright =>
    split at h
    next hcontinues => exact ⟨left, right, hleft, hright, hcontinues, (Option.some.inj h).symm⟩
    next => simp at h
  next => simp at h

/-- A value, or values joined one after another. -/
inductive Joined (values : List Node) : Node → Prop
  | value {value : Node} (hvalue : value ∈ values) : Joined values value
  | join {number value joined : Node} (hnumber : Joined values number) (hvalue : value ∈ values)
      (hjoined : joined? number value = some joined) : Joined values joined

theorem Joined.mem_or_bare {values : List Node} {c : Node} (h : Joined values c) :
    c ∈ values ∨ c.fields = [] := by
  cases h with
  | value hvalue => exact Or.inl hvalue
  | join _ _ hjoined =>
      obtain ⟨left, right, -, -, -, rfl⟩ := joined?_eq_some hjoined
      exact Or.inr rfl

theorem joined_of_mem_joinAfter {values rest : List Node} {previous m : Node}
    (hprevious : Joined values previous) (hrest : ∀ value ∈ rest, value ∈ values)
    (hm : m ∈ joinAfter previous rest) : Joined values m := by
  induction rest generalizing previous with
  | nil =>
      rw [joinAfter] at hm
      rw [List.mem_singleton.1 hm]
      exact hprevious
  | cons value rest ih =>
      obtain ⟨hvalue, hrest⟩ := List.forall_mem_cons.1 hrest
      rw [joinAfter] at hm
      split at hm
      next number hjoined => exact ih (.join hprevious hvalue hjoined) hrest hm
      next =>
        rcases List.mem_cons.1 hm with rfl | hm
        · exact hprevious
        · exact ih (.value hvalue) hrest hm

theorem joined_of_mem_joinNumbers {values : List Node} {m : Node} (hm : m ∈ joinNumbers values) :
    Joined values m := by
  cases values with
  | nil => exact absurd hm List.not_mem_nil
  | cons value rest =>
      exact joined_of_mem_joinAfter (.value List.mem_cons_self)
        (fun _ hother => List.mem_cons_of_mem _ hother) hm

/-- Right below a finished declaration are nodes that were there, and values of it joined. -/
theorem mem_offspring_joinAdjacentNumbers {n c : Node}
    (h : c ∈ (joinAdjacentNumbers n).offspring) : c ∈ n.offspring ∨ Joined n.children c :=
  (Node.mem_offspring_mapChildren h).imp_right joined_of_mem_joinNumbers

/-- Whether a value may be joined with one before it or after it is told by these three. -/
structure JoinsAlike (left right : Node) : Prop where
  kind : left.kind = right.kind
  startByte : left.span.startByte = right.span.startByte
  text : left.text.isSome = right.text.isSome

theorem joined?_eq_none_iff : joined? number value = none ↔
    (continues number value = true → number.text.isSome = true → value.text.isSome = false) := by
  unfold joined?
  cases number.text <;> cases value.text <;> simp

/-- A number that is joined with what continues it is joined with what comes before like the number
by itself. -/
theorem joinsAlike_of_joined? (hnumber : number.span.startByte ≤ number.span.endByte)
    (hvalue : value.span.startByte ≤ value.span.endByte)
    (h : joined? number value = some joined) :
    JoinsAlike joined number ∧ joined.span.startByte ≤ joined.span.endByte := by
  obtain ⟨left, right, hleft, -, hcontinues, rfl⟩ := joined?_eq_some h
  simp only [continues, Bool.and_eq_true, beq_iff_eq] at hcontinues
  have hmeet : number.span.endByte = value.span.startByte := hcontinues.2
  have hstart : (number.span.cover value.span).startByte = number.span.startByte := by
    rw [Span.cover_startByte]
    omega
  have hend : (number.span.cover value.span).endByte = value.span.endByte := by
    rw [Span.cover_endByte]
    omega
  refine ⟨⟨rfl, hstart, by rw [hleft]; rfl⟩, ?_⟩
  show (number.span.cover value.span).startByte ≤ (number.span.cover value.span).endByte
  omega

theorem joined?_eq_none_of_alike {other : Node} (halike : JoinsAlike other value)
    (h : joined? number value = none) : joined? number other = none := by
  rw [joined?_eq_none_iff] at h ⊢
  rw [continues, halike.kind, halike.startByte, halike.text]
  exact h

/-- **What was kept apart stays apart**: of the values that are left no one continues the one before
it, and the first of them is joined with what comes before like the first there was. -/
theorem joinAfter_apart {previous : Node} {rest : List Node}
    (hprevious : previous.span.startByte ≤ previous.span.endByte)
    (hrest : ∀ value ∈ rest, value.span.startByte ≤ value.span.endByte) :
    ∃ first later, joinAfter previous rest = first :: later ∧ JoinsAlike first previous ∧
      (first :: later).IsChain fun left right => joined? left right = none := by
  induction rest generalizing previous with
  | nil => exact ⟨previous, [], rfl, ⟨rfl, rfl, rfl⟩, .singleton _⟩
  | cons value rest ih =>
      obtain ⟨hvalue, hrest⟩ := List.forall_mem_cons.1 hrest
      rw [joinAfter]
      split
      next number hjoined =>
        obtain ⟨halike, hnumber⟩ := joinsAlike_of_joined? hprevious hvalue hjoined
        obtain ⟨first, later, heq, hfirst, hchain⟩ := ih hnumber hrest
        exact ⟨first, later, heq, ⟨hfirst.kind.trans halike.kind,
          hfirst.startByte.trans halike.startByte, hfirst.text.trans halike.text⟩, hchain⟩
      next hapart =>
        obtain ⟨first, later, heq, hfirst, hchain⟩ := ih hvalue hrest
        refine ⟨previous, first :: later, by rw [heq], ⟨rfl, rfl, rfl⟩, ?_⟩
        exact List.isChain_cons_cons.2 ⟨joined?_eq_none_of_alike hfirst hapart, hchain⟩

theorem joinAfter_of_apart {previous : Node} {rest : List Node}
    (h : (previous :: rest).IsChain fun left right => joined? left right = none) :
    joinAfter previous rest = previous :: rest := by
  induction rest generalizing previous with
  | nil => rfl
  | cons value rest ih =>
      obtain ⟨hapart, hrest⟩ := List.isChain_cons_cons.1 h
      rw [joinAfter, hapart]
      exact congrArg (previous :: ·) (ih hrest)

theorem joinNumbers_joinNumbers {values : List Node}
    (h : ∀ value ∈ values, value.span.startByte ≤ value.span.endByte) :
    joinNumbers (joinNumbers values) = joinNumbers values := by
  cases values with
  | nil => rfl
  | cons value rest =>
      obtain ⟨hvalue, hrest⟩ := List.forall_mem_cons.1 h
      obtain ⟨first, later, heq, -, hchain⟩ := joinAfter_apart hvalue hrest
      rw [joinNumbers, heq]
      exact joinAfter_of_apart hchain

theorem joinAdjacentNumbers_joinAdjacentNumbers {n : Node}
    (h : ∀ c ∈ n.children, c.span.startByte ≤ c.span.endByte) :
    joinAdjacentNumbers (joinAdjacentNumbers n) = joinAdjacentNumbers n :=
  Node.mapChildren_mapChildren (joinNumbers_joinNumbers h)

end Css

/-! ## Contents that are put in -/

namespace Python

theorem mem_fillContent {parts : List Node} {c : Node} (h : c ∈ fillContent parts) :
    c ∈ parts ∨ ∃ first ∈ parts, c = .leaf "string_content" "" first.span.atEnd := by
  unfold fillContent at h
  split at h
  next first rest =>
    split at h
    next =>
      rcases List.mem_cons.1 h with rfl | h
      · exact Or.inl List.mem_cons_self
      · rcases List.mem_cons.1 h with rfl | h
        · exact Or.inr ⟨first, List.mem_cons_self, rfl⟩
        · exact Or.inl (List.mem_cons_of_mem _ h)
    next => exact Or.inl h
  next => simp at h

/-- Right below a finished string are nodes that were there, and an empty content. -/
theorem mem_offspring_insertEmptyContent {n c : Node}
    (h : c ∈ (insertEmptyContent n).offspring) : c ∈ n.offspring ∨
      ∃ first ∈ n.children, c = .leaf "string_content" "" first.span.atEnd := by
  rcases Node.mem_offspring_mapChildren h with hold | hnew
  · exact Or.inl hold
  · exact (mem_fillContent hnew).imp_left Node.mem_offspring_of_mem_children

/-- Parts that were filled have a content. -/
theorem fillContent_fillContent (parts : List Node) :
    fillContent (fillContent parts) = fillContent parts := by
  cases parts with
  | nil => rfl
  | cons first rest =>
      rw [fillContent]
      split
      next => simp [fillContent, Node.leaf]
      next hfilled => rw [fillContent, if_neg hfilled]

theorem insertEmptyContent_insertEmptyContent (n : Node) :
    insertEmptyContent (insertEmptyContent n) = insertEmptyContent n :=
  Node.mapChildren_mapChildren (fillContent_fillContent n.children)

end Python

/-! ## Ends of elements -/

namespace Html

/-- An element is left as it is, or it ends where one of its children does. -/
theorem trimImplicitClose_cases (n : Node) : trimImplicitClose n = n ∨
    ∃ last ∈ n.children, n.children.reverse.find? (fun child => !isEmptyText child) = some last ∧
      trimImplicitClose n = n.withSpan
        ⟨n.span.startByte, last.span.endByte, n.span.start, last.span.stop⟩ := by
  unfold trimImplicitClose
  dsimp only
  split
  next => exact Or.inl rfl
  next =>
    split
    next last hlast =>
      exact Or.inr ⟨last, List.mem_reverse.1 (List.mem_of_find?_eq_some hlast), hlast, rfl⟩
    next => exact Or.inl rfl

theorem fields_trimImplicitClose (n : Node) : (trimImplicitClose n).fields = n.fields := by
  rcases trimImplicitClose_cases n with heq | ⟨last, -, -, heq⟩
  · rw [heq]
  · rw [heq]
    rfl

/-- An element that is cut off keeps its children, so that it ends where it ended. -/
theorem trimImplicitClose_trimImplicitClose (n : Node) :
    trimImplicitClose (trimImplicitClose n) = trimImplicitClose n := by
  rcases trimImplicitClose_cases n with heq | ⟨last, -, hlast, heq⟩
  · rw [heq, heq]
  · rw [heq]
    rcases trimImplicitClose_cases (n.withSpan
        ⟨n.span.startByte, last.span.endByte, n.span.start, last.span.stop⟩) with
      hsame | ⟨other, -, hother, hcut⟩
    · exact hsame
    · have hchildren : (n.withSpan ⟨n.span.startByte, last.span.endByte, n.span.start,
          last.span.stop⟩).children = n.children := rfl
      rw [hchildren, hlast] at hother
      rw [hcut, ← Option.some.inj hother]
      rfl

/-- Right below a finished value are nodes that were there, and an empty value. -/
theorem mem_offspring_fillQuotedValue {n c : Node} (h : c ∈ (fillQuotedValue n).offspring) :
    c ∈ n.offspring ∨ c = .leaf "attribute_value" "" (Ecma.insideDelimiter n.span) := by
  unfold fillQuotedValue at h
  split at h
  next =>
    rcases Node.mem_offspring_setField h with hc | hc
    · exact Or.inr (List.mem_singleton.1 hc)
    · exact Or.inl hc
  next => exact Or.inl h

theorem fillQuotedValue_fillQuotedValue (n : Node) :
    fillQuotedValue (fillQuotedValue n) = fillQuotedValue n := by
  rw [fillQuotedValue.eq_def n]
  split
  next =>
    -- a value that was filled has a child
    rw [fillQuotedValue, if_neg]
    simp [Node.withChildren, Node.children, Field.nodes?]
  next hfilled => rw [fillQuotedValue, if_neg hfilled]

end Html

/-! ## The last step of a language -/

namespace Language

/-- Whether a language is JavaScript or one that it is part of. -/
def isEcma : Language → Bool
  | javaScript | typeScript | tsx => true
  | _ => false

/-- The last steps that languages take on nodes of some kinds. -/
inductive LastStep : Language → String → (Node → Node) → Prop
  | nothing {language : Language} {kind : String} : LastStep language kind id
  | template {language : Language} (hlanguage : language.isEcma = true) :
      LastStep language "template_string" Ecma.mergeFragments
  | declaration : LastStep css "declaration" Css.joinAdjacentNumbers
  | string : LastStep python "string" Python.insertEmptyContent
  | element : LastStep html "element" Html.trimImplicitClose
  | quotedValue : LastStep html "quoted_attribute_value" Html.fillQuotedValue

/-- All nodes of a kind are finished by one of these steps. -/
theorem exists_lastStep (language : Language) (kind : String) :
    ∃ step, LastStep language kind step ∧
      ∀ n : Node, n.kind = kind → language.dialect.finish n = step n := by
  have hone : ∀ (other : String) (step : Node → Node), LastStep language other step →
      (∀ n : Node, language.dialect.finish n = if n.kind = other then step n else n) →
      ∃ step, LastStep language kind step ∧
        ∀ n : Node, n.kind = kind → language.dialect.finish n = step n := by
    intro other step hstep hfinish
    by_cases hkind : kind = other
    · subst hkind
      exact ⟨step, hstep, fun n hn => by rw [hfinish, if_pos hn]⟩
    · exact ⟨id, .nothing, fun n hn => by rw [hfinish, hn, if_neg hkind]; rfl⟩
  cases language with
  | javaScript => exact hone _ _ (.template rfl) fun _ => rfl
  | typeScript => exact hone _ _ (.template rfl) fun _ => rfl
  | tsx => exact hone _ _ (.template rfl) fun _ => rfl
  | python => exact hone _ _ .string fun _ => rfl
  | css => exact hone _ _ .declaration fun _ => rfl
  | html =>
      have hfinish : ∀ n : Node, html.dialect.finish n =
          if n.kind = "element" then Html.trimImplicitClose n
          else if n.kind = "quoted_attribute_value" then Html.fillQuotedValue n else n :=
        fun _ => rfl
      by_cases helement : kind = "element"
      · subst helement
        exact ⟨_, .element, fun n hn => by rw [hfinish, if_pos hn]⟩
      · by_cases hquoted : kind = "quoted_attribute_value"
        · subst hquoted
          exact ⟨_, .quotedValue, fun n hn => by rw [hfinish, hn, if_neg helement, if_pos rfl]⟩
        · exact ⟨id, .nothing, fun n hn => by
            rw [hfinish, hn, if_neg helement, if_neg hquoted]; rfl⟩
  | cSharp => exact ⟨id, .nothing, fun _ _ => rfl⟩
  | rust => exact ⟨id, .nothing, fun _ _ => rfl⟩
  | lua => exact ⟨id, .nothing, fun _ _ => rfl⟩

namespace LastStep

variable {language : Language} {kind : String} {step : Node → Node}

/-- The last step leaves alone what a node is and where it starts. -/
theorem head (h : LastStep language kind step) (n : Node) :
    (step n).kind = n.kind ∧ (step n).text = n.text ∧
      (step n).span.startByte = n.span.startByte ∧ (step n).span.start = n.span.start := by
  cases h with
  | nothing => exact ⟨rfl, rfl, rfl, rfl⟩
  | template => exact ⟨rfl, rfl, rfl, rfl⟩
  | declaration =>
      obtain ⟨hkind, htext, hspan⟩ := Node.head_mapChildren Css.joinNumbers n
      exact ⟨hkind, htext, congrArg _ hspan, congrArg _ hspan⟩
  | string =>
      obtain ⟨hkind, htext, hspan⟩ := Node.head_mapChildren Python.fillContent n
      exact ⟨hkind, htext, congrArg _ hspan, congrArg _ hspan⟩
  | element =>
      rcases Html.trimImplicitClose_cases n with heq | ⟨last, -, -, heq⟩
      · rw [heq]
        exact ⟨rfl, rfl, rfl, rfl⟩
      · rw [heq]
        exact ⟨rfl, rfl, rfl, rfl⟩
  | quotedValue =>
      unfold Html.fillQuotedValue
      split <;> exact ⟨rfl, rfl, rfl, rfl⟩

/-- A node keeps its span, or it ends where one of its children does. -/
theorem span_cases (h : LastStep language kind step) (n : Node) : (step n).span = n.span ∨
    ∃ last ∈ n.children, (step n).span =
      ⟨n.span.startByte, last.span.endByte, n.span.start, last.span.stop⟩ := by
  cases h with
  | nothing => exact Or.inl rfl
  | template => exact Or.inl rfl
  | declaration => exact Or.inl (Node.head_mapChildren Css.joinNumbers n).2.2
  | string => exact Or.inl (Node.head_mapChildren Python.fillContent n).2.2
  | element =>
      rcases Html.trimImplicitClose_cases n with heq | ⟨last, hlast, -, heq⟩
      · rw [heq]
        exact Or.inl rfl
      · rw [heq]
        exact Or.inr ⟨last, hlast, rfl⟩
  | quotedValue =>
      unfold Html.fillQuotedValue
      split <;> exact Or.inl rfl

/-- Only in HTML does a node end elsewhere. -/
theorem span (h : LastStep language kind step) (hlanguage : language ≠ .html) (n : Node) :
    (step n).span = n.span := by
  cases h with
  | nothing => rfl
  | template => rfl
  | declaration => exact (Node.head_mapChildren Css.joinNumbers n).2.2
  | string => exact (Node.head_mapChildren Python.fillContent n).2.2
  | element => exact absurd rfl hlanguage
  | quotedValue => exact absurd rfl hlanguage

/-- The names of the fields stay distinct. -/
theorem hasDistinctFields (h : LastStep language kind step) {n : Node}
    (hn : n.HasDistinctFields) : (step n).HasDistinctFields := by
  cases h with
  | nothing => exact hn
  | template => exact (hn.removeField _).setField _ _
  | declaration => exact hn.mapChildren
  | string => exact hn.mapChildren
  | element =>
      rw [Node.HasDistinctFields, Html.fields_trimImplicitClose]
      exact hn
  | quotedValue =>
      unfold Html.fillQuotedValue
      split
      next => exact hn.setField _ _
      next => exact hn

/-- Right below a finished node are nodes that were there, and leaves. -/
theorem mem_offspring (h : LastStep language kind step) {n c : Node}
    (hc : c ∈ (step n).offspring) : c ∈ n.offspring ∨ c.fields = [] := by
  cases h with
  | nothing => exact Or.inl hc
  | template =>
      rcases Ecma.mem_offspring_mergeFragments hc with hold | ⟨run, place, hpiece⟩
      · exact Or.inl hold
      · exact Or.inr hpiece.fields_eq
  | declaration =>
      rcases Css.mem_offspring_joinAdjacentNumbers hc with hold | hjoined
      · exact Or.inl hold
      · exact hjoined.mem_or_bare.imp_left Node.mem_offspring_of_mem_children
  | string =>
      rcases Python.mem_offspring_insertEmptyContent hc with hold | ⟨first, -, rfl⟩
      · exact Or.inl hold
      · exact Or.inr rfl
  | element =>
      rw [Node.offspring, Html.fields_trimImplicitClose] at hc
      exact Or.inl hc
  | quotedValue =>
      rcases Html.mem_offspring_fillQuotedValue hc with hold | rfl
      · exact Or.inl hold
      · exact Or.inr rfl

/-- Each of the steps changes nothing the second time. -/
theorem twice (h : LastStep language kind step) {n : Node} (hfields : n.HasDistinctFields)
    (hspans : ∀ c ∈ n.children, c.span.startByte ≤ c.span.endByte) : step (step n) = step n := by
  cases h with
  | nothing => rfl
  | template => exact Ecma.mergeFragments_mergeFragments hfields
  | declaration => exact Css.joinAdjacentNumbers_joinAdjacentNumbers hspans
  | string => exact Python.insertEmptyContent_insertEmptyContent n
  | element => exact Html.trimImplicitClose_trimImplicitClose n
  | quotedValue => exact Html.fillQuotedValue_fillQuotedValue n

end LastStep

/-! ## Finishing -/

/-- What the last step does not spoil, and what the leaves satisfy that it puts in, holds of all
nodes of a finished tree. -/
theorem finishKeeps_of_lastStep {language : Language} {cv : Converter}
    (hdialect : cv.dialect = language.dialect) {Q : Node → Prop} {tree : ConcreteTree}
    (h : ∀ step, LastStep language tree.node.kind step → ∀ depth n,
      cv.attachAll depth (.branch tree.node.kind tree.node.span) tree.children = .ok n →
        (∀ m ∈ n.walk, Q m) → Q (step n) ∧
          ∀ c ∈ (step n).offspring, c ∈ n.offspring ∨ c.fields = [] ∧ Q c) :
    cv.FinishKeeps Q tree := by
  intro depth n hattach hn m hm
  obtain ⟨step, hstep, hfinish⟩ := language.exists_lastStep tree.node.kind
  rw [hdialect, hfinish n (Converter.head_of_attachAll hattach).1] at hm
  obtain ⟨hself, hbelow⟩ := h step hstep depth n hattach hn
  rcases Node.mem_walk.1 hm with rfl | ⟨c, hc, hmc⟩
  · exact hself
  · rcases hbelow c hc with hold | ⟨hbare, hleaf⟩
    · exact hn m (Node.mem_walk_of_mem_offspring hold hmc)
    · -- a leaf is the only node of its tree
      rcases Node.mem_walk.1 hmc with rfl | ⟨d, hd, -⟩
      · exact hleaf
      · rw [Node.offspring, hbare] at hd
        exact absurd hd List.not_mem_nil

/-- Conversion leaves alone what a node is and where it starts. -/
theorem head_of_convertAt {language : Language} {cv : Converter}
    (hdialect : cv.dialect = language.dialect) {tree : ConcreteTree} {depth : Nat} {n : Node}
    (h : cv.convertAt depth tree = .ok n) : n.kind = tree.node.kind ∧
      n.span.startByte = tree.node.span.startByte ∧ n.span.start = tree.node.span.start := by
  obtain ⟨-, rfl⟩ | ⟨-, parent, hattach, rfl⟩ := Converter.convertAt_cases h
  · exact ⟨rfl, rfl, rfl⟩
  · obtain ⟨hkind, -, hspan⟩ := Converter.head_of_attachAll hattach
    obtain ⟨step, hstep, hfinish⟩ := language.exists_lastStep parent.kind
    obtain ⟨hkind', -, hbyte, hstart⟩ := hstep.head parent
    rw [hdialect, hfinish parent rfl]
    refine ⟨hkind'.trans hkind, hbyte.trans ?_, hstart.trans ?_⟩
    · rw [hspan]
      rfl
    · rw [hspan]
      rfl

/-- In languages other than HTML a node keeps its span when it is converted. -/
theorem span_of_convertAt {language : Language} {cv : Converter}
    (hdialect : cv.dialect = language.dialect) (hlanguage : language ≠ .html) {tree : ConcreteTree}
    {depth : Nat} {n : Node} (h : cv.convertAt depth tree = .ok n) : n.span = tree.node.span := by
  obtain ⟨-, rfl⟩ | ⟨-, parent, hattach, rfl⟩ := Converter.convertAt_cases h
  · rfl
  · obtain ⟨-, -, hspan⟩ := Converter.head_of_attachAll hattach
    obtain ⟨step, hstep, hfinish⟩ := language.exists_lastStep parent.kind
    rw [hdialect, hfinish parent rfl, hstep.span hlanguage, hspan]
    rfl

theorem ne_of_isEcma {language : Language} (h : language.isEcma = true) :
    language ≠ .html ∧ language ≠ .css := by
  constructor
  · rintro rfl
    exact absurd h (by decide)
  · rintro rfl
    exact absurd h (by decide)

/-- No modifier has the name of the children without a field. -/
theorem childrenField_not_modifier (language : Language) :
    childrenField ∉ language.dialect.modifiers := by
  cases language <;> decide

/-- **A finished node stays as it is when it is finished again**, whatever its language. -/
theorem finish_finish (language : Language) {n : Node} (hfields : n.HasDistinctFields)
    (hspans : ∀ m ∈ n.walk, m.span.startByte ≤ m.span.endByte) :
    language.dialect.finish (language.dialect.finish n) = language.dialect.finish n := by
  obtain ⟨step, hstep, hfinish⟩ := language.exists_lastStep n.kind
  have hchildren : ∀ c ∈ n.children, c.span.startByte ≤ c.span.endByte := by
    intro c hc
    exact hspans c (Node.mem_walk_of_mem_offspring (Node.mem_offspring_of_mem_children hc)
      (Node.mem_walk_self c))
  -- the kind stays, so that the same step is taken the second time
  rw [hfinish n rfl, hfinish (step n) (hstep.head n).1]
  exact hstep.twice hfields hchildren

/-- A width that the parser of CSS splits in three, between a property and another value. -/
def splitWidth : Node :=
  .mk "declaration" none
    [(childrenField, .nodes
      [.leaf "property_name" "width" (lineSpan 0 5), .leaf "integer_value" "0x" (lineSpan 7 9),
        .leaf "integer_value" "0p" (lineSpan 9 11), .leaf "plain_value" "x" (lineSpan 11 12),
        .leaf "plain_value" "auto" (lineSpan 13 17)])] (lineSpan 0 17)

/-- The three parts are joined, and stay so. -/
theorem finish_finish_splitWidth : splitWidth.HasDistinctFields ∧
    (∀ m ∈ splitWidth.walk, m.span.startByte ≤ m.span.endByte) ∧
    (css.dialect.finish splitWidth).children.map Node.text =
      [some "width", some "0x0px", some "auto"] ∧
    css.dialect.finish (css.dialect.finish splitWidth) = css.dialect.finish splitWidth := by
  have hfields : splitWidth.HasDistinctFields := List.nodup_singleton _
  have hspans : ∀ m ∈ splitWidth.walk, m.span.startByte ≤ m.span.endByte := by decide +kernel
  exact ⟨hfields, hspans, by decide +kernel, finish_finish css hfields hspans⟩

end Language

end CodeSearch

import CodeSearch.Language.Conversion
import CodeSearch.Proofs.Trees

/-!
# Converted trees

A syntax tree is made of a concrete tree by setting one field after another. So whatever holds of
leaves and of nodes without fields, and still holds when a field is set and after the last step on
a node, holds of every node of the syntax tree.
-/

set_option autoImplicit false

namespace CodeSearch

/-! ## Fields that are set -/

theorem Node.mem_insertField {name : String} {value : Field} {fields : List (String × Field)}
    {entry : String × Field} (h : entry ∈ Node.insertField name value fields) :
    entry = (name, value) ∨ entry ∈ fields := by
  induction fields with
  | nil => exact Or.inl (List.mem_singleton.1 h)
  | cons head rest ih =>
      obtain ⟨key, old⟩ := head
      rw [Node.insertField] at h
      split at h
      next heq =>
        rcases List.mem_cons.1 h with rfl | h
        · exact Or.inl (by rw [heq])
        · exact Or.inr (List.mem_cons_of_mem _ h)
      next =>
        rcases List.mem_cons.1 h with rfl | h
        · exact Or.inr List.mem_cons_self
        · exact (ih h).imp_right (List.mem_cons_of_mem _)

/-- Of two values set one after another the second stays. -/
theorem Node.setField_setField (n : Node) (name : String) (first second : Field) :
    (n.setField name first).setField name second = n.setField name second := by
  have hinsert : ∀ fields : List (String × Field), insertField name second
      (insertField name first fields) = insertField name second fields := by
    intro fields
    induction fields with
    | nil => simp [insertField]
    | cons entry rest ih =>
        obtain ⟨key, old⟩ := entry
        by_cases hkey : key = name
        · simp [insertField, hkey]
        · simp [insertField, hkey, ih]
  rw [Node.setField, Node.setField, Node.setField, Node.withFields, Node.withFields,
    Node.withFields, Node.fields_mk, hinsert]
  rfl

/-- Setting a field gives no second one of its name. -/
theorem Node.names_insertField_nodup {name : String} {value : Field}
    {fields : List (String × Field)} (h : (fields.map Prod.fst).Nodup) :
    ((Node.insertField name value fields).map Prod.fst).Nodup := by
  induction fields with
  | nil => exact List.nodup_singleton name
  | cons head rest ih =>
      obtain ⟨key, old⟩ := head
      obtain ⟨hkey, hrest⟩ := List.nodup_cons.1 h
      rw [Node.insertField]
      split
      next => exact h
      next hne =>
        refine List.nodup_cons.2 ⟨fun hmem => ?_, ih hrest⟩
        obtain ⟨entry, hentry, heq⟩ := List.mem_map.1 hmem
        rcases Node.mem_insertField hentry with rfl | hold
        · exact hne heq.symm
        · exact hkey (List.mem_map.2 ⟨entry, hold, heq⟩)

theorem Node.mem_offspring_setField {n c : Node} {name : String} {value : Field}
    (h : c ∈ (n.setField name value).offspring) : c ∈ value.members ∨ c ∈ n.offspring := by
  obtain ⟨entry, hentry, hc⟩ := List.mem_flatMap.1 h
  rcases Node.mem_insertField hentry with rfl | hold
  · exact Or.inl hc
  · exact Or.inr (List.mem_flatMap.2 ⟨entry, hold, hc⟩)

theorem Node.mem_eraseField {name : String} {fields : List (String × Field)}
    {entry : String × Field} (h : entry ∈ Node.eraseField name fields) : entry ∈ fields := by
  induction fields with
  | nil => exact h
  | cons head rest ih =>
      obtain ⟨key, old⟩ := head
      rw [Node.eraseField] at h
      split at h
      next => exact List.mem_cons_of_mem _ h
      next =>
        rcases List.mem_cons.1 h with rfl | h
        · exact List.mem_cons_self
        · exact List.mem_cons_of_mem _ (ih h)

theorem Node.mem_offspring_removeField {n c : Node} {name : String}
    (h : c ∈ (n.removeField name).offspring) : c ∈ n.offspring := by
  obtain ⟨entry, hentry, hc⟩ := List.mem_flatMap.1 h
  exact List.mem_flatMap.2 ⟨entry, Node.mem_eraseField hentry, hc⟩

theorem Node.mem_offspring_of_mem_children {n c : Node} (h : c ∈ n.children) :
    c ∈ n.offspring := by
  unfold Node.children at h
  cases hf : n.field? childrenField with
  | none => simp [hf] at h
  | some f =>
      cases f with
      | node child => simp [hf, Field.nodes?] at h
      | token text => simp [hf, Field.nodes?] at h
      | nodes children =>
          rw [hf] at h
          exact Node.mem_offspring_of_field? hf h

/-! ## Fields that are removed -/

theorem Node.lookup_eraseField_of_ne {name other : String} (hne : name ≠ other)
    (fields : List (String × Field)) :
    (eraseField other fields).lookup name = fields.lookup name := by
  induction fields with
  | nil => rfl
  | cons entry rest ih =>
      obtain ⟨key, old⟩ := entry
      rw [eraseField]
      split
      next hkey =>
        have hno : (name == key) = false := beq_eq_false_iff_ne.2 fun heq => hne (heq.trans hkey)
        rw [List.lookup_cons, hno]
      next => rw [List.lookup_cons, List.lookup_cons, ih]

/-- Removing a field leaves the others alone. -/
theorem Node.field?_removeField_of_ne (n : Node) {name other : String} (hne : name ≠ other) :
    (n.removeField other).field? name = n.field? name :=
  lookup_eraseField_of_ne hne n.fields

theorem Node.names_eraseField {fields : List (String × Field)} (h : (fields.map Prod.fst).Nodup)
    (name : String) :
    (eraseField name fields).map Prod.fst = (fields.map Prod.fst).filter (· != name) := by
  induction fields with
  | nil => rfl
  | cons entry rest ih =>
      obtain ⟨key, old⟩ := entry
      obtain ⟨hnot, hrest⟩ := List.nodup_cons.1 h
      rw [eraseField, List.map_cons, List.filter_cons]
      split
      next hkey =>
        -- the name does not come up again
        obtain rfl : key = name := hkey
        rw [bne_self_eq_false, if_neg Bool.false_ne_true]
        refine (List.filter_eq_self.2 fun other hother => bne_iff_ne.2 ?_).symm
        rintro rfl
        exact hnot hother
      next hkey =>
        rw [if_pos (bne_iff_ne.2 hkey), List.map_cons, ih hrest]

/-- Where the names are distinct, those that are left are the other ones. -/
theorem Node.names_removeField {n : Node} (h : (n.fields.map Prod.fst).Nodup) (name : String) :
    (n.removeField name).fields.map Prod.fst = (n.fields.map Prod.fst).filter (· != name) :=
  names_eraseField h name

/-- To remove a field that was put in anew is to do nothing. -/
theorem Node.eraseField_insertField {name : String} {fields : List (String × Field)}
    (h : name ∉ fields.map Prod.fst) (value : Field) :
    eraseField name (insertField name value fields) = fields := by
  induction fields with
  | nil => simp [insertField, eraseField]
  | cons entry rest ih =>
      obtain ⟨key, old⟩ := entry
      rw [List.map_cons, List.mem_cons, not_or] at h
      have hkey : key ≠ name := fun heq => h.1 heq.symm
      rw [insertField, if_neg hkey, eraseField, if_neg hkey, ih h.2]

/-! ## Distinct names -/

/-- The fields of a node have distinct names. -/
def Node.HasDistinctFields (n : Node) : Prop := (n.fields.map Prod.fst).Nodup

theorem Node.HasDistinctFields.of_bare {n : Node} (h : n.fields = []) :
    n.offspring = [] ∧ n.HasDistinctFields := by
  rw [Node.offspring, Node.HasDistinctFields, h]
  exact ⟨rfl, List.nodup_nil⟩

theorem Node.HasDistinctFields.setField {n : Node} (h : n.HasDistinctFields) (name : String)
    (value : Field) : (n.setField name value).HasDistinctFields :=
  Node.names_insertField_nodup h

theorem Node.HasDistinctFields.removeField {n : Node} (h : n.HasDistinctFields) (name : String) :
    (n.removeField name).HasDistinctFields := by
  rw [Node.HasDistinctFields, Node.names_removeField h]
  exact List.Nodup.filter _ h

/-! ## Concrete trees -/

/-- The place of some bytes in the first line of a source. -/
def lineSpan (start stop : Nat) : Span := ⟨start, stop, ⟨0, start⟩, ⟨0, stop⟩⟩

/-- Whether a concrete node becomes a node of its own. -/
def ConcreteNode.isPart (c : ConcreteNode) : Bool := c.isNamed && !c.isExtra

mutual

/-- The tree and all trees below it, in pre-order. -/
def ConcreteTree.walk : ConcreteTree → List ConcreteTree
  | tree@(.mk _ children) => tree :: ConcreteTree.walkList children

/-- The trees of a list and all trees below them. -/
def ConcreteTree.walkList : List ConcreteTree → List ConcreteTree
  | [] => []
  | tree :: rest => tree.walk ++ ConcreteTree.walkList rest

end

theorem ConcreteTree.mem_walk_self (tree : ConcreteTree) : tree ∈ tree.walk := by
  cases tree
  rw [ConcreteTree.walk]
  exact List.mem_cons_self

theorem ConcreteTree.mem_walkList {t tree : ConcreteTree} {trees : List ConcreteTree}
    (htree : tree ∈ trees) (ht : t ∈ tree.walk) : t ∈ ConcreteTree.walkList trees := by
  induction trees with
  | nil => simp at htree
  | cons head rest ih =>
      rw [ConcreteTree.walkList]
      rcases List.mem_cons.1 htree with rfl | hrest
      · exact List.mem_append_left _ ht
      · exact List.mem_append_right _ (ih hrest)

theorem ConcreteTree.mem_walk_of_mem_children {c tree : ConcreteTree} (h : c ∈ tree.children) :
    c ∈ tree.walk := by
  cases tree with
  | mk node children =>
      rw [ConcreteTree.walk]
      exact List.mem_cons_of_mem _ (ConcreteTree.mem_walkList h (ConcreteTree.mem_walk_self c))

mutual

theorem ConcreteTree.mem_walk_trans {s t tree : ConcreteTree} (hs : s ∈ t.walk)
    (ht : t ∈ tree.walk) : s ∈ tree.walk := by
  cases tree with
  | mk node children =>
      rw [ConcreteTree.walk] at ht ⊢
      rcases List.mem_cons.1 ht with rfl | ht
      · rwa [ConcreteTree.walk] at hs
      · exact List.mem_cons_of_mem _ (ConcreteTree.mem_walkList_trans hs ht)

theorem ConcreteTree.mem_walkList_trans {s t : ConcreteTree} {trees : List ConcreteTree}
    (hs : s ∈ t.walk) (ht : t ∈ ConcreteTree.walkList trees) :
    s ∈ ConcreteTree.walkList trees := by
  cases trees with
  | nil => simp [ConcreteTree.walkList] at ht
  | cons tree rest =>
      rw [ConcreteTree.walkList] at ht ⊢
      rcases List.mem_append.1 ht with ht | ht
      · exact List.mem_append_left _ (ConcreteTree.mem_walk_trans hs ht)
      · exact List.mem_append_right _ (ConcreteTree.mem_walkList_trans hs ht)

end

/-- Induction over a concrete tree: what holds of a tree as soon as it holds of its children holds
of every tree. -/
theorem ConcreteTree.children_induction {motive : ConcreteTree → Prop}
    (step : ∀ tree : ConcreteTree, (∀ c ∈ tree.children, motive c) → motive tree)
    (tree : ConcreteTree) : motive tree := by
  cases tree with
  | mk node children =>
      exact step _ fun c hc => ConcreteTree.children_induction step c
termination_by tree
decreasing_by
  have := List.sizeOf_lt_of_mem hc
  simp only [ConcreteTree.mk.sizeOf_spec, ConcreteTree.children] at this ⊢
  omega

/-! ## How children are added -/

namespace Converter

variable {cv : Converter}

/-- A child is added by setting one field, in which there are the child and nodes that were
there. -/
theorem attachChild_eq (cv : Converter) (parent child : Node) (field : Option String) :
    ∃ name value, cv.attachChild parent field child = parent.setField name value ∧
      ∀ c ∈ value.members, c ∈ parent.offspring ∨ c = child := by
  have hpush : ∀ name, ∃ value, parent.pushChild name child = parent.setField name value ∧
      ∀ c ∈ value.members, c ∈ parent.offspring ∨ c = child := by
    intro name
    refine ⟨_, rfl, fun c hc => ?_⟩
    rcases List.mem_append.1 hc with hc | hc
    · cases hf : parent.field? name with
      | none => simp [hf] at hc
      | some f =>
          have hmem : c ∈ f.members := by
            cases f <;> simp [hf, Field.members] at hc ⊢ <;> exact hc
          exact Or.inl (Node.mem_offspring_of_field? hf hmem)
    · exact Or.inr (List.mem_singleton.1 hc)
  cases field with
  | none => exact ⟨childrenField, hpush childrenField⟩
  | some name =>
      rw [attachChild]
      split
      next => exact ⟨name, hpush name⟩
      next => exact ⟨name, .node child, rfl, fun c hc => Or.inr (List.mem_singleton.1 hc)⟩

/-- A token is left out, or it is added by setting one field. -/
theorem attachToken_eq (cv : Converter) (parent : Node) (field : Option String) (token : String) :
    cv.attachToken parent field token = parent ∨
      ∃ name text, cv.attachToken parent field token = parent.setField name (.token text) := by
  cases field with
  | none =>
      rw [attachToken]
      split
      next => exact Or.inr ⟨token, token, rfl⟩
      next => exact Or.inl rfl
  | some name =>
      rw [attachToken, Node.pushToken]
      split
      next => exact Or.inr ⟨name, _, rfl⟩
      next => exact Or.inr ⟨name, _, rfl⟩

/-- A child that is extra adds nothing. Of the others a named one is converted and added, and the
rest are added as tokens. -/
theorem attachAll_cons_cases {depth : Nat} {parent n : Node} {tree : ConcreteTree}
    {rest : List ConcreteTree} (h : cv.attachAll depth parent (tree :: rest) = .ok n) :
    tree.node.isExtra = true ∧ cv.attachAll depth parent rest = .ok n ∨
      tree.node.isExtra = false ∧ tree.node.isNamed = true ∧
        (∃ child, cv.convertAt (depth + 1) tree = .ok child ∧
          cv.attachAll depth (cv.attachChild parent tree.node.field child) rest = .ok n) ∨
      tree.node.isExtra = false ∧ tree.node.isNamed = false ∧
        cv.attachAll depth (cv.attachToken parent tree.node.field tree.node.kind) rest = .ok n := by
  cases tree with
  | mk node children =>
      rw [attachAll] at h
      split at h
      next hextra => exact Or.inl ⟨hextra, h⟩
      next hextra =>
        have hextra : node.isExtra = false := by simpa using hextra
        split at h
        next hnamed =>
          split at h
          next child hchild => exact Or.inr (Or.inl ⟨hextra, hnamed, child, hchild, h⟩)
          next => simp at h
        next hnamed =>
          have hnamed : node.isNamed = false := by simpa using hnamed
          exact Or.inr (Or.inr ⟨hextra, hnamed, h⟩)

/-- Induction over the children that are added: what holds of the node at first, and still holds
whenever a field is set that consists of nodes right below it and of converted parts, holds of it in
the end. -/
theorem attachAll_induction {motive : Node → Prop} {trees : List ConcreteTree} {depth : Nat}
    {parent n : Node} (h : cv.attachAll depth parent trees = .ok n) (hparent : motive parent)
    (hset : ∀ m name value, motive m → (∀ c ∈ Field.members value, c ∈ m.offspring ∨
      ∃ tree ∈ trees, tree.node.isPart = true ∧ cv.convertAt (depth + 1) tree = .ok c) →
        motive (m.setField name value)) : motive n := by
  induction trees generalizing parent with
  | nil =>
      rw [attachAll] at h
      rw [← Except.ok.inj h]
      exact hparent
  | cons tree rest ih =>
      have hlater : ∀ next, cv.attachAll depth next rest = .ok n → motive next → motive n := by
        intro next hnext hmotive
        refine ih hnext hmotive fun m name value hm hvalue => hset m name value hm fun c hc => ?_
        rcases hvalue c hc with hold | ⟨t, ht, hconverted⟩
        · exact Or.inl hold
        · exact Or.inr ⟨t, List.mem_cons_of_mem _ ht, hconverted⟩
      rcases attachAll_cons_cases h with
        ⟨-, hrest⟩ | ⟨hextra, hnamed, child, hchild, hrest⟩ | ⟨-, -, hrest⟩
      · exact hlater parent hrest hparent
      · obtain ⟨name, value, heq, hvalue⟩ := cv.attachChild_eq parent child tree.node.field
        refine hlater _ hrest ?_
        rw [heq]
        refine hset parent name value hparent fun c hc => ?_
        rcases hvalue c hc with hold | rfl
        · exact Or.inl hold
        · have hpart : tree.node.isPart = true := by simp [ConcreteNode.isPart, hextra, hnamed]
          exact Or.inr ⟨tree, List.mem_cons_self, hpart, hchild⟩
      · refine hlater _ hrest ?_
        rcases cv.attachToken_eq parent tree.node.field tree.node.kind with heq | ⟨name, text, heq⟩
        · rw [heq]
          exact hparent
        · rw [heq]
          exact hset parent name _ hparent fun c hc => absurd hc List.not_mem_nil

/-- What is added to a node leaves its kind, its text and its span alone. -/
theorem head_of_attachAll {trees : List ConcreteTree} {depth : Nat} {parent n : Node}
    (h : cv.attachAll depth parent trees = .ok n) :
    n.kind = parent.kind ∧ n.text = parent.text ∧ n.span = parent.span :=
  attachAll_induction (motive := fun m =>
    m.kind = parent.kind ∧ m.text = parent.text ∧ m.span = parent.span)
    h ⟨rfl, rfl, rfl⟩ fun _ _ _ hm _ => hm

/-- Right below a node to which children were added are nodes that were there, and parts,
converted. -/
theorem mem_offspring_of_attachAll {trees : List ConcreteTree} {depth : Nat} {parent n c : Node}
    (h : cv.attachAll depth parent trees = .ok n) (hc : c ∈ n.offspring) :
    c ∈ parent.offspring ∨
      ∃ tree ∈ trees, tree.node.isPart = true ∧ cv.convertAt (depth + 1) tree = .ok c := by
  refine attachAll_induction (motive := fun m => ∀ c ∈ m.offspring, c ∈ parent.offspring ∨
    ∃ tree ∈ trees, tree.node.isPart = true ∧ cv.convertAt (depth + 1) tree = .ok c) h
      (fun c hc => Or.inl hc) ?_ c hc
  intro m name value hm hvalue c hc
  rcases Node.mem_offspring_setField hc with hnew | hold
  · rcases hvalue c hnew with hold | hconverted
    · exact hm c hold
    · exact Or.inr hconverted
  · exact hm c hold

/-- Where no child stands in a field, the children without a field are the parts, converted one
by one. -/
theorem children_of_attachAll (hmodifiers : childrenField ∉ cv.dialect.modifiers)
    {trees : List ConcreteTree} {depth : Nat} {parent n : Node}
    (h : cv.attachAll depth parent trees = .ok n) (hbare : ∀ c ∈ trees, c.node.field = none)
    {before : List Node} (hbefore : parent.field? childrenField = some (.nodes before) ∨
      parent.field? childrenField = none ∧ before = []) :
    ∃ converted, n.children = before ++ converted ∧
      List.Forall₂ (fun c part => cv.convertAt (depth + 1) c = .ok part)
        (trees.filter fun c => c.node.isNamed && !c.node.isExtra) converted := by
  induction trees generalizing parent before with
  | nil =>
      rw [attachAll] at h
      obtain rfl := Except.ok.inj h
      refine ⟨[], ?_, List.Forall₂.nil⟩
      rcases hbefore with hbefore | ⟨hbefore, rfl⟩
      · simp [Node.children, hbefore, Field.nodes?]
      · simp [Node.children, hbefore]
  | cons tree rest ih =>
      obtain ⟨hfield, hrest⟩ := List.forall_mem_cons.1 hbare
      rcases attachAll_cons_cases h with
        ⟨hextra, h⟩ | ⟨hextra, hnamed, child, hchild, h⟩ | ⟨-, hnamed, h⟩
      · -- a tree that is extra adds nothing
        obtain ⟨converted, hchildren, hconverted⟩ := ih h hrest hbefore
        refine ⟨converted, hchildren, ?_⟩
        rwa [List.filter_cons_of_neg (by simp [hextra])]
      · -- a named tree is converted and put after the children that are there
        have hpushed : (cv.attachChild parent tree.node.field child).field? childrenField =
            some (.nodes (before ++ [child])) := by
          rw [hfield, attachChild, Node.pushChild, Node.field?_setField_self]
          rcases hbefore with hbefore | ⟨hbefore, rfl⟩
          · rw [hbefore]
          · rw [hbefore]
        obtain ⟨converted, hchildren, hconverted⟩ := ih h hrest (Or.inl hpushed)
        refine ⟨child :: converted, ?_, ?_⟩
        · rw [hchildren, List.append_assoc, List.singleton_append]
        · rw [List.filter_cons_of_pos (by simp [hnamed, hextra])]
          exact List.Forall₂.cons hchild hconverted
      · -- a token may set a field, which is that of a modifier and not that of the children
        have hkept : (cv.attachToken parent tree.node.field tree.node.kind).field? childrenField =
            parent.field? childrenField := by
          rw [hfield, attachToken]
          split
          next hmodifier =>
            refine Node.field?_setField_of_ne _ _ ?_
            rintro heq
            exact hmodifiers (heq ▸ List.contains_iff_mem.1 hmodifier)
          next => rfl
        rw [← hkept] at hbefore
        obtain ⟨converted, hchildren, hconverted⟩ := ih h hrest hbefore
        refine ⟨converted, hchildren, ?_⟩
        rwa [List.filter_cons_of_neg (by simp [hnamed])]

/-! ## What conversion preserves -/

variable {Q : Node → Prop}

/-- The last step on a node that is no leaf keeps what holds of the nodes in it. -/
def FinishKeeps (cv : Converter) (Q : Node → Prop) (tree : ConcreteTree) : Prop :=
  ∀ depth n, cv.attachAll depth (.branch tree.node.kind tree.node.span) tree.children = .ok n →
    (∀ m ∈ n.walk, Q m) → ∀ m ∈ (cv.dialect.finish n).walk, Q m

/-- A tree that is converted becomes a leaf, or a node to which its children are added before the
last step of the dialect. -/
theorem convertAt_cases {tree : ConcreteTree} {depth : Nat} {n : Node}
    (h : cv.convertAt depth tree = .ok n) :
    cv.isLeaf tree = true ∧ n = cv.leaf tree.node ∨
      cv.isLeaf tree = false ∧ ∃ parent,
        cv.attachAll depth (.branch tree.node.kind tree.node.span) tree.children = .ok parent ∧
          n = cv.dialect.finish parent := by
  cases tree with
  | mk node children =>
      rw [convertAt] at h
      split at h
      next => simp at h
      next =>
        split at h
        next hleaf => exact Or.inl ⟨hleaf, (Except.ok.inj h).symm⟩
        next hleaf =>
          refine Or.inr ⟨by simpa using hleaf, ?_⟩
          cases hattach : cv.attachAll depth (.branch node.kind node.span) children with
          | error failure => simp [hattach, Except.map] at h
          | ok parent =>
              obtain rfl : cv.dialect.finish parent = n := by
                simpa [hattach, Except.map] using h
              exact ⟨parent, hattach, rfl⟩

/-- A tree whose conversion does not fail is converted. -/
theorem convertAt_eq_ok {tree : ConcreteTree} {depth : Nat}
    (h : (cv.convertAt depth tree).toOption.isSome = true) :
    cv.convertAt depth tree = .ok ((cv.convertAt depth tree).toOption.getD default) := by
  cases hconverted : cv.convertAt depth tree with
  | ok n => rfl
  | error failure => simp [hconverted, Except.toOption] at h

/-- A tree that becomes a leaf is converted without its children. -/
theorem eq_leaf_of_convertAt {tree : ConcreteTree} {depth : Nat} {n : Node}
    (hleaf : cv.isLeaf tree = true) (h : cv.convertAt depth tree = .ok n) :
    n = cv.leaf tree.node := by
  obtain ⟨-, heq⟩ | ⟨hbranch, -⟩ := convertAt_cases h
  · exact heq
  · exact absurd (hbranch.symm.trans hleaf) (by decide)

/-- **What holds of all nodes of a converted tree**: what holds of leaves and of nodes without
fields, and still holds when a field is set and after the last step on a node. -/
theorem forall_of_convertAt (hset : ∀ n name f, Q n → Q (Node.setField n name f))
    {tree : ConcreteTree} {depth : Nat} {n : Node} (h : cv.convertAt depth tree = .ok n)
    (hleaf : ∀ t ∈ tree.walk, Q (cv.leaf t.node))
    (hbranch : ∀ t ∈ tree.walk, Q (.branch t.node.kind t.node.span))
    (hfinish : ∀ t ∈ tree.walk, cv.FinishKeeps Q t) : ∀ m ∈ n.walk, Q m := by
  -- a leaf and a node without fields have nothing below them
  have halone : ∀ n : Node, n.offspring = [] → Q n → ∀ m ∈ n.walk, Q m := by
    intro n hn hq m hm
    rcases Node.mem_walk.1 hm with rfl | ⟨c, hc, -⟩
    · exact hq
    · rw [hn] at hc
      exact absurd hc List.not_mem_nil
  induction tree using ConcreteTree.children_induction generalizing depth n with
  | step tree ih =>
      have hself := ConcreteTree.mem_walk_self tree
      obtain ⟨-, rfl⟩ | ⟨-, parent, hattach, rfl⟩ := convertAt_cases h
      · exact halone _ rfl (hleaf _ hself)
      · -- the last step comes after the children, all of which satisfy the property by then
        refine hfinish _ hself depth parent hattach ?_
        refine attachAll_induction (motive := fun m => ∀ k ∈ m.walk, Q k) hattach
          (halone _ rfl (hbranch _ hself)) fun m name value hm hvalue k hk => ?_
        rcases Node.mem_walk.1 hk with rfl | ⟨c, hc, hkc⟩
        · exact hset m name value (hm m (Node.mem_walk_self m))
        · have hold : c ∈ m.offspring → Q k := fun hc =>
            hm k (Node.mem_walk_of_mem_offspring hc hkc)
          rcases Node.mem_offspring_setField hc with hnew | hc
          · rcases hvalue c hnew with hc | ⟨t, ht, -, hconverted⟩
            · exact hold hc
            · have hbelow : ∀ s ∈ t.walk, s ∈ tree.walk := fun s hs =>
                ConcreteTree.mem_walk_trans hs (ConcreteTree.mem_walk_of_mem_children ht)
              exact ih t ht hconverted (fun s hs => hleaf s (hbelow s hs))
                (fun s hs => hbranch s (hbelow s hs)) (fun s hs => hfinish s (hbelow s hs)) k hkc
          · exact hold hc

end Converter

end CodeSearch

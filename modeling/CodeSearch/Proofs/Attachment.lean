import CodeSearch.Proofs.Conversion
import CodeSearch.Proofs.LanguageFilter

/-!
# What conversion keeps

The children of a concrete node come under names: a **part**, which becomes a node of its own, under
that of its field or that of the children without one. A child **displaces** the parts before it
under a name where it comes by itself: as a token, as a modifier, or as a part in a field that
holds one.

So under each name stand the parts that no later child displaces, in the order of the source; and a
converted node keeps all parts exactly if none of them is displaced. A field that may hold several
parts is not safe from that: a token in it displaces the parts before.
-/

set_option autoImplicit false

namespace CodeSearch

/-! ## The nodes under a name -/

/-- The nodes that stand under a name. -/
def Node.membersAt (n : Node) (name : String) : List Node :=
  ((n.field? name).map Field.members).getD []

@[simp] theorem Node.membersAt_setField_self (n : Node) (name : String) (value : Field) :
    (n.setField name value).membersAt name = value.members := by
  simp [Node.membersAt]

theorem Node.membersAt_setField_of_ne (n : Node) {name other : String} (value : Field)
    (h : other ≠ name) : (n.setField name value).membersAt other = n.membersAt other := by
  rw [Node.membersAt, Node.field?_setField_of_ne n value h, Node.membersAt]

theorem Node.membersAt_pushChild_self (n : Node) (name : String) (child : Node) :
    (n.pushChild name child).membersAt name = n.membersAt name ++ [child] := by
  rw [Node.pushChild, Node.membersAt_setField_self, Node.membersAt]
  cases n.field? name with
  | none => rfl
  | some f => cases f <;> rfl

theorem Node.membersAt_pushToken_self (n : Node) (name token : String) :
    (n.pushToken name token).membersAt name = [] := by
  rw [Node.pushToken, Node.membersAt_setField_self]
  split <;> rfl

/-- Where no two fields have one name, the nodes right below a node are those under its names. -/
theorem Node.offspring_eq_flatMap {n : Node} (h : (n.fields.map Prod.fst).Nodup) :
    n.offspring = (n.fields.map Prod.fst).flatMap n.membersAt := by
  rw [Node.offspring, List.flatMap_map]
  refine List.flatMap_congr fun entry hentry => ?_
  rw [Node.membersAt, Node.field?_of_mem_fields h hentry, Option.map_some, Option.getD_some]

/-! ## Parts -/

/-- The name under which a part comes. -/
def ConcreteNode.slot (c : ConcreteNode) : String := c.field.getD childrenField

namespace Converter

/-- Whether a child displaces the parts before it under a name of a node of some kind. -/
def displaces (cv : Converter) (kind : String) (later : ConcreteNode) (name : String) : Bool :=
  !later.isExtra &&
    match later.field with
    | some field => field == name && !(later.isNamed && cv.types.isMultiple kind field)
    | none => !later.isNamed && later.kind == name && cv.dialect.modifiers.contains later.kind

/-- The parts among some children, converted. -/
def parts (cv : Converter) (depth : Nat) (trees : List ConcreteTree) : List Node :=
  (trees.filter (·.node.isPart)).filterMap fun part => (cv.convertAt (depth + 1) part).toOption

/-- The parts that come under a name, converted. -/
def partsUnder (cv : Converter) (depth : Nat) (trees : List ConcreteTree) (name : String) :
    List Node :=
  cv.parts depth (trees.filter (·.node.slot == name))

/-- The parts that come under a name and that no later child displaces, converted. -/
def undisplaced (cv : Converter) (depth : Nat) (kind name : String) :
    List ConcreteTree → List Node
  | [] => []
  | tree :: rest =>
      (if rest.any (cv.displaces kind ·.node name) then [] else cv.partsUnder depth [tree] name) ++
        cv.undisplaced depth kind name rest

/-- A node **keeps** the parts among some children: each stands in it once, and those under one
name stand in the order of the source. -/
structure Keeps (cv : Converter) (depth : Nat) (trees : List ConcreteTree) (n : Node) : Prop where
  once : n.offspring.Perm (cv.parts depth trees)
  inOrder : ∀ name, n.membersAt name = cv.partsUnder depth trees name

/-- A node of some kind **has room** for its children if each field in which several parts come may
hold several. -/
def HasRoom (cv : Converter) (kind : String) (trees : List ConcreteTree) : Prop :=
  ∀ name, 2 ≤ (trees.filter fun tree => tree.node.field == some name && tree.node.isPart).length →
    cv.types.isMultiple kind name = true

variable {cv : Converter}

theorem partsUnder_cons (depth : Nat) (tree : ConcreteTree) (rest : List ConcreteTree)
    (name : String) : cv.partsUnder depth (tree :: rest) name =
      cv.partsUnder depth [tree] name ++ cv.partsUnder depth rest name := by
  rw [← List.singleton_append, partsUnder, List.filter_append, parts, List.filter_append,
    List.filterMap_append]
  rfl

/-- The part that a child is, under its own name and under no other. -/
theorem partsUnder_part {depth : Nat} (tree : ConcreteTree) {part : Node}
    (hpart : tree.node.isPart = true) (h : cv.convertAt (depth + 1) tree = .ok part)
    (name : String) :
    cv.partsUnder depth [tree] name = if tree.node.slot = name then [part] else [] := by
  split
  next hslot => simp [partsUnder, parts, hslot, hpart, h, Except.toOption]
  next hslot => simp [partsUnder, parts, hslot]

theorem partsUnder_of_not_isPart {depth : Nat} (tree : ConcreteTree)
    (hpart : tree.node.isPart = false) (name : String) :
    cv.partsUnder depth [tree] name = [] := by
  rw [partsUnder, parts, List.filter_filter, List.filter_cons_of_neg (by simp [hpart])]
  rfl

/-! ## One more child -/

/-- A part comes under its name, after those before it unless it displaces them. -/
theorem membersAt_attachChild (parent child : Node) {node : ConcreteNode}
    (hpart : node.isPart = true) (name : String) :
    (cv.attachChild parent node.field child).membersAt name =
      (if cv.displaces parent.kind node name then [] else parent.membersAt name) ++
        if node.slot = name then [child] else [] := by
  obtain ⟨hnamed, hextra⟩ : node.isNamed = true ∧ node.isExtra = false := by
    simpa [ConcreteNode.isPart] using hpart
  cases hfield : node.field with
  | none =>
      rw [attachChild, displaces, hfield, ConcreteNode.slot, hfield, hnamed]
      by_cases hname : childrenField = name
      · subst hname
        simp [Node.membersAt_pushChild_self]
      · simp [Node.pushChild, Node.membersAt_setField_of_ne _ _ (Ne.symm hname), hname]
  | some field =>
      rw [attachChild, displaces, hfield, ConcreteNode.slot, hfield, hnamed, hextra]
      by_cases hname : field = name
      · subst hname
        cases hmultiple : cv.types.isMultiple parent.kind field with
        | true => simp [Node.membersAt_pushChild_self, hmultiple]
        | false => simp [Field.members, hmultiple]
      · have hother := fun value => Node.membersAt_setField_of_ne parent value (Ne.symm hname)
        cases hmultiple : cv.types.isMultiple parent.kind field with
        | true => simp [Node.pushChild, hother, hname]
        | false => simp [hother, hname]

/-- A token adds no node, and displaces those under the name under which it is kept. -/
theorem membersAt_attachToken (parent : Node) {node : ConcreteNode} (hnamed : node.isNamed = false)
    (hextra : node.isExtra = false) (name : String) :
    (cv.attachToken parent node.field node.kind).membersAt name =
      if cv.displaces parent.kind node name then [] else parent.membersAt name := by
  cases hfield : node.field with
  | none =>
      rw [attachToken, displaces, hfield, hnamed, hextra]
      by_cases hmodifier : node.kind ∈ cv.dialect.modifiers
      · by_cases hname : node.kind = name
        · subst hname
          simp [hmodifier, Field.members]
        · simp [hmodifier, Node.membersAt_setField_of_ne _ _ (Ne.symm hname), hname]
      · simp [hmodifier]
  | some field =>
      rw [attachToken, displaces, hfield, hnamed, hextra]
      by_cases hname : field = name
      · subst hname
        simp [Node.membersAt_pushToken_self]
      · simp [Node.pushToken, Node.membersAt_setField_of_ne _ _ (Ne.symm hname), hname]

/-- **What one more child does** to the node that it is added to. -/
theorem attachAll_cons {depth : Nat} {parent n : Node} {tree : ConcreteTree}
    {rest : List ConcreteTree} (h : cv.attachAll depth parent (tree :: rest) = .ok n) :
    ∃ next, cv.attachAll depth next rest = .ok n ∧ next.kind = parent.kind ∧
      (tree.node.isPart = true → ∃ part, cv.convertAt (depth + 1) tree = .ok part) ∧
      ∀ name, next.membersAt name =
        (if cv.displaces parent.kind tree.node name then [] else parent.membersAt name) ++
          cv.partsUnder depth [tree] name := by
  rcases attachAll_cons_cases h with
    ⟨hextra, hrest⟩ | ⟨hextra, hnamed, part, hconverted, hrest⟩ | ⟨hextra, hnamed, hrest⟩
  · have hpart : tree.node.isPart = false := by simp [ConcreteNode.isPart, hextra]
    refine ⟨parent, hrest, rfl, fun hp => absurd (hpart.symm.trans hp) (by decide), fun name => ?_⟩
    rw [partsUnder_of_not_isPart tree hpart, displaces, hextra]
    simp
  · have hpart : tree.node.isPart = true := by simp [ConcreteNode.isPart, hnamed, hextra]
    obtain ⟨field, value, heq, -⟩ := cv.attachChild_eq parent part tree.node.field
    refine ⟨_, hrest, by rw [heq]; rfl, fun _ => ⟨part, hconverted⟩, fun name => ?_⟩
    rw [membersAt_attachChild parent part hpart, partsUnder_part tree hpart hconverted]
  · have hpart : tree.node.isPart = false := by simp [ConcreteNode.isPart, hnamed]
    refine ⟨_, hrest, ?_, fun hp => absurd (hpart.symm.trans hp) (by decide), fun name => ?_⟩
    · rcases cv.attachToken_eq parent tree.node.field tree.node.kind with heq | ⟨_, _, heq⟩
      · rw [heq]
      · rw [heq]
        rfl
    · rw [membersAt_attachToken parent hnamed hextra, partsUnder_of_not_isPart tree hpart,
        List.append_nil]

/-! ## All children -/

/-- **Under a name stand the parts that no later child displaces**, after what stood there unless
that is displaced. -/
theorem membersAt_attachAll {depth : Nat} {trees : List ConcreteTree} {parent n : Node}
    (h : cv.attachAll depth parent trees = .ok n) (name : String) :
    n.membersAt name =
      (if trees.any (cv.displaces parent.kind ·.node name) then [] else parent.membersAt name) ++
        cv.undisplaced depth parent.kind name trees := by
  induction trees generalizing parent with
  | nil =>
      rw [attachAll] at h
      obtain rfl := Except.ok.inj h
      simp [undisplaced]
  | cons tree rest ih =>
      obtain ⟨next, hrest, hkind, -, hnext⟩ := attachAll_cons h
      rw [ih hrest, hkind, hnext, undisplaced, List.any_cons]
      cases rest.any (cv.displaces parent.kind ·.node name) with
      | true => simp
      | false => simp

theorem names_attachAll {depth : Nat} {trees : List ConcreteTree} {parent n : Node}
    (h : cv.attachAll depth parent trees = .ok n) (hparent : (parent.fields.map Prod.fst).Nodup) :
    (n.fields.map Prod.fst).Nodup :=
  attachAll_induction (motive := Node.HasDistinctFields) h hparent
    fun _ name value hm _ => hm.setField name value

theorem exists_part_of_attachAll {depth : Nat} {trees : List ConcreteTree} {parent n : Node}
    (h : cv.attachAll depth parent trees = .ok n) (tree : ConcreteTree) (htree : tree ∈ trees)
    (hpart : tree.node.isPart = true) : ∃ part, cv.convertAt (depth + 1) tree = .ok part := by
  induction trees generalizing parent with
  | nil => exact absurd htree List.not_mem_nil
  | cons head rest ih =>
      obtain ⟨next, hrest, -, hconverted, -⟩ := attachAll_cons h
      rcases List.mem_cons.1 htree with rfl | htree
      · exact hconverted hpart
      · exact ih hrest htree

/-! ## When nothing is displaced -/

theorem undisplaced_sublist (cv : Converter) (depth : Nat) (kind name : String)
    (trees : List ConcreteTree) :
    (cv.undisplaced depth kind name trees).Sublist (cv.partsUnder depth trees name) := by
  induction trees with
  | nil => exact List.nil_sublist _
  | cons tree rest ih =>
      rw [undisplaced, partsUnder_cons depth tree rest]
      split
      next => exact (List.nil_sublist _).append ih
      next => exact (List.Sublist.refl _).append ih

/-- All parts are there under their names exactly if no child displaces a part before it. -/
theorem undisplaced_eq_partsUnder_iff {depth : Nat} {kind : String} {trees : List ConcreteTree}
    (hparts : ∀ tree ∈ trees, tree.node.isPart = true →
      ∃ part, cv.convertAt (depth + 1) tree = .ok part) :
    (∀ name, cv.undisplaced depth kind name trees = cv.partsUnder depth trees name) ↔
      trees.Pairwise fun part later => part.node.isPart = true →
        cv.displaces kind later.node part.node.slot = false := by
  induction trees with
  | nil => exact ⟨fun _ => List.Pairwise.nil, fun _ _ => rfl⟩
  | cons tree rest ih =>
      rw [List.pairwise_cons,
        ← ih fun t ht => hparts t (List.mem_cons_of_mem _ ht)]
      constructor
      · intro h
        -- both halves of the list lack nothing, as each is part of what it should be
        have hhalves : ∀ name,
            (if rest.any (cv.displaces kind ·.node name) then [] else
              cv.partsUnder depth [tree] name) = cv.partsUnder depth [tree] name ∧
            cv.undisplaced depth kind name rest = cv.partsUnder depth rest name := by
          intro name
          have hname := h name
          rw [undisplaced, partsUnder_cons depth tree rest] at hname
          have hlater := cv.undisplaced_sublist depth kind name rest
          have hfirst : (if rest.any (cv.displaces kind ·.node name) then [] else
              cv.partsUnder depth [tree] name).Sublist (cv.partsUnder depth [tree] name) := by
            split
            next => exact List.nil_sublist _
            next => exact List.Sublist.refl _
          have hlength := congrArg List.length hname
          have := hlater.length_le
          have := hfirst.length_le
          rw [List.length_append, List.length_append] at hlength
          exact ⟨hfirst.eq_of_length (by omega), hlater.eq_of_length (by omega)⟩
        refine ⟨fun later hlater hpart => ?_, fun name => (hhalves name).2⟩
        obtain ⟨part, hconverted⟩ := hparts tree List.mem_cons_self hpart
        have hslot := (hhalves tree.node.slot).1
        rw [partsUnder_part _ hpart hconverted, if_pos rfl] at hslot
        by_contra hdisplaces
        rw [if_pos (List.any_eq_true.2 ⟨later, hlater, by simpa using hdisplaces⟩)] at hslot
        exact absurd hslot (by simp)
      · rintro ⟨htree, hrest⟩ name
        rw [undisplaced, partsUnder_cons depth tree rest, hrest name]
        split
        next hany =>
          obtain ⟨later, hlater, hdisplaces⟩ := List.any_eq_true.1 hany
          congr 1
          cases hpart : tree.node.isPart with
          | false => rw [partsUnder_of_not_isPart _ hpart]
          | true =>
              obtain ⟨part, hconverted⟩ := hparts tree List.mem_cons_self hpart
              rw [partsUnder_part _ hpart hconverted, if_neg]
              rintro rfl
              rw [htree later hlater hpart] at hdisplaces
              exact absurd hdisplaces (by decide)
        next => rfl

theorem HasRoom.tail {kind : String} {tree : ConcreteTree} {rest : List ConcreteTree}
    (h : cv.HasRoom kind (tree :: rest)) : cv.HasRoom kind rest := fun name hname =>
  h name (hname.trans (((List.sublist_cons_self tree rest).filter _).length_le))

/-- Where there is room, no part displaces another: what displaces one is a token. -/
theorem HasRoom.part_displaces_none {kind : String} {trees : List ConcreteTree}
    (hroom : cv.HasRoom kind trees)
    (hfields : ∀ tree ∈ trees, tree.node.field ≠ some childrenField) :
    trees.Pairwise fun part later => part.node.isPart = true → later.node.isNamed = true →
      cv.displaces kind later.node part.node.slot = false := by
  induction trees with
  | nil => exact List.Pairwise.nil
  | cons part rest ih =>
      refine List.pairwise_cons.2
        ⟨fun later hlater hpart hnamed => ?_,
          ih hroom.tail fun tree htree => hfields tree (List.mem_cons_of_mem _ htree)⟩
      rw [displaces, hnamed]
      cases hfield : later.node.field with
      | none => simp
      | some name =>
          by_contra hdisplaces
          obtain ⟨hextra, rfl, hsingle⟩ : later.node.isExtra = false ∧ name = part.node.slot ∧
              cv.types.isMultiple kind name = false := by simpa using hdisplaces
          have hsame : part.node.field = some part.node.slot := by
            rw [ConcreteNode.slot] at hfield ⊢
            cases hpartField : part.node.field with
            | some name => rfl
            | none =>
                rw [hpartField] at hfield
                exact absurd hfield (hfields later (List.mem_cons_of_mem _ hlater))
          have hlaterPart : later.node.isPart = true := by
            simp [ConcreteNode.isPart, hnamed, hextra]
          have hthere : later ∈ rest.filter fun tree =>
              tree.node.field == some part.node.slot && tree.node.isPart :=
            List.mem_filter.2 ⟨hlater, by simp [hfield, hlaterPart]⟩
          have hmultiple := hroom part.node.slot (by
            rw [List.filter_cons_of_pos (by simp [hsame, hpart])]
            exact Nat.succ_le_succ (List.length_pos_of_mem hthere))
          exact absurd (hmultiple.symm.trans hsingle) (by decide)

/-- Elements that are sorted by keys, among which theirs are, are the elements there were. -/
theorem perm_flatMap_filter {α κ : Type} [BEq κ] [LawfulBEq κ] (key : α → κ) {keys : List κ}
    {xs : List α} (hkeys : keys.Nodup) (hxs : ∀ x ∈ xs, key x ∈ keys) :
    (keys.flatMap fun k => xs.filter (key · == k)).Perm xs := by
  induction keys generalizing xs with
  | nil =>
      rw [List.eq_nil_iff_forall_not_mem.2 fun x hx => List.not_mem_nil (hxs x hx)]
      exact List.Perm.refl _
  | cons k rest ih =>
      obtain ⟨hk, hrest⟩ := List.nodup_cons.1 hkeys
      have hothers : (rest.flatMap fun l => xs.filter (key · == l)) =
          rest.flatMap fun l => (xs.filter fun x => !(key x == k)).filter (key · == l) := by
        refine List.flatMap_congr fun l hl => ?_
        rw [List.filter_filter]
        refine List.filter_congr fun x _ => ?_
        have hne : l ≠ k := fun heq => hk (heq ▸ hl)
        cases hx : key x == l with
        | false => rfl
        | true => simp [eq_of_beq hx, hne]
      rw [List.flatMap_cons, hothers]
      refine ((ih hrest fun x hx => ?_).append_left _).trans (List.filter_append_perm _ xs)
      obtain ⟨hmem, hne⟩ := List.mem_filter.1 hx
      exact (List.mem_cons.1 (hxs x hmem)).resolve_left (by simpa using hne)

/-- A node whose fields have names of their own keeps the parts if they stand under their names. -/
theorem keeps_of_inOrder {depth : Nat} {trees : List ConcreteTree} {n : Node}
    (hnames : (n.fields.map Prod.fst).Nodup)
    (hparts : ∀ tree ∈ trees, tree.node.isPart = true →
      ∃ part, cv.convertAt (depth + 1) tree = .ok part)
    (h : ∀ name, n.membersAt name = cv.partsUnder depth trees name) : cv.Keeps depth trees n := by
  refine ⟨?_, h⟩
  have hslots : ∀ tree ∈ trees.filter (·.node.isPart), tree.node.slot ∈ n.fields.map Prod.fst := by
    intro tree htree
    obtain ⟨hmem, hpart⟩ := List.mem_filter.1 htree
    obtain ⟨part, hconverted⟩ := hparts tree hmem hpart
    have hunder : part ∈ n.membersAt tree.node.slot := by
      rw [h, partsUnder, parts]
      exact List.mem_filterMap.2 ⟨tree, by simp [hmem, hpart], by rw [hconverted]; rfl⟩
    cases hfield : n.field? tree.node.slot with
    | none => simp [Node.membersAt, hfield] at hunder
    | some f => exact List.mem_map.2 ⟨_, Node.mem_fields_of_field? hfield, rfl⟩
  have hunder : ∀ name, cv.partsUnder depth trees name =
      ((trees.filter (·.node.isPart)).filter (·.node.slot == name)).filterMap
        fun part => (cv.convertAt (depth + 1) part).toOption := by
    intro name
    rw [partsUnder, parts, List.filter_filter, List.filter_filter]
    simp only [Bool.and_comm]
  rw [Node.offspring_eq_flatMap hnames,
    List.flatMap_congr fun name _ => (h name).trans (hunder name), ← List.filterMap_flatMap, parts]
  exact (perm_flatMap_filter (fun tree : ConcreteTree => tree.node.slot) hnames hslots).filterMap _

/-- A node that lacks displaced parts alone keeps all parts exactly if none is displaced. -/
theorem keeps_iff_of_undisplaced {depth : Nat} {kind : String} {trees : List ConcreteTree}
    {n : Node}
    (hnames : (n.fields.map Prod.fst).Nodup)
    (hparts : ∀ tree ∈ trees, tree.node.isPart = true →
      ∃ part, cv.convertAt (depth + 1) tree = .ok part)
    (hmembers : ∀ name, n.membersAt name = cv.undisplaced depth kind name trees) :
    cv.Keeps depth trees n ↔ trees.Pairwise fun part later => part.node.isPart = true →
      cv.displaces kind later.node part.node.slot = false := by
  rw [← undisplaced_eq_partsUnder_iff hparts]
  constructor
  · exact fun hkeeps name => (hmembers name).symm.trans (hkeeps.inOrder name)
  · exact fun hall => keeps_of_inOrder hnames hparts fun name => (hmembers name).trans (hall name)

/-- **What conversion keeps.** Every part of a node that does not become a leaf is converted. Where
the last step of the dialect leaves nodes of its kind alone, under each name stand the parts that no
later child displaces, in the order of the source; and all parts are kept exactly if no child
displaces one before it. Where there is room for the parts, and no field has the name under which
the children without a field come, only tokens can do so. -/
theorem convertAt_keeps_iff {depth : Nat} {tree : ConcreteTree} {n : Node}
    (hbranch : cv.isLeaf tree = false)
    (hfinish : ∀ m : Node, m.kind = tree.node.kind → cv.dialect.finish m = m)
    (h : cv.convertAt depth tree = .ok n) :
    (∀ part ∈ tree.children, part.node.isPart = true →
        ∃ converted, cv.convertAt (depth + 1) part = .ok converted) ∧
      (∀ name, n.membersAt name = cv.undisplaced depth tree.node.kind name tree.children) ∧
      (cv.Keeps depth tree.children n ↔ tree.children.Pairwise fun part later =>
        part.node.isPart = true →
          cv.displaces tree.node.kind later.node part.node.slot = false) ∧
      (cv.HasRoom tree.node.kind tree.children →
        (∀ child ∈ tree.children, child.node.field ≠ some childrenField) →
        (cv.Keeps depth tree.children n ↔ tree.children.Pairwise fun part later =>
          part.node.isPart = true → later.node.isNamed = false →
            cv.displaces tree.node.kind later.node part.node.slot = false)) := by
  obtain ⟨hleaf, -⟩ | ⟨-, parent, hattach, rfl⟩ := convertAt_cases h
  · exact absurd (hleaf.symm.trans hbranch) (by decide)
  rw [hfinish parent (head_of_attachAll hattach).1]
  have hparts := fun part hpart => exists_part_of_attachAll hattach part hpart
  have hmembers : ∀ name, parent.membersAt name =
      cv.undisplaced depth tree.node.kind name tree.children := by
    intro name
    rw [membersAt_attachAll hattach]
    -- the node starts without fields, so that nothing stands under the name before
    split <;> rfl
  have hkeeps := keeps_iff_of_undisplaced (names_attachAll hattach List.nodup_nil) hparts hmembers
  refine ⟨hparts, hmembers, hkeeps, fun hroom hfields => hkeeps.trans ⟨?_, ?_⟩⟩
  · exact fun h => h.imp fun hnone hpart _ => hnone hpart
  · intro htokens
    refine (htokens.and (hroom.part_displaces_none hfields)).imp ?_
    intro part later hboth hpart
    cases hnamed : later.node.isNamed with
    | false => exact hboth.1 hpart hnamed
    | true => exact hboth.2 hpart hnamed

end Converter

/-! ## A loop without its condition -/

/-- A loop, of whose head only the condition is there. -/
def loopSource : String := "for (; a;) \x7b\x7d"

/-- Its concrete tree. The sign after the condition stands in one field with it. -/
def loopTree : ConcreteTree :=
  .mk { kind := "for_statement", span := lineSpan 0 13 }
    [.mk { kind := "for", span := lineSpan 0 3, isNamed := false } [],
      .mk { kind := "(", span := lineSpan 4 5, isNamed := false } [],
      .mk { kind := "empty_statement", field := some "initializer", span := lineSpan 5 6 }
        [.mk { kind := ";", span := lineSpan 5 6, isNamed := false } []],
      .mk { kind := "identifier", field := some "condition", span := lineSpan 7 8 } [],
      .mk { kind := ";", field := some "condition", span := lineSpan 8 9, isNamed := false } [],
      .mk { kind := ")", span := lineSpan 9 10, isNamed := false } [],
      .mk { kind := "statement_block", field := some "body", span := lineSpan 11 13 }
        [.mk { kind := "\x7b", span := lineSpan 11 12, isNamed := false } [],
          .mk { kind := "\x7d", span := lineSpan 12 13, isNamed := false } []]]

/-- The kinds of nodes in the loop. -/
def loopTypes : NodeTypes :=
  [("for_statement",
      { fields := [("body", ⟨false, true⟩), ("condition", ⟨true, true⟩),
          ("increment", ⟨false, false⟩), ("initializer", ⟨false, true⟩)] }),
    ("empty_statement", {}), ("identifier", {}),
    ("statement_block", { children := some ⟨true, false⟩ })]

/-- The conversion of the loop. -/
def loopConverter (dialect : Dialect) : Converter := ⟨dialect, loopTypes, loopSource.toList⟩

/-- The loop, converted. -/
def loopNode (dialect : Dialect) : Node :=
  ((loopConverter dialect).convertAt 0 loopTree).toOption.getD default

theorem convertAt_loopTree (dialect : Dialect)
    (h : ((loopConverter dialect).convertAt 0 loopTree).toOption.isSome = true) :
    (loopConverter dialect).convertAt 0 loopTree = .ok (loopNode dialect) :=
  Converter.convertAt_eq_ok h

/-- In JavaScript a loop does not keep its condition. -/
theorem convertAt_keeps_iff_loop :
    (loopConverter Ecma.javaScript).isLeaf loopTree = false ∧
      (∀ m : Node, m.kind = loopTree.node.kind → Ecma.javaScript.finish m = m) ∧
      (loopConverter Ecma.javaScript).convertAt 0 loopTree = .ok (loopNode Ecma.javaScript) ∧
      ¬ (loopConverter Ecma.javaScript).Keeps 0 loopTree.children (loopNode Ecma.javaScript) := by
  have hbranch : (loopConverter Ecma.javaScript).isLeaf loopTree = false := by decide +kernel
  have hfinish : ∀ m : Node, m.kind = loopTree.node.kind → Ecma.javaScript.finish m = m := by
    intro m hm
    exact if_neg (by rw [hm]; decide)
  have hconverts := convertAt_loopTree Ecma.javaScript (by decide +kernel)
  refine ⟨hbranch, hfinish, hconverts, ?_⟩
  rw [(Converter.convertAt_keeps_iff hbranch hfinish hconverts).2.2.1]
  decide +kernel

theorem loopConverter_hasRoom (dialect : Dialect) :
    (loopConverter dialect).HasRoom loopTree.node.kind loopTree.children := by
  -- no field has more than one part
  have honce : ((loopTree.children.filter (·.node.isPart)).map (·.node.field)).Nodup := by decide
  intro name hname
  have hcount := List.nodup_iff_count_le_one.1 honce (some name)
  rw [List.count, List.countP_map, List.countP_filter, List.countP_eq_length_filter] at hcount
  simp only [Function.comp] at hcount
  omega

/-- A node that has room for its parts does not keep one that a token follows. -/
theorem token_displaces_part :
    ¬ ∀ (cv : Converter) (depth : Nat) (tree : ConcreteTree) (n : Node),
      cv.dialect.finish = id → cv.isLeaf tree = false → cv.convertAt depth tree = .ok n →
      cv.HasRoom tree.node.kind tree.children → cv.Keeps depth tree.children n := by
  intro h
  have hkeeps := h (loopConverter { kinds := {} }) 0 loopTree (loopNode { kinds := {} }) rfl
    (by decide +kernel) (convertAt_loopTree _ (by decide +kernel)) (loopConverter_hasRoom _)
  exact absurd (congrArg List.length (hkeeps.inOrder "condition")) (by decide +kernel)

end CodeSearch

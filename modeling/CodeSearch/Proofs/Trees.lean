import CodeSearch.Node.Equality
import CodeSearch.Node.Walk
import Mathlib.Data.List.Nodup
import Mathlib.Data.List.Perm.Subperm

/-!
# Facts about syntax trees

The nodes of a tree are its root and the nodes of the trees right below it; what a path leads to
is among them. Structural equality is an equivalence on the trees in which no node has two
fields of one name, as no tree that is built field by field has.
-/

set_option autoImplicit false

namespace CodeSearch

/-! ## The nodes right below a node -/

/-- The nodes at the top of a field. -/
def Field.members : Field → List Node
  | .node child => [child]
  | .nodes children => children
  | .token _ => []

/-- The nodes right below a node, field by field. -/
def Node.offspring (n : Node) : List Node := n.fields.flatMap (·.2.members)

theorem Node.walkList_eq (nodes : List Node) : Node.walkList nodes = nodes.flatMap Node.walk := by
  induction nodes with
  | nil => rfl
  | cons node rest ih => rw [Node.walkList, ih, List.flatMap_cons]

theorem Field.walk_eq (f : Field) : f.walk = f.members.flatMap Node.walk := by
  cases f with
  | node child => simp [Field.walk, Field.members]
  | nodes children => rw [Field.walk, Field.members, Node.walkList_eq]
  | token _ => rfl

theorem Field.walkEntries_eq (fields : List (String × Field)) :
    Field.walkEntries fields = (fields.flatMap (·.2.members)).flatMap Node.walk := by
  induction fields with
  | nil => rfl
  | cons entry rest ih =>
      rw [Field.walkEntries, ih, Field.walk_eq, List.flatMap_cons, List.flatMap_append]

/-- The nodes of a tree are its root and those of the trees right below it. -/
theorem Node.walk_eq (n : Node) : n.walk = n :: n.offspring.flatMap Node.walk := by
  cases n with
  | mk kind text fields span => rw [Node.walk, Field.walkEntries_eq]; rfl

theorem Node.mem_walk {m n : Node} : m ∈ n.walk ↔ m = n ∨ ∃ c ∈ n.offspring, m ∈ c.walk := by
  rw [Node.walk_eq, List.mem_cons, List.mem_flatMap]

@[simp] theorem Node.mem_walk_self (n : Node) : n ∈ n.walk := Node.mem_walk.2 (Or.inl rfl)

/-- A field that is found is one of the fields. -/
theorem Node.mem_fields_of_field? {n : Node} {name : String} {f : Field}
    (h : n.field? name = some f) : (name, f) ∈ n.fields := by
  obtain ⟨before, after, hfields, -⟩ := List.lookup_eq_some_iff.1 h
  rw [hfields]
  simp

theorem Node.mem_offspring_of_field? {n c : Node} {name : String} {f : Field}
    (h : n.field? name = some f) (hc : c ∈ f.members) : c ∈ n.offspring :=
  List.mem_flatMap.2 ⟨(name, f), Node.mem_fields_of_field? h, hc⟩

theorem Node.field?_of_child? {n c : Node} {name : String} (h : n.child? name = some c) :
    n.field? name = some (.node c) := by
  obtain ⟨f, hf, hc⟩ := Option.bind_eq_some_iff.1 h
  cases f with
  | node child =>
      obtain rfl : child = c := by simpa [Field.node?] using hc
      exact hf
  | nodes _ => simp [Field.node?] at hc
  | token _ => simp [Field.node?] at hc

theorem Node.mem_offspring_of_child? {n c : Node} {name : String} (h : n.child? name = some c) :
    c ∈ n.offspring :=
  Node.mem_offspring_of_field? (Node.field?_of_child? h) (by simp [Field.members])

theorem Field.height_le_of_mem_members {f : Field} {c : Node} (h : c ∈ f.members) :
    c.height ≤ f.height := by
  cases f with
  | node child =>
      obtain rfl : c = child := by simpa [Field.members] using h
      exact Nat.le_refl _
  | nodes children => exact Node.height_le_heightList h
  | token _ => simp [Field.members] at h

theorem Field.height_le_heightEntries_of_mem {name : String} {f : Field}
    {fields : List (String × Field)} (h : (name, f) ∈ fields) :
    f.height ≤ Field.heightEntries fields := by
  induction fields with
  | nil => simp at h
  | cons entry rest ih =>
      rw [Field.heightEntries]
      rcases List.mem_cons.1 h with rfl | hrest
      · exact Nat.le_max_left _ _
      · exact Nat.le_trans (ih hrest) (Nat.le_max_right _ _)

theorem Node.height_lt_of_mem_offspring {n c : Node} (h : c ∈ n.offspring) :
    c.height < n.height := by
  obtain ⟨⟨name, f⟩, hf, hc⟩ := List.mem_flatMap.1 h
  have hcf : c.height ≤ f.height := Field.height_le_of_mem_members hc
  have hfn := Field.height_le_heightEntries_of_mem hf
  cases n with
  | mk kind text fields span =>
      rw [Node.height]
      exact Nat.lt_succ_of_le (Nat.le_trans hcf hfn)

theorem Field.height_le_of_members {f : Field} {k : Nat} (h : ∀ c ∈ f.members, c.height ≤ k) :
    f.height ≤ k := by
  cases f with
  | node child => exact h child (List.mem_singleton.2 rfl)
  | nodes children =>
      induction children with
      | nil => exact Nat.zero_le k
      | cons child rest ih =>
          obtain ⟨hchild, hrest⟩ := List.forall_mem_cons.1 h
          exact Nat.max_le.2 ⟨hchild, ih hrest⟩
  | token _ => exact Nat.zero_le k

/-- A node is at most one level higher than the highest of the nodes right below it. -/
theorem Node.height_le_of_offspring {n : Node} {k : Nat} (h : ∀ c ∈ n.offspring, c.height ≤ k) :
    n.height ≤ k + 1 := by
  cases n with
  | mk kind text fields span =>
      rw [Node.height]
      refine Nat.succ_le_succ ?_
      replace h : ∀ entry ∈ fields, ∀ c ∈ entry.2.members, c.height ≤ k := fun entry hentry c hc =>
        h c (List.mem_flatMap.2 ⟨entry, hentry, hc⟩)
      induction fields with
      | nil => exact Nat.zero_le k
      | cons entry rest ih =>
          obtain ⟨hentry, hrest⟩ := List.forall_mem_cons.1 h
          exact Nat.max_le.2 ⟨Field.height_le_of_members hentry, ih hrest⟩

/-- Induction over the height of trees. -/
theorem Node.height_induction {motive : Node → Prop}
    (step : ∀ n : Node, (∀ c : Node, c.height < n.height → motive c) → motive n) (n : Node) :
    motive n := by
  have bounded : ∀ height (m : Node), m.height < height → motive m := by
    intro height
    induction height with
    | zero => intro m hm; omega
    | succ height ih =>
        intro m hm
        exact step m fun c hc => ih c (by omega)
  exact bounded (n.height + 1) n (by omega)

/-- Induction over a tree: what holds of a node as soon as it holds of the nodes right below it
holds of every node. -/
theorem Node.offspring_induction {motive : Node → Prop}
    (step : ∀ n, (∀ c ∈ n.offspring, motive c) → motive n) (n : Node) : motive n := by
  induction n using Node.height_induction with
  | step n ih => exact step n fun c hc => ih c (Node.height_lt_of_mem_offspring hc)

theorem Node.mem_walk_of_mem_offspring {m c n : Node} (hc : c ∈ n.offspring) (hm : m ∈ c.walk) :
    m ∈ n.walk :=
  Node.mem_walk.2 (Or.inr ⟨c, hc, hm⟩)

/-- The nodes of a subtree are nodes of the tree. -/
theorem Node.mem_walk_trans {m c n : Node} (hm : m ∈ c.walk) (hc : c ∈ n.walk) : m ∈ n.walk := by
  induction n using Node.offspring_induction with
  | step n ih =>
      rcases Node.mem_walk.1 hc with rfl | ⟨d, hd, hcd⟩
      · exact hm
      · exact Node.mem_walk_of_mem_offspring hd (ih d hd hcd)

/-- What a path leads to starts right below a node of the tree. -/
theorem Node.exists_field?_of_resolve {n : Node} {path : FieldPath} {f : Field}
    (h : n.resolve path = some f) :
    ∃ m ∈ n.walk, ∃ name, m.field? name = some f := by
  induction path generalizing n with
  | nil => simp [Node.resolve] at h
  | cons name rest ih =>
      cases rest with
      | nil => exact ⟨n, Node.mem_walk_self n, name, h⟩
      | cons next rest =>
          obtain ⟨child, hchild, hrest⟩ := Option.bind_eq_some_iff.1 h
          obtain ⟨m, hm, last, hf⟩ := ih hrest
          exact
            ⟨m, Node.mem_walk_of_mem_offspring (Node.mem_offspring_of_child? hchild) hm, last, hf⟩

theorem Node.mem_walk_of_resolve {n c : Node} {path : FieldPath} {f : Field}
    (h : n.resolve path = some f) (hc : c ∈ f.members) : c ∈ n.walk := by
  obtain ⟨m, hm, name, hf⟩ := Node.exists_field?_of_resolve h
  exact Node.mem_walk_trans
    (Node.mem_walk_of_mem_offspring (Node.mem_offspring_of_field? hf hc) (Node.mem_walk_self c)) hm

theorem Node.height_lt_of_resolve {n c : Node} {path : FieldPath} {f : Field}
    (h : n.resolve path = some f) (hc : c ∈ f.members) : c.height < n.height :=
  Nat.lt_of_le_of_lt (Field.height_le_of_mem_members hc) (Node.height_resolve_lt h)

/-! ## Trees without two fields of one name -/

/-- No node of the tree has two fields of one name. -/
def Node.NamesDistinct (n : Node) : Prop := ∀ m ∈ n.walk, (m.fields.map Prod.fst).Nodup

instance (n : Node) : Decidable n.NamesDistinct :=
  inferInstanceAs (Decidable (∀ m ∈ n.walk, (m.fields.map Prod.fst).Nodup))

theorem Node.NamesDistinct.of_mem_walk {m n : Node} (h : n.NamesDistinct) (hm : m ∈ n.walk) :
    m.NamesDistinct :=
  fun _ hd => h _ (Node.mem_walk_trans hd hm)

theorem Node.NamesDistinct.of_mem_offspring {c n : Node} (h : n.NamesDistinct)
    (hc : c ∈ n.offspring) : c.NamesDistinct :=
  h.of_mem_walk (Node.mem_walk_of_mem_offspring hc (Node.mem_walk_self c))

/-- In a list without two entries of one key, every entry is found under its key. -/
theorem lookup_of_mem_of_nodup {α β : Type} [BEq α] [LawfulBEq α] {entries : List (α × β)}
    {key : α} {value : β} (hnodup : (entries.map Prod.fst).Nodup) (h : (key, value) ∈ entries) :
    entries.lookup key = some value := by
  obtain ⟨before, after, rfl⟩ := List.append_of_mem h
  refine List.lookup_eq_some_iff.2 ⟨before, after, rfl, ?_⟩
  rw [List.map_append, List.map_cons, List.nodup_append] at hnodup
  obtain ⟨-, -, hdisjoint⟩ := hnodup
  intro entry hentry
  have hne := hdisjoint entry.1 (List.mem_map_of_mem hentry) key List.mem_cons_self
  simpa using hne.symm

/-- With distinct names, every field is found under its name. -/
theorem Node.field?_of_mem_fields {n : Node} {name : String} {f : Field}
    (hn : (n.fields.map Prod.fst).Nodup) (h : (name, f) ∈ n.fields) : n.field? name = some f :=
  lookup_of_mem_of_nodup hn h

/-! ## Structural equality -/

theorem Field.structEqEntries_iff {fields : List (String × Field)} {other : Node} :
    Field.structEqEntries fields other = true ↔
      ∀ entry ∈ fields, ∃ g, other.field? entry.1 = some g ∧ entry.2.structEq g = true := by
  induction fields with
  | nil => simp [Field.structEqEntries]
  | cons entry rest ih =>
      obtain ⟨name, f⟩ := entry
      rw [Field.structEqEntries, Bool.and_eq_true, ih, List.forall_mem_cons]
      refine and_congr_left fun _ => ?_
      cases other.field? name <;> simp

/-- Two nodes are structurally equal when they have one kind, one text and equally many fields,
and each field of the first is structurally equal to the second's of that name. -/
theorem Node.structEq_iff {a b : Node} :
    a.structEq b = true ↔
      a.kind = b.kind ∧ a.text = b.text ∧ a.fields.length = b.fields.length ∧
        ∀ entry ∈ a.fields, ∃ g, b.field? entry.1 = some g ∧ entry.2.structEq g = true := by
  cases a with
  | mk kind text fields span =>
      rw [Node.structEq, Bool.and_eq_true, Bool.and_eq_true, Bool.and_eq_true,
        Field.structEqEntries_iff]
      simp only [beq_iff_eq, Node.kind_mk, Node.text_mk, Node.fields_mk, and_assoc]

theorem Node.structEqList_refl {nodes : List Node}
    (ih : ∀ c ∈ nodes, c.structEq c = true) : Node.structEqList nodes nodes = true := by
  induction nodes with
  | nil => rw [Node.structEqList]
  | cons node rest ihrest =>
      rw [Node.structEqList, ih node List.mem_cons_self,
        ihrest fun c hc => ih c (List.mem_cons_of_mem _ hc)]
      rfl

theorem Node.structEqList_symm {lefts rights : List Node}
    (ih : ∀ c ∈ lefts, ∀ d : Node, c.structEq d = true → d.structEq c = true)
    (h : Node.structEqList lefts rights = true) : Node.structEqList rights lefts = true := by
  induction lefts generalizing rights with
  | nil =>
      cases rights with
      | nil => exact h
      | cons _ _ => simp [Node.structEqList] at h
  | cons left lefts ihrest =>
      cases rights with
      | nil => simp [Node.structEqList] at h
      | cons right rights =>
          rw [Node.structEqList, Bool.and_eq_true] at h ⊢
          refine ⟨ih left List.mem_cons_self right h.1, ihrest (fun c hc => ?_) h.2⟩
          exact ih c (List.mem_cons_of_mem _ hc)

theorem Node.structEqList_trans {lefts middles rights : List Node}
    (ih : ∀ c ∈ lefts, ∀ d e : Node,
      c.structEq d = true → d.structEq e = true → c.structEq e = true)
    (hlm : Node.structEqList lefts middles = true)
    (hmr : Node.structEqList middles rights = true) :
    Node.structEqList lefts rights = true := by
  induction lefts generalizing middles rights with
  | nil =>
      cases middles with
      | nil => exact hmr
      | cons _ _ => simp [Node.structEqList] at hlm
  | cons left lefts ihrest =>
      cases middles with
      | nil => simp [Node.structEqList] at hlm
      | cons middle middles =>
          cases rights with
          | nil => simp [Node.structEqList] at hmr
          | cons right rights =>
              rw [Node.structEqList, Bool.and_eq_true] at hlm hmr ⊢
              refine ⟨ih left List.mem_cons_self middle right hlm.1 hmr.1,
                ihrest (fun c hc => ?_) hlm.2 hmr.2⟩
              exact ih c (List.mem_cons_of_mem _ hc)

theorem Field.structEq_refl {f : Field} (ih : ∀ c ∈ f.members, c.structEq c = true) :
    f.structEq f = true := by
  cases f with
  | node child =>
      rw [Field.structEq]
      exact ih child (List.mem_singleton.2 rfl)
  | nodes children =>
      rw [Field.structEq]
      exact Node.structEqList_refl ih
  | token text => rw [Field.structEq, beq_iff_eq]

theorem Field.structEq_symm {f g : Field}
    (ih : ∀ c ∈ f.members, ∀ d : Node, c.structEq d = true → d.structEq c = true)
    (h : f.structEq g = true) : g.structEq f = true := by
  cases f <;> cases g <;> simp only [Field.structEq, Bool.false_eq_true] at h ⊢
  case node.node left right => exact ih left (List.mem_singleton.2 rfl) right h
  case nodes.nodes lefts rights => exact Node.structEqList_symm ih h
  case token.token left right =>
      rw [beq_iff_eq] at h ⊢
      exact h.symm

theorem Field.structEq_trans {f g k : Field}
    (ih : ∀ c ∈ f.members, ∀ d e : Node,
      c.structEq d = true → d.structEq e = true → c.structEq e = true)
    (hfg : f.structEq g = true) (hgk : g.structEq k = true) : f.structEq k = true := by
  cases f <;> cases g <;> simp only [Field.structEq, Bool.false_eq_true] at hfg <;>
    cases k <;> simp only [Field.structEq, Bool.false_eq_true] at hgk ⊢
  case node.node.node left middle right =>
      exact ih left (List.mem_singleton.2 rfl) middle right hfg hgk
  case nodes.nodes.nodes lefts middles rights => exact Node.structEqList_trans ih hfg hgk
  case token.token.token left middle right =>
      rw [beq_iff_eq] at hfg hgk ⊢
      exact hfg.trans hgk

/-- A tree with distinct names is structurally equal to itself. -/
theorem Node.structEq_refl {n : Node} (hn : n.NamesDistinct) : n.structEq n = true := by
  induction n using Node.offspring_induction with
  | step n ih =>
      refine Node.structEq_iff.2 ⟨rfl, rfl, rfl, ?_⟩
      intro entry hentry
      have hoffspring : ∀ c ∈ entry.2.members, c ∈ n.offspring :=
        fun c hc => List.mem_flatMap.2 ⟨entry, hentry, hc⟩
      refine ⟨entry.2, Node.field?_of_mem_fields (hn n (Node.mem_walk_self n)) hentry, ?_⟩
      exact Field.structEq_refl fun c hc =>
        ih c (hoffspring c hc) (hn.of_mem_offspring (hoffspring c hc))

/-- The names of two nodes are the same up to order if each of the first, none of which is there
twice, is one of the second, and there are equally many. -/
theorem Node.names_perm {a b : Node} (ha : (a.fields.map Prod.fst).Nodup)
    (hlength : a.fields.length = b.fields.length)
    (hfound : ∀ entry ∈ a.fields, (b.field? entry.1).isSome = true) :
    (a.fields.map Prod.fst).Perm (b.fields.map Prod.fst) := by
  have hsubset : a.fields.map Prod.fst ⊆ b.fields.map Prod.fst := by
    intro name hname
    obtain ⟨entry, hentry, rfl⟩ := List.mem_map.1 hname
    obtain ⟨g, hg⟩ := Option.isSome_iff_exists.1 (hfound entry hentry)
    exact List.mem_map.2 ⟨_, Node.mem_fields_of_field? hg, rfl⟩
  refine (ha.subperm hsubset).perm_of_length_le ?_
  rw [List.length_map, List.length_map]
  exact Nat.le_of_eq hlength.symm

/-- Structural equality with a tree of distinct names can be turned round. -/
theorem Node.structEq_symm {a b : Node} (ha : a.NamesDistinct) (h : a.structEq b = true) :
    b.structEq a = true := by
  induction a using Node.offspring_induction generalizing b with
  | step a ih =>
      obtain ⟨hkind, htext, hlength, hfields⟩ := Node.structEq_iff.1 h
      have hnames := ha a (Node.mem_walk_self a)
      have hperm := Node.names_perm hnames hlength fun entry hentry => by
        obtain ⟨g, hg, -⟩ := hfields entry hentry
        rw [hg]
        rfl
      refine Node.structEq_iff.2 ⟨hkind.symm, htext.symm, hlength.symm, ?_⟩
      rintro ⟨name, g⟩ hg
      have hname : name ∈ a.fields.map Prod.fst :=
        hperm.mem_iff.2 (List.mem_map.2 ⟨_, hg, rfl⟩)
      obtain ⟨⟨_, f⟩, hf, rfl⟩ := List.mem_map.1 hname
      obtain ⟨g', hg', hfg⟩ := hfields _ hf
      -- the names of the second node are distinct too, so it has no other field of this name
      obtain rfl : g' = g :=
        Option.some.inj (hg'.symm.trans (Node.field?_of_mem_fields (hperm.nodup_iff.1 hnames) hg))
      refine ⟨f, Node.field?_of_mem_fields hnames hf, ?_⟩
      refine Field.structEq_symm (fun c hc d hcd => ?_) hfg
      have hoffspring : c ∈ a.offspring := List.mem_flatMap.2 ⟨_, hf, hc⟩
      exact ih c hoffspring (ha.of_mem_offspring hoffspring) hcd

theorem Node.structEq_trans {a b c : Node} (hab : a.structEq b = true)
    (hbc : b.structEq c = true) : a.structEq c = true := by
  induction a using Node.offspring_induction generalizing b c with
  | step a ih =>
      obtain ⟨hkind, htext, hlength, hfields⟩ := Node.structEq_iff.1 hab
      obtain ⟨hkind', htext', hlength', hfields'⟩ := Node.structEq_iff.1 hbc
      refine Node.structEq_iff.2
        ⟨hkind.trans hkind', htext.trans htext', hlength.trans hlength', ?_⟩
      intro entry hentry
      obtain ⟨g, hg, hfg⟩ := hfields entry hentry
      obtain ⟨k, hk, hgk⟩ := hfields' _ (Node.mem_fields_of_field? hg)
      refine ⟨k, hk, Field.structEq_trans (fun d hd _ _ hde hef => ?_) hfg hgk⟩
      exact ih d (List.mem_flatMap.2 ⟨entry, hentry, hd⟩) hde hef

end CodeSearch

import CodeSearch.Proofs.Likeness
import CodeSearch.Proofs.SourceText

/-!
# Trees as they are built

A tree is built from leaves and from nodes without fields: fields are set and taken out again, and
texts and spans replaced. Setting a field gives no second one of its name, so that no node of the
tree has two fields of one name; and every tree of which this is true can be built.

Structural equality asks for each field of the first node whether the second has an equal one, and
never the other way round. Where names are distinct it needs not: equally many fields of different
names are all the fields there are. `Node.structEq_isEquivalence` says that on trees that are built
it is an equivalence, which tells trees apart just if more differs than spans and the order of
fields.
-/

set_option autoImplicit false

namespace CodeSearch

/-! ## Building -/

/-- The trees that are **built** by the operations on nodes. -/
inductive Node.Built : Node → Prop
  | branch (kind : String) (span : Span) : Node.Built (.branch kind span)
  | leaf (kind text : String) (span : Span) : Node.Built (.leaf kind text span)
  /-- A field is set to a token, or to children that are built. -/
  | setField {n : Node} {value : Field} (hn : n.Built) (name : String)
      (hvalue : ∀ c ∈ value.members, Node.Built c) : Node.Built (n.setField name value)
  /-- A field is taken out. -/
  | removeField {n : Node} (hn : n.Built) (name : String) : Node.Built (n.removeField name)
  | withText {n : Node} (hn : n.Built) (text : Option String) : Node.Built (n.withText text)
  | withSpan {n : Node} (hn : n.Built) (span : Span) : Node.Built (n.withSpan span)

namespace Node

variable {n : Node}

/-- A tree has distinct names if its root has, and the trees right below it do. -/
theorem namesDistinct_iff :
    n.NamesDistinct ↔ n.HasDistinctFields ∧ ∀ c ∈ n.offspring, c.NamesDistinct := by
  refine ⟨fun h => ⟨h n (mem_walk_self n), fun c hc => h.of_mem_offspring hc⟩, fun h m hm => ?_⟩
  rcases mem_walk.1 hm with rfl | ⟨c, hc, hmc⟩
  · exact h.1
  · exact h.2 c hc m hmc

/-- **What is built has distinct names**, at every depth. -/
theorem Built.namesDistinct (h : n.Built) : n.NamesDistinct := by
  induction h with
  | branch kind span => exact namesDistinct_iff.2 ⟨List.nodup_nil, fun c hc => nomatch hc⟩
  | leaf kind text span => exact namesDistinct_iff.2 ⟨List.nodup_nil, fun c hc => nomatch hc⟩
  | @setField n value _ name _ ih ihvalue =>
      obtain ⟨hroot, hbelow⟩ := namesDistinct_iff.1 ih
      refine namesDistinct_iff.2 ⟨hroot.setField name value, fun c hc => ?_⟩
      exact (mem_offspring_setField hc).elim (ihvalue c) (hbelow c)
  | removeField _ name ih =>
      obtain ⟨hroot, hbelow⟩ := namesDistinct_iff.1 ih
      refine namesDistinct_iff.2 ⟨hroot.removeField name, fun c hc => ?_⟩
      exact hbelow c (mem_offspring_removeField hc)
  | withText _ _ ih =>
      obtain ⟨hroot, hbelow⟩ := namesDistinct_iff.1 ih
      exact namesDistinct_iff.2 ⟨hroot, hbelow⟩
  | withSpan _ _ ih =>
      obtain ⟨hroot, hbelow⟩ := namesDistinct_iff.1 ih
      exact namesDistinct_iff.2 ⟨hroot, hbelow⟩

/-- A field of a new name is put last. -/
theorem insertField_of_new {name : String} {fields : List (String × Field)}
    (h : name ∉ fields.map Prod.fst) (value : Field) :
    insertField name value fields = fields ++ [(name, value)] := by
  induction fields with
  | nil => rfl
  | cons entry rest ih =>
      obtain ⟨key, old⟩ := entry
      rw [List.map_cons, List.mem_cons, not_or] at h
      have hkey : key ≠ name := fun heq => h.1 heq.symm
      rw [insertField, if_neg hkey, ih h.2, List.cons_append]

/-- A node is built by setting its fields one after another. -/
theorem built_of_fields (kind : String) (span : Span) {fields : List (String × Field)}
    (hnames : (fields.map Prod.fst).Nodup)
    (hmembers : ∀ entry ∈ fields, ∀ c ∈ entry.2.members, c.Built) :
    Built (.mk kind none fields span) := by
  induction fields using List.reverseRecOn with
  | nil => exact .branch kind span
  | append_singleton fields entry ih =>
      obtain ⟨name, value⟩ := entry
      obtain ⟨hearlier, hvalue⟩ := List.forall_mem_append.1 hmembers
      rw [List.map_append, List.nodup_append] at hnames
      obtain ⟨hnames, -, hapart⟩ := hnames
      have hnew : name ∉ fields.map Prod.fst := fun hmem =>
        hapart name hmem name (List.mem_singleton.2 rfl) rfl
      have hset : (mk kind none fields span).setField name value =
          mk kind none (fields ++ [(name, value)]) span :=
        congrArg (mk kind none · span) (insertField_of_new hnew value)
      rw [← hset]
      exact .setField (ih hnames hearlier) name (hvalue _ (List.mem_singleton.2 rfl))

/-- **The trees that are built** are those with distinct names. -/
theorem built_iff : n.Built ↔ n.NamesDistinct := by
  refine ⟨Built.namesDistinct, fun h => ?_⟩
  induction n using offspring_induction with
  | step n ih =>
      obtain ⟨hroot, hbelow⟩ := namesDistinct_iff.1 h
      cases n with
      | mk kind text fields span =>
          have hmembers : ∀ entry ∈ fields, ∀ c ∈ entry.2.members, c.Built := by
            intro entry hentry c hc
            have hoffspring : c ∈ (mk kind text fields span).offspring :=
              List.mem_flatMap.2 ⟨entry, hentry, hc⟩
            exact ih c hoffspring (hbelow c hoffspring)
          exact .withText (built_of_fields kind span hroot hmembers) text

/-- The nodes of a tree that is built are built. -/
theorem Built.of_mem_walk {m : Node} (h : n.Built) (hm : m ∈ n.walk) : m.Built :=
  built_iff.2 (h.namesDistinct.of_mem_walk hm)

end Node

/-- Every node that comes of converting a concrete tree is built. -/
theorem Language.built_of_convertAt {language : Language} {parsers : ParserSet} {source : String}
    {tree : ConcreteTree} {depth : Nat} {n : Node}
    (h : (language.converter parsers source).convertAt depth tree = .ok n) : n.Built :=
  Node.built_iff.2 (namesDistinct_of_convertAt h)

/-! ## The same structure -/

/-- Two fields have one name and related contents. -/
inductive Field.EntryRel (R : Node → Node → Prop) : String × Field → String × Field → Prop
  | mk (name : String) {f g : Field} (h : Field.Rel R f g) : Field.EntryRel R (name, f) (name, g)

/-- Two trees have the **same structure** if they differ in nothing but the spans of their nodes and
the order in which a node has its fields. -/
inductive Node.SameStructure : Node → Node → Prop
  | mk {kind : String} {text : Option String} {span other : Span}
      {fields moved others : List (String × Field)}
      (held : List.Forall₂ (Field.EntryRel Node.SameStructure) fields moved)
      (order : moved.Perm others) :
      Node.SameStructure (.mk kind text fields span) (.mk kind text others other)

theorem Field.EntryRel.names_eq {R : Node → Node → Prop} {fields others : List (String × Field)}
    (h : List.Forall₂ (Field.EntryRel R) fields others) :
    fields.map Prod.fst = others.map Prod.fst := by
  induction h with
  | nil => rfl
  | cons hentry _ ih =>
      cases hentry with
      | mk name _ => rw [List.map_cons, List.map_cons, ih]

/-- What is related to each member of a list can be listed along with it. -/
theorem exists_forall₂_of_forall_mem {α : Type} {R : α → α → Prop} {lefts rights : List α}
    (h : ∀ a ∈ lefts, ∃ b ∈ rights, R a b) :
    ∃ found, List.Forall₂ R lefts found ∧ found ⊆ rights := by
  induction lefts with
  | nil => exact ⟨[], .nil, List.nil_subset rights⟩
  | cons left lefts ih =>
      obtain ⟨hleft, hlefts⟩ := List.forall_mem_cons.1 h
      obtain ⟨right, hright, hrel⟩ := hleft
      obtain ⟨found, hfound, hsubset⟩ := ih hlefts
      exact ⟨right :: found, .cons hrel hfound, List.cons_subset.2 ⟨hright, hsubset⟩⟩

theorem Field.structEq_of_rel {f g : Field}
    (h : Field.Rel (fun a b => a.structEq b = true) f g) : f.structEq g = true := by
  cases h with
  | node h => rwa [Field.structEq]
  | token text => rw [Field.structEq, beq_iff_eq]
  | nodes h =>
      rw [Field.structEq]
      induction h with
      | nil => rw [Node.structEqList]
      | cons hhead _ ih => rw [Node.structEqList, hhead, ih, Bool.true_and]

namespace Node

variable {a b : Node}

/-- Trees of the same structure are equal if their names are distinct. -/
theorem SameStructure.structEq (ha : a.NamesDistinct) (h : a.SameStructure b) :
    a.structEq b = true := by
  induction a using offspring_induction generalizing b with
  | step a ih =>
      cases h with
      | @mk kind text span other fields moved others held order =>
          -- moving fields about leaves their names distinct, so each is found under its name
          have hnames : (others.map Prod.fst).Nodup := by
            have hroot : (fields.map Prod.fst).Nodup := ha _ (mem_walk_self _)
            rw [Field.EntryRel.names_eq held] at hroot
            exact (order.map Prod.fst).nodup_iff.1 hroot
          refine structEq_iff.2 ⟨rfl, rfl, held.length_eq.trans order.length_eq, ?_⟩
          intro entry hentry
          obtain ⟨other, hother, hpair⟩ := exists_mem_of_forall₂ held hentry
          cases hpair with
          | @mk name f g hfg =>
              refine ⟨g, field?_of_mem_fields hnames (order.mem_iff.1 hother), ?_⟩
              refine Field.structEq_of_rel (hfg.imp_of_mem fun c hc d hcd => ?_)
              have hoffspring : c ∈ (Node.mk kind text fields span).offspring :=
                List.mem_flatMap.2 ⟨_, hentry, hc⟩
              exact ih c hoffspring (ha.of_mem_offspring hoffspring) hcd

/-- Trees that are equal have the same structure if their names are distinct: the fields that are
found on the right are all that there are. -/
theorem SameStructure.of_structEq (ha : a.NamesDistinct) (h : a.structEq b = true) :
    a.SameStructure b := by
  induction a using offspring_induction generalizing b with
  | step a ih =>
      obtain ⟨hkind, htext, hlength, hfields⟩ := structEq_iff.1 h
      have hfound : ∀ entry ∈ a.fields, ∃ other ∈ b.fields,
          Field.EntryRel SameStructure entry other := by
        intro entry hentry
        obtain ⟨name, f⟩ := entry
        obtain ⟨g, hg, hfg⟩ := hfields _ hentry
        refine ⟨(name, g), mem_fields_of_field? hg, .mk name ?_⟩
        refine (Field.rel_of_structEq hfg).mono fun c d hcd => ?_
        have hoffspring : c ∈ a.offspring := List.mem_flatMap.2 ⟨_, hentry, hcd.1⟩
        exact ih c hoffspring (ha.of_mem_offspring hoffspring) hcd.2
      obtain ⟨moved, held, hmoved⟩ := exists_forall₂_of_forall_mem hfound
      -- no field is found twice, so that those that are found are as many as there are
      have hnodup : moved.Nodup := by
        have hroot : (a.fields.map Prod.fst).Nodup := ha a (mem_walk_self a)
        rw [Field.EntryRel.names_eq held] at hroot
        exact hroot.of_map
      have horder : moved.Perm b.fields := by
        refine (hnodup.subperm hmoved).perm_of_length_le (Nat.le_of_eq ?_)
        rw [← held.length_eq, hlength]
      rw [← a.eta, ← b.eta, hkind, htext]
      exact .mk held horder

/-- On trees with distinct names, structural equality is sameness of structure. -/
theorem structEq_iff_sameStructure (ha : a.NamesDistinct) :
    a.structEq b = true ↔ a.SameStructure b :=
  ⟨SameStructure.of_structEq ha, SameStructure.structEq ha⟩

/-- Trees that are built may be replaced by others of the same structure. -/
theorem SameStructure.structEq_congr {c d : Node} (ha : a.Built) (hb : b.Built)
    (hac : a.SameStructure c) (hbd : b.SameStructure d) : a.structEq b = c.structEq d := by
  have ha := ha.namesDistinct
  have hb := hb.namesDistinct
  rw [Bool.eq_iff_iff]
  constructor
  · intro h
    exact structEq_trans (structEq_symm ha (hac.structEq ha))
      (structEq_trans h (hbd.structEq hb))
  · intro h
    exact structEq_trans (hac.structEq ha)
      (structEq_trans h (structEq_symm hb (hbd.structEq hb)))

/-- **Structural equality is an equivalence** on the trees that are built, among them all that come
of a conversion. No node of these has two fields of one name, at whatever depth; and two of them are
equal just if they differ in nothing but spans and the order of fields, so that neither counts. -/
theorem structEq_isEquivalence :
    (∀ n : Node, n.Built → n.NamesDistinct) ∧
      (∀ (language : Language) (parsers : ParserSet) (source : String) (tree : ConcreteTree)
        (depth : Nat) (n : Node),
        (language.converter parsers source).convertAt depth tree = .ok n → ∀ m ∈ n.walk, m.Built) ∧
      Equivalence (fun a b : { n : Node // n.Built } => a.1.structEq b.1 = true) ∧
      (∀ a b : Node, a.Built → (a.structEq b = true ↔ a.SameStructure b)) ∧
      ∀ a b c d : Node, a.Built → b.Built → a.SameStructure c → b.SameStructure d →
        a.structEq b = c.structEq d := by
  refine ⟨fun n => Built.namesDistinct, fun _ _ _ _ _ _ h => ?_, ?_, ?_, ?_⟩
  · exact fun m => (Language.built_of_convertAt h).of_mem_walk
  · exact {
      refl := fun n => structEq_refl n.2.namesDistinct
      symm := fun {a _} => structEq_symm a.2.namesDistinct
      trans := structEq_trans }
  · exact fun a b ha => structEq_iff_sameStructure ha.namesDistinct
  · exact fun a b c d => SameStructure.structEq_congr

/-- A sum whose operator is set after its left side. -/
def sumFromLeft (span : Span) : Node :=
  ((branch "binary_expression" span).setField "left" (.node (leaf "number" "1" span))).setField
    "operator" (.token "+")

/-- The same sum, whose operator is set first. -/
def sumFromOperator (span : Span) : Node :=
  ((branch "binary_expression" span).setField "operator" (.token "+")).setField
    "left" (.node (leaf "number" "1" span))

theorem built_sumFromLeft (span : Span) : (sumFromLeft span).Built := by
  refine .setField (.setField (.branch _ span) _ fun c hc => ?_) _ fun c hc => nomatch hc
  obtain rfl := List.mem_singleton.1 hc
  exact .leaf _ _ span

/-- A sum is equal to itself further down in a text, and its fields in the other order. -/
theorem structEq_isEquivalence_sum :
    (sumFromLeft Span.zero).SameStructure (sumFromOperator ⟨3, 6, ⟨1, 0⟩, ⟨1, 3⟩⟩) ∧
      (sumFromLeft Span.zero).NamesDistinct := by
  obtain ⟨hdistinct, -, -, hsame, -⟩ := structEq_isEquivalence
  have hbuilt := built_sumFromLeft Span.zero
  exact ⟨(hsame _ _ hbuilt).1 (by decide +kernel), hdistinct _ hbuilt⟩

end Node

end CodeSearch

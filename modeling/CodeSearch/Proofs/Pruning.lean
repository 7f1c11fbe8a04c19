import CodeSearch.Proofs.Claims
import CodeSearch.Proofs.Locality

/-!
# Trees without ignored nodes

Nodes that a grammar does not compare are **ignored**: they are left out when lists are matched. A
tree is **pruned** by leaving them out of its lists at every depth. A list field of nothing but
ignored nodes is still a field, which may be left out as well where fields may be lacking. Two trees
are the same but for ignored nodes if they are the same once pruned. Their nodes stand for each
other, place by place, if ignored elements of lists do not count.
-/

set_option autoImplicit false

namespace CodeSearch

/-! ## Trees without ignored nodes -/

namespace MatchContext

/-- Whether a field is a list of nothing but ignored nodes. -/
def holdsIgnored (cx : MatchContext) : Field → Bool
  | .nodes children => (cx.comparable children).isEmpty
  | _ => false

/-- Whether a field of a node of some kind may as well be missing where further code is ignored. -/
def mayLack (cx : MatchContext) (kind name : String) (field : Field) : Bool :=
  cx.grammar.isOptional kind name && name != textKey && cx.holdsIgnored field

mutual

/-- **The tree without its ignored nodes**: they are left out of lists at every depth, and so are
all spans. If fields may be lacking, those that may as well be missing are left out, too. -/
def pruned (cx : MatchContext) (lacking : Bool) : Node → Node
  | .mk kind text fields _ => .mk kind text (prunedEntries cx lacking kind fields) .zero

/-- The field without ignored nodes. -/
def prunedField (cx : MatchContext) (lacking : Bool) : Field → Field
  | .node child => .node (pruned cx lacking child)
  | .nodes children => .nodes (prunedList cx lacking children)
  | .token text => .token text

/-- The trees of a list that are compared, without their ignored nodes. -/
def prunedList (cx : MatchContext) (lacking : Bool) : List Node → List Node
  | [] => []
  | node :: rest =>
      if cx.grammar.isComparable node then pruned cx lacking node :: prunedList cx lacking rest
      else prunedList cx lacking rest

/-- The fields of a node of some kind without ignored nodes. -/
def prunedEntries (cx : MatchContext) (lacking : Bool) (kind : String) :
    List (String × Field) → List (String × Field)
  | [] => []
  | (name, field) :: rest =>
      if lacking && cx.mayLack kind name field then prunedEntries cx lacking kind rest
      else (name, prunedField cx lacking field) :: prunedEntries cx lacking kind rest

end

/-- Whether a field of a node is kept. -/
def keeps (cx : MatchContext) (lacking : Bool) (n : Node) (name : String) (field : Field) : Bool :=
  !(lacking && cx.mayLack n.kind name field)

/-- The field of a name, if it is kept. -/
def keptField? (cx : MatchContext) (lacking : Bool) (n : Node) (name : String) : Option Field :=
  (n.field? name).filter (cx.keeps lacking n name)

section

variable {cx : MatchContext} {lacking : Bool} {m n : Node}

theorem prunedList_eq (nodes : List Node) :
    cx.prunedList lacking nodes = (cx.comparable nodes).map (cx.pruned lacking) := by
  induction nodes with
  | nil => rfl
  | cons node rest ih =>
      rw [prunedList, comparable, List.filter_cons, ih]
      split <;> rfl

theorem prunedEntries_eq (kind : String) (fields : List (String × Field)) :
    cx.prunedEntries lacking kind fields =
      (fields.filter fun entry => !(lacking && cx.mayLack kind entry.1 entry.2)).map
        fun entry => (entry.1, cx.prunedField lacking entry.2) := by
  induction fields with
  | nil => rfl
  | cons entry rest ih =>
      rw [prunedEntries, List.filter_cons, ih]
      cases lacking && cx.mayLack kind entry.1 entry.2 <;> rfl

@[simp] theorem kind_pruned (n : Node) : (cx.pruned lacking n).kind = n.kind := by
  cases n
  rw [pruned, Node.kind_mk, Node.kind_mk]

@[simp] theorem text_pruned (n : Node) : (cx.pruned lacking n).text = n.text := by
  cases n
  rw [pruned, Node.text_mk, Node.text_mk]

theorem fields_pruned (n : Node) :
    (cx.pruned lacking n).fields =
      (n.fields.filter fun entry => cx.keeps lacking n entry.1 entry.2).map
        fun entry => (entry.1, cx.prunedField lacking entry.2) := by
  cases n
  rw [pruned, Node.fields_mk, prunedEntries_eq]
  rfl

/-- Where no field may be lacking, the names of the fields stay. -/
theorem names_pruned (n : Node) :
    (cx.pruned false n).fields.map Prod.fst = n.fields.map Prod.fst := by
  simp [fields_pruned, keeps, Function.comp_def]

theorem keys_pruned (n : Node) : (cx.pruned false n).keys = n.keys := by
  rw [Node.keys, Node.keys, names_pruned, text_pruned]

theorem childFields_pruned (n : Node) : (cx.pruned false n).childFields = n.childFields := by
  have hholds : ∀ field, (cx.prunedField false field).holdsNodes = field.holdsNodes := by
    intro field
    cases field <;> rfl
  simp [Node.childFields, fields_pruned, keeps, List.filter_map, Function.comp_def, hholds]

/-- What is looked up among entries of different keys of which some are left out. -/
theorem lookup_filter {entries : List (String × Field)} (h : (entries.map Prod.fst).Nodup)
    (p : String × Field → Bool) (name : String) :
    (entries.filter p).lookup name = (entries.lookup name).filter fun field => p (name, field) := by
  induction entries with
  | nil => rfl
  | cons entry rest ih =>
      obtain ⟨key, field⟩ := entry
      rw [List.map_cons, List.nodup_cons] at h
      rw [List.filter_cons, List.lookup_cons]
      cases hkey : name == key with
      | true =>
          obtain rfl := beq_iff_eq.1 hkey
          have hrest : rest.lookup name = none := List.lookup_eq_none_iff.2 fun entry hentry =>
            bne_iff_ne.2 fun heq => h.1 (List.mem_map.2 ⟨entry, hentry, heq.symm⟩)
          cases hp : p (name, field) with
          | true => simp [Option.filter, hp]
          | false => simp [Option.filter, hp, ih h.2, hrest]
      | false =>
          cases hp : p (key, field) with
          | true => simp [List.lookup_cons, hkey, ih h.2]
          | false => simp [ih h.2]

/-- Where no field may be lacking, all are kept. -/
@[simp] theorem keptField?_false (n : Node) (name : String) :
    cx.keptField? false n name = n.field? name := by
  rw [keptField?]
  cases n.field? name <;> simp [keeps, Option.filter]

/-- Under a name the pruned tree has the pruned field, if it is kept. -/
theorem field?_pruned (h : lacking = true → (n.fields.map Prod.fst).Nodup) (name : String) :
    (cx.pruned lacking n).field? name =
      (cx.keptField? lacking n name).map (cx.prunedField lacking) := by
  have hkept : (n.fields.filter fun entry => cx.keeps lacking n entry.1 entry.2).lookup name =
      cx.keptField? lacking n name := by
    cases lacking with
    | true => exact lookup_filter (h rfl) _ name
    | false => simp [keeps, Node.field?]
  rw [Node.field?, fields_pruned, ← hkept]
  induction n.fields.filter fun entry => cx.keeps lacking n entry.1 entry.2 with
  | nil => rfl
  | cons entry rest ih =>
      obtain ⟨key, field⟩ := entry
      rw [List.map_cons, List.lookup_cons, List.lookup_cons, ih]
      cases name == key <;> rfl

/-- Where no field may be lacking, the pruned tree has the pruned field under a name. -/
theorem field?_pruned_false (n : Node) (name : String) :
    (cx.pruned false n).field? name = (n.field? name).map (cx.prunedField false) := by
  rw [field?_pruned (by simp), keptField?_false]

theorem keptField?_eq_some {name : String} {field : Field}
    (h : cx.keptField? lacking n name = some field) : n.field? name = some field :=
  (Option.filter_eq_some_iff.1 h).1

/-- A field that holds more than ignored nodes is kept. -/
theorem keptField?_of_field? {name : String} {field : Field} (h : n.field? name = some field)
    (hmore : cx.holdsIgnored field = false) : cx.keptField? lacking n name = some field := by
  simp [keptField?, h, keeps, mayLack, hmore, Option.filter]

/-- A single child is kept. -/
theorem child?_eq (lacking : Bool) (n : Node) (name : String) :
    n.child? name = (cx.keptField? lacking n name).bind Field.node? := by
  rw [Node.child?]
  cases hfield : n.field? name with
  | none => simp only [keptField?, hfield, Option.filter_none, Option.bind_none]
  | some field =>
      cases field with
      | node c => rw [keptField?_of_field? hfield rfl]
      | token text => rw [keptField?_of_field? hfield rfl]
      | nodes children =>
          cases hkept : cx.keptField? lacking n name with
          | none => rfl
          | some other =>
              obtain rfl := Option.some.inj (hfield.symm.trans (keptField?_eq_some hkept))
              rfl

/-- A field that is not kept, if it is there at all, holds nothing but ignored nodes. -/
theorem holdsIgnored_of_not_kept {name : String} {field : Field}
    (h : cx.keptField? lacking n name = none) (hfield : n.field? name = some field) :
    lacking = true ∧ cx.mayLack n.kind name field = true := by
  rw [keptField?, hfield] at h
  simpa [Option.filter, keeps] using h

end

end MatchContext

/-! ## Nodes that stand for each other -/

/-- Two fields hold the same token, or related children, ignored ones apart. -/
inductive FieldsPaired (cx : MatchContext) (R : Node → Node → Prop) : Field → Field → Prop
  | node {a b : Node} (h : R a b) : FieldsPaired cx R (.node a) (.node b)
  | nodes {as bs : List Node} (h : List.Forall₂ R (cx.comparable as) (cx.comparable bs)) :
      FieldsPaired cx R (.nodes as) (.nodes bs)
  | token (text : String) : FieldsPaired cx R (.token text) (.token text)

/-- Two nodes of two trees are **counterparts**: they stand in one place, where ignored elements of
lists do not count. -/
inductive Counterpart (cx : MatchContext) (root root' : Node) : Node → Node → Prop
  | root : Counterpart cx root root' root root'
  | child {m m' c c' : Node} {name : String} (h : Counterpart cx root root' m m')
      (hleft : m.field? name = some (.node c)) (hright : m'.field? name = some (.node c')) :
      Counterpart cx root root' c c'
  | element {m m' c c' : Node} {name : String} {as bs : List Node}
      (h : Counterpart cx root root' m m') (hleft : m.field? name = some (.nodes as))
      (hright : m'.field? name = some (.nodes bs))
      (hpair : (c, c') ∈ (cx.comparable as).zip (cx.comparable bs)) :
      Counterpart cx root root' c c'

/-- **Counterparts are equal alike**: two nodes of the first tree are structurally equal, ignored
nodes included, just if their counterparts in the second are. -/
def EqualAlike (cx : MatchContext) (root root' : Node) : Prop :=
  ∀ m m' n n', Counterpart cx root root' m m' → Counterpart cx root root' n n' →
    m.structEq n = m'.structEq n'

section

variable {cx : MatchContext} {lacking : Bool} {m m' root root' : Node}

/-- A tree's nodes are their own counterparts. -/
theorem Counterpart.eq_self (h : Counterpart cx root root m m') : m = m' := by
  induction h with
  | root => rfl
  | child h hleft hright ih =>
      subst ih
      exact Field.node.inj (Option.some.inj (hleft.symm.trans hright))
  | @element m m' c c' name as bs h hleft hright hpair ih =>
      subst ih
      obtain rfl := Field.nodes.inj (Option.some.inj (hleft.symm.trans hright))
      rw [List.zip_eq_zipWith, List.zipWith_self] at hpair
      obtain ⟨d, -, heq⟩ := List.mem_map.1 hpair
      exact (Prod.mk.inj heq).1.symm.trans (Prod.mk.inj heq).2

/-- So all is equal alike in a tree and itself. -/
theorem equalAlike_self (cx : MatchContext) (root : Node) : EqualAlike cx root root := by
  intro m m' n n' hm hn
  rw [hm.eq_self, hn.eq_self]

theorem FieldsPaired.of_pruned_eq {f g : Field}
    (h : cx.prunedField lacking f = cx.prunedField lacking g) :
    FieldsPaired cx (fun a b => cx.pruned lacking a = cx.pruned lacking b) f g := by
  cases f <;> cases g <;> simp only [MatchContext.prunedField, reduceCtorEq] at h
  case node.node => exact .node (Field.node.inj h)
  case token.token =>
    obtain rfl := Field.token.inj h
    exact .token _
  case nodes.nodes as bs =>
    have hlist := Field.nodes.inj h
    rw [MatchContext.prunedList_eq, MatchContext.prunedList_eq, ← List.forall₂_eq_eq_eq,
      List.forall₂_map_left_iff, List.forall₂_map_right_iff] at hlist
    exact .nodes hlist

/-- Two trees are **the same but for ignored nodes**. Where fields may be lacking, no node has two
fields of one name. -/
structure SameButIgnored (cx : MatchContext) (lacking : Bool) (root root' : Node) : Prop where
  pruned : cx.pruned lacking root = cx.pruned lacking root'
  left : lacking = true → root.NamesDistinct
  right : lacking = true → root'.NamesDistinct

namespace SameButIgnored

/-- Trees that are the same but for ignored nodes have the same fields, as far as they are kept. -/
theorem keptField?_rel (h : SameButIgnored cx lacking m m') (name : String) :
    Option.Rel (FieldsPaired cx fun a b => cx.pruned lacking a = cx.pruned lacking b)
      (cx.keptField? lacking m name) (cx.keptField? lacking m' name) := by
  have hfield : (cx.keptField? lacking m name).map (cx.prunedField lacking) =
      (cx.keptField? lacking m' name).map (cx.prunedField lacking) := by
    rw [← MatchContext.field?_pruned fun hl => h.left hl m (Node.mem_walk_self m),
      ← MatchContext.field?_pruned fun hl => h.right hl m' (Node.mem_walk_self m'), h.pruned]
  cases hleft : cx.keptField? lacking m name <;> cases hright : cx.keptField? lacking m' name <;>
    simp only [hleft, hright, Option.map_none, Option.map_some, reduceCtorEq] at hfield
  case none.none => exact .none
  case some.some => exact .some (.of_pruned_eq (Option.some.inj hfield))

theorem kind (h : SameButIgnored cx lacking m m') : m.kind = m'.kind := by
  simpa using congrArg Node.kind h.pruned

theorem text (h : SameButIgnored cx lacking m m') : m.text = m'.text := by
  simpa using congrArg Node.text h.pruned

/-- What is kept in one tree is kept in the other. -/
theorem isSome_keptField? (h : SameButIgnored cx lacking m m') (name : String) :
    (cx.keptField? lacking m name).isSome = (cx.keptField? lacking m' name).isSome := by
  have hfield := h.keptField?_rel name
  generalize cx.keptField? lacking m name = left at hfield ⊢
  generalize cx.keptField? lacking m' name = right at hfield ⊢
  cases hfield <;> rfl

theorem keys (h : SameButIgnored cx false m m') : m.keys = m'.keys := by
  rw [← cx.keys_pruned m, ← cx.keys_pruned m', h.pruned]

theorem childFields (h : SameButIgnored cx false m m') : m.childFields = m'.childFields := by
  rw [← cx.childFields_pruned m, ← cx.childFields_pruned m', h.pruned]

theorem nameWildcard? (h : SameButIgnored cx lacking m m') :
    cx.nameWildcard? m' = cx.nameWildcard? m := by
  rw [MatchContext.nameWildcard?, MatchContext.nameWildcard?, h.kind, h.text]

theorem fileName? (h : SameButIgnored cx lacking m m') : cx.fileName? m' = cx.fileName? m := by
  rw [MatchContext.fileName?, MatchContext.fileName?, h.kind, h.text]

theorem sanitized (h : SameButIgnored cx lacking m m') : cx.sanitized m' = cx.sanitized m := by
  rw [MatchContext.sanitized, MatchContext.sanitized, h.kind, h.text]

theorem stringWildcard? {n n' : Node} (h : SameButIgnored cx lacking m m')
    (hn : SameButIgnored cx false n n') :
    cx.stringWildcard? m' n' = cx.stringWildcard? m n := by
  rw [MatchContext.stringWildcard?, MatchContext.stringWildcard?, h.kind, hn.kind, hn.text]

theorem field?_rel (h : SameButIgnored cx false m m') (name : String) :
    Option.Rel (FieldsPaired cx fun a b => cx.pruned false a = cx.pruned false b)
      (m.field? name) (m'.field? name) := by
  simpa using h.keptField?_rel name

variable (hroot : SameButIgnored cx lacking root root')

include hroot

/-- Counterparts in trees that are the same but for ignored nodes are so themselves. -/
theorem of_counterpart (h : Counterpart cx root root' m m') : SameButIgnored cx lacking m m' := by
  induction h with
  | root => exact hroot
  | @child m m' c c' name h hleft hright ih =>
      have hfield := ih.keptField?_rel name
      rw [MatchContext.keptField?_of_field? hleft rfl,
        MatchContext.keptField?_of_field? hright rfl] at hfield
      cases hfield with
      | some hfield =>
          cases hfield with
          | node hpruned =>
              exact ⟨hpruned, fun hl => (ih.left hl).of_mem_offspring
                  (Node.mem_offspring_of_field? hleft (List.mem_singleton.2 rfl)),
                fun hl => (ih.right hl).of_mem_offspring
                  (Node.mem_offspring_of_field? hright (List.mem_singleton.2 rfl))⟩
  | @element m m' c c' name as bs h hleft hright hpair ih =>
      obtain ⟨hc, hc'⟩ := List.of_mem_zip hpair
      have hmore : ∀ {nodes : List Node} {d}, d ∈ cx.comparable nodes →
          cx.holdsIgnored (.nodes nodes) = false := fun hd => by
        rw [MatchContext.holdsIgnored, List.isEmpty_eq_false_iff]
        exact List.ne_nil_of_mem hd
      have hfield := ih.keptField?_rel name
      rw [MatchContext.keptField?_of_field? hleft (hmore hc),
        MatchContext.keptField?_of_field? hright (hmore hc')] at hfield
      cases hfield with
      | some hfield =>
          cases hfield with
          | nodes hlist =>
              exact ⟨(List.forall₂_iff_zip.1 hlist).2 hpair,
                fun hl => (ih.left hl).of_mem_offspring
                  (Node.mem_offspring_of_field? hleft (List.mem_filter.1 hc).1),
                fun hl => (ih.right hl).of_mem_offspring
                  (Node.mem_offspring_of_field? hright (List.mem_filter.1 hc').1)⟩

/-- Counterparts have counterparts in their fields, as far as they are kept. -/
theorem field?_counterparts (h : Counterpart cx root root' m m') (name : String) :
    Option.Rel (FieldsPaired cx (Counterpart cx root root')) (cx.keptField? lacking m name)
      (cx.keptField? lacking m' name) := by
  have hfield := (hroot.of_counterpart h).keptField?_rel name
  cases hleft : cx.keptField? lacking m name <;> cases hright : cx.keptField? lacking m' name <;>
    simp only [hleft, hright] at hfield ⊢
  case none.none => exact .none
  case none.some => cases hfield
  case some.none => cases hfield
  case some.some left right =>
    have hl := MatchContext.keptField?_eq_some hleft
    have hr := MatchContext.keptField?_eq_some hright
    cases hfield with
    | some hfield =>
        cases hfield with
        | node _ => exact .some (.node (.child h hl hr))
        | token text => exact .some (.token text)
        | nodes hlist =>
            exact .some (.nodes (List.forall₂_iff_zip.2
              ⟨hlist.length_eq, fun hpair => .element h hl hr hpair⟩))

/-- Counterparts have counterparts as the single children of a name. -/
theorem child?_counterparts (h : Counterpart cx root root' m m') (name : String) :
    Option.Rel (Counterpart cx root root') (m.child? name) (m'.child? name) := by
  have hfield := hroot.field?_counterparts h name
  rw [cx.child?_eq lacking m, cx.child?_eq lacking m']
  generalize cx.keptField? lacking m name = left at hfield ⊢
  generalize cx.keptField? lacking m' name = right at hfield ⊢
  cases hfield with
  | none => exact .none
  | some hfield =>
      cases hfield with
      | node h => exact .some h
      | nodes _ => exact .none
      | token _ => exact .none

end SameButIgnored

end

/-! ## Edits that do not show -/

section

variable {cx : MatchContext} {lacking : Bool}

/-- Fields that are the same without ignored nodes hold nothing else alike. -/
theorem holdsIgnored_congr {f g : Field} (h : cx.prunedField lacking f = cx.prunedField lacking g) :
    cx.holdsIgnored f = cx.holdsIgnored g := by
  cases FieldsPaired.of_pruned_eq h with
  | node _ => rfl
  | token _ => rfl
  | nodes hlist =>
      rw [MatchContext.holdsIgnored, MatchContext.holdsIgnored, Bool.eq_iff_iff, List.isEmpty_iff,
        List.isEmpty_iff, ← List.length_eq_zero_iff, ← List.length_eq_zero_iff, hlist.length_eq]

/-- **Other ignored nodes in a field**, at whatever depth, leave the pruned tree as it is. -/
theorem pruned_setField {n : Node} {name : String} {old new : Field}
    (hold : n.field? name = some old)
    (h : cx.prunedField lacking new = cx.prunedField lacking old) :
    cx.pruned lacking (n.setField name new) = cx.pruned lacking n := by
  have hentries : ∀ fields : List (String × Field), fields.lookup name = some old →
      cx.prunedEntries lacking n.kind (Node.insertField name new fields) =
        cx.prunedEntries lacking n.kind fields := by
    intro fields
    induction fields with
    | nil => simp
    | cons entry rest ih =>
        obtain ⟨key, field⟩ := entry
        intro hlookup
        rw [Node.insertField]
        by_cases hkey : key = name
        · subst hkey
          obtain rfl : field = old := by simpa using hlookup
          have hlacks : cx.mayLack n.kind key new = cx.mayLack n.kind key field := by
            rw [MatchContext.mayLack, MatchContext.mayLack, holdsIgnored_congr h]
          rw [if_pos rfl, MatchContext.prunedEntries, MatchContext.prunedEntries, hlacks, h]
        · have hne : (name == key) = false := beq_false_of_ne (Ne.symm hkey)
          rw [List.lookup_cons, hne] at hlookup
          rw [if_neg hkey, MatchContext.prunedEntries, MatchContext.prunedEntries, ih hlookup]
  cases n with
  | mk kind text fields span =>
      have hpruned := hentries fields hold
      rw [Node.kind_mk] at hpruned
      rw [Node.setField, Node.withFields, Node.fields_mk, MatchContext.pruned, MatchContext.pruned,
        Node.kind_mk, Node.text_mk, hpruned]

/-- **A field of nothing but ignored nodes**, which may as well be missing, is not in the pruned
tree. -/
theorem pruned_removeField {n : Node} {name : String} {field : Field}
    (hfield : n.field? name = some field) (h : cx.mayLack n.kind name field = true) :
    cx.pruned true (n.removeField name) = cx.pruned true n := by
  have hentries : ∀ fields : List (String × Field), fields.lookup name = some field →
      cx.prunedEntries true n.kind (Node.eraseField name fields) =
        cx.prunedEntries true n.kind fields := by
    intro fields
    induction fields with
    | nil => simp
    | cons entry rest ih =>
        obtain ⟨key, other⟩ := entry
        intro hlookup
        rw [Node.eraseField]
        by_cases hkey : key = name
        · subst hkey
          obtain rfl : other = field := by simpa using hlookup
          rw [if_pos rfl, MatchContext.prunedEntries, h]
          rfl
        · have hne : (name == key) = false := beq_false_of_ne (Ne.symm hkey)
          rw [List.lookup_cons, hne] at hlookup
          rw [if_neg hkey, MatchContext.prunedEntries, MatchContext.prunedEntries, ih hlookup]
  cases n with
  | mk kind text fields span =>
      have hpruned := hentries fields hfield
      rw [Node.kind_mk] at hpruned
      rw [Node.removeField, Node.withFields, Node.fields_mk, MatchContext.pruned,
        MatchContext.pruned, Node.kind_mk, Node.text_mk, hpruned]

end

end CodeSearch

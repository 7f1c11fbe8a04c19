import CodeSearch.Node.Basic

/-!
# Walking trees

The nodes of a tree in pre-order, a tree with every text replaced, and the height of a tree.
-/

set_option autoImplicit false

namespace CodeSearch

mutual

/-- The node and all nodes below it, in pre-order. -/
def Node.walk : Node → List Node
  | node@(.mk _ _ fields _) => node :: Field.walkEntries fields

/-- The nodes of one field, in pre-order. -/
def Field.walk : Field → List Node
  | .node child => child.walk
  | .nodes children => Node.walkList children
  | .token _ => []

/-- The nodes of a list of trees, in pre-order. -/
def Node.walkList : List Node → List Node
  | [] => []
  | node :: rest => node.walk ++ Node.walkList rest

/-- The nodes of several fields, in pre-order. -/
def Field.walkEntries : List (String × Field) → List Node
  | [] => []
  | (_, field) :: rest => field.walk ++ Field.walkEntries rest

end

mutual

/-- The tree with the text of each node replaced, and the number of the next node. `f` is given
the node's place in pre-order and its text. -/
def Node.mapTextFrom (f : Nat → Option String → Option String) (i : Nat) : Node → Node × Nat
  | .mk kind text fields span =>
      let (fields, next) := Field.mapTextFromEntries f (i + 1) fields
      (.mk kind (f i text) fields span, next)

/-- The field with the text of each node replaced. -/
def Field.mapTextFrom (f : Nat → Option String → Option String) (i : Nat) :
    Field → Field × Nat
  | .node child =>
      let (child, next) := child.mapTextFrom f i
      (.node child, next)
  | .nodes children =>
      let (children, next) := Node.mapTextFromList f i children
      (.nodes children, next)
  | .token text => (.token text, i)

/-- The trees with the text of each node replaced. -/
def Node.mapTextFromList (f : Nat → Option String → Option String) (i : Nat) :
    List Node → List Node × Nat
  | [] => ([], i)
  | node :: rest =>
      let (node, next) := node.mapTextFrom f i
      let (rest, last) := Node.mapTextFromList f next rest
      (node :: rest, last)

/-- The fields with the text of each node replaced. -/
def Field.mapTextFromEntries (f : Nat → Option String → Option String) (i : Nat) :
    List (String × Field) → List (String × Field) × Nat
  | [] => ([], i)
  | (name, field) :: rest =>
      let (field, next) := field.mapTextFrom f i
      let (rest, last) := Field.mapTextFromEntries f next rest
      ((name, field) :: rest, last)

end

/-- The tree with the text of each node replaced, by its place in pre-order and its text. -/
def Node.mapText (f : Nat → Option String → Option String) (n : Node) : Node :=
  (n.mapTextFrom f 0).1

mutual

/-- The number of nodes on a longest way down. -/
def Node.height : Node → Nat
  | .mk _ _ fields _ => Field.heightEntries fields + 1

/-- The height of the tallest tree in a field. -/
def Field.height : Field → Nat
  | .node child => child.height
  | .nodes children => Node.heightList children
  | .token _ => 0

/-- The height of the tallest tree of a list. -/
def Node.heightList : List Node → Nat
  | [] => 0
  | node :: rest => max node.height (Node.heightList rest)

/-- The height of the tallest tree in several fields. -/
def Field.heightEntries : List (String × Field) → Nat
  | [] => 0
  | (_, field) :: rest => max field.height (Field.heightEntries rest)

end

theorem Node.height_pos (n : Node) : 0 < n.height := by
  cases n; simp [Node.height]

theorem Node.height_le_heightList {n : Node} {ns : List Node} (h : n ∈ ns) :
    n.height ≤ Node.heightList ns := by
  induction ns with
  | nil => simp at h
  | cons m ms ih =>
      simp only [Node.heightList]
      rcases List.mem_cons.1 h with rfl | h
      · omega
      · have := ih h
        omega

theorem Field.height_le_heightEntries {name : String} {f : Field} {fs : List (String × Field)}
    (h : fs.lookup name = some f) : f.height ≤ Field.heightEntries fs := by
  induction fs with
  | nil => simp at h
  | cons entry rest ih =>
      obtain ⟨key, g⟩ := entry
      simp only [List.lookup_cons, Field.heightEntries] at h ⊢
      split at h
      · next =>
        obtain rfl : g = f := Option.some.inj h
        omega
      · have := ih h
        omega

/-- What a field of a node holds is lower than the node. -/
theorem Node.height_field?_lt {n : Node} {name : String} {f : Field}
    (h : n.field? name = some f) : f.height < n.height := by
  cases n
  have := Field.height_le_heightEntries h
  simp only [Node.height, Node.fields_mk] at *
  omega

/-- What a path leads to is lower than the node it starts from. -/
theorem Node.height_resolve_lt {n : Node} {path : FieldPath} {f : Field}
    (h : n.resolve path = some f) : f.height < n.height := by
  induction path generalizing n with
  | nil => simp [Node.resolve] at h
  | cons name rest ih =>
      cases rest with
      | nil => exact Node.height_field?_lt h
      | cons next rest =>
          simp only [Node.resolve, Option.bind_eq_some_iff] at h
          obtain ⟨child, hchild, hrest⟩ := h
          simp only [Node.child?, Option.bind_eq_some_iff] at hchild
          obtain ⟨field, hfield, hnode⟩ := hchild
          cases field with
          | node c =>
              obtain rfl : c = child := by simpa [Field.node?] using hnode
              have h1 := Node.height_field?_lt hfield
              have h2 := ih hrest
              simp only [Field.height] at h1
              omega
          | nodes _ => simp [Field.node?] at hnode
          | token _ => simp [Field.node?] at hnode

end CodeSearch

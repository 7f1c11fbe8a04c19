import CodeSearch.Span

/-!
# Syntax trees

The tree that files and queries are compared as, whatever language they are written in. A
**node** has a kind, a text if it is a leaf, an ordered list of named fields and a span. A
**field** holds one child, a list of children, or an anonymous token such as an operator. The
children without a name of their own are the list field `children`.

A node is compared key by key: its keys are the names of its fields, and `#text` if it has a
text.
-/

set_option autoImplicit false

namespace CodeSearch

mutual

/-- A node of a syntax tree. -/
inductive Node where
  | mk (kind : String) (text : Option String) (fields : List (String × Field)) (span : Span)

/-- What a node holds under a name. -/
inductive Field where
  /-- A single child. -/
  | node (child : Node)
  /-- A list of children. -/
  | nodes (children : List Node)
  /-- An anonymous token. -/
  | token (text : String)

end

/-- The name under which a node keeps its unnamed children. -/
def childrenField : String := "children"

/-- The key under which the texts of two nodes are compared. -/
def textKey : String := "#text"

/-- Field names that lead from a node to a field below it, outermost first. -/
abbrev FieldPath := List String

namespace Field

/-- The child of a field with exactly one. -/
def node? : Field → Option Node
  | node child => some child
  | _ => none

/-- The children of a list field. -/
def nodes? : Field → Option (List Node)
  | nodes children => some children
  | _ => none

/-- Whether the field holds children rather than a token. -/
def holdsNodes : Field → Bool
  | token _ => false
  | _ => true

end Field

namespace Node

/-- What the node is, in the words of its grammar. -/
def kind : Node → String
  | mk kind _ _ _ => kind

/-- The text of a leaf. -/
def text : Node → Option String
  | mk _ text _ _ => text

/-- The fields in the order they were added. -/
def fields : Node → List (String × Field)
  | mk _ _ fields _ => fields

/-- Where the node stands in its source. -/
def span : Node → Span
  | mk _ _ _ span => span

@[simp] theorem kind_mk (k : String) (t : Option String) (fs : List (String × Field)) (s : Span) :
    (mk k t fs s).kind = k := rfl

@[simp] theorem text_mk (k : String) (t : Option String) (fs : List (String × Field)) (s : Span) :
    (mk k t fs s).text = t := rfl

@[simp] theorem fields_mk (k : String) (t : Option String) (fs : List (String × Field))
    (s : Span) : (mk k t fs s).fields = fs := rfl

@[simp] theorem span_mk (k : String) (t : Option String) (fs : List (String × Field)) (s : Span) :
    (mk k t fs s).span = s := rfl

theorem eta (n : Node) : mk n.kind n.text n.fields n.span = n := by cases n; rfl

/-- A node without text and fields. -/
def branch (kind : String) (span : Span) : Node := mk kind none [] span

/-- A node with a text and no fields. -/
def leaf (kind text : String) (span : Span) : Node := mk kind (some text) [] span

instance : Inhabited Node := ⟨branch "" Span.zero⟩

/-- The node with another text. -/
def withText (n : Node) (text : Option String) : Node := mk n.kind text n.fields n.span

/-- The node with another span. -/
def withSpan (n : Node) (span : Span) : Node := mk n.kind n.text n.fields span

/-- The node with other fields. -/
def withFields (n : Node) (fields : List (String × Field)) : Node :=
  mk n.kind n.text fields n.span

/-- The field of a name. -/
def field? (n : Node) (name : String) : Option Field := n.fields.lookup name

/-- Puts a field under its name: in the place of the one it replaces, or last. -/
def insertField (name : String) (value : Field) : List (String × Field) → List (String × Field)
  | [] => [(name, value)]
  | (key, old) :: rest =>
      if key = name then (key, value) :: rest else (key, old) :: insertField name value rest

/-- Removes the field of a name. -/
def eraseField (name : String) : List (String × Field) → List (String × Field)
  | [] => []
  | (key, old) :: rest => if key = name then rest else (key, old) :: eraseField name rest

/-- The node with a field set, in the place of a former one of that name or else last. -/
def setField (n : Node) (name : String) (value : Field) : Node :=
  n.withFields (insertField name value n.fields)

/-- The node without the field of a name. -/
def removeField (n : Node) (name : String) : Node := n.withFields (eraseField name n.fields)

/-- The single child of a name. -/
def child? (n : Node) (name : String) : Option Node := (n.field? name).bind Field.node?

/-- The unnamed children. -/
def children (n : Node) : List Node := ((n.field? childrenField).bind Field.nodes?).getD []

/-- The node with its unnamed children replaced. -/
def withChildren (n : Node) (children : List Node) : Node :=
  n.setField childrenField (.nodes children)

/-- The field that a path leads to. All names of the path but the last lead to single
children; the empty path leads nowhere. -/
def resolve (n : Node) : FieldPath → Option Field
  | [] => none
  | [name] => n.field? name
  | name :: next :: rest => (n.child? name).bind (·.resolve (next :: rest))

/-- The names under which the node is compared. -/
def keys (n : Node) : List String :=
  n.fields.map Prod.fst ++ if n.text.isSome then [textKey] else []

/-- Whether a name is among the keys. -/
def hasKey (n : Node) (key : String) : Bool :=
  if key = textKey then n.text.isSome else (n.field? key).isSome

/-- The names of the fields that hold children. -/
def childFields (n : Node) : List String :=
  (n.fields.filter (·.2.holdsNodes)).map Prod.fst

theorem lookup_insertField_self (name : String) (value : Field) (fields : List (String × Field)) :
    (insertField name value fields).lookup name = some value := by
  induction fields with
  | nil => simp [insertField]
  | cons entry rest ih =>
      obtain ⟨key, old⟩ := entry
      by_cases h : key = name
      · simp [insertField, h]
      · have h' : (name == key) = false := by simpa using fun e => h e.symm
        simp [insertField, h, List.lookup_cons, h', ih]

theorem lookup_insertField_of_ne {name other : String} (value : Field)
    (fields : List (String × Field)) (hne : other ≠ name) :
    (insertField name value fields).lookup other = fields.lookup other := by
  induction fields with
  | nil =>
      have h' : (other == name) = false := by simpa using hne
      simp [insertField, List.lookup_cons, h']
  | cons entry rest ih =>
      obtain ⟨key, old⟩ := entry
      by_cases h : key = name
      · subst h
        have h' : (other == key) = false := by simpa using hne
        simp [insertField, List.lookup_cons, h']
      · simp [insertField, h, List.lookup_cons, ih]

/-- A field that was set is found. -/
@[simp] theorem field?_setField_self (n : Node) (name : String) (value : Field) :
    (n.setField name value).field? name = some value :=
  lookup_insertField_self name value n.fields

/-- Setting a field leaves the others alone. -/
theorem field?_setField_of_ne (n : Node) {name other : String} (value : Field)
    (h : other ≠ name) : (n.setField name value).field? other = n.field? other :=
  lookup_insertField_of_ne value n.fields h

end Node

end CodeSearch

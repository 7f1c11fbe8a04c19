import CodeSearch.Json.Reader
import CodeSearch.Node.Basic

/-!
# Node types

What a parser says of the nodes it makes: for every kind of named node, the fields it can
have and whether it can have other children, and of each whether it holds several nodes and
whether it is always there. A document lists the kinds in JSON.
-/

set_option autoImplicit false

namespace CodeSearch

/-- How many nodes a field holds. -/
structure Arity where
  /-- The field may hold several nodes. -/
  multiple : Bool
  /-- The field is always there. -/
  required : Bool
  deriving DecidableEq, Repr

/-- The fields and other children of a kind of nodes. -/
structure KindShape where
  fields : List (String × Arity) := []
  children : Option Arity := none
  deriving DecidableEq, Repr

/-- The shapes of the kinds of named nodes. -/
abbrev NodeTypes := List (String × KindShape)

namespace KindShape

/-- Whether nodes of the kind have no children of any sort. -/
def isTerminal (s : KindShape) : Bool := s.fields.isEmpty && s.children.isNone

/-- The arity of a field. -/
def field? (s : KindShape) (name : String) : Option Arity := s.fields.lookup name

end KindShape

namespace NodeTypes

/-- The shape of a kind, if it is declared. -/
def shape? (types : NodeTypes) (kind : String) : Option KindShape := types.lookup kind

/-- Whether a field may hold several nodes. Undeclared fields hold one. -/
def isMultiple (types : NodeTypes) (kind field : String) : Bool :=
  ((types.shape? kind).bind (·.field? field)).any (·.multiple)

/-- Whether a field may be lacking. The children without a field go by a name of their own.
Undeclared fields may be lacking. -/
def isOptional (types : NodeTypes) (kind field : String)
    (childrenName : String := childrenField) : Bool :=
  match types.shape? kind with
  | none => true
  | some shape =>
      match if field = childrenName then shape.children else shape.field? field with
      | none => true
      | some arity => !arity.required

end NodeTypes

/-! ## The document -/

/-- The entry of a name, which there must not be two of. -/
def soleEntry? (entries : List (String × Json)) (name : String) : Option (Option Json) :=
  match entries.filter (·.1 == name) with
  | [] => some none
  | [(_, value)] => some (some value)
  | _ => none

/-- Reads an arity. -/
def Arity.ofJson? : Json → Option Arity
  | .array [multiple, required] => do some ⟨← multiple.bool?, ← required.bool?⟩
  | .object entries => do
      let multiple ← (← soleEntry? entries "multiple").bind Json.bool?
      let required ← (← soleEntry? entries "required").bind Json.bool?
      some ⟨multiple, required⟩
  | _ => none

/-- Reads an arity, or null for none. -/
def Arity.optionOfJson? : Json → Option (Option Arity)
  | .null => some none
  | value => (Arity.ofJson? value).map some

/-- Reads arities by name. Of entries with one name the last counts. -/
def Arity.fieldsOfJson? (value : Json) : Option (List (String × Arity)) := do
  let entries ← value.object?
  let fields ← entries.mapM fun (name, value) => (Arity.ofJson? value).map (name, ·)
  some fields.reverse

/-- Reads the declaration of a kind: its name, whether its nodes are named, and its shape. -/
def KindShape.ofJson? : Json → Option (String × Bool × KindShape)
  | .array [kind, named, fields, children] => do
      some (← kind.string?, ← named.bool?,
        ⟨← Arity.fieldsOfJson? fields, ← Arity.optionOfJson? children⟩)
  | .object entries => do
      let kind ← (← soleEntry? entries "type").bind Json.string?
      let named ← (← soleEntry? entries "named").bind Json.bool?
      let fields ← match ← soleEntry? entries "fields" with
        | some value => Arity.fieldsOfJson? value
        | none => some []
      let children ← match ← soleEntry? entries "children" with
        | some value => Arity.optionOfJson? value
        | none => some none
      some (kind, named, ⟨fields, children⟩)
  | _ => none

/-- Reads a document of node types. Of declarations of one kind the last counts. -/
def NodeTypes.parse? (text : String) : Option NodeTypes := do
  let value ← Json.parse? text
  let items ← value.array?
  let kinds ← items.mapM KindShape.ofJson?
  some (((kinds.filter (·.2.1)).map fun (kind, _, shape) => (kind, shape)).reverse)

end CodeSearch

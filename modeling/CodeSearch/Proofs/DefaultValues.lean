import CodeSearch.Proofs.Soundness

/-!
# Names with default values

Where further code is ignored, a name of the query stands for a name with a default value as well.
The comparison goes down to the name, while matching goes on from the node around it, along paths
that lead through the field of the name. This file shows that the detour makes no difference.

`validate_defaultValue`: a name of the query matches a name with a default value just as it matches
the name in it, at every depth of such nodes, with the same verdict and the same bindings. It does
not match one whose field holds no node.
-/

set_option autoImplicit false

namespace CodeSearch

/-- A name with a default value **holds** the node in the field of its name. -/
def NodeKinds.Holds (kinds : NodeKinds) (outer inner : Node) : Prop :=
  ∃ field, kinds.defaultValueField? outer.kind = some field ∧ outer.child? field = some inner

section

variable {cx : MatchContext} {outer inner query : Node} {field : String}

/-- A path through the field of a child leads to where the rest of it leads from the child. -/
theorem Node.resolve_through (hinner : outer.child? field = some inner) {path : FieldPath}
    (hpath : path ≠ []) : outer.resolve (field :: path) = inner.resolve path := by
  cases path with
  | nil => exact absurd rfl hpath
  | cons name rest => rw [Node.resolve, hinner, Option.bind_some]

/-- Fields left to agree match along paths through the field of a child as they do from the
child. -/
theorem validateKeys_through (hinner : outer.child? field = some inner) (v : Validator)
    {found : Comparison} (hpaths : ∀ path ∈ found.fileKeys, path ≠ []) (descend : List String)
    (b : Bindings) :
    validateKeys cx v outer query
        { found with fileKeys := found.fileKeys.map (field :: ·), descend } b =
      validateKeys cx v inner query found b := by
  have hsteps : ((found.fileKeys.map (field :: ·)).zip found.queryKeys).map
        (fun pair => validatePath cx v outer query pair.1 pair.2) =
      (found.fileKeys.zip found.queryKeys).map
        fun pair => validatePath cx v inner query pair.1 pair.2 := by
    rw [List.zip_map_left, List.map_map]
    apply List.map_congr_left
    intro pair hpair
    have hpath := hpaths pair.1 (List.of_mem_zip hpair).1
    funext c
    show validatePath cx v outer query (field :: pair.1) pair.2 c = _
    rw [validatePath, validatePath, Node.resolve_through hinner hpath]
  rw [validateKeys_eq, validateKeys_eq]
  dsimp only
  rw [hsteps, List.length_map]

/-- **One step into a name with a default value**: going on from the comparison with the node around
the name comes to the same as going on from the comparison with what the field of the name holds,
and fails if this is no node. -/
theorem validateFound_defaultValue (hbefore : cx.grammar.rulesBefore = [])
    (hafter : cx.grammar.rulesAfter = []) (hfield : valueField? cx outer.kind query = some field)
    (v : Validator) (b : Bindings) :
    validateFound cx v outer query (compare cx outer query b) =
      match outer.child? field with
      | some inner => validateFound cx v inner query (compare cx inner query b)
      | none => .reject b := by
  rw [compare_eq, hbefore]
  simp only [Rule.first?, hfield]
  cases hchild : outer.child? field with
  | none => rfl
  | some inner =>
      simp only [compareOptional]
      rw [validateFound, validateFound]
      dsimp only
      cases hagrees : (compare cx inner query b).1.agrees with
      | false => rfl
      | true =>
          have hpaths := agree_fileKeys_ne_nil hbefore hafter (compare_agrees hagrees)
          rw [if_pos rfl, if_pos rfl]
          exact validateKeys_through hchild v hpaths outer.childFields _

theorem valueField?_of_isIdentifier (hmode : cx.config.mode.allowsExtra = true)
    (hquery : cx.kinds.isIdentifier query.kind = true) (kind : String) :
    valueField? cx kind query = cx.kinds.defaultValueField? kind := by
  rw [valueField?, hmode, hquery]
  rfl

/-- A name of the query matches a name with a default value as it matches the node that it
holds. -/
theorem validate_of_holds (hbefore : cx.grammar.rulesBefore = [])
    (hafter : cx.grammar.rulesAfter = []) (hmode : cx.config.mode.allowsExtra = true)
    (hquery : cx.kinds.isIdentifier query.kind = true) (h : cx.kinds.Holds outer inner)
    (b : Bindings) : validate cx outer query b = validate cx inner query b := by
  obtain ⟨field, hfield, hinner⟩ := h
  have hvalue := (valueField?_of_isIdentifier hmode hquery outer.kind).trans hfield
  calc validate cx outer query b
      = validateFound cx (validate cx) outer query (compare cx outer query b) :=
        validate_eq cx outer query b
    _ = validateFound cx (validate cx) inner query (compare cx inner query b) := by
        rw [validateFound_defaultValue hbefore hafter hvalue, hinner]
    _ = validate cx inner query b := (validate_eq cx inner query b).symm

end

/-- **Default values make no difference to names**: in a grammar without rules, where further code
is ignored, a name of the query matches a name with a default value just as it matches the node in
the field of the name, or any node that is reached by going on so through names with default values
held in one another: the verdict and all bindings are the same. If the field holds no node, the
match fails and binds nothing. -/
theorem validate_defaultValue {cx : MatchContext} (hbefore : cx.grammar.rulesBefore = [])
    (hafter : cx.grammar.rulesAfter = []) (hmode : cx.config.mode.allowsExtra = true)
    {outer query : Node} (hquery : cx.kinds.isIdentifier query.kind = true) {field : String}
    (hfield : cx.kinds.defaultValueField? outer.kind = some field) (b : Bindings) :
    (∀ inner, outer.child? field = some inner →
      ∀ name, Relation.ReflTransGen cx.kinds.Holds inner name →
        validate cx outer query b = validate cx name query b) ∧
      (outer.child? field = none → validate cx outer query b = .reject b) := by
  constructor
  · intro inner hinner name hname
    rw [validate_of_holds hbefore hafter hmode hquery ⟨field, hfield, hinner⟩]
    induction hname with
    | refl => rfl
    | tail _ hholds ih => exact ih.trans (validate_of_holds hbefore hafter hmode hquery hholds b)
  · intro hnone
    have hvalue := (valueField?_of_isIdentifier hmode hquery outer.kind).trans hfield
    rw [validate_eq, validateFound_defaultValue hbefore hafter hvalue, hnone]

/-- A language of names, possibly with default values. -/
def defaultGrammar : Grammar where
  name := "defaults"
  kinds := { identifiers := ["name"], defaultValues := [("default", "left")] }
  parse _ := .error ⟨"no parser", none⟩

/-- A node with a default value. -/
def withDefault (left : Node) : Node :=
  (Node.branch "default" .zero).setField "left" (.node left)

/-- A name at the start of the source. -/
def nameAtStart : Node := .leaf "name" "x" ⟨0, 1, ⟨0, 0⟩, ⟨0, 1⟩⟩

/-- A wildcard for a subtree stands for the name alone, with its source, when the name has two
default values, one around the other, and does not match a default value without a name. -/
theorem validate_defaultValue_nested :
    Relation.ReflTransGen defaultGrammar.kinds.Holds (withDefault nameAtStart) nameAtStart ∧
      validate ⟨defaultGrammar, {}, "x = 1 = 2"⟩ (withDefault (withDefault nameAtStart))
          (.leaf "name" "$$$_a" .zero) .empty =
        validate ⟨defaultGrammar, {}, "x = 1 = 2"⟩ nameAtStart (.leaf "name" "$$$_a" .zero) .empty ∧
      (validate ⟨defaultGrammar, {}, "x = 1 = 2"⟩ (withDefault (withDefault nameAtStart))
        (.leaf "name" "$$$_a" .zero) .empty).bindings.nodeTree.map
          (fun entry => (entry.1, entry.2.value)) = [("a", "x")] ∧
      (validate ⟨defaultGrammar, {}, "= 1"⟩ (.branch "default" .zero) (.leaf "name" "$$$_a" .zero)
        .empty).agrees = false := by
  have hchain : Relation.ReflTransGen defaultGrammar.kinds.Holds (withDefault nameAtStart)
      nameAtStart := .single ⟨"left", rfl, rfl⟩
  refine ⟨hchain, ?_, ?_, ?_⟩
  · exact (validate_defaultValue rfl rfl rfl rfl rfl .empty).1 _ rfl _ hchain
  · decide +kernel
  · rw [(validate_defaultValue rfl rfl rfl rfl rfl .empty).2 rfl]
    rfl

end CodeSearch

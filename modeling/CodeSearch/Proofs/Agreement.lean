import CodeSearch.Matching.Comparison
import CodeSearch.Proofs.Growth
import CodeSearch.Proofs.Trees

/-!
# How two nodes can agree

A comparison is a cascade of steps, the first that applies decides. This file says once and for
all what each step has checked when two nodes **agree**, which fields it leaves to agree in turn,
and with which bindings it ends. All that is proved of matches further on starts from these cases
and never looks into the comparison again.
-/

set_option autoImplicit false

namespace CodeSearch

namespace MatchContext

/-- The name with a wildcard that a node of a query is. -/
def nameWildcard? (cx : MatchContext) (query : Node) : Option String :=
  if cx.kinds.isIdentifier query.kind then query.text.filter cx.markers.hasWildcard else none

theorem nameWildcard?_eq_some {cx : MatchContext} {query : Node} {name : String}
    (h : cx.nameWildcard? query = some name) :
    cx.kinds.isIdentifier query.kind = true ∧ query.text = some name ∧
      cx.markers.hasWildcard name = true := by
  unfold nameWildcard? at h
  split at h
  next hkind =>
    obtain ⟨htext, hwildcard⟩ := Option.filter_eq_some_iff.1 h
    exact ⟨hkind, htext, hwildcard⟩
  next => simp at h

/-- The text with a wildcard in it that a string of a query holds, against a string of the same
kind. -/
def stringWildcard? (cx : MatchContext) (file query : Node) : Option String :=
  if cx.kinds.isString query.kind && query.kind == file.kind then
    (query.text.map (cx.grammar.sanitize query.kind)).filter cx.markers.hasWildcard
  else none

/-- The text of a node as it is compared. -/
def sanitized (cx : MatchContext) (n : Node) : Option String :=
  n.text.map (cx.grammar.sanitize n.kind)

/-- Whether a node of a query is the number that stands for any number. -/
def isAnyNumber (cx : MatchContext) (query : Node) : Bool :=
  cx.kinds.isNumber query.kind && (query.text.map cx.markers.isNumeric).getD false

/-- Whether a node of a query is a block that stands for a whole file. -/
def isWholeFile (cx : MatchContext) (file query : Node) : Bool :=
  query.kind == cx.kinds.block && cx.kinds.isProgram file.kind

/-- The alias of a wildcard that stands for a subtree. -/
def treeAlias? (cx : MatchContext) (name : String) : Option String :=
  (cx.markers.classify name .identifier).findSome? Wildcard.aliasName

/-- Whether two names have a type or not alike, where that counts. -/
def sameTyping (cx : MatchContext) (file query : Node) : Bool :=
  match cx.config.mode, cx.kinds.typeField with
  | .exact, some field => (query.field? field).isSome == (file.field? field).isSome
  | _, _ => true

/-- The name that a node of a file is. -/
def fileName? (cx : MatchContext) (file : Node) : Option String :=
  if cx.kinds.isIdentifier file.kind then file.text else none

/-- Matches a wildcard for subtrees with a node. -/
def matchTree? (cx : MatchContext) (text : String) (node : Node) (b : Bindings) :
    Option Bindings :=
  match cx.treeAlias? text with
  | none => some b
  | some aliasName => b.matchNode? aliasName (cx.code node) node

end MatchContext

theorem compareWildcard?_eq (cx : MatchContext) (file query : Node) (b : Bindings) :
    compareWildcard? cx file query b =
      match cx.nameWildcard? query, cx.stringWildcard? file query with
      | some name, _ => some (compareIdentifier cx file query name b)
      | none, some pattern =>
          match cx.matchText? pattern ((cx.sanitized file).getD "") .string b with
          | some b => some (.closed file true, b)
          | none => some (.closed file false, b)
      | none, none =>
          if cx.isAnyNumber query then some (.closed file (cx.kinds.isNumber file.kind), b)
          else if cx.isWholeFile file query then
            some (.sameFields file true [childrenField], b)
          else none := rfl

/-! ## The steps for wildcards -/

section

variable {cx : MatchContext}

theorem comparePlain_of_name {file query : Node} {name : String}
    (hname : cx.nameWildcard? query = some name) (b : Bindings) :
    comparePlain cx file query b = compareIdentifier cx file query name b := by
  rw [comparePlain, compareWildcard?_eq, hname]

/-- A wildcard for subtrees agrees if the subtree does with its alias, if it has one. -/
theorem compareIdentifier_tree {name : String} (htree : cx.markers.isNodeTree name = true)
    (file query : Node) (b : Bindings) :
    compareIdentifier cx file query name b =
      (.closed file (cx.matchTree? name file b).isSome, (cx.matchTree? name file b).getD b) := by
  rw [compareIdentifier, if_pos htree, MatchContext.matchTree?, MatchContext.treeAlias?]
  cases (cx.markers.classify name .identifier).findSome? Wildcard.aliasName with
  | none => rfl
  | some aliasName =>
      dsimp only
      cases b.matchNode? aliasName (cx.code file) file <;> rfl

/-- A name with wildcards agrees with a name that it matches, if both have a type or neither. -/
theorem compareIdentifier_name {name : String} (htree : cx.markers.isNodeTree name = false)
    (file query : Node) (b : Bindings) :
    compareIdentifier cx file query name b =
      (.sameFields file (((cx.fileName? file).bind fun value =>
          cx.matchText? name value .identifier b).isSome && cx.sameTyping file query)
          query.childFields,
        ((cx.fileName? file).bind fun value => cx.matchText? name value .identifier b).getD b) := by
  rw [compareIdentifier, if_neg (by simp [htree]), MatchContext.fileName?]
  cases hkind : cx.kinds.isIdentifier file.kind <;> rfl

/-- A string with wildcards agrees with a string that it matches. -/
theorem comparePlain_of_string {file query : Node} {pattern : String}
    (hname : cx.nameWildcard? query = none)
    (hstring : cx.stringWildcard? file query = some pattern) (b : Bindings) :
    comparePlain cx file query b =
      (.closed file (cx.matchText? pattern ((cx.sanitized file).getD "") .string b).isSome,
        (cx.matchText? pattern ((cx.sanitized file).getD "") .string b).getD b) := by
  rw [comparePlain, compareWildcard?_eq, hname, hstring]
  cases hmatch : cx.matchText? pattern ((cx.sanitized file).getD "") .string b <;> simp [hmatch]

/-- Without rules of the grammar, the steps after the one for default values bind nothing for a node
without wildcards, and what they find does not depend on the bindings. -/
theorem comparePlain_of_noWildcard (hafter : cx.grammar.rulesAfter = []) {file query : Node}
    (hname : cx.nameWildcard? query = none) (hstring : cx.stringWildcard? file query = none)
    (b : Bindings) :
    comparePlain cx file query b =
      (if cx.isAnyNumber query then .closed file (cx.kinds.isNumber file.kind)
        else if cx.isWholeFile file query then .sameFields file true [childrenField]
        else compareFields cx file query, b) := by
  rw [comparePlain, compareWildcard?_eq, hname, hstring]
  cases cx.isAnyNumber query <;> cases cx.isWholeFile file query <;> simp [hafter, Rule.first?]

end

/-! ## The steps after the one for default values -/

/-- **The ways to agree** of a file node and a query node, default values and the rules before
them apart: what is checked, the fields left to agree, and the bindings at the end. -/
inductive AgreePlainly (cx : MatchContext) (file query : Node) (b : Bindings) :
    Comparison → Bindings → Prop
  /-- A wildcard without an alias stands for any subtree. -/
  | anyTree {name : String} (hname : cx.nameWildcard? query = some name)
      (htree : cx.markers.isNodeTree name = true) (halias : cx.treeAlias? name = none) :
      AgreePlainly cx file query b (.closed file true) b
  /-- A wildcard with an alias stands for the subtree that its alias stands for. -/
  | tree {name aliasName : String} {c : Bindings} (hname : cx.nameWildcard? query = some name)
      (htree : cx.markers.isNodeTree name = true)
      (halias : cx.treeAlias? name = some aliasName)
      (hmatch : b.matchNode? aliasName (cx.code file) file = some c) :
      AgreePlainly cx file query b (.closed file true) c
  /-- A name with wildcards matches a name. -/
  | name {name value : String} {c : Bindings} (hname : cx.nameWildcard? query = some name)
      (htree : cx.markers.isNodeTree name = false)
      (hkind : cx.kinds.isIdentifier file.kind = true) (hvalue : file.text = some value)
      (hmatch : cx.matchText? name value .identifier b = some c)
      (htyping : cx.sameTyping file query = true) :
      AgreePlainly cx file query b (.sameFields file true query.childFields) c
  /-- A string with wildcards matches a string of the same kind. -/
  | string {pattern : String} {c : Bindings} (hname : cx.nameWildcard? query = none)
      (hstring : cx.stringWildcard? file query = some pattern)
      (hmatch : cx.matchText? pattern ((cx.sanitized file).getD "") .string b = some c) :
      AgreePlainly cx file query b (.closed file true) c
  /-- The number that stands for any number. -/
  | number (hname : cx.nameWildcard? query = none)
      (hstring : cx.stringWildcard? file query = none) (hany : cx.isAnyNumber query = true)
      (hkind : cx.kinds.isNumber file.kind = true) :
      AgreePlainly cx file query b (.closed file true) b
  /-- A block stands for a whole file. -/
  | block (hname : cx.nameWildcard? query = none)
      (hstring : cx.stringWildcard? file query = none) (hany : cx.isAnyNumber query = false)
      (hfile : cx.isWholeFile file query = true) :
      AgreePlainly cx file query b (.sameFields file true [childrenField]) b
  /-- A rule after wildcards. -/
  | rule {verdict : Verdict} {c : Bindings} (hname : cx.nameWildcard? query = none)
      (hstring : cx.stringWildcard? file query = none) (hany : cx.isAnyNumber query = false)
      (hrule : Rule.first? cx.config file query cx.grammar.rulesAfter b = (some verdict, c))
      (hagrees : verdict.agrees = true) (hfile : cx.isWholeFile file query = false) :
      AgreePlainly cx file query b (.ofVerdict file verdict) c
  /-- The comparison key by key. -/
  | fields {c : Bindings} (hname : cx.nameWildcard? query = none)
      (hstring : cx.stringWildcard? file query = none) (hany : cx.isAnyNumber query = false)
      (hrule : Rule.first? cx.config file query cx.grammar.rulesAfter b = (none, c))
      (hagrees : (compareFields cx file query).agrees = true)
      (hfile : cx.isWholeFile file query = false) :
      AgreePlainly cx file query b (compareFields cx file query) c

theorem compareIdentifier_agrees {cx : MatchContext} {file query : Node} {name : String}
    {b : Bindings} (hname : cx.nameWildcard? query = some name)
    (h : (compareIdentifier cx file query name b).1.agrees = true) :
    AgreePlainly cx file query b (compareIdentifier cx file query name b).1
      (compareIdentifier cx file query name b).2 := by
  cases htree : cx.markers.isNodeTree name with
  | true =>
      rw [compareIdentifier_tree htree] at h ⊢
      obtain ⟨c, hc⟩ := Option.isSome_iff_exists.1 h
      rw [hc]
      rw [MatchContext.matchTree?] at hc
      cases halias : cx.treeAlias? name with
      | none =>
          rw [halias] at hc
          obtain rfl := Option.some.inj hc
          exact AgreePlainly.anyTree hname htree halias
      | some aliasName =>
          rw [halias] at hc
          exact AgreePlainly.tree hname htree halias hc
  | false =>
      rw [compareIdentifier_name htree] at h ⊢
      simp only [Comparison.sameFields, Bool.and_eq_true] at h
      obtain ⟨hsome, htyping⟩ := h
      obtain ⟨c, hc⟩ := Option.isSome_iff_exists.1 hsome
      simp only [hc, Option.isSome_some, htyping, Bool.and_self, Option.getD_some]
      obtain ⟨value, hvalue, hmatch⟩ := Option.bind_eq_some_iff.1 hc
      rw [MatchContext.fileName?, Option.ite_none_right_eq_some] at hvalue
      exact AgreePlainly.name hname htree hvalue.1 hvalue.2 hmatch htyping

/-- Nodes that agree by the steps after the one for default values agree in one of the ways. -/
theorem comparePlain_agrees {cx : MatchContext} {file query : Node} {b : Bindings}
    (h : (comparePlain cx file query b).1.agrees = true) :
    AgreePlainly cx file query b (comparePlain cx file query b).1
      (comparePlain cx file query b).2 := by
  unfold comparePlain at h ⊢
  rw [compareWildcard?_eq] at h ⊢
  cases hname : cx.nameWildcard? query with
  | some name =>
      simp only [hname] at h ⊢
      exact compareIdentifier_agrees hname h
  | none =>
      cases hstring : cx.stringWildcard? file query with
      | some pattern =>
          simp only [hname, hstring] at h ⊢
          cases hmatch : cx.matchText? pattern ((cx.sanitized file).getD "") .string b with
          | none => simp [hmatch, Comparison.closed] at h
          | some c => exact AgreePlainly.string hname hstring hmatch
      | none =>
          simp only [hname, hstring] at h ⊢
          cases hany : cx.isAnyNumber query with
          | true =>
              simp only [hany, if_true] at h ⊢
              have hkind : cx.kinds.isNumber file.kind = true := h
              rw [hkind]
              exact AgreePlainly.number hname hstring hany hkind
          | false =>
              cases hfile : cx.isWholeFile file query with
              | true => exact AgreePlainly.block hname hstring hany hfile
              | false =>
                  simp only [hany, hfile, Bool.false_eq_true, if_false] at h ⊢
                  cases hrule : Rule.first? cx.config file query cx.grammar.rulesAfter b with
                  | mk verdict? c =>
                      cases verdict? with
                      | some verdict =>
                          simp only [hrule] at h ⊢
                          exact AgreePlainly.rule hname hstring hany hrule h hfile
                      | none =>
                          simp only [hrule] at h ⊢
                          exact AgreePlainly.fields hname hstring hany hrule h hfile

/-- Each of the ways is that of a comparison: two nodes agree in one way only. -/
theorem AgreePlainly.comparePlain_eq {cx : MatchContext} {file query : Node} {b c : Bindings}
    {found : Comparison} (h : AgreePlainly cx file query b found c) :
    comparePlain cx file query b = (found, c) := by
  unfold comparePlain
  rw [compareWildcard?_eq]
  cases h with
  | anyTree hname htree halias =>
      simp only [hname, compareIdentifier, htree, if_true]
      rw [MatchContext.treeAlias?] at halias
      rw [halias]
  | tree hname htree halias hmatch =>
      simp only [hname, compareIdentifier, htree, if_true]
      rw [MatchContext.treeAlias?] at halias
      rw [halias]
      simp only [hmatch]
  | @name _ _ c hname htree hkind hvalue hmatch htyping =>
      simp only [hname, compareIdentifier, htree, Bool.false_eq_true, if_false, hkind, if_true,
        hvalue, Option.bind_some, hmatch, Option.isSome_some, Bool.true_and, Option.getD_some]
      exact congrArg
        (fun agrees => (Comparison.sameFields file agrees query.childFields, c)) htyping
  | string hname hstring hmatch => simp only [hname, hstring, hmatch]
  | number hname hstring hany hkind => simp only [hname, hstring, hany, if_true, hkind]
  | block hname hstring hany hfile =>
      simp only [hname, hstring, hany, hfile, Bool.false_eq_true, if_false, if_true]
  | rule hname hstring hany hrule hagrees hfile =>
      simp only [hname, hstring, hany, hfile, Bool.false_eq_true, if_false, hrule]
  | fields hname hstring hany hrule hagrees hfile =>
      simp only [hname, hstring, hany, hfile, Bool.false_eq_true, if_false, hrule]

/-! ## Key by key -/

/-- What two nodes have in common that agree key by key: equivalent kinds, equally many keys that
count, all keys of the query among them, and the same texts and tokens under them. -/
structure AgreeByKeys (cx : MatchContext) (file query : Node) : Prop where
  kind : cx.kinds.sameKind query.kind file.kind = true
  length : query.keys.length = (countedKeys cx file query).length
  keys : ∀ key ∈ query.keys, key ∈ countedKeys cx file query
  text : textKey ∈ query.keys →
    Text.sameText cx.config.ignoreCase (cx.grammar.sanitize query.kind (query.text.getD ""))
      (cx.grammar.sanitize file.kind (file.text.getD "")) = true
  fields : ∀ key ∈ query.keys, key ≠ textKey → ∃ left right,
    query.field? key = some left ∧ file.field? key = some right ∧
      ∀ l r, left = .token l → right = .token r →
        Text.sameText cx.config.ignoreCase l r = true

theorem compareKey_text {cx : MatchContext} {file query : Node} {fileKeys : List String}
    (h : textKey ∈ fileKeys) :
    compareKey cx file query fileKeys textKey =
      .compared (Text.sameText cx.config.ignoreCase
        (cx.grammar.sanitize query.kind (query.text.getD ""))
        (cx.grammar.sanitize file.kind (file.text.getD ""))) := by
  have hcontains : fileKeys.contains textKey = true := List.contains_iff_mem.2 h
  rw [compareKey, hcontains]
  rfl

theorem compareKey_lacking {cx : MatchContext} {file query : Node} {fileKeys : List String}
    {key : String} (h : key ∉ fileKeys) : compareKey cx file query fileKeys key = .lacking := by
  have hcontains : fileKeys.contains key = false := by simpa using h
  rw [compareKey, hcontains]
  rfl

theorem compareKey_field {cx : MatchContext} {file query : Node} {fileKeys : List String}
    {key : String} (h : key ∈ fileKeys) (hkey : key ≠ textKey) :
    compareKey cx file query fileKeys key =
      match query.field? key, file.field? key with
      | some (.token left), some (.token right) =>
          .compared (Text.sameText cx.config.ignoreCase left right)
      | some _, some _ => .deferred
      | _, _ => .lacking := by
  have hcontains : fileKeys.contains key = true := List.contains_iff_mem.2 h
  rw [compareKey, hcontains, if_neg hkey]
  rfl

/-- What the comparison key by key has checked, and which keys it leaves to agree in turn: those
under which one of the nodes has children. -/
theorem compareFields_agrees {cx : MatchContext} {file query : Node}
    (h : (compareFields cx file query).agrees = true) :
    AgreeByKeys cx file query ∧ ∃ names,
      compareFields cx file query = .sameFields file true names ∧
        ∀ key, key ∈ names ↔ key ∈ query.keys ∧ key ≠ textKey ∧ ∃ left right,
          query.field? key = some left ∧ file.field? key = some right ∧
            (left.holdsNodes = true ∨ right.holdsNodes = true) := by
  unfold compareFields at h ⊢
  dsimp only at h ⊢
  split at h
  next => simp [Comparison.closed] at h
  next hguard =>
    rw [if_neg hguard]
    simp only [Bool.or_eq_true, Bool.not_eq_true', bne_iff_ne, not_or, ne_eq, not_not,
      Bool.not_eq_false] at hguard
    obtain ⟨hkind, hlength⟩ := hguard
    simp only [Comparison.sameFields] at h
    -- no key may have an outcome that says no, which each of the facts below is read off from
    have hsettled := fun key hkey => List.all_eq_true.1 h
      (key, compareKey cx file query (countedKeys cx file query) key)
      (List.mem_map.2 ⟨key, hkey, rfl⟩)
    have hkeys : ∀ key ∈ query.keys, key ∈ countedKeys cx file query := by
      intro key hkey
      by_contra hlacking
      have := hsettled key hkey
      simp [compareKey_lacking hlacking] at this
    have hfields : ∀ key ∈ query.keys, key ≠ textKey → ∃ left right,
        query.field? key = some left ∧ file.field? key = some right ∧
          ∀ l r, left = .token l → right = .token r →
            Text.sameText cx.config.ignoreCase l r = true := by
      intro key hkey hne
      have hthis := hsettled key hkey
      simp only [compareKey_field (hkeys key hkey) hne] at hthis
      cases hleft : query.field? key with
      | none => simp [hleft] at hthis
      | some left =>
          cases hright : file.field? key with
          | none => cases left <;> simp [hleft, hright] at hthis
          | some right =>
              refine ⟨left, right, rfl, rfl, ?_⟩
              rintro l r rfl rfl
              simpa [hleft, hright] using hthis
    refine ⟨⟨hkind, hlength, hkeys, fun htext => ?_, hfields⟩, ?_⟩
    · have hthis := hsettled textKey htext
      simp only [compareKey_text (hkeys textKey htext)] at hthis
      exact hthis
    · rw [h]
      refine ⟨_, rfl, fun key => ?_⟩
      rw [List.mem_filterMap]
      constructor
      · rintro ⟨⟨other, outcome⟩, hmem, hsome⟩
        -- the key of texts is never put off, and neither are tokens
        obtain ⟨key', hkey', heq⟩ := List.mem_map.1 hmem
        obtain ⟨rfl, rfl⟩ := Prod.mk.inj heq
        by_cases hne : key' = textKey
        · subst hne
          simp [compareKey_text (hkeys textKey hkey')] at hsome
        · obtain ⟨left, right, hleft, hright, -⟩ := hfields key' hkey' hne
          rw [compareKey_field (hkeys key' hkey') hne, hleft, hright] at hsome
          obtain ⟨rfl, hnodes⟩ :
              key' = key ∧ (left.holdsNodes = true ∨ right.holdsNodes = true) := by
            cases left <;> cases right <;> simp [Field.holdsNodes] at hsome ⊢ <;> exact hsome
          exact ⟨hkey', hne, left, right, hleft, hright, hnodes⟩
      · rintro ⟨hkey, hne, left, right, hleft, hright, hnodes⟩
        refine ⟨_, List.mem_map.2 ⟨key, hkey, rfl⟩, ?_⟩
        rw [compareKey_field (hkeys key hkey) hne, hleft, hright]
        cases left <;> cases right <;> simp [Field.holdsNodes] at hnodes ⊢

/-! ## All steps -/

/-- **The ways to agree** of a file node and a query node: by a rule before wildcards, as a name
and the name that has a default value, or by one of the steps after that. -/
inductive Agree (cx : MatchContext) : Node → Node → Bindings → Comparison → Bindings → Prop
  | rule {file query : Node} {b c : Bindings} {verdict : Verdict}
      (hrule : Rule.first? cx.config file query cx.grammar.rulesBefore b = (some verdict, c))
      (hagrees : verdict.agrees = true) :
      Agree cx file query b (.ofVerdict file verdict) c
  | value {file query inner : Node} {b b₁ c : Bindings} {field : String} {found : Comparison}
      (hrule : Rule.first? cx.config file query cx.grammar.rulesBefore b = (none, b₁))
      (hfield : valueField? cx file.kind query = some field)
      (hinner : file.child? field = some inner) (h : Agree cx inner query b₁ found c) :
      Agree cx file query b
        { found with
          fileKeys := found.fileKeys.map (field :: ·)
          descend := file.childFields } c
  | plain {file query : Node} {b b₁ c : Bindings} {found : Comparison}
      (hrule : Rule.first? cx.config file query cx.grammar.rulesBefore b = (none, b₁))
      (hfield : valueField? cx file.kind query = none)
      (h : AgreePlainly cx file query b₁ found c) : Agree cx file query b found c

/-- Nodes that agree do so in one of the ways. -/
theorem compare_agrees {cx : MatchContext} {file query : Node} {b : Bindings}
    (h : (compare cx file query b).1.agrees = true) :
    Agree cx file query b (compare cx file query b).1 (compare cx file query b).2 := by
  induction file using Node.offspring_induction generalizing b with
  | step file ih =>
      rw [compare_eq] at h ⊢
      cases hrule : Rule.first? cx.config file query cx.grammar.rulesBefore b with
      | mk verdict? b₁ =>
          cases verdict? with
          | some verdict =>
              simp only [hrule] at h ⊢
              exact Agree.rule hrule h
          | none =>
              simp only [hrule] at h ⊢
              cases hfield : valueField? cx file.kind query with
              | none =>
                  simp only [hfield] at h ⊢
                  exact Agree.plain hrule hfield (comparePlain_agrees h)
              | some field =>
                  simp only [hfield] at h ⊢
                  cases hinner : file.child? field with
                  | none => simp [hinner, compareOptional, Comparison.missing] at h
                  | some inner =>
                      simp only [hinner, compareOptional] at h ⊢
                      exact Agree.value hrule hfield hinner
                        (ih inner (Node.mem_offspring_of_child? hinner) h)

/-! ## Where the search goes on -/

theorem compareFields_descend (cx : MatchContext) (file query : Node) :
    (compareFields cx file query).descend = file.childFields := by
  unfold compareFields
  dsimp only
  split
  next => rfl
  next => rfl

theorem compareIdentifier_descend (cx : MatchContext) (file query : Node) (name : String)
    (b : Bindings) :
    (compareIdentifier cx file query name b).1.descend = file.childFields := by
  unfold compareIdentifier
  split
  next =>
    split
    next => rfl
    next => split <;> rfl
  next => rfl

theorem comparePlain_descend (cx : MatchContext) (file query : Node) (b : Bindings) :
    (comparePlain cx file query b).1.descend = file.childFields := by
  unfold comparePlain
  rw [compareWildcard?_eq]
  cases cx.nameWildcard? query with
  | some name => exact compareIdentifier_descend cx file query name b
  | none =>
      cases cx.stringWildcard? file query with
      | some pattern =>
          cases hmatch : cx.matchText? pattern ((cx.sanitized file).getD "") .string b <;>
            simp [hmatch, Comparison.closed]
      | none =>
          cases cx.isAnyNumber query with
          | true => rfl
          | false =>
              cases cx.isWholeFile file query with
              | true => rfl
              | false =>
                  simp only [Bool.false_eq_true, if_false]
                  split
                  next => rfl
                  next => exact compareFields_descend cx file query

/-- Whatever a comparison finds, the search goes on below all fields with children. -/
theorem compare_descend (cx : MatchContext) (file query : Node) (b : Bindings) :
    (compare cx file query b).1.descend = file.childFields := by
  rw [compare_eq]
  split
  next => rfl
  next =>
    split
    next => exact comparePlain_descend cx file query _
    next => rfl

/-! ## Bindings -/

theorem compareIdentifier_extends (cx : MatchContext) (file query : Node) (name : String)
    (b : Bindings) :
    Bindings.Extends (· = file) b (compareIdentifier cx file query name b).2 := by
  unfold compareIdentifier
  split
  next =>
    split
    next => exact Bindings.Extends.refl
    next aliasName _ =>
      split
      next c hmatch =>
        exact Relation.ReflTransGen.single (.subtree aliasName (cx.code file) file rfl hmatch)
      next => exact Bindings.Extends.refl
  next =>
    dsimp only
    split
    next =>
      cases hmatch : file.text.bind fun value => cx.matchText? name value .identifier b with
      | none => exact Bindings.Extends.refl
      | some c =>
          obtain ⟨value, -, hc⟩ := Option.bind_eq_some_iff.1 hmatch
          exact Bindings.extends_of_matchText? (by decide) hc
    next => exact Bindings.Extends.refl

theorem comparePlain_extends {cx : MatchContext} (hgrammar : cx.grammar.BindsTexts)
    (file query : Node) (b : Bindings) :
    Bindings.Extends (· = file) b (comparePlain cx file query b).2 := by
  have hrules : Bindings.Extends (· = file) b
      (Rule.first? cx.config file query cx.grammar.rulesAfter b).2 :=
    (Rule.first?_extends (fun rule hrule => hgrammar rule (List.mem_append_right _ hrule))
      cx.config file query b).mono fun _ hn => hn.elim
  unfold comparePlain
  rw [compareWildcard?_eq]
  cases hname : cx.nameWildcard? query with
  | some name => exact compareIdentifier_extends cx file query name b
  | none =>
      cases hstring : cx.stringWildcard? file query with
      | some pattern =>
          cases hmatch : cx.matchText? pattern ((cx.sanitized file).getD "") .string b with
          | none =>
              simp only [hmatch]
              exact Bindings.Extends.refl
          | some c =>
              simp only [hmatch]
              exact Bindings.extends_of_matchText? (by decide) hmatch
      | none =>
          cases hany : cx.isAnyNumber query with
          | true =>
              simp only [if_true]
              exact Bindings.Extends.refl
          | false =>
              cases hfile : cx.isWholeFile file query with
              | true => exact Bindings.Extends.refl
              | false =>
                  simp only [Bool.false_eq_true, if_false]
                  split
                  next heq =>
                    rw [heq] at hrules
                    exact hrules
                  next heq =>
                    rw [heq] at hrules
                    exact hrules

/-- A comparison extends the bindings, by subtrees of the file node at most. -/
theorem compare_extends {cx : MatchContext} (hgrammar : cx.grammar.BindsTexts)
    (file query : Node) (b : Bindings) :
    Bindings.Extends (· ∈ file.walk) b (compare cx file query b).2 := by
  induction file using Node.offspring_induction generalizing b with
  | step file ih =>
      have hrules : Bindings.Extends (· ∈ file.walk) b
          (Rule.first? cx.config file query cx.grammar.rulesBefore b).2 :=
        (Rule.first?_extends (fun rule hrule => hgrammar rule (List.mem_append_left _ hrule))
          cx.config file query b).mono fun _ hn => hn.elim
      rw [compare_eq]
      split
      next heq =>
        rw [heq] at hrules
        exact hrules
      next b₁ heq =>
        rw [heq] at hrules
        refine hrules.trans ?_
        split
        next =>
          refine (comparePlain_extends hgrammar file query b₁).mono ?_
          rintro n rfl
          exact Node.mem_walk_self n
        next field _ =>
          cases hinner : file.child? field with
          | none => exact Bindings.Extends.refl
          | some inner =>
              have hoffspring := Node.mem_offspring_of_child? hinner
              exact (ih inner hoffspring b₁).mono fun _ hn =>
                Node.mem_walk_of_mem_offspring hoffspring hn

end CodeSearch

import CodeSearch.Proofs.LanguageAliases

/-!
# Rules that pass

A rule may bind aliases and have no verdict all the same. The rules of the languages do not: one
that passes a pair on **leaves no trace** in the bindings. So a comparison asks each of them with
the very bindings that it starts from itself, and where none has a verdict, the later steps see
these bindings too.
-/

set_option autoImplicit false

namespace CodeSearch

namespace Rule

/-- A rule **leaves no trace** if it binds nothing unless it has a verdict. -/
def LeavesNoTrace (rule : Rule) : Prop :=
  ∀ config file query b, (rule config file query b).1 = none →
    (rule config file query b).2 = b

theorem leavesNoTrace_of_none {rule : Rule}
    (h : ∀ config file query b c, rule config file query b = (none, c) → c = b) :
    rule.LeavesNoTrace :=
  fun config file query b hnone => h config file query b _ (Prod.ext hnone rfl)

/-- The first verdict that rules have on two nodes, all asked with the same bindings, and the
bindings it ends with. -/
def ask? (config : MatchSettings) (file query : Node) (b : Bindings) (rules : List Rule) :
    Option (Verdict × Bindings) :=
  rules.findSome? fun rule =>
    (rule config file query b).1.map fun verdict => (verdict, (rule config file query b).2)

/-- Rules that leave no trace are all asked with the first bindings. -/
theorem first?_eq_ask? {rules : List Rule} (h : ∀ rule ∈ rules, rule.LeavesNoTrace)
    (config : MatchSettings) (file query : Node) (b : Bindings) :
    first? config file query rules b =
      match ask? config file query b rules with
      | some (verdict, c) => (some verdict, c)
      | none => (none, b) := by
  induction rules with
  | nil => rfl
  | cons rule rest ih =>
      obtain ⟨hrule, hrest⟩ := List.forall_mem_cons.1 h
      rw [first?, ask?, List.findSome?_cons]
      cases hfirst : rule config file query b with
      | mk verdict? c =>
          cases verdict? with
          | some verdict => rfl
          | none =>
              have hc := hrule config file query b
              rw [hfirst] at hc
              obtain rfl : c = b := hc rfl
              exact ih hrest

end Rule

/-- All rules there are leave no trace. -/
theorem Language.leavesNoTrace (language : Language) :
    ∀ rule ∈ language.dialect.rulesBefore ++ language.dialect.rulesAfter, rule.LeavesNoTrace :=
  forall_rules
    (Rule.leavesNoTrace_of_none fun _ _ _ _ _ => Ecma.selfClosing_none)
    (Rule.leavesNoTrace_of_none fun _ _ _ _ _ => Ecma.destructuring_none)
    (Rule.leavesNoTrace_of_none fun _ _ _ _ _ => Ecma.propertyShapes_none)
    (Rule.leavesNoTrace_of_none fun _ _ _ _ _ => Ecma.optionalChain_none)
    (Rule.leavesNoTrace_of_none fun _ _ _ _ _ => Css.dimensions_none)
    (Rule.leavesNoTrace_of_none fun _ _ _ _ _ => Css.hashWildcard_none) language

section Comparisons

variable {cx : MatchContext} (file query : Node) (b : Bindings)

/-- A comparison whose first rules leave no trace goes on from the bindings it started with, if
they have no verdict. -/
theorem compare_of_leavesNoTrace (h : ∀ rule ∈ cx.grammar.rulesBefore, rule.LeavesNoTrace) :
    compare cx file query b =
      match Rule.ask? cx.config file query b cx.grammar.rulesBefore with
      | some (verdict, c) => (.ofVerdict file verdict, c)
      | none =>
          match valueField? cx file.kind query with
          | none => comparePlain cx file query b
          | some name =>
              ({ (compareOptional cx (file.child? name) (some query) b).1 with
                  fileKeys :=
                    (compareOptional cx (file.child? name) (some query) b).1.fileKeys.map
                      (name :: ·)
                  descend := file.childFields },
                (compareOptional cx (file.child? name) (some query) b).2) := by
  rw [compare_eq, Rule.first?_eq_ask? h]
  cases Rule.ask? cx.config file query b cx.grammar.rulesBefore with
  | none => rfl
  | some found => rfl

/-- Likewise the comparison key by key, which comes after the last rules. -/
theorem comparePlain_of_leavesNoTrace
    (h : ∀ rule ∈ cx.grammar.rulesAfter, rule.LeavesNoTrace) :
    comparePlain cx file query b =
      match compareWildcard? cx file query b with
      | some found => found
      | none =>
          match Rule.ask? cx.config file query b cx.grammar.rulesAfter with
          | some (verdict, c) => (.ofVerdict file verdict, c)
          | none => (compareFields cx file query, b) := by
  rw [comparePlain, Rule.first?_eq_ask? h]
  cases compareWildcard? cx file query b with
  | some found => rfl
  | none =>
      cases Rule.ask? cx.config file query b cx.grammar.rulesAfter with
      | none => rfl
      | some found => rfl

end Comparisons

namespace Language

/-- **A rule that passes leaves no trace**: whatever the nodes, the settings and the bindings, a
rule of any language that has no verdict leaves the bindings as they were. A comparison therefore
asks all rules, and enters the steps after them, with exactly the bindings it starts from. -/
theorem rules_leave_no_trace (language : Language) (parsers : ParserSet) (config : SearchConfig)
    (source : String) (file query : Node) (b : Bindings) :
    let cx := language.context parsers config source
    (∀ rule ∈ [Ecma.selfClosing, Ecma.destructuring, Ecma.propertyShapes, Ecma.optionalChain,
        Css.dimensions, Css.hashWildcard],
      ∀ settings, (rule settings file query b).1 = none → (rule settings file query b).2 = b) ∧
    (∀ rule ∈ cx.grammar.rulesBefore ++ cx.grammar.rulesAfter,
      ∀ settings, (rule settings file query b).1 = none → (rule settings file query b).2 = b) ∧
    (compare cx file query b =
      match Rule.ask? cx.config file query b cx.grammar.rulesBefore with
      | some (verdict, c) => (.ofVerdict file verdict, c)
      | none =>
          match valueField? cx file.kind query with
          | none => comparePlain cx file query b
          | some name =>
              ({ (compareOptional cx (file.child? name) (some query) b).1 with
                  fileKeys :=
                    (compareOptional cx (file.child? name) (some query) b).1.fileKeys.map
                      (name :: ·)
                  descend := file.childFields },
                (compareOptional cx (file.child? name) (some query) b).2)) ∧
    comparePlain cx file query b =
      match compareWildcard? cx file query b with
      | some found => found
      | none =>
          match Rule.ask? cx.config file query b cx.grammar.rulesAfter with
          | some (verdict, c) => (.ofVerdict file verdict, c)
          | none => (compareFields cx file query, b) := by
  intro cx
  have hall := language.leavesNoTrace
  refine ⟨fun rule hrule settings => ?_, fun rule hrule settings => ?_, ?_, ?_⟩
  · -- the six rules are those of TypeScript and of style sheets
    have hmem : rule ∈ (typeScript.dialect.rulesBefore ++ typeScript.dialect.rulesAfter) ++
        (css.dialect.rulesBefore ++ css.dialect.rulesAfter) := hrule
    rcases List.mem_append.1 hmem with hmem | hmem
    · exact typeScript.leavesNoTrace rule hmem settings file query b
    · exact css.leavesNoTrace rule hmem settings file query b
  · exact hall rule hrule settings file query b
  · exact compare_of_leavesNoTrace file query b fun rule hrule =>
      hall rule (List.mem_append_left _ hrule)
  · exact comparePlain_of_leavesNoTrace file query b fun rule hrule =>
      hall rule (List.mem_append_right _ hrule)

/-- A colour whose digits differ from what the alias of the query is bound to: the rule has no
verdict, and what was bound stays as it was. -/
theorem rules_leave_no_trace_colour :
    let bound := Bindings.empty.bind .string "a" ⟨"def", none⟩
    let file := Node.leaf "color_value" "#abc" .zero
    let query := Node.leaf "plain_value" "$$_a" .zero
    Css.hashWildcard ∈ (css.context bareParsers { mode := .exact } "").grammar.rulesBefore ++
        (css.context bareParsers { mode := .exact } "").grammar.rulesAfter ∧
      (Css.hashWildcard {} file query bound).1 = none ∧
      (Css.hashWildcard {} file query bound).2 = bound := by
  intro bound file query
  have hmem : Css.hashWildcard ∈
      (css.context bareParsers { mode := .exact } "").grammar.rulesBefore ++
        (css.context bareParsers { mode := .exact } "").grammar.rulesAfter := by
    show Css.hashWildcard ∈ [Css.dimensions, Css.hashWildcard]
    simp
  have hnone : (Css.hashWildcard {} file query bound).1 = none := by decide +kernel
  exact ⟨hmem, hnone, (rules_leave_no_trace css bareParsers { mode := .exact } "" file query
    bound).2.1 Css.hashWildcard hmem {} hnone⟩

end Language

end CodeSearch

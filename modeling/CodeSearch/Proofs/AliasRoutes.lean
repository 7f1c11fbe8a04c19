import CodeSearch.Proofs.Rules
import CodeSearch.Proofs.Soundness

/-!
# What the uses of an alias stand for

A name that is one wildcard with an alias stands for a subtree, and all its uses in one match for
equal ones. Rules of a language may come first: a key or a value that a rule reads as a text is
matched as a text, and its alias is bound to the text, apart from the subtree that the same alias
stands for elsewhere. So an alias is used by one of two **routes**, and its uses agree as long as
they go by the same one.

Uses by subtree agree because each stands for the subtree that the alias is bound to at the end of
the match, and uses by text match the text it is bound to.
-/

set_option autoImplicit false

namespace CodeSearch

/-! ## Where a comparison leads -/

/-- A query node that is compared with a file node is compared with another in the end: a name
stands for the name with a default value. -/
inductive Reaches (cx : MatchContext) (query : Node) : Node → Bindings → Node → Bindings → Prop
  | here (file : Node) (b : Bindings) : Reaches cx query file b file b
  | value {file inner last : Node} {b c : Bindings} {field : String}
      (hrule : (Rule.first? cx.config file query cx.grammar.rulesBefore b).1 = none)
      (hfield : valueField? cx file.kind query = some field)
      (hinner : file.child? field = some inner)
      (h : Reaches cx query inner
        (Rule.first? cx.config file query cx.grammar.rulesBefore b).2 last c) :
      Reaches cx query file b last c

/-- Whether a rule settles two nodes: one before wildcards, or one after them where no wildcard
and no default value comes first. -/
def MatchContext.settles (cx : MatchContext) (file query : Node) (b : Bindings) : Bool :=
  let before := Rule.first? cx.config file query cx.grammar.rulesBefore b
  before.1.isSome ||
    ((valueField? cx file.kind query).isNone && (compareWildcard? cx file query before.2).isNone &&
      (Rule.first? cx.config file query cx.grammar.rulesAfter before.2).1.isSome)

section

variable {cx : MatchContext} {file query : Node} {b c : Bindings} {found : Comparison}

theorem Reaches.mem_walk {last : Node} (h : Reaches cx query file b last c) :
    last ∈ file.walk := by
  induction h with
  | here file b => exact Node.mem_walk_self file
  | value hrule hfield hinner h ih =>
      exact Node.mem_walk_of_mem_offspring (Node.mem_offspring_of_child? hinner) ih

/-- Two nodes that agree do so where their comparison leads. -/
theorem Reaches.agree {last : Node} {d : Bindings} (h : Reaches cx query file b last d)
    (hagree : Agree cx file query b found c) : ∃ inner, Agree cx last query d inner c := by
  induction h generalizing found with
  | here file b => exact ⟨found, hagree⟩
  | @value file inner last b d field hrule hfield hinner h ih =>
      cases hagree with
      | rule hverdict => simp [hverdict] at hrule
      | value hrule' hfield' hinner' hagree =>
          obtain rfl := Option.some.inj (hfield.symm.trans hfield')
          obtain rfl := Option.some.inj (hinner.symm.trans hinner')
          rw [hrule'] at ih
          exact ih hagree
      | plain hrule' hfield' => simp [hfield] at hfield'

/-- Nodes that agree without a rule agree in one of the other ways. -/
theorem Agree.plainly (h : Agree cx file query b found c)
    (hend : valueField? cx file.kind query = none) (hfree : cx.settles file query b = false) :
    ∃ d, AgreePlainly cx file query d found c := by
  cases h with
  | rule hrule => simp [MatchContext.settles, hrule] at hfree
  | value hrule hfield => simp [hend] at hfield
  | plain hrule hfield h => exact ⟨_, h⟩

/-- Where two nodes agree that a rule settles, the rule has accepted them. -/
theorem Agree.rule_of_settles (h : Agree cx file query b found c)
    (hsettled : cx.settles file query b = true) : ∃ verdict d, verdict.agrees = true ∧
      (Rule.first? cx.config file query cx.grammar.rulesBefore d = (some verdict, c) ∨
        Rule.first? cx.config file query cx.grammar.rulesAfter d = (some verdict, c)) := by
  cases h with
  | rule hrule hagrees => exact ⟨_, _, hagrees, Or.inl hrule⟩
  | value hrule hfield => simp [MatchContext.settles, hrule, hfield] at hsettled
  | plain hrule hfield h =>
      simp only [MatchContext.settles, hrule, compareWildcard?_eq, hfield, Option.isSome_none,
        Option.isNone_none, Bool.false_or, Bool.true_and, Bool.and_eq_true] at hsettled
      obtain ⟨hwildcard, hafter⟩ := hsettled
      cases h with
      | rule hname hstring hany hrule hagrees => exact ⟨_, _, hagrees, Or.inr hrule⟩
      | fields hname hstring hany hrule => simp [hrule] at hafter
      | anyTree hname => simp [hname] at hwildcard
      | tree hname => simp [hname] at hwildcard
      | name hname => simp [hname] at hwildcard
      | string hname hstring hmatch => simp [hname, hstring, hmatch] at hwildcard
      | number hname hstring hany => simp [hname, hstring, hany] at hwildcard
      | block hname hstring hany hfile => simp [hname, hstring, hany, hfile] at hwildcard

end

/-! ## Uses of an alias -/

/-- A query node is a name that is one wildcard with an alias. -/
structure IsTreeAlias (cx : MatchContext) (query : Node) (name aliasName : String) : Prop where
  identifier : cx.kinds.isIdentifier query.kind = true
  text : query.text = some name
  whole : cx.markers.isNodeTree name = true
  aliasName : cx.treeAlias? name = some aliasName

/-- A wildcard stands for the subtree it is compared with, or for a text that a rule reads. -/
inductive Route where
  | subtree
  | text (value : String)

/-- The texts that rules read to settle a file node and a query node: at a node of the query, at
a node of the file, and the text read there. -/
abbrev Reading := Node → Node → Node → Node → String → Prop

/-- **A query node is used in an attempt**, for a file node and by some route: it is compared
with the file node and no rule settles the two, or it is read as a text along with the file
node. -/
inductive Occurs (cx : MatchContext) (Reads : Reading) (a : Attempt) : Node → Node → Route → Prop
  | subtree {start query file : Node} {b c : Bindings}
      (htakes : Attempt.TakesPart cx a ⟨start, query, b⟩)
      (hreaches : Reaches cx query start b file c)
      (hend : valueField? cx file.kind query = none)
      (hfree : cx.settles file query c = false) : Occurs cx Reads a query file .subtree
  | text {start query file m f : Node} {b c : Bindings} {value : String}
      (htakes : Attempt.TakesPart cx a ⟨start, query, b⟩)
      (hreaches : Reaches cx query start b file c)
      (hsettled : cx.settles file query c = true) (hreads : Reads file query m f value) :
      Occurs cx Reads a m f (.text value)

section

variable {cx : MatchContext} {Reads : Reading} {a : Attempt} {m f : Node}
  {name aliasName : String}

theorem IsTreeAlias.hasWildcard (h : IsTreeAlias cx m name aliasName) :
    cx.markers.hasWildcard name = true := by
  obtain ⟨wildcard, hwildcard, -⟩ := List.exists_of_findSome?_eq_some h.aliasName
  obtain ⟨o, ho, -⟩ := List.mem_map.1 hwildcard
  rw [Markers.hasWildcard, Bool.not_eq_true', List.isEmpty_eq_false_iff]
  exact List.ne_nil_of_mem ho

theorem IsTreeAlias.nameWildcard? (h : IsTreeAlias cx m name aliasName) :
    cx.nameWildcard? m = some name := by
  rw [MatchContext.nameWildcard?, if_pos h.identifier, h.text, Option.filter_some,
    if_pos h.hasWildcard]

/-- No rule after wildcards settles a name that is one wildcard. -/
theorem IsTreeAlias.not_settles {file : Node} {b : Bindings}
    (hm : IsTreeAlias cx m name aliasName)
    (hrule : (Rule.first? cx.config file m cx.grammar.rulesBefore b).1 = none) :
    cx.settles file m b = false := by
  simp [MatchContext.settles, hrule, compareWildcard?_eq, hm.nameWildcard?]

/-- A name that is one wildcard agrees with a subtree by what its alias stands for. -/
theorem IsTreeAlias.matchNode? {file : Node} {b c : Bindings} {found : Comparison}
    (hm : IsTreeAlias cx m name aliasName) (h : AgreePlainly cx file m b found c) :
    b.matchNode? aliasName (cx.code file) file = some c := by
  have hname := hm.nameWildcard?
  cases h with
  | tree hname' htree halias hmatch =>
      obtain rfl := Option.some.inj (hname.symm.trans hname')
      obtain rfl := Option.some.inj (hm.aliasName.symm.trans halias)
      exact hmatch
  | anyTree hname' htree halias =>
      obtain rfl := Option.some.inj (hname.symm.trans hname')
      simp [hm.aliasName] at halias
  | name hname' htree =>
      obtain rfl := Option.some.inj (hname.symm.trans hname')
      simp [hm.whole] at htree
  | string hname' => simp [hname] at hname'
  | number hname' => simp [hname] at hname'
  | block hname' => simp [hname] at hname'
  | rule hname' => simp [hname] at hname'
  | fields hname' => simp [hname] at hname'

/-- What takes part in a successful attempt agrees where its comparison leads, and the bindings
at the end keep what is bound there. -/
theorem agree_of_takesPart (hgrammar : cx.grammar.BindsTexts) (ha : (a.outcome cx).agrees = true)
    {start query file : Node} {b c : Bindings}
    (htakes : Attempt.TakesPart cx a ⟨start, query, b⟩)
    (hreaches : Reaches cx query start b file c) :
    file ∈ a.file.walk ∧ ∃ found d, Agree cx file query c found d ∧
      d.Keeps (a.outcome cx).bindings := by
  obtain ⟨hagrees, hfile, -, -, hto⟩ := htakes.between hgrammar ha
  obtain ⟨hcompared, -, -⟩ := Attempt.outcome_eq hagrees
  obtain ⟨found, hagree⟩ := hreaches.agree (compare_agrees hcompared)
  refine ⟨Node.mem_walk_trans hreaches.mem_walk hfile, found, _, hagree, ?_⟩
  exact (Attempt.compared_extends hgrammar hagrees).keeps.trans hto.keeps

/-- A use by subtree stands for the subtree that its alias is bound to in the end. -/
theorem bound_of_occurs (hgrammar : cx.grammar.BindsTexts) (ha : (a.outcome cx).agrees = true)
    (hm : IsTreeAlias cx m name aliasName) (h : Occurs cx Reads a m f .subtree) :
    f ∈ a.file.walk ∧ ∃ bound, (a.outcome cx).bindings.tree? aliasName = some bound ∧
      (bound = f ∨ bound.structEq f = true) := by
  cases h with
  | subtree htakes hreaches hend hfree =>
      obtain ⟨hfile, found, d, hagree, hkeeps⟩ := agree_of_takesPart hgrammar ha htakes hreaches
      obtain ⟨b, hplainly⟩ := hagree.plainly hend hfree
      obtain ⟨-, -, bound, hbound, hequal⟩ :=
        Bindings.matchNode?_eq_some (hm.matchNode? hplainly)
      exact ⟨hfile, bound, hkeeps.tree _ _ hbound, hequal⟩

/-- **Uses by subtree agree**: two uses of one alias in a match that starts from no bindings
stand for structurally equal subtrees. -/
theorem structEq_of_occurs (hgrammar : cx.grammar.BindsTexts) {file query : Node}
    (ha : (Attempt.outcome cx ⟨file, query, .empty⟩).agrees = true) (hfile : file.NamesDistinct)
    {m₁ m₂ f₁ f₂ : Node} (hm₁ : IsTreeAlias cx m₁ name aliasName)
    (hm₂ : IsTreeAlias cx m₂ name aliasName)
    (h₁ : Occurs cx Reads ⟨file, query, .empty⟩ m₁ f₁ .subtree)
    (h₂ : Occurs cx Reads ⟨file, query, .empty⟩ m₂ f₂ .subtree) : f₁.structEq f₂ = true := by
  obtain ⟨hmem₁, bound, hbound, hequal₁⟩ := bound_of_occurs hgrammar ha hm₁ h₁
  obtain ⟨hmem₂, bound₂, hbound₂, hequal₂⟩ := bound_of_occurs hgrammar ha hm₂ h₂
  obtain rfl := Option.some.inj (hbound.symm.trans hbound₂)
  -- what is bound is a subtree of the file, so that comparing it with itself succeeds
  have hsubtrees : (Attempt.outcome cx ⟨file, query, .empty⟩).bindings.TreesAmong
      (· ∈ file.walk) :=
    (validate_extends hgrammar file query .empty).treesAmong (Bindings.empty_treesAmong _)
  have hdistinct : bound.NamesDistinct := hfile.of_mem_walk (hsubtrees _ _ hbound)
  have hrefl : bound.structEq bound = true := Node.structEq_refl hdistinct
  have hfirst : bound.structEq f₁ = true := by
    rcases hequal₁ with rfl | hequal
    · exact hrefl
    · exact hequal
  have hsecond : bound.structEq f₂ = true := by
    rcases hequal₂ with rfl | hequal
    · exact hrefl
    · exact hequal
  exact Node.structEq_trans (Node.structEq_symm hdistinct hfirst) hsecond

/-- Wherever a rule settles two nodes that agree, it has matched the texts that it reads. -/
def ReadsByMatching (cx : MatchContext) (Reads : Reading) : Prop :=
  ∀ file query b found c, Agree cx file query b found c → cx.settles file query b = true →
    ∀ m f value name aliasName, Reads file query m f value → IsTreeAlias cx m name aliasName →
      ∃ kind d e, kind ≠ WildcardKind.nodeTree ∧ cx.matchText? name value kind d = some e ∧
        e.Keeps c

/-- A use by text matches under the bindings of the end. -/
theorem textMatches_of_occurs (hgrammar : cx.grammar.BindsTexts)
    (hreads : ReadsByMatching cx Reads) (ha : (a.outcome cx).agrees = true) {value : String}
    (hm : IsTreeAlias cx m name aliasName) (h : Occurs cx Reads a m f (.text value)) :
    TextMatches cx (a.outcome cx).bindings name value := by
  cases h with
  | text htakes hreaches hsettled hread =>
      obtain ⟨-, found, d, hagree, hkeeps⟩ := agree_of_takesPart hgrammar ha htakes hreaches
      obtain ⟨kind, e, e', hkind, hmatch, hkept⟩ :=
        hreads _ _ _ _ _ hagree hsettled _ _ _ _ _ hread hm
      exact textMatches_of_matchText? hkind hmatch (hkept.trans hkeeps)

end

end CodeSearch

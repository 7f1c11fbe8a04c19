import CodeSearch.Proofs.Agreement
import CodeSearch.Proofs.Attempts
import CodeSearch.Proofs.Rules
import CodeSearch.Proofs.SearchRun

/-!
# Comparisons pair their keys

A comparison leaves fields of the query and fields of the file to agree, which are matched in pairs.
Had it left more of one than of the other, that would be a **violation**, which matching counts and
answers with a failure. The comparison itself takes both lists from one list of names, so only a
rule can bring about a violation. A grammar whose rules pair their keys never does, however deep a
query is matched and whatever else a search does (`search_violations`), and the rules of all
languages do so: `Registry.search_never_violates`.
-/

set_option autoImplicit false

namespace CodeSearch

/-! ## Comparisons -/

/-- A verdict pairs its keys if it leaves as many fields of the query to agree as of the file. -/
def Verdict.Paired (verdict : Verdict) : Prop :=
  verdict.queryKeys.length = verdict.fileKeys.length

/-- A comparison pairs its keys if it leaves as many fields of the query to agree as of the
file. -/
def Comparison.Paired (found : Comparison) : Prop :=
  found.queryKeys.length = found.fileKeys.length

/-- All verdicts of a rule pair their keys. -/
def Rule.PairsKeys (rule : Rule) : Prop :=
  ∀ (config : MatchSettings) (file query : Node) (b : Bindings),
    ∀ verdict ∈ (rule config file query b).1, verdict.Paired

/-- All rules of a grammar pair their keys. -/
def Grammar.PairsKeys (grammar : Grammar) : Prop :=
  ∀ rule ∈ grammar.rulesBefore ++ grammar.rulesAfter, rule.PairsKeys

@[simp] theorem Verdict.paired_accept (pairs : List (FieldPath × FieldPath)) :
    (Verdict.accept pairs).Paired := by
  simp [Verdict.Paired, Verdict.accept]

@[simp] theorem Verdict.paired_reject : Verdict.reject.Paired := rfl

theorem Rule.first?_paired {rules : List Rule} (hrules : ∀ rule ∈ rules, rule.PairsKeys)
    {config : MatchSettings} {file query : Node} {b c : Bindings} {verdict : Verdict}
    (h : Rule.first? config file query rules b = (some verdict, c)) : verdict.Paired := by
  induction rules generalizing b with
  | nil => simp [Rule.first?] at h
  | cons rule rest ih =>
      obtain ⟨hrule, hrest⟩ := List.forall_mem_cons.1 hrules
      rw [Rule.first?] at h
      split at h
      next first after hfirst =>
        obtain ⟨rfl, -⟩ : first = verdict ∧ after = c := by simpa using h
        exact hrule config file query b first (by rw [hfirst]; rfl)
      next => exact ih hrest h

@[simp] theorem Comparison.paired_closed (file : Node) (agrees : Bool) :
    (closed file agrees).Paired := rfl

@[simp] theorem Comparison.paired_sameFields (file : Node) (agrees : Bool) (names : List String) :
    (sameFields file agrees names).Paired := by
  simp [Paired, sameFields]

section Comparing

variable {cx : MatchContext}

theorem compareIdentifier_paired (file query : Node) (name : String) (b : Bindings) :
    (compareIdentifier cx file query name b).1.Paired := by
  unfold compareIdentifier
  split
  next =>
    split
    next => rfl
    next => split <;> rfl
  next => exact Comparison.paired_sameFields file _ _

theorem compareWildcard?_paired (file query : Node) (b : Bindings) :
    ∀ compared ∈ compareWildcard? cx file query b, compared.1.Paired := by
  rw [compareWildcard?_eq]
  cases cx.nameWildcard? query with
  | some name => simp [compareIdentifier_paired]
  | none =>
      cases cx.stringWildcard? file query with
      | some pattern =>
          dsimp only
          split
          next => simp
          next => simp
      | none =>
          dsimp only
          split
          next => simp
          next => split <;> simp

theorem comparePlain_paired (hgrammar : cx.grammar.PairsKeys) (file query : Node) (b : Bindings) :
    (comparePlain cx file query b).1.Paired := by
  unfold comparePlain
  split
  next compared hcompared => exact compareWildcard?_paired file query b compared hcompared
  next =>
    split
    next verdict _ hverdict =>
      exact Rule.first?_paired (fun rule h => hgrammar rule (List.mem_append_right _ h)) hverdict
    next =>
      unfold compareFields
      dsimp only
      split
      next => rfl
      next => exact Comparison.paired_sameFields file _ _

/-- **A comparison pairs its keys** if the rules of the grammar do. -/
theorem compare_paired (hgrammar : cx.grammar.PairsKeys) (file query : Node) (b : Bindings) :
    (compare cx file query b).1.Paired := by
  induction file using Node.offspring_induction generalizing b with
  | step file ih =>
      rw [compare_eq]
      split
      next verdict _ hverdict =>
        exact Rule.first?_paired (fun rule h => hgrammar rule (List.mem_append_left _ h)) hverdict
      next _ c _ =>
        split
        next => exact comparePlain_paired hgrammar file query c
        next name _ =>
          cases hchild : file.child? name with
          | none => rfl
          | some child =>
              -- the keys of the child's comparison, those of the file one step further down
              have hinner := ih child (Node.mem_offspring_of_child? hchild) c
              simpa [Comparison.Paired, compareOptional] using hinner

end Comparing

/-! ## Matching -/

/-- A way to match nodes meets no violation. -/
def Validator.NeverViolates (v : Validator) : Prop :=
  ∀ (file query : Node) (b : Bindings), (v file query b).violations = 0

theorem inTurn_violations {steps : List (Bindings → Validation)}
    (h : ∀ step ∈ steps, ∀ b, (step b).violations = 0) (b : Bindings) :
    (Validation.inTurn steps b).violations = 0 := by
  induction steps generalizing b with
  | nil => rfl
  | cons step rest ih =>
      obtain ⟨hstep, hrest⟩ := List.forall_mem_cons.1 h
      rw [Validation.inTurn, Validation.andThen]
      split
      next =>
        dsimp only
        rw [hstep b, ih hrest]
      next => exact hstep b

section Matching

variable {v : Validator} (hv : v.NeverViolates)

include hv

theorem claim_violations (query : Node) (b : Bindings) (free : List Placed) :
    (claim v query b free).violations = 0 := by
  induction free with
  | nil => rfl
  | cons head rest ih =>
      rw [claim]
      dsimp only
      split
      next => exact hv head.2 query b
      next => rw [hv head.2 query b, ih]

theorem claimAll_violations (order free : List Placed) (b : Bindings) :
    (claimAll v order free b).violations = 0 := by
  induction order generalizing free b with
  | nil => rfl
  | cons entry rest ih =>
      rw [claimAll]
      dsimp only
      split
      next => exact claim_violations hv entry.2 b free
      next found c free' _ => rw [claim_violations hv entry.2 b free, ih free' c]

theorem validateComparable_violations (cx : MatchContext) (file query : List Node) (b : Bindings) :
    (validateComparable cx v file query b).violations = 0 := by
  rw [validateComparable_eq]
  split
  next =>
    split
    next =>
      refine inTurn_violations (fun step hstep c => ?_) b
      obtain ⟨pair, -, rfl⟩ := List.mem_map.1 hstep
      exact hv pair.1 pair.2 c
    next => rfl
  next =>
    split
    next => rfl
    next =>
      dsimp only
      split
      next => exact claimAll_violations hv _ _ b
      next => exact claimAll_violations hv _ _ b

theorem validatePath_violations (cx : MatchContext) (file query : Node)
    (filePath queryPath : FieldPath) (b : Bindings) :
    (validatePath cx v file query filePath queryPath b).violations = 0 := by
  unfold validatePath
  split
  next => exact hv _ _ b
  next => exact validateComparable_violations hv cx _ _ b
  next => rfl

theorem validateFound_violations (cx : MatchContext) (file query : Node)
    {compared : Comparison × Bindings} (h : compared.1.Paired) :
    (validateFound cx v file query compared).violations = 0 := by
  have hlength : compared.1.queryKeys.length = compared.1.fileKeys.length := h
  rw [validateFound, validateKeys_eq, if_pos hlength]
  split
  next =>
    refine inTurn_violations (fun step hstep c => ?_) _
    obtain ⟨pair, -, rfl⟩ := List.mem_map.1 hstep
    exact validatePath_violations hv cx file query pair.1 pair.2 c
  next => rfl

end Matching

theorem Traversal.violations_append {s t : Traversal} (hs : s.violations = 0)
    (ht : t.violations = 0) : (s ++ t).violations = 0 := by
  change s.violations + t.violations = 0
  rw [hs, ht]

theorem total_eq_zero {counts : List Nat} (h : ∀ count ∈ counts, count = 0) : total counts = 0 := by
  induction counts with
  | nil => rfl
  | cons count rest ih =>
      obtain ⟨hcount, hrest⟩ := List.forall_mem_cons.1 h
      rw [total, List.foldr_cons, ← total, hcount, ih hrest]

section Traversing

variable {cx : MatchContext}

theorem validateUpTo_violations (hgrammar : cx.grammar.PairsKeys) (height : Nat) :
    (validateUpTo cx height).NeverViolates := by
  induction height with
  | zero => exact fun _ _ _ => rfl
  | succ height ih =>
      exact fun file query b =>
        validateFound_violations ih cx file query (compare_paired hgrammar file query b)

mutual

theorem traverseFrom_violations (hgrammar : cx.grammar.PairsKeys) (query : Node) (place : Place)
    (n : Node) : (traverseFrom cx query place n).violations = 0 := by
  cases n with
  | mk kind text fields span =>
      rw [traverseFrom]
      exact Traversal.violations_append
        (validateFound_violations (validateUpTo_violations hgrammar _) cx _ query
          (compare_paired hgrammar _ query .empty))
        (traverseFields_violations hgrammar query place _ 0 fields)

theorem traverseField_violations (hgrammar : cx.grammar.PairsKeys) (query : Node) (place : Place)
    (i : Nat) (f : Field) : (traverseField cx query place i f).violations = 0 := by
  cases f with
  | node child => exact traverseFrom_violations hgrammar query _ child
  | nodes children => exact traverseList_violations hgrammar query place i 0 children
  | token text => rfl

theorem traverseList_violations (hgrammar : cx.grammar.PairsKeys) (query : Node) (place : Place)
    (i j : Nat) (nodes : List Node) : (traverseList cx query place i j nodes).violations = 0 := by
  cases nodes with
  | nil => rfl
  | cons node rest =>
      rw [traverseList]
      exact Traversal.violations_append (traverseFrom_violations hgrammar query _ node)
        (traverseList_violations hgrammar query place i (j + 1) rest)

theorem traverseFields_violations (hgrammar : cx.grammar.PairsKeys) (query : Node) (place : Place)
    (descend : List String) (i : Nat) (fields : List (String × Field)) :
    (traverseFields cx query place descend i fields).violations = 0 := by
  cases fields with
  | nil => rfl
  | cons entry rest =>
      rw [traverseFields]
      refine Traversal.violations_append ?_
        (traverseFields_violations hgrammar query place descend (i + 1) rest)
      split
      next => exact traverseField_violations hgrammar query place i entry.2
      next => rfl

end

/-- Going through a tree meets no violation. -/
theorem traverse_violations (hgrammar : cx.grammar.PairsKeys) (root query : Node) :
    (traverse cx root query).violations = 0 :=
  traverseFrom_violations hgrammar query [] root

end Traversing

/-! ## Searching -/

section Reporting

variable {cx : MatchContext} (hgrammar : cx.grammar.PairsKeys)

include hgrammar

theorem narrowedSpan_violations (matched query : Node) :
    (narrowedSpan cx matched query).2 = 0 := by
  have hpicks : ∀ (statements : List Node) (picks : Picks), picks.violations = 0 →
      (statements.foldl (pick cx matched) picks).violations = 0 := by
    intro statements
    induction statements with
    | nil => exact fun _ h => h
    | cons statement rest ih =>
        intro picks h
        refine ih _ ?_
        have hbelow := traverse_violations hgrammar matched statement
        rw [pick]
        split
        next => exact congrArg₂ (· + ·) h hbelow
        next => exact congrArg₂ (· + ·) h hbelow
  exact hpicks query.children _ rfl

theorem matchAt_violations (path : String) (index : Nat) (query : ParsedQuery) (found : Found) :
    (matchAt cx path index query found).2 = 0 := by
  rw [matchAt]
  cases query.isMultistatement with
  | true => exact narrowedSpan_violations hgrammar found.node query.node
  | false => rfl

theorem matchesIn_violations (path : String) (root : Node) (index : Nat) (query : ParsedQuery) :
    (matchesIn cx path root index query).2 = 0 := by
  rw [matchesIn]
  dsimp only
  rw [traverse_violations hgrammar, Nat.zero_add]
  refine total_eq_zero fun count hcount => ?_
  simp only [List.map_map, List.mem_map] at hcount
  obtain ⟨found, -, rfl⟩ := hcount
  exact matchAt_violations hgrammar path index query found

end Reporting

theorem searchFile_violations {grammar : Grammar} (hgrammar : grammar.PairsKeys)
    (settings : MatchSettings) (file : SourceFile) (results : QueryResults) :
    (searchFile grammar settings file results).metrics.invariantViolations = 0 := by
  unfold searchFile
  dsimp only
  split
  next => rfl
  next =>
    split
    next => rfl
    next =>
      split
      next => rfl
      next root _ =>
        refine total_eq_zero fun count hcount => ?_
        simp only [List.map_map, List.mem_map] at hcount
        obtain ⟨⟨index, query⟩, -, rfl⟩ := hcount
        have hcx : (⟨grammar, settings, file.content⟩ : MatchContext).grammar.PairsKeys := hgrammar
        exact matchesIn_violations hcx file.path root index query

section Searching

variable {resolve : Resolver} (hresolve : ∀ path, ∀ grammar ∈ resolve path, grammar.PairsKeys)

include hresolve

/-- One more file brings about no violation. -/
theorem step_violations (settings : MatchSettings) (queries : List String) (s : SearchState)
    (file : SourceFile) :
    (s.step resolve settings queries file).metrics.invariantViolations =
      s.metrics.invariantViolations := by
  unfold SearchState.step
  dsimp only
  split
  next => rfl
  next grammar hgrammar =>
    obtain ⟨-, hmetrics⟩ := SearchState.queriesFor_found settings queries
      (s.add { metrics := { filesSeen := 1 } }) grammar
    generalize (s.add { metrics := { filesSeen := 1 } }).queriesFor grammar settings queries =
      looked at hmetrics ⊢
    have hfile := searchFile_violations (hresolve file.path grammar hgrammar) settings file looked.1
    rw [SearchState.add, SearchMetrics.add, hmetrics]
    dsimp only
    rw [hfile]
    rfl

/-- **A search meets no violation** if the rules of its grammars pair their keys. -/
theorem search_violations (config : SearchConfig) (queries : List String)
    (files : List SourceFile) (stopAt : Option Nat) :
    (search resolve config queries files stopAt).metrics.invariantViolations = 0 := by
  have hrun : ∀ (files : List SourceFile) (index : Nat) (s : SearchState),
      (s.run resolve config queries stopAt index files).1.metrics.invariantViolations =
        s.metrics.invariantViolations := by
    intro files
    induction files with
    | nil => exact fun _ _ => rfl
    | cons file rest ih =>
        intro index s
        rw [SearchState.run]
        split
        next => rfl
        next => rw [ih, step_violations hresolve]
  exact hrun files 0 (.start queries.length)

end Searching

/-- A rule that leaves a field of the query to agree with none of the file brings about a
violation. -/
example :
    let grammar : Grammar :=
      { wordGrammar with rulesBefore := [fun _ _ _ b => (some ⟨true, [["name"]], []⟩, b)] }
    let word := Node.leaf "word" "x" .zero
    (traverse ⟨grammar, {}, "x"⟩ word word).violations = 1 := by decide

/-! ## The rules of the languages -/

theorem Ecma.pairTags_paired (exact : Bool) (query : Node) (queryTag : FieldPath) (file : Node)
    (fileTag : FieldPath) (names : List String) (pairs : List (FieldPath × FieldPath)) :
    (Ecma.pairTags exact query queryTag file fileTag names pairs).Paired := by
  induction names generalizing pairs with
  | nil => exact Verdict.paired_accept pairs
  | cons name rest ih =>
      rw [Ecma.pairTags]
      split
      next => exact ih _
      next => exact Verdict.paired_reject
      next =>
        split
        next => exact Verdict.paired_reject
        next => exact ih pairs
      next => exact ih pairs

theorem Ecma.selfClosing_pairsKeys : Rule.PairsKeys Ecma.selfClosing := by
  intro config file query b
  rw [Ecma.selfClosing]
  split
  next => split <;> simp [Ecma.pairTags_paired]
  next =>
    split
    next => split <;> simp [Ecma.pairTags_paired]
    next => simp

theorem Ecma.settle_paired (b : Bindings) (outcome : Option Bindings) :
    ∀ verdict ∈ (Ecma.settle b outcome).1, verdict.Paired := by
  cases outcome <;> simp [Ecma.settle]

theorem Ecma.destructuring_pairsKeys : Rule.PairsKeys Ecma.destructuring := by
  intro config file query b
  unfold Ecma.destructuring
  split
  next =>
    split
    next => exact Ecma.settle_paired b _
    next => simp
  next => simp

theorem Ecma.propertyShapes_pairsKeys : Rule.PairsKeys Ecma.propertyShapes := by
  intro config file query b
  unfold Ecma.propertyShapes
  dsimp only
  split
  next => simp
  next =>
    split
    next =>
      split
      next => exact Ecma.settle_paired b _
      next => simp
    next =>
      split
      next => split <;> simp
      next =>
        split
        next => split <;> simp
        next => simp

theorem Ecma.optionalChain_pairsKeys : Rule.PairsKeys Ecma.optionalChain := by
  intro config file query b
  unfold Ecma.optionalChain
  dsimp only
  split
  next => split <;> simp
  next => simp

theorem Css.unitsVerdict_paired (config : MatchSettings) (queryUnit fileUnit : String)
    (b : Bindings) :
    ∀ verdict ∈ (Css.unitsVerdict config queryUnit fileUnit b).1, verdict.Paired := by
  unfold Css.unitsVerdict
  split
  next => split <;> simp
  next =>
    split
    next => split <;> simp
    next => split <;> simp

theorem Css.dimensions_pairsKeys : Rule.PairsKeys Css.dimensions := by
  intro config file query b
  rcases Css.dimensions_cases config file query b with
    hnone | ⟨queryText, fileText, hquery, hfile, hqueryText, hfileText⟩
  · simp [hnone]
  · rw [Css.dimensions_eq config b hquery hfile hqueryText hfileText]
    split
    next => exact Css.unitsVerdict_paired config _ _ b
    next =>
      split
      next => exact Css.unitsVerdict_paired config _ _ b
      next => simp

theorem Css.hashWildcard_pairsKeys : Rule.PairsKeys Css.hashWildcard := by
  intro config file query b
  unfold Css.hashWildcard
  split
  next =>
    split
    next =>
      split
      next => split <;> simp
      next => simp
    next => simp
  next => simp

/-- The rules of all languages pair their keys. -/
theorem Language.pairsKeys (language : Language) (parsers : ParserSet) (markers : Markers) :
    (language.grammar parsers markers).PairsKeys :=
  Language.forall_rules Ecma.selfClosing_pairsKeys Ecma.destructuring_pairsKeys
    Ecma.propertyShapes_pairsKeys Ecma.optionalChain_pairsKeys Css.dimensions_pairsKeys
    Css.hashWildcard_pairsKeys language

/-- **A search in the known languages never meets a violation**, whatever language is forced, for
all queries, files and settings and whenever it is told to stop. No comparison in any of the
languages leaves more fields of the query to agree than of the file, or fewer. -/
theorem Registry.search_never_violates (r : Registry) (config : SearchConfig)
    (queries : List String) (files : List SourceFile) (stopAt : Option Nat) :
    (∀ (language : Language) (source : String) (file query : Node) (b : Bindings),
      (compare ⟨language.grammar r.parsers r.markers, config, source⟩ file query b).1.Paired) ∧
    (search r.resolve config queries files stopAt).metrics.invariantViolations = 0 := by
  refine ⟨fun language source file query b => compare_paired ?_ file query b, ?_⟩
  · exact language.pairsKeys r.parsers r.markers
  · refine search_violations (fun path grammar hgrammar => ?_) config queries files stopAt
    obtain ⟨language, -, rfl⟩ := Option.map_eq_some_iff.1 hgrammar
    exact language.pairsKeys r.parsers r.markers

end CodeSearch

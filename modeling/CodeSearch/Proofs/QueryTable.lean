import CodeSearch.Proofs.SearchRun
import Mathlib.Data.List.Nodup

/-!
# Searches in parts

A search parses its queries when the first file of a grammar comes up, and keeps them for later
files. Where grammars are told apart by their names this table holds nothing but what would be
parsed anyway. So a file adds to a search what it adds by itself, whatever files came before it,
and a search of more files comes to what two searches of the parts do, but for what both report of
the queries and for sites that both found.
-/

set_option autoImplicit false

namespace CodeSearch

/-! ## Hints -/

section Hints

theorem addHints_cons (hints : List Hint) (hint : Hint) (new : List Hint) :
    addHints hints (hint :: new) =
      addHints (if hints.contains hint then hints else hints ++ [hint]) new := rfl

theorem addHints_append (hints new later : List Hint) :
    addHints hints (new ++ later) = addHints (addHints hints new) later :=
  List.foldl_append

theorem mem_addHints {hints new : List Hint} {hint : Hint} :
    hint ∈ addHints hints new ↔ hint ∈ hints ∨ hint ∈ new := by
  induction new generalizing hints with
  | nil => simp [addHints]
  | cons first new ih =>
      rw [addHints_cons, ih, List.mem_cons]
      split
      next hmem =>
        rw [List.contains_iff_mem] at hmem
        constructor
        · tauto
        · rintro (h | rfl | h)
          · exact Or.inl h
          · exact Or.inl hmem
          · exact Or.inr h
      next => rw [List.mem_append, List.mem_singleton, or_assoc]

/-- Hints that are there already add nothing. -/
theorem addHints_of_subset {hints new : List Hint} (h : ∀ hint ∈ new, hint ∈ hints) :
    addHints hints new = hints := by
  induction new with
  | nil => rfl
  | cons first new ih =>
      obtain ⟨hfirst, hnew⟩ := List.forall_mem_cons.1 h
      rw [addHints_cons, if_pos (List.contains_iff_mem.2 hfirst), ih hnew]

theorem addHints_self (hints : List Hint) : addHints hints hints = hints :=
  addHints_of_subset fun _ h => h

/-- Hints may be added together before they are. -/
theorem addHints_addHints (hints new later : List Hint) :
    addHints (addHints hints new) later = addHints hints (addHints new later) := by
  induction later generalizing new with
  | nil => rfl
  | cons hint later ih =>
      rw [addHints_cons, addHints_cons, ← ih]
      congr 1
      by_cases hnew : hint ∈ new
      · have hboth : hint ∈ addHints hints new := mem_addHints.2 (Or.inr hnew)
        rw [if_pos (List.contains_iff_mem.2 hboth), if_pos (List.contains_iff_mem.2 hnew)]
      · rw [if_neg (fun h => hnew (List.contains_iff_mem.1 h)), addHints_append]
        rfl

theorem addHints_nodup {hints : List Hint} (h : hints.Nodup) (new : List Hint) :
    (addHints hints new).Nodup := by
  induction new generalizing hints with
  | nil => exact h
  | cons hint new ih =>
      rw [addHints_cons]
      split
      next => exact ih h
      next hmem =>
        rw [List.contains_iff_mem] at hmem
        exact ih (List.Nodup.append h (List.nodup_singleton hint) (by simpa using hmem))

/-! The hints on each of several queries are added query by query. -/

theorem zipWith_addHints_assoc (hints new later : List (List Hint)) :
    (hints.zipWith addHints new).zipWith addHints later =
      hints.zipWith addHints (new.zipWith addHints later) := by
  induction hints generalizing new later with
  | nil => rfl
  | cons first hints ih =>
      cases new with
      | nil => rfl
      | cons second new =>
          cases later with
          | nil => rfl
          | cons third later =>
              simp only [List.zipWith_cons_cons, ih, addHints_addHints]

theorem zipWith_addHints_self (hints : List (List Hint)) :
    hints.zipWith addHints hints = hints := by
  induction hints with
  | nil => rfl
  | cons first hints ih => rw [List.zipWith_cons_cons, ih, addHints_self]

theorem zipWith_addHints_nil {hints : List (List Hint)} {n : Nat} (h : hints.length = n) :
    hints.zipWith addHints (List.replicate n []) = hints := by
  subst h
  induction hints with
  | nil => rfl
  | cons first hints ih =>
      rw [List.length_cons, List.replicate_succ, List.zipWith_cons_cons, ih]
      rfl

/-- Hints that add nothing still add nothing when others have been added. -/
theorem zipWith_addHints_covered {hints later : List (List Hint)} (new : List (List Hint))
    (h : hints.zipWith addHints later = hints) :
    (hints.zipWith addHints new).zipWith addHints later = hints.zipWith addHints new := by
  induction hints generalizing new later with
  | nil => rfl
  | cons first hints ih =>
      cases later with
      | nil => exact absurd h (by simp)
      | cons third later =>
          rw [List.zipWith_cons_cons, List.cons.injEq] at h
          cases new with
          | nil => rfl
          | cons second new =>
              rw [List.zipWith_cons_cons, List.zipWith_cons_cons, ih new h.2]
              refine congrArg (· :: _) (addHints_of_subset fun hint hhint => ?_)
              exact mem_addHints.2 (Or.inl (h.1 ▸ mem_addHints.2 (Or.inr hhint)))

end Hints

/-! ## Counts and reports -/

namespace SearchMetrics

theorem add_assoc (a b c : SearchMetrics) : (a.add b).add c = a.add (b.add c) := by
  simp only [add, Nat.add_assoc]

end SearchMetrics

/-! ## The table of queries -/

/-- A resolver **tells grammars apart** by name if no two that it hands out have the same. -/
def Resolver.TellsApart (resolve : Resolver) : Prop :=
  ∀ p q g h, resolve p = some g → resolve q = some h → g.name = h.name → g = h

section Table

variable (resolve : Resolver) (settings : MatchSettings) (queries : List String)

/-- Whether a grammar of some name is used for one of the files. -/
def usesGrammar (files : List SourceFile) (name : String) : Bool :=
  files.any fun file => (resolve file.path).any (·.name == name)

/-- What becomes of the queries under a grammar. -/
def resultsOf (grammar : Grammar) : QueryResults := queries.map (parseQuery grammar settings)

/-- What a file adds to a search by itself. -/
def reportOf (file : SourceFile) : FileReport :=
  match resolve file.path with
  | none =>
      { errors := [.ofFile file.path (.unsupportedFile file.path)]
        metrics := { filesSeen := 1, filesFailed := 1 } }
  | some grammar =>
      let own := searchFile grammar settings file (resultsOf settings queries grammar)
      { own with metrics := ({ filesSeen := 1 } : SearchMetrics).add own.metrics }

/-- What fails of the queries of a grammar names the grammar. -/
theorem grammar_of_mem_queryFailures {grammar : String} {index : Nat} {results : QueryResults}
    {failure : SearchFailure} (h : failure ∈ queryFailures grammar index results) :
    failure.grammar = some grammar := by
  induction results generalizing index with
  | nil => simp [queryFailures] at h
  | cons result rest ih =>
      cases result with
      | ok query => exact ih h
      | error error =>
          rcases List.mem_cons.1 h with rfl | h
          · rfl
          · exact ih h

/-- What fails of a file names no grammar. -/
theorem grammar_of_mem_reportOf {file : SourceFile} {failure : SearchFailure}
    (h : failure ∈ (reportOf resolve settings queries file).errors) : failure.grammar = none := by
  rw [reportOf] at h
  split at h
  next => rw [List.mem_singleton.1 h]; rfl
  next grammar _ =>
    dsimp only at h
    unfold searchFile at h
    dsimp only at h
    split at h
    next => simp at h
    next =>
      split at h
      next => simp at h
      next =>
        split at h
        next => rw [List.mem_singleton.1 h]; rfl
        next => simp at h

namespace SearchState

/-- Whether the queries are parsed for a grammar of some name. -/
def knows (s : SearchState) (name : String) : Bool := (s.parsed.lookup name).isSome

/-- The state once the queries are parsed for the grammar of a file. -/
def lookUp (s : SearchState) (file : SourceFile) : SearchState :=
  match resolve file.path with
  | none => s
  | some grammar => (s.queriesFor grammar settings queries).2

/-- The table of a state is **sound** if it holds what the queries parse to, for every grammar that
the resolver may hand out, and their hints are there. -/
structure Sound (s : SearchState) : Prop where
  results : ∀ {path grammar results}, resolve path = some grammar →
    s.parsed.lookup grammar.name = some results → results = resultsOf settings queries grammar
  hints : ∀ {path grammar}, resolve path = some grammar → s.knows grammar.name = true →
    s.hints.zipWith addHints ((resultsOf settings queries grammar).map hintsOf) = s.hints

variable {resolve settings queries} {s : SearchState}

theorem queriesFor_eq (grammar : Grammar) :
    (s.queriesFor grammar settings queries).2 =
      if s.knows grammar.name then s
      else
        { s with
          parsed := (grammar.name, resultsOf settings queries grammar) :: s.parsed
          errors := s.errors ++ queryFailures grammar.name 0 (resultsOf settings queries grammar)
          hints :=
            s.hints.zipWith addHints ((resultsOf settings queries grammar).map hintsOf) } := by
  rw [queriesFor, knows]
  cases s.parsed.lookup grammar.name <;> rfl

theorem knows_cons (name : String) (results : QueryResults) (other : String)
    (errors : List SearchFailure) (hints : List (List Hint)) :
    knows { s with parsed := (name, results) :: s.parsed, errors, hints } other =
      (other == name || s.knows other) := by
  rw [knows, knows, List.lookup_cons]
  cases other == name <;> rfl

/-- **A file adds to a state** what it adds by itself, once its grammar is looked up. -/
theorem step_eq (hs : s.Sound resolve settings queries) (file : SourceFile) :
    s.step resolve settings queries file =
      (s.lookUp resolve settings queries file).add (reportOf resolve settings queries file) := by
  rw [step, lookUp, reportOf]
  cases hresolve : resolve file.path with
  | none => simp [add, SearchMetrics.add]
  | some grammar =>
      have hlookup : (s.add { metrics := { filesSeen := 1 } }).queriesFor grammar settings queries =
          (resultsOf settings queries grammar,
            (s.queriesFor grammar settings queries).2.add { metrics := { filesSeen := 1 } }) := by
        cases hparsed : s.parsed.lookup grammar.name with
        | none => simp [queriesFor, add, hparsed, resultsOf]
        | some results =>
            obtain rfl := hs.results hresolve hparsed
            simp [queriesFor, add, hparsed]
      dsimp only
      rw [hlookup]
      simp [add, SearchMetrics.add_assoc]

theorem knows_lookUp (file : SourceFile) (name : String) :
    (s.lookUp resolve settings queries file).knows name =
      (s.knows name || (resolve file.path).any (·.name == name)) := by
  rw [lookUp]
  cases resolve file.path with
  | none => simp
  | some grammar =>
      dsimp only [Option.any_some]
      rw [queriesFor_eq]
      by_cases hname : grammar.name = name
      · subst hname
        by_cases hknown : s.knows grammar.name = true
        · simp [hknown]
        · simp [hknown, knows_cons]
      · have hother : (name == grammar.name) = false := by simpa using fun h => hname h.symm
        by_cases hknown : s.knows grammar.name = true
        · simp [hknown, hname]
        · simp [hknown, knows_cons, hname, hother]

theorem length_hints_lookUp (h : s.hints.length = queries.length) (file : SourceFile) :
    (s.lookUp resolve settings queries file).hints.length = queries.length := by
  rw [lookUp]
  cases resolve file.path with
  | none => exact h
  | some grammar =>
      dsimp only
      rw [queriesFor_eq]
      split
      next => exact h
      next => simp [h, resultsOf]

/-! ### What a run keeps -/

theorem sound_start : (start queries.length).Sound resolve settings queries :=
  ⟨fun _ h => absurd h (by simp [start]), fun _ h => absurd h (by simp [start, knows])⟩

theorem Sound.add (hs : s.Sound resolve settings queries) (report : FileReport) :
    (s.add report).Sound resolve settings queries :=
  ⟨hs.results, hs.hints⟩

theorem Sound.lookUp (hnames : resolve.TellsApart) (hs : s.Sound resolve settings queries)
    (file : SourceFile) :
    (s.lookUp resolve settings queries file).Sound resolve settings queries := by
  rw [SearchState.lookUp]
  cases hresolve : resolve file.path with
  | none => exact hs
  | some grammar =>
      dsimp only
      rw [queriesFor_eq]
      split
      next => exact hs
      next =>
        constructor
        · intro path other results hother hlookup
          rw [List.lookup_cons] at hlookup
          split at hlookup
          next hname =>
            obtain rfl := hnames _ _ _ _ hother hresolve (beq_iff_eq.1 hname)
            exact (Option.some.inj hlookup).symm
          next => exact hs.results hother hlookup
        · intro path other hother hknown
          rw [knows_cons, Bool.or_eq_true] at hknown
          rcases hknown with hname | hknown
          · obtain rfl := hnames _ _ _ _ hother hresolve (beq_iff_eq.1 hname)
            dsimp only
            rw [zipWith_addHints_assoc, zipWith_addHints_self]
          · exact zipWith_addHints_covered _ (hs.hints hother hknown)

theorem Sound.step (hnames : resolve.TellsApart) (hs : s.Sound resolve settings queries)
    (file : SourceFile) : (s.step resolve settings queries file).Sound resolve settings queries :=
  step_eq hs file ▸ (hs.lookUp hnames file).add _

theorem Sound.after (hnames : resolve.TellsApart) (hs : s.Sound resolve settings queries)
    (files : List SourceFile) :
    (s.after resolve settings queries files).Sound resolve settings queries := by
  induction files generalizing s with
  | nil => exact hs
  | cons file rest ih => exact ih (hs.step hnames file)

theorem knows_step (hs : s.Sound resolve settings queries) (file : SourceFile) (name : String) :
    (s.step resolve settings queries file).knows name =
      (s.knows name || (resolve file.path).any (·.name == name)) := by
  rw [step_eq hs, ← knows_lookUp]
  rfl

/-- A state knows the grammars it knew and those of the files since. -/
theorem knows_after (hnames : resolve.TellsApart) (hs : s.Sound resolve settings queries)
    (files : List SourceFile) (name : String) :
    (s.after resolve settings queries files).knows name =
      (s.knows name || usesGrammar resolve files name) := by
  induction files generalizing s with
  | nil => simp [SearchState.after, usesGrammar]
  | cons file rest ih =>
      rw [SearchState.after, List.foldl_cons, ← SearchState.after, ih (hs.step hnames file),
        knows_step hs, usesGrammar, usesGrammar, List.any_cons, Bool.or_assoc]

theorem length_hints_step (hs : s.Sound resolve settings queries)
    (h : s.hints.length = queries.length) (file : SourceFile) :
    (s.step resolve settings queries file).hints.length = queries.length := by
  rw [step_eq hs]
  exact length_hints_lookUp h file

theorem length_hints_after (hnames : resolve.TellsApart) (hs : s.Sound resolve settings queries)
    (h : s.hints.length = queries.length) (files : List SourceFile) :
    (s.after resolve settings queries files).hints.length = queries.length := by
  induction files generalizing s with
  | nil => exact h
  | cons file rest ih => exact ih (hs.step hnames file) (length_hints_step hs h file)

/-! ### One search after another -/

/-- A state **continues** a base with a part if it holds what both do, the part's last, but for
what the part says of queries that the base had parsed already. -/
structure Continues (base part s : SearchState) : Prop where
  found : s.found = base.found ++ part.found
  errors : s.errors = base.errors ++ part.errors.filter fun failure =>
    !failure.grammar.any base.knows
  hints : s.hints = base.hints.zipWith addHints part.hints
  metrics : s.metrics = base.metrics.add part.metrics
  knows : ∀ name, s.knows name = (base.knows name || part.knows name)

variable {base part : SearchState}

/-- A search that has just begun continues nothing. -/
theorem continues_start (h : s.hints.length = queries.length) :
    s.Continues (start queries.length) s where
  found := (List.append_nil _).symm
  errors := (List.append_nil _).symm
  hints := (zipWith_addHints_nil h).symm
  metrics := rfl
  knows _ := (Bool.or_false _).symm

theorem Continues.add (h : base.Continues part s) (file : SourceFile) :
    base.Continues (part.add (reportOf resolve settings queries file))
      (s.add (reportOf resolve settings queries file)) where
  found := by
    dsimp only [SearchState.add]
    rw [h.found, List.append_assoc]
  errors := by
    have hown : (reportOf resolve settings queries file).errors.filter (fun failure =>
        !failure.grammar.any base.knows) = (reportOf resolve settings queries file).errors := by
      refine List.filter_eq_self.2 fun failure hmem => ?_
      rw [grammar_of_mem_reportOf resolve settings queries hmem]
      rfl
    dsimp only [SearchState.add]
    rw [h.errors, List.filter_append, hown, List.append_assoc]
  hints := h.hints
  metrics := by
    dsimp only [SearchState.add]
    rw [h.metrics, SearchMetrics.add_assoc]
  knows := h.knows

theorem Continues.lookUp (hbase : base.Sound resolve settings queries)
    (h : base.Continues part s) (file : SourceFile) :
    base.Continues (part.lookUp resolve settings queries file)
      (s.lookUp resolve settings queries file) := by
  have hknows : ∀ name, (s.lookUp resolve settings queries file).knows name =
      (base.knows name || (part.lookUp resolve settings queries file).knows name) := by
    intro name
    rw [knows_lookUp, knows_lookUp, h.knows, Bool.or_assoc]
  rw [SearchState.lookUp, SearchState.lookUp] at hknows ⊢
  cases hresolve : resolve file.path with
  | none => exact h
  | some grammar =>
      rw [hresolve] at hknows
      dsimp only at hknows ⊢
      rw [queriesFor_eq, queriesFor_eq] at hknows ⊢
      have hkept : (queryFailures grammar.name 0 (resultsOf settings queries grammar)).filter
          (fun failure => !failure.grammar.any base.knows) =
            if base.knows grammar.name then []
            else queryFailures grammar.name 0 (resultsOf settings queries grammar) := by
        split
        next hknown =>
          refine List.filter_eq_nil_iff.2 fun failure hmem => ?_
          rw [grammar_of_mem_queryFailures hmem, Option.any_some, hknown]
          decide
        next hknown =>
          refine List.filter_eq_self.2 fun failure hmem => ?_
          rw [grammar_of_mem_queryFailures hmem, Option.any_some]
          simpa using hknown
      have hsknows := h.knows grammar.name
      cases hpart : part.knows grammar.name with
      | true =>
          rw [hpart, Bool.or_true] at hsknows
          rw [if_pos hsknows, if_pos rfl]
          exact h
      | false =>
          rw [hpart, Bool.or_false] at hsknows
          rw [hpart, if_neg Bool.false_ne_true] at hknows
          rw [if_neg Bool.false_ne_true]
          cases hknown : base.knows grammar.name with
          | true =>
              -- what the part reports of its queries, the base has reported
              rw [hsknows, hknown, if_pos rfl] at hknows ⊢
              refine ⟨h.found, ?_, ?_, h.metrics, hknows⟩
              · dsimp only
                rw [List.filter_append, hkept, hknown, if_pos rfl, List.append_nil, h.errors]
              · dsimp only
                rw [← zipWith_addHints_assoc, ← h.hints, h.hints,
                  zipWith_addHints_covered _ (hbase.hints hresolve hknown)]
          | false =>
              rw [hsknows, hknown, if_neg Bool.false_ne_true] at hknows ⊢
              refine ⟨h.found, ?_, ?_, h.metrics, hknows⟩
              · dsimp only
                rw [List.filter_append, hkept, hknown, if_neg Bool.false_ne_true, h.errors,
                  List.append_assoc]
              · dsimp only
                rw [h.hints, zipWith_addHints_assoc]

theorem Continues.step (hbase : base.Sound resolve settings queries)
    (hpart : part.Sound resolve settings queries) (hs : s.Sound resolve settings queries)
    (h : base.Continues part s) (file : SourceFile) :
    base.Continues (part.step resolve settings queries file)
      (s.step resolve settings queries file) := by
  rw [step_eq hpart, step_eq hs]
  exact (h.lookUp hbase file).add file

/-- **A search goes on** from a base as it would from the start, each of its files adding the
same. -/
theorem Continues.after (hnames : resolve.TellsApart) (hbase : base.Sound resolve settings queries)
    (hpart : part.Sound resolve settings queries) (hs : s.Sound resolve settings queries)
    (h : base.Continues part s) (files : List SourceFile) :
    base.Continues (part.after resolve settings queries files)
      (s.after resolve settings queries files) := by
  induction files generalizing part s with
  | nil => exact h
  | cons file rest ih =>
      exact ih (hpart.step hnames file) (hs.step hnames file) (h.step hbase hpart hs file)

end SearchState

end Table

/-! ## Repetitions -/

namespace Match

/-- What is dropped later anyway may be dropped before. -/
theorem dedupFrom_dedupFrom_append {seen earlier : List (List String × Nat × Nat)}
    (h : earlier ⊆ seen) (xs ys : List Match) :
    dedupFrom seen (dedupFrom earlier xs ++ ys) = dedupFrom seen (xs ++ ys) := by
  induction xs generalizing seen earlier with
  | nil => rfl
  | cons m rest ih =>
      rw [dedupFrom, List.cons_append]
      split
      next hearlier =>
        have hseen : seen.contains m.site = true :=
          List.contains_iff_mem.2 (h (List.contains_iff_mem.1 hearlier))
        rw [ih h, dedupFrom, if_pos hseen]
      next =>
        rw [List.cons_append, dedupFrom, dedupFrom]
        split
        next hseen => exact ih (List.cons_subset.2 ⟨List.contains_iff_mem.1 hseen, h⟩)
        next => rw [ih (List.cons_subset_cons _ h)]

theorem dedupFrom_append_dedupFrom {seen earlier : List (List String × Nat × Nat)}
    (h : earlier ⊆ seen) (xs ys : List Match) :
    dedupFrom seen (xs ++ dedupFrom earlier ys) = dedupFrom seen (xs ++ ys) := by
  induction xs generalizing seen with
  | nil => simpa using dedupFrom_dedupFrom_append h ys []
  | cons m rest ih =>
      rw [List.cons_append, List.cons_append, dedupFrom, dedupFrom]
      split
      next => exact ih h
      next => rw [ih (List.subset_cons_of_subset _ h)]

theorem dedup_append_dedup (xs ys : List Match) : dedup (xs ++ dedup ys) = dedup (xs ++ ys) :=
  dedupFrom_append_dedupFrom (List.Subset.refl _) xs ys

/-- Repetitions within two parts may be dropped before those across them. -/
theorem dedup_dedup_append_dedup (xs ys : List Match) :
    dedup (dedup xs ++ dedup ys) = dedup (xs ++ ys) := by
  rw [dedup_append_dedup]
  exact dedupFrom_dedupFrom_append (List.Subset.refl _) xs ys

theorem dedupFrom_eq_eraseDupsBy (seen : List (List String × Nat × Nat)) (found : List Match) :
    dedupFrom seen found =
      (found.filter fun m => !seen.contains m.site).eraseDupsBy fun m m' => m.site == m'.site := by
  induction found generalizing seen with
  | nil => rfl
  | cons m rest ih =>
      rw [dedupFrom]
      split
      next hseen => rw [List.filter_cons_of_neg (by simpa using hseen), ih]
      next hseen =>
        rw [List.filter_cons_of_pos (by simpa using hseen), List.eraseDupsBy_cons, ih,
          List.filter_filter]
        refine congrArg (m :: List.eraseDupsBy _ ·) (List.filter_congr fun m' _ => ?_)
        simp only [List.contains_cons, Bool.not_or, BEq.comm (a := m'.site)]
        cases m.site == m'.site <;> rfl

/-- Repetitions are matches at the site of an earlier one. -/
theorem dedup_eq_eraseDupsBy (found : List Match) :
    dedup found = found.eraseDupsBy fun m m' => m.site == m'.site := by
  rw [dedup, dedupFrom_eq_eraseDupsBy]
  simp

end Match

/-! ## Searches of more files -/

section Parts

variable (resolve : Resolver) (config : SearchConfig) (queries : List String)

/-- What a whole search comes to after some files and further ones. -/
theorem wholeSearch_append (hnames : resolve.TellsApart) (xs ys : List SourceFile) :
    let all := wholeSearch resolve config queries (xs ++ ys)
    let first := wholeSearch resolve config queries xs
    let second := wholeSearch resolve config queries ys
    all.found = Match.dedup (first.found ++ second.found) ∧
      all.metrics = first.metrics.add second.metrics ∧
      all.errors = first.errors ++ second.errors.filter (fun failure =>
        !failure.grammar.any (usesGrammar resolve xs)) ∧
      all.hints = first.hints.zipWith addHints second.hints := by
  have hstart : (SearchState.start queries.length).Sound resolve config queries :=
    SearchState.sound_start
  have hbase := hstart.after hnames xs
  have hlength := SearchState.length_hints_after hnames hstart (by simp [SearchState.start]) xs
  have h := (SearchState.continues_start hlength).after hnames hbase hstart hbase ys
  have hused : ((SearchState.start queries.length).after resolve config queries xs).knows =
      usesGrammar resolve xs := by
    funext name
    rw [SearchState.knows_after hnames hstart]
    simp [SearchState.start, SearchState.knows]
  intro all first second
  simp only [all, first, second, wholeSearch_eq, SearchState.after_append]
  refine ⟨?_, h.metrics, ?_, h.hints⟩
  · rw [h.found, Match.dedup_dedup_append_dedup]
  · rw [h.errors, hused]

/-- **Files are searched independently.** Where grammars are told apart by their names, a search of
more files without a limit finds what two searches of the parts find, but for the sites that both
found; its counts are the sums of theirs; it reports what they report, but for what the second says
of queries under a grammar that the first had used. So what it finds in a file is what a search of
that file alone finds. -/
theorem search_append (hnames : resolve.TellsApart) (xs ys : List SourceFile) :
    let run (files : List SourceFile) :=
      search resolve { config with maxResults := none } queries files none
    let atOnce (found : List Match) := found.eraseDupsBy fun m m' => m.site == m'.site
    (run (xs ++ ys)).found = atOnce ((run xs).found ++ (run ys).found) ∧
      (run (xs ++ ys)).metrics = (run xs).metrics.add (run ys).metrics ∧
      (run (xs ++ ys)).errors = (run xs).errors ++ (run ys).errors.filter (fun failure =>
        !failure.grammar.any (usesGrammar resolve xs)) ∧
      (run (xs ++ ys)).hints = (run xs).hints.zipWith addHints (run ys).hints ∧
      (run (xs ++ ys)).found = atOnce ((xs ++ ys).flatMap fun file => (run [file]).found) := by
  intro run atOnce
  have happend := wholeSearch_append resolve config queries hnames
  have hatOnce : ∀ found, atOnce found = Match.dedup found := fun found =>
    (Match.dedup_eq_eraseDupsBy found).symm
  have hfiles : ∀ files, (run files).found =
      atOnce (files.flatMap fun file => (run [file]).found) := by
    intro files
    induction files with
    | nil => rfl
    | cons file rest ih =>
        obtain ⟨hfound, -⟩ := happend [file] rest
        calc (run ([file] ++ rest)).found
          _ = Match.dedup ((run [file]).found ++ (run rest).found) := hfound
          _ = Match.dedup ((run [file]).found ++ rest.flatMap fun file => (run [file]).found) := by
              rw [ih, hatOnce, Match.dedup_append_dedup]
          _ = _ := (hatOnce _).symm
  obtain ⟨hfound, hmetrics, herrors, hhints⟩ := happend xs ys
  exact ⟨hfound.trans (hatOnce _).symm, hmetrics, herrors, hhints, hfiles _⟩

end Parts

/-- A word in three files, two of them one file, and a query of nothing: the second search finds the
first file's word again and rejects the empty query again. -/
theorem search_append_words :
    let run (files : List SourceFile) :=
      search (fun _ => some wordGrammar) {} ["x", ""] files none
    let all := run ([⟨"a", "x"⟩] ++ [⟨"b", "x"⟩, ⟨"a", "x"⟩])
    all.metrics.rawMatches = 3 ∧ all.found.length = 2 ∧ all.errors.length = 1 := by
  intro run all
  have hnames : Resolver.TellsApart fun _ => some wordGrammar := fun _ _ _ _ hg hh _ =>
    (Option.some.inj hg).symm.trans (Option.some.inj hh)
  obtain ⟨hfound, hmetrics, herrors, -⟩ := search_append _ {} ["x", ""] hnames
    [⟨"a", "x"⟩] [⟨"b", "x"⟩, ⟨"a", "x"⟩]
  exact ⟨(congrArg SearchMetrics.rawMatches hmetrics).trans (by decide +kernel),
    (congrArg List.length hfound).trans (by decide +kernel),
    (congrArg List.length herrors).trans (by decide +kernel)⟩

end CodeSearch

import CodeSearch.CommandLine.Run

/-!
# What the exit status tells

A run tells matches, failures and hints, one after another: its **report**. The exit status follows
from it. It tells of every failure but two: that a file has no grammar, and that a file does not
parse. A run that reports nothing worse ends as if those files had not been there (`run_exit`),
though a file that cannot be read makes it fail.
-/

set_option autoImplicit false

namespace CodeSearch

/-! ## Failures of queries and of files -/

/-- Whether an error is that a file has no grammar or does not parse. -/
def SearchError.rejectsFile : SearchError → Bool
  | fileParse _ _ | unsupportedFile _ => true
  | _ => false

/-- A failure names a query, unless its error is that a file is rejected; then it names none. -/
def SearchFailure.Placed (f : SearchFailure) : Prop :=
  f.queryIndex.isSome = !f.error.rejectsFile

theorem rejectsFile_of_parseQuery {grammar : Grammar} {settings : MatchSettings} {text : String}
    {error : SearchError} (h : parseQuery grammar settings text = .error error) :
    error.rejectsFile = false := by
  rw [parseQuery] at h
  split at h
  next => obtain rfl := Except.error.inj h; rfl
  next =>
    split at h
    next => obtain rfl := Except.error.inj h; rfl
    next =>
      split at h
      next => obtain rfl := Except.error.inj h; rfl
      next =>
        dsimp only at h
        split at h
        next => obtain rfl := Except.error.inj h; rfl
        next => simp at h

theorem placed_of_mem_queryFailures {grammar : Grammar} {settings : MatchSettings}
    {queries : List String} {index : Nat} {failure : SearchFailure}
    (h : failure ∈ queryFailures grammar.name index (queries.map (parseQuery grammar settings))) :
    failure.Placed := by
  induction queries generalizing index with
  | nil => simp [queryFailures] at h
  | cons text rest ih =>
      rw [List.map_cons] at h
      cases hparse : parseQuery grammar settings text with
      | ok query =>
          rw [hparse, queryFailures] at h
          exact ih h
      | error error =>
          rw [hparse, queryFailures] at h
          rcases List.mem_cons.1 h with rfl | h
          · simp [SearchFailure.Placed, SearchFailure.ofQuery, rejectsFile_of_parseQuery hparse]
          · exact ih h

theorem placed_of_mem_searchFile {grammar : Grammar} {settings : MatchSettings}
    {file : SourceFile} {results : QueryResults} {failure : SearchFailure}
    (h : failure ∈ (searchFile grammar settings file results).errors) : failure.Placed := by
  unfold searchFile at h
  dsimp only at h
  split at h
  next => simp at h
  next =>
    split at h
    next => simp at h
    next =>
      split at h
      next =>
        obtain rfl := List.mem_singleton.1 h
        rfl
      next => simp at h

section Search

variable {resolve : Resolver} {queries : List String}

/-- One more file adds only failures that name a query, or whose file is rejected. -/
theorem placed_step {settings : MatchSettings} {s : SearchState}
    (hs : ∀ failure ∈ s.errors, failure.Placed) (file : SourceFile) :
    ∀ failure ∈ (s.step resolve settings queries file).errors, failure.Placed := by
  unfold SearchState.step
  dsimp only
  intro failure h
  split at h
  next =>
    rcases List.mem_append.1 h with h | h
    · exact hs failure (by simpa [SearchState.add] using h)
    · obtain rfl := List.mem_singleton.1 h
      rfl
  next grammar _ =>
    rcases List.mem_append.1 h with h | h
    · rw [SearchState.queriesFor] at h
      split at h
      next => exact hs failure (by simpa [SearchState.add] using h)
      next =>
        rcases List.mem_append.1 h with h | h
        · exact hs failure (by simpa [SearchState.add] using h)
        · exact placed_of_mem_queryFailures h
    · exact placed_of_mem_searchFile h

/-- **The failures of a search** name a query, all but those of the files it rejects. -/
theorem placed_of_mem_search {config : SearchConfig} {files : List SourceFile}
    {stopAt : Option Nat} :
    ∀ failure ∈ (search resolve config queries files stopAt).errors, failure.Placed := by
  have hrun : ∀ (files : List SourceFile) (index : Nat) (s : SearchState),
      (∀ failure ∈ s.errors, failure.Placed) →
      ∀ failure ∈ (s.run resolve config queries stopAt index files).1.errors,
        failure.Placed := by
    -- from any state whose failures are placed, one file after another
    intro files
    induction files with
    | nil => exact fun _ _ hs => hs
    | cons file rest ih =>
        intro index s hs
        rw [SearchState.run]
        split
        next => exact hs
        next => exact ih (index + 1) _ (placed_step hs file)
  exact hrun files 0 (.start queries.length) (by simp [SearchState.start])

end Search

/-! ## Reports -/

/-- One thing that a run tells. -/
inductive Notice where
  | found (m : Match)
  /-- The failure of a query or a file. -/
  | failure (f : SearchFailure)
  /-- What went wrong outside the search. -/
  | problem (p : RunProblem)
  /-- What kept the run from searching at all. -/
  | abandoned (p : RunProblem)
  | hint (index : Nat) (hint : Hint)

namespace Notice

/-- What is written for a notice. -/
def render (asJson : Bool) : Notice → Output
  | found m => reportMatch asJson m
  | failure f => reportFailure asJson f
  | problem p => reportProblem asJson p.message
  | abandoned p => .errorLine p.message
  | hint index h => reportHint index h

/-- Whether a match is told. -/
def isMatch : Notice → Bool
  | found _ => true
  | _ => false

/-- Whether something is told that could not be used: a query, a path or a file. -/
def isFailure : Notice → Bool
  | failure _ | problem _ | abandoned _ => true
  | found _ | hint _ _ => false

/-- Whether it is told that a file has no grammar or does not parse. -/
def rejectsFile : Notice → Bool
  | failure f => f.error.rejectsFile
  | _ => false

end Notice

/-- Notices of the hints on queries, the first of which has the given place. -/
def hintNotices (index : Nat) : List (List Hint) → List Notice
  | [] => []
  | hints :: rest => hints.map (.hint index) ++ hintNotices (index + 1) rest

/-- What a run reports that met some problems besides its search. -/
def SearchOutcome.notices (outcome : SearchOutcome) (problems : List RunProblem) : List Notice :=
  outcome.found.map .found ++ outcome.errors.map .failure ++ problems.map .problem ++
    hintNotices 0 outcome.hints

/-- What a run reports once it has its queries. -/
def Options.searchReport (o : Options) (around : Surroundings) (queries : List String) :
    List Notice :=
  let registry := o.registry around
  let discovery := Discovery.ofRoots registry around o.roots
  let read := o.readFiles around discovery.files
  let outcome := CodeSearch.search registry.resolve o.config queries (sourceFiles read) none
  outcome.notices (discovery.problems ++ unreadableFiles read outcome.cut)

/-- **What a run reports** that does what the options say. -/
def Options.report (o : Options) (around : Surroundings) : List Notice :=
  match around.telemetry.initialise o.logFilter with
  | .error problem => [.abandoned problem]
  | .ok _ =>
      match o.allQueries around with
      | .error problem => [.abandoned problem]
      | .ok queries => o.searchReport around queries

/-- How a run ends that reports some notices, if those of some kind make it fail. -/
def statusOfReport (fails : Notice → Bool) (report : List Notice) : RunStatus :=
  if report.any fails then .failed else if report.any Notice.isMatch then .matched else .noMatch

/-- Whether a notice makes a run fail: a failure does, unless it is that a file has no grammar or
does not parse. -/
def Notice.counts (n : Notice) : Bool := n.isFailure && !n.rejectsFile

theorem render_hintNotices (asJson : Bool) (index : Nat) (hints : List (List Hint)) :
    (hintNotices index hints).map (Notice.render asJson) = reportHints index hints := by
  induction hints generalizing index with
  | nil => rfl
  | cons first rest ih =>
      rw [hintNotices, reportHints, List.map_append, ih, List.map_map]
      rfl

/-- What holds of no notice of one form holds of none in a list of that form. -/
theorem any_comp_eq_false {α : Type} {p : Notice → Bool} {form : α → Notice}
    (hp : ∀ a, p (form a) = false) (as : List α) : as.any (p ∘ form) = false :=
  List.any_eq_false.2 fun a _ => by simp [hp]

theorem any_hintNotices {p : Notice → Bool} (hp : ∀ index h, p (.hint index h) = false)
    (index : Nat) (hints : List (List Hint)) : (hintNotices index hints).any p = false := by
  induction hints generalizing index with
  | nil => rfl
  | cons first rest ih =>
      rw [hintNotices, List.any_append, ih, Bool.or_false, List.any_map]
      exact any_comp_eq_false (hp index) first

theorem render_notices (asJson : Bool) (outcome : SearchOutcome) (problems : List RunProblem) :
    (outcome.notices problems).map (Notice.render asJson) =
      outcome.found.map (reportMatch asJson) ++ outcome.errors.map (reportFailure asJson) ++
        problems.map (fun problem => reportProblem asJson problem.message) ++
        reportHints 0 outcome.hints := by
  simp only [SearchOutcome.notices, List.map_append, List.map_map, render_hintNotices]
  rfl

/-- **A run ends as its notices say.** -/
theorem statusOf_eq {outcome : SearchOutcome} (herrors : ∀ failure ∈ outcome.errors, failure.Placed)
    (problems : List RunProblem) :
    statusOf outcome problems = statusOfReport Notice.counts (outcome.notices problems) := by
  have hfailures : outcome.errors.any (Notice.counts ∘ Notice.failure) =
      outcome.errors.any (·.queryIndex.isSome) := by
    rw [Bool.eq_iff_iff, List.any_eq_true, List.any_eq_true]
    refine exists_congr fun failure => and_congr_right fun h => ?_
    rw [herrors failure h]
    rfl
  have hproblems : problems.any (Notice.counts ∘ Notice.problem) = !problems.isEmpty := by
    cases problems <;> rfl
  have hfound : outcome.found.any (Notice.isMatch ∘ Notice.found) = !outcome.found.isEmpty := by
    cases outcome.found <;> rfl
  -- matches and hints do not count, and only matches are told as such
  have hmatches : outcome.found.any (Notice.counts ∘ Notice.found) = false :=
    any_comp_eq_false (fun _ => rfl) _
  have herrors' : outcome.errors.any (Notice.isMatch ∘ Notice.failure) = false :=
    any_comp_eq_false (fun _ => rfl) _
  have hproblems' : problems.any (Notice.isMatch ∘ Notice.problem) = false :=
    any_comp_eq_false (fun _ => rfl) _
  have hcounts := any_hintNotices (p := Notice.counts) (fun _ _ => rfl) 0 outcome.hints
  have hhints := any_hintNotices (p := Notice.isMatch) (fun _ _ => rfl) 0 outcome.hints
  rw [statusOf, statusOfReport, SearchOutcome.notices]
  simp only [List.any_append, List.any_map, hfailures, hproblems, hfound, hmatches, herrors',
    hproblems', hcounts, hhints, Bool.false_or, Bool.or_false]
  rw [Bool.or_comm]
  cases outcome.found.isEmpty <;> rfl

/-- A run that has its queries writes its report and ends as the notices that count say. -/
theorem Options.search_eq (o : Options) (around : Surroundings) (queries : List String) :
    o.search around queries =
      { output := .concat ((o.searchReport around queries).map
          (Notice.render (o.output.isJson around.isTerminal)))
        exit := (statusOfReport Notice.counts (o.searchReport around queries)).code } := by
  rw [Options.search, Options.searchReport, render_notices, ← statusOf_eq placed_of_mem_search]

theorem concat_errorLine (text : String) : Output.concat [.errorLine text] = .errorLine text := by
  change Output.append {} (.errorLine text) = .errorLine text
  simp [Output.append, Output.errorLine]

/-- A run that could not search at all tells why, in one line. -/
theorem RunResult.ofProblem_eq (asJson : Bool) (problem : RunProblem) :
    RunResult.ofProblem problem =
      { output := .concat ([Notice.abandoned problem].map (Notice.render asJson))
        exit := (statusOfReport Notice.counts [.abandoned problem]).code } := by
  rw [List.map_singleton, Notice.render, concat_errorLine]
  rfl

/-- **A run writes its report** and ends as the notices that count say. -/
theorem run_eq {arguments : List String} {options : Options} {around : Surroundings}
    (hoptions : around.parseArguments arguments = .ok options) :
    run arguments around =
      { output := .concat ((options.report around).map
          (Notice.render (options.output.isJson around.isTerminal)))
        exit := (statusOfReport Notice.counts (options.report around)).code } := by
  rw [run, hoptions]
  dsimp only
  rw [Options.execute, Options.report]
  -- the run is abandoned where diagnostics or queries cannot be had, and searches otherwise
  cases around.telemetry.initialise options.logFilter with
  | error problem => exact RunResult.ofProblem_eq _ problem
  | ok _ =>
      cases options.allQueries around with
      | error problem => exact RunResult.ofProblem_eq _ problem
      | ok queries => exact options.search_eq around queries

/-! ## Statuses -/

section Status

variable {fails : Notice → Bool} {report : List Notice}

theorem code_eq_two_iff :
    (statusOfReport fails report).code = 2 ↔ ∃ n ∈ report, fails n = true := by
  rw [← List.any_eq_true, statusOfReport]
  cases report.any fails <;> cases report.any Notice.isMatch <;> decide

theorem code_eq_zero_iff :
    (statusOfReport fails report).code = 0 ↔
      (∀ n ∈ report, fails n = false) ∧ ∃ n ∈ report, n.isMatch = true := by
  have hnone : (∀ n ∈ report, fails n = false) ↔ report.any fails = false := by
    simp only [List.any_eq_false, Bool.not_eq_true]
  rw [hnone, ← List.any_eq_true, statusOfReport]
  cases report.any fails <;> cases report.any Notice.isMatch <;> decide

theorem code_eq_one_iff :
    (statusOfReport fails report).code = 1 ↔
      (∀ n ∈ report, fails n = false) ∧ ∀ n ∈ report, n.isMatch = false := by
  have hnone : ∀ p : Notice → Bool, (∀ n ∈ report, p n = false) ↔ report.any p = false := by
    simp only [List.any_eq_false, Bool.not_eq_true, implies_true]
  rw [hnone, hnone, statusOfReport]
  cases report.any fails <;> cases report.any Notice.isMatch <;> decide

end Status

/-- The status that tells of all failures is the one that tells of those that count exactly if one
of these counts, or there is none at all. -/
theorem code_counts_eq_iff (report : List Notice) :
    (statusOfReport Notice.counts report).code = (statusOfReport Notice.isFailure report).code ↔
      ((∃ n ∈ report, n.isFailure = true) → ∃ n ∈ report, n.counts = true) := by
  have hcounts : report.any Notice.counts = true → report.any Notice.isFailure = true := by
    rw [List.any_eq_true, List.any_eq_true]
    rintro ⟨n, hn, h⟩
    exact ⟨n, hn, (Bool.and_eq_true_iff.1 h).1⟩
  rw [← List.any_eq_true, ← List.any_eq_true, statusOfReport, statusOfReport]
  revert hcounts
  cases report.any Notice.counts <;> cases report.any Notice.isFailure <;>
    cases report.any Notice.isMatch <;> decide

/-- **What the exit status tells.** A run whose arguments make sense writes its report, whatever
reads its arguments, walks, reads files and parses. It ends with 2 if a failure is among what it
reports, other than that a file has no grammar or does not parse; else with 0 if a match is, and
with 1 if none is. So its status tells of all failures exactly if there are none, or one besides
those of such files. -/
theorem run_exit {arguments : List String} {options : Options} {around : Surroundings}
    (hoptions : around.parseArguments arguments = .ok options) :
    let report := options.report around
    let result := run arguments around
    result.output =
        .concat (report.map (Notice.render (options.output.isJson around.isTerminal))) ∧
      (result.exit = 2 ↔ ∃ n ∈ report, n.isFailure = true ∧ n.rejectsFile = false) ∧
      (result.exit = 0 ↔ (∀ n ∈ report, n.isFailure = true → n.rejectsFile = true) ∧
        ∃ n ∈ report, n.isMatch = true) ∧
      (result.exit = 1 ↔ (∀ n ∈ report, n.isFailure = true → n.rejectsFile = true) ∧
        ∀ n ∈ report, n.isMatch = false) ∧
      (result.exit = (statusOfReport Notice.isFailure report).code ↔
        ((∃ n ∈ report, n.isFailure = true) →
          ∃ n ∈ report, n.isFailure = true ∧ n.rejectsFile = false)) := by
  have hcounts : ∀ n : Notice,
      n.counts = true ↔ n.isFailure = true ∧ n.rejectsFile = false := by
    intro n
    rw [Notice.counts, Bool.and_eq_true, Bool.not_eq_true']
  have hspares : ∀ n : Notice,
      n.counts = false ↔ (n.isFailure = true → n.rejectsFile = true) := by
    intro n
    rw [Notice.counts]
    cases n.isFailure <;> cases n.rejectsFile <;> decide
  rw [run_eq hoptions]
  simp only [← hcounts, ← hspares]
  exact ⟨trivial, code_eq_two_iff, code_eq_zero_iff, code_eq_one_iff, code_counts_eq_iff _⟩

/-- Queries, each after `-q`, and paths. -/
def queriesAndPaths : List String → Options
  | "-q" :: query :: rest =>
      let options := queriesAndPaths rest
      { options with queries := query :: options.queries }
  | path :: rest =>
      let options := queriesAndPaths rest
      { options with paths := path :: options.paths }
  | [] => {}

/-- A directory with one file, which is in no known language. The arguments are queries and
paths. -/
def notesOnly : Surroundings where
  parseArguments arguments := .ok (queriesAndPaths arguments)
  telemetry := { filterError? := fun _ => none }
  walk roots := roots.map fun path =>
    if path = "notes.txt" then .ok ⟨some path, 0, true⟩
    else
      .error
        { cause := .withDepth (.withPath path)
          reason := path ++ ": IO error for operation on " ++ path ++
            ": No such file or directory (os error 2)" }
  readText _ path :=
    if path = "notes.txt" then .ok "run()"
    else .error { reason := "No such file or directory (os error 2)" }
  parsers := { tree := fun _ _ => none, types := fun _ => [] }
  isTerminal := false

/-- Where a file in no known language and a path to nothing are searched, both failures are
reported, and the second makes the run fail. -/
theorem run_exit_missing :
    let arguments := ["-q", "run()", "notes.txt", "gone.js"]
    let options : Options := { queries := ["run()"], paths := ["notes.txt", "gone.js"] }
    notesOnly.parseArguments arguments = .ok options ∧
      (∃ n ∈ options.report notesOnly, n.isFailure = true ∧ n.rejectsFile = false) ∧
      (run arguments notesOnly).exit = 2 := by
  intro arguments options
  have hoptions : notesOnly.parseArguments arguments = .ok options := by rfl
  have hmissing : ∃ n ∈ options.report notesOnly,
      n.isFailure = true ∧ n.rejectsFile = false := by
    have hany : (options.report notesOnly).any
        (fun n => n.isFailure && !n.rejectsFile) = true := by decide +kernel
    simpa using hany
  obtain ⟨-, htwo, -⟩ := run_exit hoptions
  exact ⟨hoptions, hmissing, htwo.2 hmissing⟩

/-- A file that is named and is in no known language is reported as a failure, but the run ends as
if it had just found nothing. -/
theorem exit_passes_over_unsupported :
    ¬ ∀ (arguments : List String) (options : Options) (around : Surroundings),
      around.parseArguments arguments = .ok options →
      around.telemetry.initialise options.logFilter = .ok () → options.queries ≠ [] →
      ((run arguments around).exit = 2 ↔ ∃ n ∈ options.report around, n.isFailure = true) := by
  intro h
  let options : Options := { queries := ["run()"], paths := ["notes.txt"] }
  have hexit : (run ["-q", "run()", "notes.txt"] notesOnly).exit = 1 := by decide +kernel
  have hreported : (options.report notesOnly).any Notice.isFailure = true := by decide +kernel
  have htwo := (h ["-q", "run()", "notes.txt"] options notesOnly rfl rfl (by decide)).2
    (List.any_eq_true.1 hreported)
  rw [hexit] at htwo
  exact absurd htwo (by decide)

end CodeSearch

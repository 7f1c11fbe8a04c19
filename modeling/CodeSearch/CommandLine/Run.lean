import CodeSearch.CommandLine.Discovery
import CodeSearch.CommandLine.Report
import CodeSearch.Text.Blank

/-!
# Running a search from the command line

The exit status is 0 when something matched, 1 when nothing did, and 2 when a query could not
be used, a path leads nowhere, a file cannot be read, or the arguments make no sense. Files
that are not text are left out.
-/

set_option autoImplicit false

namespace CodeSearch

/-- How a run ended. -/
inductive RunStatus where
  | matched
  | noMatch
  | failed
  deriving DecidableEq, Repr

/-- The exit status of a run. -/
def RunStatus.code : RunStatus → Nat
  | matched => 0
  | noMatch => 1
  | failed => 2

/-- What a run wrote and its exit status. -/
structure RunResult where
  output : Output
  exit : Nat
  deriving DecidableEq, Repr

/-- All queries asked for, those in files without the blanks at their end. -/
def Options.allQueries (o : Options) (around : Surroundings) : Except RunProblem (List String) := do
  let read ← o.queryFiles.zipIdx.mapM fun (path, index) =>
    match around.readText index path with
    | .ok text => .ok (String.ofList (Text.trimEnd text.toList))
    | .error error => .error (.queryFile path error.reason)
  let queries := o.queries ++ read
  if queries.isEmpty then .error .missingQuery else .ok queries

/-- What the files to search give, which are read one after another, after all queries. -/
def Options.readFiles (o : Options) (around : Surroundings) (files : List String) :
    List (String × Except ReadError String) :=
  (files.zipIdx o.queryFiles.length).map fun (path, index) => (path, around.readText index path)

/-- The files among those read that have a text. -/
def sourceFiles (read : List (String × Except ReadError String)) : List SourceFile :=
  read.filterMap fun (path, content) =>
    match content with
    | .ok content => some ⟨path, content⟩
    | .error _ => none

/-- The files that could not be read among those taken up: all, or those before the file with
a text at which the search ended. A file whose bytes are no text is just left out. -/
def unreadableFiles : List (String × Except ReadError String) → Option Nat → List RunProblem
  | [], _ => []
  | (path, .error error) :: rest, cut =>
      if error.isInvalidData then unreadableFiles rest cut
      else .readFile path error.reason :: unreadableFiles rest cut
  | (_, .ok _) :: _, some 0 => []
  | (_, .ok _) :: rest, some (cut + 1) => unreadableFiles rest (some cut)
  | (_, .ok _) :: rest, none => unreadableFiles rest none

/-- Reports the hints on queries, the first of which has the given place. -/
def reportHints (index : Nat) : List (List Hint) → List Output
  | [] => []
  | hints :: rest => hints.map (reportHint index) ++ reportHints (index + 1) rest

/-- How a search ended that met these problems. -/
def statusOf (outcome : SearchOutcome) (problems : List RunProblem) : RunStatus :=
  if !problems.isEmpty || outcome.errors.any (·.queryIndex.isSome) then .failed
  else if outcome.found.isEmpty then .noMatch
  else .matched

/-- The languages of the files, as the options say. -/
def Options.registry (o : Options) (around : Surroundings) : Registry :=
  { parsers := around.parsers, markers := o.config.markers, forced := o.language }

/-- Searches for queries as the options say. -/
def Options.search (o : Options) (around : Surroundings) (queries : List String) : RunResult :=
  let registry := o.registry around
  let asJson := o.output.isJson around.isTerminal
  let discovery := Discovery.ofRoots registry around o.roots
  let read := o.readFiles around discovery.files
  let outcome := CodeSearch.search registry.resolve o.config queries (sourceFiles read) none
  let problems := discovery.problems ++ unreadableFiles read outcome.cut
  -- matches first, then failures, then what the search never saw; hints come last
  { output := .concat
      (outcome.found.map (reportMatch asJson) ++ outcome.errors.map (reportFailure asJson) ++
        problems.map (fun problem => reportProblem asJson problem.message) ++
        reportHints 0 outcome.hints)
    exit := (statusOf outcome problems).code }

/-- Does what the options say. -/
def Options.execute (o : Options) (around : Surroundings) : Except RunProblem RunResult := do
  around.telemetry.initialise o.logFilter
  let queries ← o.allQueries around
  .ok (o.search around queries)

/-- How a run ends that could not search at all. -/
def RunResult.ofProblem (problem : RunProblem) : RunResult :=
  ⟨.errorLine problem.message, RunStatus.failed.code⟩

/-- Runs the program with arguments. -/
def run (arguments : List String) (around : Surroundings) : RunResult :=
  match around.parseArguments arguments with
  | .error (.shown text) => ⟨{ stdout := text }, 0⟩
  | .error (.usage text) => .ofProblem (.usage text)
  | .ok options =>
      match options.execute around with
      | .ok result => result
      | .error problem => .ofProblem problem

end CodeSearch

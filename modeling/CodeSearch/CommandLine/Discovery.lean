import CodeSearch.CommandLine.Surroundings

/-!
# Finding the files to search

The paths that were asked for are walked. A file that was named itself is always searched, a file
below a directory only if it is in a known language. What the walk could not get at is a problem.
-/

set_option autoImplicit false

namespace CodeSearch

/-- Why diagnostics cannot be set up. -/
inductive TelemetryError where
  | filter (reason : String)
  | subscriber (reason : String)
  deriving DecidableEq, Repr

/-- The reason in words. -/
def TelemetryError.message : TelemetryError → String
  | filter reason => "invalid log filter: " ++ reason
  | subscriber reason => "failed to install telemetry subscriber: " ++ reason

/-- What goes wrong outside the search itself. -/
inductive RunProblem where
  | usage (text : String)
  | missingQuery
  | queryFile (path reason : String)
  | telemetry (error : TelemetryError)
  | walk (path reason : String)
  | readFile (path reason : String)
  deriving DecidableEq, Repr

/-- The problem in words. -/
def RunProblem.message : RunProblem → String
  | usage text => text
  | missingQuery => "no query given; pass one with --query or --query-file"
  | queryFile path reason => "failed to read query file " ++ path ++ ": " ++ reason
  | telemetry error => "failed to initialise logging: " ++ error.message
  | walk path reason => "failed to walk " ++ path ++ ": " ++ reason
  | readFile path reason => "failed to read " ++ path ++ ": " ++ reason

/-- Sets up diagnostics, unless an earlier run has. -/
def Telemetry.initialise (t : Telemetry) (filter : String) : Except RunProblem Unit :=
  if t.isInstalled then .ok ()
  else
    match t.filterError? filter with
    | some reason => .error (.telemetry (.filter reason))
    | none =>
        match t.subscriberError? with
        | some reason => .error (.telemetry (.subscriber reason))
        | none => .ok ()

/-- The path that an error on a walk is reported for. -/
def WalkCause.failingPath : WalkCause → String
  | withPath path => path
  | withDepth cause | withLineNumber cause => cause.failingPath
  | other => "."

/-- The problem that an error on a walk is. -/
def WalkError.problem (e : WalkError) : RunProblem := .walk e.cause.failingPath e.reason

/-- The file to search that an entry is, if it is one. -/
def WalkEntry.file? (e : WalkEntry) (registry : Registry) : Option String :=
  if e.isFile then
    e.path?.filter fun path => e.depth == 0 || (registry.languageFor? path).isSome
  else none

/-- The files to search and what could not be walked. -/
structure Discovery where
  files : List String := []
  problems : List RunProblem := []

namespace Discovery

/-- What a walk has found. -/
def ofWalk (registry : Registry) (walked : List (Except WalkError WalkEntry)) : Discovery where
  files := walked.filterMap fun
    | .ok entry => entry.file? registry
    | .error _ => none
  problems := walked.filterMap fun
    | .ok _ => none
    | .error error => some error.problem

/-- What is found at some paths. -/
def ofRoots (registry : Registry) (around : Surroundings) (roots : List String) : Discovery :=
  if roots.isEmpty then {} else ofWalk registry (around.walk roots)

end Discovery

end CodeSearch

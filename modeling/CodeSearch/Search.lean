import CodeSearch.Matching.Traversal
import CodeSearch.Query.Basic
import CodeSearch.Result.Match

/-!
# Searching files

A search looks for every query in every file, one file after another. Queries are parsed once
for each grammar, when its first file comes up. A file without a grammar, a file that does not
parse and a query that does not parse are reported and left out. Before each file the search
looks whether it was told to stop and whether enough matches have been found.
-/

set_option autoImplicit false

namespace CodeSearch

/-- A file to search. -/
structure SourceFile where
  path : String
  content : String
  deriving DecidableEq, Repr

/-- Counts of what a search did. -/
structure SearchMetrics where
  /-- Files taken up. -/
  filesSeen : Nat := 0
  /-- Files left out by the token filter. -/
  filesFiltered : Nat := 0
  /-- Files parsed and searched. -/
  filesParsed : Nat := 0
  /-- Files that did not parse or had no grammar. -/
  filesFailed : Nat := 0
  /-- Matches before repetitions are dropped. -/
  rawMatches : Nat := 0
  /-- Comparisons with key lists of different length. -/
  invariantViolations : Nat := 0
  deriving DecidableEq, Repr

namespace SearchMetrics

/-- Counts added up. -/
def add (a b : SearchMetrics) : SearchMetrics where
  filesSeen := a.filesSeen + b.filesSeen
  filesFiltered := a.filesFiltered + b.filesFiltered
  filesParsed := a.filesParsed + b.filesParsed
  filesFailed := a.filesFailed + b.filesFailed
  rawMatches := a.rawMatches + b.rawMatches
  invariantViolations := a.invariantViolations + b.invariantViolations

end SearchMetrics

/-- The grammar of a file, by its path. -/
abbrev Resolver := String → Option Grammar

/-- What became of each query under one grammar. -/
abbrev QueryResults := List (Except SearchError ParsedQuery)

/-- What a search has come to after some files. -/
structure SearchState where
  /-- The queries as parsed for each grammar used, by its name. -/
  parsed : List (String × QueryResults) := []
  /-- All matches so far. -/
  found : List Match := []
  errors : List SearchFailure := []
  /-- The hints on each query. -/
  hints : List (List Hint)
  metrics : SearchMetrics := {}

/-- What a search produced. -/
structure SearchOutcome where
  /-- The matches without repetitions, in the order they were found. -/
  found : List Match
  errors : List SearchFailure
  /-- The hints on each query. -/
  hints : List (List Hint)
  metrics : SearchMetrics
  /-- Whether something was left out, because the search was told to stop or had found
  enough. -/
  stoppedEarly : Bool
  /-- The number of files before the one at which the search ended, if it did not take up
  all of them. -/
  cut : Option Nat

/-- Adds the hints that are not there yet. -/
def addHints (hints new : List Hint) : List Hint :=
  new.foldl (fun hints hint => if hints.contains hint then hints else hints ++ [hint]) hints

/-- The hints on a query, whether or not it parsed. -/
def hintsOf : Except SearchError ParsedQuery → List Hint
  | .ok query => query.hints
  | .error error => error.hints

/-- The failures among parsed queries, the first of which has the given place. -/
def queryFailures (grammar : String) (index : Nat) : QueryResults → List SearchFailure
  | [] => []
  | .ok _ :: rest => queryFailures grammar (index + 1) rest
  | .error error :: rest =>
      .ofQuery index grammar error :: queryFailures grammar (index + 1) rest

/-- The usable queries and their places, the first result having the given place. -/
def usableQueries (index : Nat) : QueryResults → List (Nat × ParsedQuery)
  | [] => []
  | .ok query :: rest => (index, query) :: usableQueries (index + 1) rest
  | .error _ :: rest => usableQueries (index + 1) rest

namespace SearchState

/-- The start of a search for so many queries. -/
def start (queries : Nat) : SearchState := { hints := List.replicate queries [] }

/-- The queries as parsed for a grammar. Parsing them for the first time reports what goes
wrong. -/
def queriesFor (s : SearchState) (grammar : Grammar) (config : MatchSettings)
    (queries : List String) : QueryResults × SearchState :=
  match s.parsed.lookup grammar.name with
  | some results => (results, s)
  | none =>
      -- later files of the same grammar find these results and report nothing again
      let results := queries.map (parseQuery grammar config)
      (results,
        { s with
          parsed := (grammar.name, results) :: s.parsed
          errors := s.errors ++ queryFailures grammar.name 0 results
          hints := s.hints.zipWith addHints (results.map hintsOf) })

end SearchState

/-- The place of a picked node and the span that covers all picks so far. -/
structure Picks where
  places : List Place
  span : Option Span
  violations : Nat

/-- Picks the first match of a statement that was not picked before. -/
def pick (cx : MatchContext) (matched : Node) (picks : Picks) (statement : Node) : Picks :=
  let below := traverse cx matched statement
  let violations := picks.violations + below.violations
  match below.found.find? fun found => !picks.places.contains found.place with
  | none => { picks with violations }
  | some found =>
      { places := found.place :: picks.places
        span := some (match picks.span with
          | none => found.node.span
          | some covered => covered.cover found.node.span)
        violations }

/-- The part of a matched block that the statements of the query name: each picks its first
match below the block that no other statement has picked, and the span covers the picks. -/
def narrowedSpan (cx : MatchContext) (matched query : Node) : Span × Nat :=
  let picks := query.children.foldl (pick cx matched) ⟨[[]], none, 0⟩
  (picks.span.getD matched.span, picks.violations)

/-- The sum of counts. -/
def total (counts : List Nat) : Nat := counts.foldr (· + ·) 0

/-- The match reported for a node that a query was found at. -/
def matchAt (cx : MatchContext) (path : String) (index : Nat) (query : ParsedQuery)
    (found : Found) : Match × Nat :=
  let (span, violations) :=
    if query.isMultistatement then narrowedSpan cx found.node query.node
    else (found.node.span, 0)
  (.ofSpan path index span cx.source found.bindings, violations)

/-- The matches of a query in a tree, and the violations met. -/
def matchesIn (cx : MatchContext) (path : String) (root : Node) (index : Nat)
    (query : ParsedQuery) : List Match × Nat :=
  let all := traverse cx root query.node
  let reported := all.found.map (matchAt cx path index query)
  (reported.map Prod.fst, all.violations + total (reported.map Prod.snd))

/-- What one file adds to the state of a search. -/
structure FileReport where
  found : List Match := []
  errors : List SearchFailure := []
  metrics : SearchMetrics := {}

/-- Searches one file for the queries that its grammar parsed. -/
def searchFile (grammar : Grammar) (config : MatchSettings) (file : SourceFile)
    (results : QueryResults) : FileReport :=
  let queries := usableQueries 0 results
  if queries.isEmpty then {}
  else if !passesTokenFilter file.content (queries.map (·.2.tokens)) config.ignoreCase then
    { metrics := { filesFiltered := 1 } }
  else
    match grammar.parse file.content with
    | .error failure =>
        { errors := [.ofFile file.path (.fileParse failure.message failure.location)]
          metrics := { filesFailed := 1 } }
    | .ok root =>
        let cx : MatchContext := ⟨grammar, config, file.content⟩
        let reports := queries.map fun (index, query) =>
          matchesIn cx file.path root index query
        let found := reports.flatMap Prod.fst
        { found
          metrics :=
            { filesParsed := 1
              rawMatches := found.length
              invariantViolations := total (reports.map Prod.snd) } }

namespace SearchState

/-- The state with what one file adds. -/
def add (s : SearchState) (report : FileReport) : SearchState :=
  { s with
    found := s.found ++ report.found
    errors := s.errors ++ report.errors
    metrics := s.metrics.add report.metrics }

/-- The state after one more file. -/
def step (resolve : Resolver) (config : MatchSettings) (queries : List String) (s : SearchState)
    (file : SourceFile) : SearchState :=
  let s := s.add { metrics := { filesSeen := 1 } }
  match resolve file.path with
  | none =>
      s.add
        { errors := [.ofFile file.path (.unsupportedFile file.path)]
          metrics := { filesFailed := 1 } }
  | some grammar =>
      let (results, s) := s.queriesFor grammar config queries
      s.add (searchFile grammar config file results)

/-- Whether the search ends before it takes up another file. -/
def ends (s : SearchState) (config : SearchConfig) (stopAt : Option Nat) (index : Nat) : Bool :=
  stopAt.any (· ≤ index) || config.maxResults.any (· ≤ s.found.length)

/-- The state after all files up to the one at which the search ends, and the place of that
file. -/
def run (resolve : Resolver) (config : SearchConfig) (queries : List String)
    (stopAt : Option Nat) (index : Nat) : SearchState → List SourceFile →
    SearchState × Option Nat
  | s, [] => (s, none)
  | s, file :: rest =>
      if s.ends config stopAt index then (s, some index)
      else run resolve config queries stopAt (index + 1) (s.step resolve config queries file) rest

end SearchState

/-- Searches files for queries. The search is told to stop when it takes up file number
`stopAt`. -/
def search (resolve : Resolver) (config : SearchConfig) (queries : List String)
    (files : List SourceFile) (stopAt : Option Nat) : SearchOutcome :=
  let (last, cut) :=
    SearchState.run resolve config queries stopAt 0 (.start queries.length) files
  let distinct := Match.dedup last.found
  let reported := match config.maxResults with
    | some limit => distinct.take limit
    | none => distinct
  { found := reported
    errors := last.errors
    hints := last.hints
    metrics := last.metrics
    stoppedEarly := cut.isSome || reported.length < distinct.length
    cut }

end CodeSearch

import CodeSearch.Query.Hint
import CodeSearch.Span
import CodeSearch.Text.Quoted

/-!
# What can go wrong in a search

An error is a cause; its wording is given once, by `SearchError.message`. A **failure** is an
error together with the file or query it befell. Failures never end a search: a query that
cannot be used is left out, and so is a file.
-/

set_option autoImplicit false

namespace CodeSearch

/-- Why a query or a file could not be used. Locations are counted from one. -/
inductive SearchError where
  /-- The query does not parse. -/
  | queryParse (message : String) (location : Option Position) (hints : List Hint)
  /-- The query has a run of too many markers. -/
  | invalidWildcard (location : Position)
  /-- Nothing is left of the query to look for. -/
  | emptyQuery
  /-- The file does not parse. -/
  | fileParse (message : String) (location : Option Position)
  /-- No grammar is known for the file. -/
  | unsupportedFile (path : String)
  /-- The matcher came to a state it should never reach. -/
  | internalInvariant (message : String)
  /-- A text with wildcards makes no pattern. -/
  | invalidPattern (pattern message : String)
  deriving DecidableEq, Repr

namespace SearchError

/-- The error in words. -/
def message : SearchError → String
  | queryParse message _ _ => "failed to parse query: " ++ message
  | invalidWildcard location =>
      "invalid wildcard at line " ++ toString location.line ++ ", column " ++
        toString location.column
  | emptyQuery => "query is empty"
  | fileParse message _ => "failed to parse file: " ++ message
  | unsupportedFile path => "unsupported file: " ++ path
  | internalInvariant message => "internal invariant violated: " ++ message
  | invalidPattern pattern message =>
      "invalid pattern " ++ Text.quoted pattern ++ ": " ++ message

/-- Where the error is. -/
def location? : SearchError → Option Position
  | queryParse _ location _ => location
  | invalidWildcard location => some location
  | fileParse _ location => location
  | _ => none

/-- The hints that come with the error. -/
def hints : SearchError → List Hint
  | queryParse _ _ hints => hints
  | _ => []

/-- The error with other hints, if it is one that carries hints. -/
def withHints (hints : List Hint) : SearchError → SearchError
  | queryParse message location _ => queryParse message location hints
  | other => other

end SearchError

/-- An error and the file or query it befell. -/
structure SearchFailure where
  path : Option String := none
  /-- The place of the query among the queries. -/
  queryIndex : Option Nat := none
  /-- The name of the grammar that rejected the query. -/
  grammar : Option String := none
  error : SearchError
  deriving DecidableEq, Repr

namespace SearchFailure

/-- The failure of a query. -/
def ofQuery (index : Nat) (grammar : String) (error : SearchError) : SearchFailure :=
  { queryIndex := some index, grammar := some grammar, error }

/-- The failure of a file. -/
def ofFile (path : String) (error : SearchError) : SearchFailure := { path := some path, error }

/-- The failure in words, with the query counted from zero. -/
def message (f : SearchFailure) : String :=
  let subject := match f.path, f.queryIndex, f.grammar with
    | some path, some index, _ => path ++ " (query " ++ toString index ++ "): "
    | some path, none, _ => path ++ ": "
    | none, some index, some grammar => "query " ++ toString index ++ " (" ++ grammar ++ "): "
    | none, some index, none => "query " ++ toString index ++ ": "
    | none, none, _ => ""
  subject ++ f.error.message

end SearchFailure

end CodeSearch

import CodeSearch.Config
import CodeSearch.Language.Basic

/-!
# Options

What a run was asked to do, however this was written in its arguments.
-/

set_option autoImplicit false

namespace CodeSearch

/-- How results are written. -/
inductive OutputFormat where
  /-- For people if the output is a terminal, as JSON if not. -/
  | auto
  | human
  | json
  deriving DecidableEq, Repr

/-- Whether results are written as JSON. -/
def OutputFormat.isJson (format : OutputFormat) (isTerminal : Bool) : Bool :=
  match format with
  | auto => !isTerminal
  | human => false
  | json => true

/-- How diagnostics are written. -/
inductive LogFormat where
  | json
  | compact
  deriving DecidableEq, Repr

/-- What a run was asked to do. -/
structure Options where
  queries : List String := []
  /-- Files with one more query each. -/
  queryFiles : List String := []
  mode : Mode := .contained
  ignoreCase : Bool := false
  maxResults : Option Nat := none
  /-- The language of all files. -/
  language : Option Language := none
  output : OutputFormat := .auto
  logFilter : String := "warn"
  logFormat : LogFormat := .compact
  /-- What to search. -/
  paths : List String := []
  deriving DecidableEq, Repr

namespace Options

/-- What to search: the current directory, unless something else is asked for. -/
def roots (o : Options) : List String := if o.paths.isEmpty then ["."] else o.paths

/-- The settings of the search. -/
def config (o : Options) : SearchConfig :=
  { mode := o.mode, ignoreCase := o.ignoreCase, maxResults := o.maxResults }

end Options

end CodeSearch

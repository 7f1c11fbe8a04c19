import CodeSearch.CommandLine.Options
import CodeSearch.Language.Registry

/-!
# The surroundings of a run

What a run asks for but does not do itself: reading arguments, walking directories, reading files,
parsing texts and setting up diagnostics. Others do this, and all that is known here is what kind
of answer each of them gives.
-/

set_option autoImplicit false

namespace CodeSearch

/-- Why arguments ask for no run, with what is to be said of it. -/
inductive Halt where
  /-- Something is asked for that only has to be shown, as help is. -/
  | shown (text : String)
  /-- The arguments make no sense. -/
  | usage (text : String)
  deriving DecidableEq, Repr

/-- Why a file gives no text. -/
structure ReadError where
  /-- Whether the file could be read but its bytes are no text. -/
  isInvalidData : Bool := false
  reason : String
  deriving DecidableEq, Repr

/-- What an error on a walk is about: a path, an error that came up at some depth or line, or
something else. -/
inductive WalkCause where
  | withPath (path : String)
  | withDepth (cause : WalkCause)
  | withLineNumber (cause : WalkCause)
  | other
  deriving DecidableEq, Repr

/-- An error on a walk. -/
structure WalkError where
  cause : WalkCause
  reason : String
  deriving DecidableEq, Repr

/-- Something a walk comes to. -/
structure WalkEntry where
  /-- The path, if it is a text. -/
  path? : Option String
  /-- How far below the start of the walk the entry is. -/
  depth : Nat
  /-- Whether the entry is a file, neither a directory nor anything else. -/
  isFile : Bool
  deriving DecidableEq, Repr

/-- How the process writes diagnostics. -/
structure Telemetry where
  /-- Whether an earlier run of the process has set this up. -/
  isInstalled : Bool := false
  /-- What is wrong with a filter, if anything. -/
  filterError? : String → Option String
  /-- What keeps diagnostics from being taken up, if anything. -/
  subscriberError? : Option String := none

/-- What surrounds a run. -/
structure Surroundings where
  /-- What arguments ask for. -/
  parseArguments : List String → Except Halt Options
  telemetry : Telemetry
  /-- What a walk from some paths comes to, in the order in which it does. Where the walk goes, and
  which entries it passes over as hidden or ignored, it decides itself. -/
  walk : List String → List (Except WalkError WalkEntry)
  /-- The text of the file that a path leads to, when the run has read so many files before. A file
  can change from one time to the next. -/
  readText : Nat → String → Except ReadError String
  parsers : ParserSet
  /-- Whether the output is a terminal. -/
  isTerminal : Bool

end CodeSearch

import CodeSearch.Json.Printer
import CodeSearch.Result.Json
import CodeSearch.Text.Lines

/-!
# Reporting results

For people, a match is a place and the lines around it, and problems go to the error output.
As JSON, every match and every problem is one line of the output. Hints always go to the error
output.
-/

set_option autoImplicit false

namespace CodeSearch

/-- What a run has written. -/
structure Output where
  stdout : String := ""
  stderr : String := ""
  deriving DecidableEq, Repr

namespace Output

/-- One output after another. -/
def append (a b : Output) : Output := ⟨a.stdout ++ b.stdout, a.stderr ++ b.stderr⟩

instance : Append Output := ⟨append⟩

/-- Outputs one after another. -/
def concat (outputs : List Output) : Output := outputs.foldl append {}

/-- A line of JSON on the output. -/
def jsonLine (value : Json) : Output := { stdout := value.print ++ "\n" }

/-- A line on the error output. -/
def errorLine (text : String) : Output := { stderr := text ++ "\n" }

end Output

/-- A number filled up with blanks on the left. -/
def padLeft (width n : Nat) : String :=
  let digits := toString n
  String.ofList (List.replicate (width - digits.length) ' ') ++ digits

/-- Lines with their numbers, from `number` on. -/
def numberedLines (width number : Nat) : List (List Char) → String
  | [] => ""
  | line :: rest =>
      padLeft width number ++ " | " ++ String.ofList line ++ "\n" ++
        numberedLines width (number + 1) rest

/-- A match for people to read: its place, counted from one, and the lines around it. -/
def Match.render (m : Match) : String :=
  let place := m.path ++ ":" ++ toString (m.span.start.line + 1) ++ ":" ++
    toString (m.span.start.column + 1)
  let lines := Text.lines m.frame.code.toList
  let first := m.frame.startLine + 1
  let width := (toString (first + lines.length - 1)).length
  place ++ "\n" ++ numberedLines width first lines ++ "\n"

/-- A failure in words, with the query counted from one. -/
def SearchFailure.describe (f : SearchFailure) : String :=
  match f.path, f.queryIndex with
  | some path, _ => path ++ ": " ++ f.error.message
  | none, some index => "query " ++ toString (index + 1) ++ ": " ++ f.error.message
  | none, none => f.error.message

/-- Reports a match. -/
def reportMatch (asJson : Bool) (m : Match) : Output :=
  if asJson then .jsonLine m.toJson else { stdout := m.render }

/-- Reports a failure of a query or a file. -/
def reportFailure (asJson : Bool) (f : SearchFailure) : Output :=
  if asJson then .jsonLine (.object [("error", f.toJson)])
  else .errorLine ("error: " ++ f.describe)

/-- Reports what went wrong outside the search. -/
def reportProblem (asJson : Bool) (message : String) : Output :=
  if asJson then .jsonLine (.object [("error", .object [("message", .string message)])])
  else .errorLine ("error: " ++ message)

/-- Reports a hint on a query. -/
def reportHint (index : Nat) (hint : Hint) : Output :=
  .errorLine ("hint: query " ++ toString (index + 1) ++ ": " ++ hint.text)

end CodeSearch

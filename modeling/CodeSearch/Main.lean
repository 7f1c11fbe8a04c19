import CodeSearch.CommandLine.Snapshot
import CodeSearch.Json.Reader

/-!
# The program

Structural code search as a program: the arguments say what to look for and where, and the
standard input holds the snapshot of the files and their parses. An empty input is an empty
snapshot.
-/

set_option autoImplicit false

open CodeSearch

/-- Reads the snapshot, runs, and writes what the run wrote. -/
def main (args : List String) : IO UInt32 := do
  let input ← (← IO.getStdin).readToEnd
  let snapshot := if input.isEmpty then some (Json.object []) else Json.parse? input
  match snapshot.bind Surroundings.ofJson? with
  | none =>
      IO.eprintln "error: the standard input holds no snapshot"
      return 2
  | some around =>
      let result := run args around
      IO.print result.output.stdout
      IO.eprint result.output.stderr
      return result.exit.toUInt32

import CodeSearch.CommandLine.Run
import CodeSearch.Host.FileTree
import CodeSearch.Host.LogFilter
import CodeSearch.Host.Usage
import CodeSearch.Language.Recorded

/-!
# Snapshots of the surroundings

What surrounds a run, handed over as JSON: under `files` pairs of a path and a content, which
is a text or the values of its bytes; under `csts` and `types` the recorded parses; and under
`terminal` whether the output is a terminal. Arguments, log filters and walks are those of the
modules under `Host`, which only the program uses.
-/

set_option autoImplicit false

namespace CodeSearch

/-- The content of a file with the given bytes. -/
def FileContent.ofBytes (bytes : List Nat) : FileContent :=
  match String.fromUTF8? ⟨(bytes.map UInt8.ofNat).toArray⟩ with
  | some content => text content
  | none => binary

/-- Reads the content of a file: a text or bytes. -/
def FileContent.ofJson? : Json → Option FileContent
  | .string content => some (text content)
  | .array bytes => (bytes.mapM Json.nat?).map ofBytes
  | _ => none

namespace FileTree

/-- The tree of files at the given paths. Of two files at one path, the later one counts. -/
def ofFiles (files : List (String × FileContent)) : FileTree :=
  files.foldl
    (fun tree (path, content) =>
      tree.insert content ((path.toList.splitOn '/').map String.ofList))
    empty

/-- Reads a tree of files from pairs of a path and a content. -/
def ofJson? (files : Json) : Option FileTree := do
  let pairs ← (← files.array?).mapM fun
    | .array [.string path, content] => (FileContent.ofJson? content).map (path, ·)
    | _ => none
  some (ofFiles pairs)

end FileTree

/-- Reads what surrounds a run. -/
def Surroundings.ofJson? (snapshot : Json) : Option Surroundings := do
  let files ← FileTree.ofJson? ((snapshot.get? "files").getD (.array []))
  some
    { parseArguments := CodeSearch.parseArguments
      telemetry := { filterError? := fun filter => (LogFilter.error? filter).map (·.message) }
      walk := files.walk
      readText := fun _ path => files.readText path
      parsers := .ofJson ((snapshot.get? "csts").getD (.array []))
        ((snapshot.get? "types").getD (.object []))
      isTerminal := ((snapshot.get? "terminal").bind Json.bool?).getD false }

end CodeSearch

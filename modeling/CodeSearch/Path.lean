/-!
# Paths of files

A path is kept as it was written. Two paths name the same place when they have the same
components, and the extension of a path is that of its last component.
-/

set_option autoImplicit false

namespace CodeSearch.Path

/-- The names between the slashes of a path. Empty names do not count, nor does `.` except as
the first name of a path that is not absolute. An absolute path starts with `/`. -/
def components (path : String) : List String :=
  let names := (path.toList.splitOn '/').map String.ofList
  let start := match names with
    | "" :: _ => if path.isEmpty then [] else ["/"]
    | "." :: _ => ["."]
    | _ => []
  start ++ names.filter fun name => !(name == "" || name == ".")

/-- The last component, if it is the name of a file or directory. -/
def fileName? (path : String) : Option String :=
  (components path).getLast?.filter fun name => name != "/" && name != "." && name != ".."

/-- What follows the last dot of the file name. A name whose only dot comes first has no
extension. -/
def extension? (path : String) : Option String := do
  let name ← fileName? path
  let reversed := name.toList.reverse
  let stem := (reversed.dropWhile (· != '.')).drop 1
  if stem.isEmpty then none
  else some (String.ofList (reversed.takeWhile (· != '.')).reverse)

end CodeSearch.Path

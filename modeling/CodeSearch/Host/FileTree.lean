import CodeSearch.CommandLine.Surroundings
import CodeSearch.Path
import CodeSearch.Text.Bytes

/-!
# Files and directories

The files of a snapshot: a tree of directories, with the entries of each in the order of their
names. A path is followed from the top of the tree; what lies outside it is empty. A snapshot has
no files that say what is to be ignored, so a walk of it passes over hidden entries only.
-/

set_option autoImplicit false

namespace CodeSearch

/-- What reading a file gives. -/
inductive FileContent where
  | text (content : String)
  /-- The bytes of the file are no text. -/
  | binary
  deriving DecidableEq, Repr

/-- A file, or a directory with its entries. -/
inductive FileTree where
  | file (content : FileContent)
  | directory (entries : List (String × FileTree))

namespace FileTree

/-- A directory without entries. -/
def empty : FileTree := directory []

mutual

/-- The tree with a file added below it, under the names of a path. -/
def insert (tree : FileTree) (content : FileContent) (path : List String) : FileTree :=
  match path, tree with
  | [], _ => file content
  | name :: rest, directory entries => directory (insertEntry content name rest entries)
  | name :: rest, file _ => directory (insertEntry content name rest [])
termination_by (path.length, 1, 0)

/-- The entries with a file added at or below one of them, in the order of their names. -/
def insertEntry (content : FileContent) (name : String) (path : List String) :
    List (String × FileTree) → List (String × FileTree)
  | [] => [(name, empty.insert content path)]
  | (key, tree) :: rest =>
      if name = key then (key, tree.insert content path) :: rest
      else if name < key then (name, empty.insert content path) :: (key, tree) :: rest
      else (key, tree) :: insertEntry content name path rest
termination_by entries => (path.length, 2, entries.length)

end

end FileTree

/-- Why a path leads to nothing that can be used. -/
inductive PathError where
  /-- The path holds the null character, which no name can. -/
  | nullCharacter
  | tooLong
  | notFound
  | notADirectory
  | isADirectory
  deriving DecidableEq, Repr

/-- The reason in words. -/
def PathError.message : PathError → String
  | nullCharacter => "file name contained an unexpected NUL byte"
  | tooLong => "File name too long (os error 36)"
  | notFound => "No such file or directory (os error 2)"
  | notADirectory => "Not a directory (os error 20)"
  | isADirectory => "Is a directory (os error 21)"

/-- Whether a path has more bytes than a path can have. -/
def isLongPath (path : String) : Bool := 4095 < Text.byteLength path.toList

/-- Whether a name has more bytes than the name of an entry can have. -/
def isLongName (name : String) : Bool := 255 < Text.byteLength name.toList

namespace FileTree

/-- Follows names from a tree, given the directories above it, the nearest first. Nothing is
known above the last of them. -/
def follow : List FileTree → FileTree → List String → Except PathError FileTree
  | _, tree, [] => .ok tree
  | _, file _, _ :: _ => .error .notADirectory
  | above, directory entries, name :: rest =>
      if name = "" ∨ name = "." then follow above (directory entries) rest
      else if name = ".." then
        match above with
        | parent :: above => follow above parent rest
        | [] => follow [] empty rest
      else if isLongName name then .error .tooLong
      else
        match entries.lookup name with
        | some tree => follow (directory entries :: above) tree rest
        | none => .error .notFound

/-- What a path leads to. -/
def find (tree : FileTree) (path : String) : Except PathError FileTree :=
  if '\x00' ∈ path.toList then .error .nullCharacter
  else if isLongPath path then .error .tooLong
  else if path.isEmpty then .error .notFound
  else
    match (path.toList.splitOn '/').map String.ofList with
    | "" :: names => follow [] empty names
    | names => follow [] tree names

/-- The text of the file that a path leads to. -/
def readText (tree : FileTree) (path : String) : Except ReadError String :=
  match tree.find path with
  | .error error => .error { reason := error.message }
  | .ok (directory _) => .error { reason := PathError.isADirectory.message }
  | .ok (file (.text content)) => .ok content
  | .ok (file .binary) =>
      .error { isInvalidData := true, reason := "stream did not contain valid UTF-8" }

end FileTree

/-- The error of a walk at a path. -/
def PathError.walkError (error : PathError) (path : String) : WalkError where
  cause := .withDepth (.withPath path)
  reason := path ++ ": IO error for operation on " ++ path ++ ": " ++ error.message

/-- The path of an entry of a directory. -/
def joinPath (directory name : String) : String :=
  if directory.toList.getLast? = some '/' then directory ++ name else directory ++ "/" ++ name

namespace FileTree

mutual

/-- What a walk comes to at and below a path, so far below its start. A path can be too long to be
used, though the walk has reached it; a directory there cannot be entered. -/
def walkFrom (path : String) (depth : Nat) : FileTree → List (Except WalkError WalkEntry)
  | file _ => [.ok ⟨some path, depth, true⟩]
  | directory entries =>
      .ok ⟨some path, depth, false⟩ ::
        if isLongPath path then [.error (PathError.tooLong.walkError path)]
        else walkEntries path (depth + 1) entries

/-- What a walk comes to below the entries of a directory, without the hidden ones. -/
def walkEntries (path : String) (depth : Nat) :
    List (String × FileTree) → List (Except WalkError WalkEntry)
  | [] => []
  | (name, tree) :: rest =>
      (if name.toList.head? = some '.' then [] else tree.walkFrom (joinPath path name) depth) ++
        walkEntries path depth rest

end

/-- What a walk from some paths comes to. The path `-` stands for the standard input, which is no
file. -/
def walk (tree : FileTree) (roots : List String) : List (Except WalkError WalkEntry) :=
  roots.flatMap fun path =>
    if Path.components path = ["-"] then [.ok ⟨some path, 0, false⟩]
    else
      match tree.find path with
      | .error error => [.error (error.walkError path)]
      | .ok found => found.walkFrom path 0

end FileTree

end CodeSearch

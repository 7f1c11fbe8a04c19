import CodeSearch.Text.Bytes

/-!
# Lines

A text is a sequence of lines separated by line feeds. This file splits texts into lines
for printing and finds the ends of the line around a byte offset.
-/

set_option autoImplicit false

namespace CodeSearch.Text

/-- The number of line feeds in a text. -/
def lineBreaks (cs : List Char) : Nat := cs.count '\n'

/-- The part of a text after its last line feed. -/
def lastLine (cs : List Char) : List Char := (cs.reverse.takeWhile (· != '\n')).reverse

/-- A line without the carriage return before its line feed. -/
def dropReturn (line : List Char) : List Char :=
  if line.getLast? = some '\r' then line.dropLast else line

/-- The lines of a text as printed: a line feed ends a line, a carriage return right
before it belongs to the line end, and nothing follows a final line feed. -/
def lines (cs : List Char) : List (List Char) :=
  let pieces := cs.splitOn '\n'
  let last := pieces.getLast?.getD []
  pieces.dropLast.map dropReturn ++ if last.isEmpty then [] else [last]

/-- The byte offset just after the last line feed before `offset`. An offset that cannot be
cut at counts as the start of the text. -/
def lineStart (cs : List Char) (offset : Nat) : Nat :=
  match cutAt? offset cs with
  | some (before, _) =>
      if '\n' ∈ before then offset - byteLength (lastLine before) else 0
  | none => 0

/-- The byte offset of the first line feed at or after `offset`, or else the end of the
text. -/
def lineEnd (cs : List Char) (offset : Nat) : Nat :=
  match cutAt? offset cs with
  | some (_, after) =>
      if '\n' ∈ after then offset + byteLength (after.takeWhile (· != '\n'))
      else byteLength cs
  | none => byteLength cs

end CodeSearch.Text

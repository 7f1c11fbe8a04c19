import CodeSearch.Span
import CodeSearch.Text.Blank
import CodeSearch.Text.Lines

/-!
# Excerpts of the source

The code of a match as it is shown: dedented, and in a frame of whole lines.
-/

set_option autoImplicit false

namespace CodeSearch

/-- Whole lines of a source, and the number of the first of them. -/
structure CodeFrame where
  code : String
  startLine : Nat
  deriving DecidableEq, Repr

/-- A line without the blanks it starts with, at most so many. -/
def dedentLine (indentation : Nat) (line : List Char) : List Char :=
  line.drop (min indentation (line.takeWhile Text.isBlank).length)

/-- The code of a span without the indentation of its first line, and the number of
characters of this indentation. -/
def dedentedCode (source : String) (span : Span) : String × Nat :=
  let text := source.toList
  let code := Text.slice text span.startByte span.endByte
  let before := Text.slice text (Text.lineStart text span.startByte) span.startByte
  let indentation := (before.takeWhile Text.isBlank).length
  if indentation = 0 then (String.ofList code, 0)
  else
    let lines := (code.splitOn '\n').map (dedentLine indentation)
    (String.ofList (['\n'].intercalate lines), indentation)

/-- The whole lines of a span. One further line is shown above and below if the span is on
less than three lines. -/
def codeFrame (source : String) (span : Span) : CodeFrame :=
  let text := source.toList
  let lineCount := Text.lineBreaks (Text.slice text span.startByte span.endByte) + 1
  let start := Text.lineStart text span.startByte
  let stop := Text.lineEnd text span.endByte
  let above := lineCount < 3 && 0 < start
  let below := lineCount < 3 && stop < Text.byteLength text
  let first := if above then Text.lineStart text (start - 1) else start
  let last := if below then Text.lineEnd text (stop + 1) else stop
  { code := String.ofList (Text.slice text first last)
    startLine := if above then span.start.line - 1 else span.start.line }

end CodeSearch

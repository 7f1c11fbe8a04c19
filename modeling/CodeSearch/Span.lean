/-!
# Spans

Places in a source text: a position is a line and a column, a span is a half-open range of
bytes together with the positions of its two ends.
-/

set_option autoImplicit false

namespace CodeSearch

/-- A place in a text: the number of line feeds before it and of bytes after the last of
them. In reports of failures both are counted from one.

Neither number is bounded here. Where they are kept in words of thirty-two bits, the largest such
number stands for all larger ones. So positions are exact for texts of fewer than 2 ^ 32 - 1 lines,
each of fewer than 2 ^ 32 - 1 bytes. -/
structure Position where
  line : Nat
  column : Nat
  deriving DecidableEq, Repr, Inhabited

namespace Position

/-- Positions are ordered by line, then by column. -/
def compare (a b : Position) : Ordering :=
  (Ord.compare a.line b.line).then (Ord.compare a.column b.column)

/-- The position just before the character that stands `before` characters into a text. -/
def ofBefore (before : List Char) : Position :=
  before.foldl (fun p c => if c = '\n' then ⟨p.line + 1, 0⟩ else ⟨p.line, p.column + c.utf8Size⟩)
    ⟨0, 0⟩

theorem ofBefore_concat (before : List Char) (c : Char) : ofBefore (before ++ [c]) =
    if c = '\n' then ⟨(ofBefore before).line + 1, 0⟩
    else ⟨(ofBefore before).line, (ofBefore before).column + c.utf8Size⟩ := by
  rw [ofBefore, List.foldl_append]
  rfl

end Position

/-- The bytes from `startByte` up to but not including `endByte`. -/
structure Span where
  startByte : Nat
  endByte : Nat
  start : Position
  stop : Position
  deriving DecidableEq, Repr, Inhabited

namespace Span

/-- The empty span at the beginning of a text. -/
def zero : Span := ⟨0, 0, ⟨0, 0⟩, ⟨0, 0⟩⟩

/-- The smallest span that covers both. Where two ends agree the first span's positions are
kept. -/
def cover (a b : Span) : Span where
  startByte := if b.startByte < a.startByte then b.startByte else a.startByte
  start := if b.startByte < a.startByte then b.start else a.start
  endByte := if a.endByte < b.endByte then b.endByte else a.endByte
  stop := if a.endByte < b.endByte then b.stop else a.stop

/-- The empty span at the end of a span. -/
def atEnd (s : Span) : Span := ⟨s.endByte, s.endByte, s.stop, s.stop⟩

@[simp] theorem cover_startByte (a b : Span) :
    (a.cover b).startByte = min a.startByte b.startByte := by
  simp only [cover]; split <;> omega

@[simp] theorem cover_endByte (a b : Span) : (a.cover b).endByte = max a.endByte b.endByte := by
  simp only [cover]; split <;> omega

end Span

end CodeSearch

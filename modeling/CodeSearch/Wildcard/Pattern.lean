import CodeSearch.Text.CaseFold
import CodeSearch.Wildcard.Basic

/-!
# Matching texts with wildcards

A text with wildcards is a **pattern**: a literal, then gaps, each a wildcard and the literal
after it. A pattern matches a value when the value consists of the literals with a filler in
every gap. Fillers may be any text; those of required wildcards are not empty.

So a pattern stands for an **expression** that has to match the whole value: the literals, and for
each gap as few characters as possible, of any kind. A leftmost-first matcher tries the ways to
match it one after another (`ways`), and the first one counts: of all ways to fill the gaps, the one
with the shortest first filler, then the shortest second one, and so on. Placing every literal as
early as it fits, and the last one at the end of the value, finds it without going back (`fill?`): a
literal that fits later leaves less of the value, and what it leaves out can go into the next gap.
-/

set_option autoImplicit false

namespace CodeSearch

/-- A wildcard of a pattern and the literal after it. -/
structure Gap where
  /-- The fewest characters that fill the gap. -/
  least : Nat
  /-- The alias of the wildcard. -/
  aliasName : Option (List Char)
  /-- The text up to the next gap or the end. -/
  literal : List Char
  deriving DecidableEq, Repr

/-- A text with gaps. -/
structure Pattern where
  /-- The text before the first gap. -/
  head : List Char
  gaps : List Gap
  deriving DecidableEq, Repr

/-- What filled the gap of a wildcard with an alias. -/
structure Capture where
  /-- The place of the wildcard among those of the pattern. -/
  index : Nat
  aliasName : String
  text : String
  deriving DecidableEq, Repr

/-- The text without the literal it starts with. -/
def dropLiteral? (ignoreCase : Bool) : List Char → List Char → Option (List Char)
  | [], text => some text
  | _ :: _, [] => none
  | l :: literal, c :: text =>
      if Text.sameChar ignoreCase l c then dropLiteral? ignoreCase literal text else none

/-- The shortest filler of at least `least` characters that the literal follows, and what comes
after the literal. -/
def shortestFiller? (ignoreCase : Bool) (literal : List Char) :
    Nat → List Char → Option (List Char × List Char)
  | 0, [] => (dropLiteral? ignoreCase literal []).map fun rest => ([], rest)
  | 0, c :: text =>
      match dropLiteral? ignoreCase literal (c :: text) with
      | some rest => some ([], rest)
      | none =>
          (shortestFiller? ignoreCase literal 0 text).map fun (filler, rest) => (c :: filler, rest)
  | _ + 1, [] => none
  | least + 1, c :: text =>
      (shortestFiller? ignoreCase literal least text).map fun (filler, rest) =>
        (c :: filler, rest)

/-- The filler of at least `least` characters that leaves exactly the literal. -/
def lastFiller? (ignoreCase : Bool) (literal : List Char) (least : Nat) (text : List Char) :
    Option (List Char) :=
  let filler := text.take (text.length - literal.length)
  -- the literal has to end where the text ends, so its place is known
  if least ≤ filler.length ∧
      dropLiteral? ignoreCase literal (text.drop (text.length - literal.length)) = some [] then
    some filler
  else none

namespace Pattern

/-- Pairs each wildcard with the fragment after it. -/
def gapsOf : List Occurrence → List (List Char) → List Gap
  | o :: rest, literal :: literals =>
      ⟨if o.required then 1 else 0, o.aliasName, literal⟩ :: gapsOf rest literals
  | _, _ => []

/-- The pattern that a text denotes. -/
def ofText (m : Markers) (text : String) : Pattern :=
  let wildcards := m.scan text.toList
  match Markers.fragmentsFrom text.toList 0 wildcards with
  | [] => ⟨[], []⟩
  | head :: literals => ⟨head, gapsOf wildcards literals⟩

/-! ### Patterns as expressions -/

/-- A piece of an expression. An expression matches a text as a whole, from its first character to
its last. -/
inductive Piece where
  /-- A text to be spelled. -/
  | literal (text : List Char)
  /-- So many characters of any kind, line feeds among them, or more, but as few as possible. -/
  | lazy (least : Nat)

/-- The pieces of gaps: each a lazy one with a literal after it. -/
def piecesOf : List Gap → List Piece
  | [] => []
  | gap :: gaps => .lazy gap.least :: .literal gap.literal :: piecesOf gaps

/-- **The expression of a pattern**: its literals, with a lazy piece for every gap. -/
def expression (p : Pattern) : List Piece := .literal p.head :: piecesOf p.gaps

/-- The fillers with one more character in front of the first. -/
def lengthenFirst (c : Char) : List (List Char) → List (List Char)
  | filler :: fillers => (c :: filler) :: fillers
  | [] => []

/-- The ways in which a lazy piece matches with what comes next, in the order in which they are
tried: as soon as it may, the piece makes way for what comes next, and only when all ways of that
are through does it take one more character. -/
def lazyWays (next : List Char → List (List (List Char))) :
    Nat → List Char → List (List (List Char))
  | 0, [] => (next []).map ([] :: ·)
  | 0, c :: text =>
      (next (c :: text)).map ([] :: ·) ++ (lazyWays next 0 text).map (lengthenFirst c)
  | _ + 1, [] => []
  | least + 1, c :: text => (lazyWays next least text).map (lengthenFirst c)

/-- **The ways in which an expression matches a text**, each told by what the lazy pieces match, in
the order in which a leftmost-first matcher tries them. The first one counts. -/
def ways (ignoreCase : Bool) : List Piece → List Char → List (List (List Char))
  | [], text => if text.isEmpty then [[]] else []
  | .literal literal :: pieces, text =>
      match dropLiteral? ignoreCase literal text with
      | some rest => ways ignoreCase pieces rest
      | none => []
  | .lazy least :: pieces, text => lazyWays (ways ignoreCase pieces) least text

/-! ### Matching without going back -/

/-- The fillers of gaps that make up a text. -/
def fill? (ignoreCase : Bool) : List Gap → List Char → Option (List (List Char))
  | [], text => if text.isEmpty then some [] else none
  | [gap], text => (lastFiller? ignoreCase gap.literal gap.least text).map ([·])
  | gap :: next :: gaps, text => do
      let (filler, rest) ← shortestFiller? ignoreCase gap.literal gap.least text
      let fillers ← fill? ignoreCase (next :: gaps) rest
      some (filler :: fillers)

/-- The fillers with which a pattern matches a value. -/
def fillers? (p : Pattern) (ignoreCase : Bool) (value : List Char) :
    Option (List (List Char)) :=
  (dropLiteral? ignoreCase p.head value).bind (fill? ignoreCase p.gaps)

/-- The captures among fillers, the first of which belongs to gap number `index`. -/
def capturesFrom (index : Nat) : List Gap → List (List Char) → List Capture
  | gap :: gaps, filler :: fillers =>
      let later := capturesFrom (index + 1) gaps fillers
      match gap.aliasName with
      | some aliasName => ⟨index, String.ofList aliasName, String.ofList filler⟩ :: later
      | none => later
  | _, _ => []

/-- What the wildcards with an alias capture where a pattern matches. -/
def captures? (p : Pattern) (ignoreCase : Bool) (value : String) : Option (List Capture) :=
  (p.fillers? ignoreCase value.toList).map (capturesFrom 0 p.gaps)

end Pattern

end CodeSearch

import CodeSearch.Text.Bytes

/-!
# Wildcards in query text

Wildcards are written with a marker character, `$` by default:

* `$$` stands for any characters of an identifier or string, or for none;
* `$$$` stands for at least one character, and as a whole identifier for any subtree;
* the numeric sentinel, `0x0` by default, stands for any number;
* `$$_name` and `$$_name_` give the wildcard an **alias**: all its uses stand for the same text.

A run of four or more markers is no wildcard, and is an error in a query unless it has exactly
four and `{` follows, as in a template literal.

An alias starts right after the run. It is `_`, a name of ASCII letters and digits, and
possibly a closing `_`. There is none when the run itself comes after `_`, or when a marker
follows the alias at once.
-/

set_option autoImplicit false

namespace CodeSearch

/-- How wildcards are written. -/
structure Markers where
  /-- The character whose runs are wildcards. -/
  marker : Char := '$'
  /-- The number that stands for any number. -/
  numeric : String := "0x0"
  deriving DecidableEq, Repr

/-- What a wildcard stands for. -/
inductive WildcardKind where
  /-- Part of an identifier. -/
  | identifier
  /-- Part of a string. -/
  | string
  /-- Any subtree. -/
  | nodeTree
  deriving DecidableEq, Repr

/-- The kind of literal a wildcard is written in. -/
inductive WildcardContext where
  | identifier
  | string
  deriving DecidableEq, Repr

/-- A maximal run of markers: the number of characters before it and of markers in it. -/
structure MarkerRun where
  start : Nat
  width : Nat
  deriving DecidableEq, Repr

/-- A wildcard where it stands in a text. Places are counted in characters. -/
structure Occurrence where
  /-- The characters before the wildcard. -/
  start : Nat
  /-- The markers of its run, two or three. -/
  width : Nat
  /-- The characters of the wildcard with its alias. -/
  length : Nat
  /-- The name of its alias. -/
  aliasName : Option (List Char)
  deriving DecidableEq, Repr

/-- A wildcard taken out of its text. -/
structure Wildcard where
  kind : WildcardKind
  /-- The run and the alias as written. -/
  withAlias : String
  /-- The bare run. -/
  withoutAlias : String
  /-- The name of the alias. -/
  aliasName : Option String
  deriving DecidableEq, Repr

namespace Occurrence

/-- The characters up to the end of the wildcard's run. -/
def runStop (o : Occurrence) : Nat := o.start + o.width

/-- The characters up to the end of the wildcard. -/
def stop (o : Occurrence) : Nat := o.start + o.length

/-- Whether the wildcard stands for at least one character. -/
def required (o : Occurrence) : Bool := o.width == 3

end Occurrence

/-- The characters from place `start` up to place `stop`, none if they are out of order. -/
def segment (text : List Char) (start stop : Nat) : List Char :=
  (text.drop start).take (stop - start)

namespace Markers

/-- The optional wildcard. -/
def optional (m : Markers) : String := String.ofList (List.replicate 2 m.marker)

/-- The required wildcard. -/
def required (m : Markers) : String := String.ofList (List.replicate 3 m.marker)

/-- Whether a number stands for any number. -/
def isNumeric (m : Markers) (text : String) : Bool := text == m.numeric

/-- The runs of a text that comes after `before` characters, the last `width` of which are
markers. -/
def runsFrom (m : Markers) (before width : Nat) : List Char → List MarkerRun
  | [] => if width = 0 then [] else [⟨before - width, width⟩]
  | c :: cs =>
      if c = m.marker then runsFrom m (before + 1) (width + 1) cs
      else if width = 0 then runsFrom m (before + 1) 0 cs
      else ⟨before - width, width⟩ :: runsFrom m (before + 1) 0 cs

/-- The maximal runs of markers, in order. -/
def runs (m : Markers) (text : List Char) : List MarkerRun := runsFrom m 0 0 text

/-- The alias that a text starts with: its name and its length. -/
def aliasAt? (m : Markers) (text : List Char) : Option (List Char × Nat) :=
  match text with
  | '_' :: rest =>
      let name := rest.takeWhile Char.isAlphanum
      let after := rest.drop name.length
      -- a closing underscore belongs to the alias, not to what follows
      let closing := if after.head? = some '_' then 1 else 0
      if name.isEmpty || (after.drop closing).head? = some m.marker then none
      else some (name, 1 + name.length + closing)
  | _ => none

/-- The wildcard of a run, with its alias. -/
def occurrence (m : Markers) (text : List Char) (run : MarkerRun) : Occurrence :=
  let aliasName :=
    if (text.take run.start).getLast? = some '_' then none
    else m.aliasAt? (text.drop (run.start + run.width))
  match aliasName with
  | some (name, length) => ⟨run.start, run.width, run.width + length, some name⟩
  | none => ⟨run.start, run.width, run.width, none⟩

/-- The wildcards of a text, in order. -/
def scan (m : Markers) (text : List Char) : List Occurrence :=
  ((m.runs text).filter fun run => run.width == 2 || run.width == 3).map (m.occurrence text)

/-- Whether a text has a wildcard. -/
def hasWildcard (m : Markers) (text : String) : Bool := !(m.scan text.toList).isEmpty

/-- The text from place `cursor` on without the aliases of the given wildcards. -/
def stripFrom (text : List Char) (cursor : Nat) : List Occurrence → List Char
  | [] => text.drop cursor
  | o :: rest => segment text cursor o.runStop ++ stripFrom text o.stop rest

/-- The text with the aliases of its wildcards left out. -/
def stripAliases (m : Markers) (text : String) : String :=
  String.ofList (stripFrom text.toList 0 (m.scan text.toList))

/-- Whether a text is one required wildcard, with or without alias, and nothing else. -/
def isNodeTree (m : Markers) (text : String) : Bool := m.stripAliases text == m.required

/-- The first run of markers that a query may not hold, as the number of bytes before it. -/
def findInvalid? (m : Markers) (text : String) : Option Nat :=
  ((m.runs text.toList).find? fun run =>
    5 ≤ run.width ||
      run.width == 4 && (text.toList.drop (run.start + run.width)).head? != some '\x7b').map
    fun run => Text.byteLength (text.toList.take run.start)

/-- The wildcards of a text. In an identifier that is one required wildcard it stands for a
subtree. -/
def classify (m : Markers) (text : String) (context : WildcardContext) : List Wildcard :=
  let kind := match context with
    | .string => WildcardKind.string
    | .identifier => if m.isNodeTree text then .nodeTree else .identifier
  (m.scan text.toList).map fun o =>
    { kind
      withAlias := String.ofList (segment text.toList o.start o.stop)
      withoutAlias := String.ofList (segment text.toList o.start o.runStop)
      aliasName := o.aliasName.map String.ofList }

/-- The text from place `cursor` on, cut at the given wildcards. -/
def fragmentsFrom (text : List Char) (cursor : Nat) : List Occurrence → List (List Char)
  | [] => [text.drop cursor]
  | o :: rest => segment text cursor o.start :: fragmentsFrom text o.stop rest

/-- The literal text before, between and after the wildcards. -/
def fragments (m : Markers) (text : String) : List String :=
  (fragmentsFrom text.toList 0 (m.scan text.toList)).map String.ofList

/-- The number of characters outside the wildcards. -/
def literalLength (m : Markers) (text : String) : Nat :=
  (fragmentsFrom text.toList 0 (m.scan text.toList)).flatten.length

end Markers

end CodeSearch

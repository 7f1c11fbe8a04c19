import CodeSearch.Language.Registry
import CodeSearch.Text.Lines

/-!
# Recorded parses

Parsers are programs of their own. What they make of texts is handed over as JSON: for each
text the rows of its concrete tree in pre-order, and for each language the node types that
matter. A row gives the depth of a node, its kind, its two byte offsets, and possibly its
field and letters for what it is: `a` for anonymous, `x` for extra, `e` for erroneous and `m`
for missing.
-/

set_option autoImplicit false

namespace CodeSearch

/-- The position of every byte offset of a text, the end included. -/
def positionTable (text : List Char) : Array Position :=
  let (table, stop) := text.foldl
    (fun (table, p) c =>
      let inside := (List.range c.utf8Size).map fun k => Position.mk p.line (p.column + k)
      (inside.foldl Array.push table,
        if c = '\n' then ⟨p.line + 1, 0⟩ else ⟨p.line, p.column + c.utf8Size⟩))
    (#[], Position.mk 0 0)
  table.push stop

namespace ConcreteTree

/-- Reads a row: its depth and its node. -/
def rowOfJson? (positions : Array Position) (row : Json) : Option (Nat × ConcreteNode) := do
  match ← row.array? with
  | depth :: kind :: start :: stop :: rest =>
      let start ← start.nat?
      let stop ← stop.nat?
      let field := (rest[0]?.bind Json.string?).filter (· != "")
      let flags := ((rest[1]?.bind Json.string?).getD "").toList
      some (← depth.nat?,
        { kind := ← kind.string?
          field
          span := ⟨start, stop, positions[start]?.getD ⟨0, 0⟩, positions[stop]?.getD ⟨0, 0⟩⟩
          isNamed := !flags.contains 'a'
          isExtra := flags.contains 'x'
          isError := flags.contains 'e'
          isMissing := flags.contains 'm' })
  | _ => none

/-- Puts a row before trees and their depths. The deeper ones among the first are its
children. -/
def addRow (row : Nat × ConcreteNode) (trees : List (Nat × ConcreteTree)) :
    List (Nat × ConcreteTree) :=
  let below := trees.takeWhile (row.1 < ·.1)
  (row.1, .mk row.2 (below.map Prod.snd)) :: trees.drop below.length

/-- The tree of rows in pre-order. -/
def ofRows (rows : List (Nat × ConcreteNode)) : Option ConcreteTree :=
  ((rows.foldr addRow []).head?).map Prod.snd

/-- Reads the rows of the tree of a text. -/
def ofJson? (text : String) (rows : Json) : Option ConcreteTree := do
  let positions := positionTable text.toList
  ofRows (← (← rows.array?).mapM (rowOfJson? positions))

end ConcreteTree

/-- Reads an arity: `m` stands for several nodes and `r` for a field that is always there. -/
def Arity.ofLetters (letters : String) : Arity :=
  ⟨letters.toList.contains 'm', letters.toList.contains 'r'⟩

/-- Reads the shape of a kind: arities of its fields under `f`, and of its other children
under `c`. -/
def KindShape.ofRecord (value : Json) : KindShape where
  fields := ((value.get? "f").bind Json.object?).getD [] |>.map fun (name, arity) =>
    (name, .ofLetters (arity.string?.getD ""))
  children := ((value.get? "c").bind Json.string?).map Arity.ofLetters

namespace ParserSet

/-- Reads recorded trees, an array of language, text and rows, and node types by language and
kind. -/
def ofJson (trees types : Json) : ParserSet where
  tree language text := (trees.array?.getD []).findSome? fun entry =>
    match entry with
    | .array [.string name, .string recorded, rows] =>
        if name == language.name && recorded == text then ConcreteTree.ofJson? text rows
        else none
    | _ => none
  types language := (((types.get? language.name).bind Json.object?).getD []).map
    fun (kind, shape) => (kind, .ofRecord shape)

end ParserSet

end CodeSearch

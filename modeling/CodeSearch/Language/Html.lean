import CodeSearch.Language.Dialect

/-!
# HTML

Runs of blanks in text count as one space, and blank text and closing tags do not count at
all. An element without a closing tag ends with its last child that is not blank.
-/

set_option autoImplicit false

namespace CodeSearch.Html

/-- The kinds of nodes in a document. -/
def kinds : NodeKinds where
  identifiers := ["tag_name", "attribute_name"]
  strings := ["text", "attribute_value"]
  programs := ["document"]
  block := "document"
  equivalent := [("self_closing_tag", "start_tag")]

/-- Whether a node is text without any characters. -/
def isEmptyText (n : Node) : Bool := n.kind == "text" && n.text == some ""

/-- The element without the blanks after its last child, if it has no closing tag. -/
def trimImplicitClose (element : Node) : Node :=
  let children := element.children
  if children.any (·.kind == "end_tag") then element
  else
    match children.reverse.find? fun child => !isEmptyText child with
    | some last =>
        element.withSpan
          ⟨element.span.startByte, last.span.endByte, element.span.start, last.span.stop⟩
    | none => element

/-- A quoted value with an empty one in it, if there is none. -/
def fillQuotedValue (quoted : Node) : Node :=
  if quoted.children.isEmpty then
    let start := quoted.span.start
    let inside : Position := ⟨start.line, start.column + 1⟩
    let byte := quoted.span.startByte + 1
    quoted.withChildren [.leaf "attribute_value" "" ⟨byte, byte, inside, inside⟩]
  else quoted

/-- Documents. -/
def dialect : Dialect where
  kinds := kinds
  leafText kind source := if kind = "text" then collapseBlanks source else source
  finish node :=
    if node.kind = "element" then trimImplicitClose node
    else if node.kind = "quoted_attribute_value" then fillQuotedValue node
    else node
  isComparable node :=
    if node.kind = "end_tag" then false
    else if node.kind = "text" then node.text.any (· != "")
    else true
  wrap text := text

end CodeSearch.Html

import CodeSearch.Failure
import CodeSearch.Query.Tokens
import CodeSearch.Text.Lines

/-!
# Queries

A query is code in the language of the files, possibly with wildcards. It is read as follows.

1. Runs of too many markers are rejected, and so are blank texts.
2. Where the marker cannot stand in a name, the grammar puts placeholders for wildcards.
3. The text is parsed, or else the text wrapped in a way that admits lone expressions. If both
   fail, the failure of the first counts.
4. The one statement of the query is freed of its wrappers; several become a block.
-/

set_option autoImplicit false

namespace CodeSearch

/-- A query ready for matching. -/
structure ParsedQuery where
  /-- The query as written. -/
  text : String
  node : Node
  /-- What a file must contain to match. -/
  tokens : List String
  /-- Whether the query has several statements. -/
  isMultistatement : Bool
  hints : List Hint

/-- The line and the character of that line, both counted from one, that a byte offset
designates. As in any `Position`, no number is cut off at 2 ^ 32 - 1. -/
def locationOf (text : String) (offset : Nat) : Position :=
  let before := match Text.cutAt? offset text.toList with
    | some (before, _) => before
    | none => text.toList
  ⟨Text.lineBreaks before + 1, (Text.lastLine before).length + 1⟩

/-- The child of a node whose fields together hold one child. -/
def Node.soleChild? (n : Node) : Option Node :=
  match n.fields.filter (·.2.holdsNodes) with
  | [(_, .node child)] => some child
  | [(_, .nodes [child])] => some child
  | _ => none

/-- Goes from a node to its sole child, at most so many times, as long as the node only wraps
it. -/
def Node.unwrapUpTo (isWrapper : Node → Bool) : Nat → Node → Node
  | 0, n => n
  | steps + 1, n =>
      if isWrapper n then
        match n.soleChild? with
        | some child => child.unwrapUpTo isWrapper steps
        | none => n
      else n

/-- Goes from a node to its sole child as long as the node only wraps it. -/
def Node.unwrap (isWrapper : Node → Bool) (n : Node) : Node := n.unwrapUpTo isWrapper n.height

/-- Whether a node only wraps the one statement of a query. Parentheses do if the query was
wrapped to be parsed. -/
def Grammar.isWrapper (grammar : Grammar) (wrapped : Bool) (n : Node) : Bool :=
  grammar.kinds.isStatementWrapper n.kind ||
    wrapped && grammar.kinds.parenthesized == some n.kind

/-- The tree of a query text, and whether it had to be wrapped. -/
def Grammar.parseQueryText (grammar : Grammar) (text : String) :
    Except ParseFailure (Node × Bool) :=
  let source := grammar.encodeQuery text
  match grammar.parse source with
  | .ok root => .ok (root, false)
  | .error first =>
      match grammar.parse (grammar.wrap source) with
      | .ok root => .ok (root, true)
      | .error _ => .error first

/-- The node that a query's statements are matched as; none if there are no statements. -/
def Grammar.queryNode? (grammar : Grammar) (wrapped : Bool) (span : Span) :
    List Node → Option Node
  | [] => none
  | [statement] => some (statement.unwrap (grammar.isWrapper wrapped))
  | statements => some ((Node.branch grammar.kinds.block span).withChildren statements)

/-- Reads a query. -/
def parseQuery (grammar : Grammar) (config : MatchSettings) (text : String) :
    Except SearchError ParsedQuery :=
  match config.markers.findInvalid? text with
  | some offset => .error (.invalidWildcard (locationOf text offset))
  | none =>
      if (Text.trim text.toList).isEmpty then .error .emptyQuery
      else
        match grammar.parseQueryText text with
        | .error failure =>
            .error (.queryParse failure.message failure.location (Hint.forQuery text true))
        | .ok (parsed, wrapped) =>
            let root := grammar.decodeQuery parsed
            let statements := grammar.statements root wrapped
            match grammar.queryNode? wrapped root.span statements with
            | none => .error .emptyQuery
            | some node =>
                .ok { text, node
                      tokens := uniqueTokens grammar config node
                      isMultistatement := 2 ≤ statements.length
                      hints := Hint.forQuery text false }

end CodeSearch

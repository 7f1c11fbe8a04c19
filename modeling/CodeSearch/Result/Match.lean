import CodeSearch.Bindings
import CodeSearch.Path
import CodeSearch.Result.Excerpt

/-!
# Matches

What a search reports: where a query matched, the code there, and what its aliases stand for.
-/

set_option autoImplicit false

namespace CodeSearch

/-- A match of one query in one file. -/
structure Match where
  path : String
  /-- The place of the query among the queries. -/
  queryIndex : Nat
  span : Span
  /-- The matched code, dedented. -/
  code : String
  /-- The characters of indentation left out of the code. -/
  indentation : Nat
  frame : CodeFrame
  bindings : Bindings

namespace Match

/-- The match at a span of a source. -/
def ofSpan (path : String) (queryIndex : Nat) (span : Span) (source : String)
    (bindings : Bindings) : Match :=
  let (code, indentation) := dedentedCode source span
  { path, queryIndex, span, code, indentation, frame := codeFrame source span, bindings }

@[simp] theorem ofSpan_frame (path : String) (queryIndex : Nat) (span : Span) (source : String)
    (bindings : Bindings) :
    (ofSpan path queryIndex span source bindings).frame = codeFrame source span := rfl

/-- What makes two matches the same for the reader: the file and the bytes. -/
def site (m : Match) : List String × Nat × Nat :=
  (Path.components m.path, m.span.startByte, m.span.endByte)

/-- The matches at sites that are neither among the given ones nor those of earlier
matches. -/
def dedupFrom (seen : List (List String × Nat × Nat)) : List Match → List Match
  | [] => []
  | m :: rest =>
      if seen.contains m.site then dedupFrom seen rest else m :: dedupFrom (m.site :: seen) rest

/-- The first match at each site. -/
def dedup (found : List Match) : List Match := dedupFrom [] found

end Match

end CodeSearch

import CodeSearch.Json.Basic
import CodeSearch.Search

/-!
# Results as JSON

How matches, failures, hints and counts are written for other programs to read.
-/

set_option autoImplicit false

namespace CodeSearch

/-- A position, counted from zero. -/
def Position.toJson (p : Position) : Json :=
  .object [("line", .ofNat p.line), ("column", .ofNat p.column)]

/-- A span with its bytes and positions. -/
def Span.toJson (s : Span) : Json :=
  .object
    [("start_byte", .ofNat s.startByte), ("end_byte", .ofNat s.endByte),
      ("start", s.start.toJson), ("end", s.stop.toJson)]

/-- Aliases and the text or code they stand for. -/
def AliasMap.toJson (entries : AliasMap) : Json :=
  .object (entries.map fun (aliasName, binding) =>
    (aliasName, .object [("value", .string binding.value)]))

/-- Bindings by the kind of alias. -/
def Bindings.toJson (b : Bindings) : Json :=
  .object
    [("identifierAliases", AliasMap.toJson b.identifier),
      ("stringAliases", AliasMap.toJson b.string),
      ("nodeTreeAliases", AliasMap.toJson b.nodeTree)]

/-- Whole lines and the number of the first, counted from zero. -/
def CodeFrame.toJson (f : CodeFrame) : Json :=
  .object [("code", .string f.code), ("startLine", .ofNat f.startLine)]

/-- A match. -/
def Match.toJson (m : Match) : Json :=
  .object
    [("filePath", .string m.path), ("queryIndex", .ofNat m.queryIndex), ("span", m.span.toJson),
      ("code", .string m.code), ("indentationBase", .ofNat m.indentation),
      ("extendedCodeFrame", m.frame.toJson), ("aliases", m.bindings.toJson)]

/-- A hint in one text, and as words and code. -/
def Hint.toJson (h : Hint) : Json :=
  .object
    [("text", .string h.text),
      ("tokens", .array
        [.object [("kind", .string "text"), ("content", .string h.prose)],
          .object [("kind", .string "code"), ("content", .string h.code)]])]

/-- A failure. The names of its members are in alphabetical order. -/
def SearchFailure.toJson (f : SearchFailure) : Json :=
  .object
    ((f.grammar.toList.map fun name => ("adapter", .string name)) ++
      [("message", .string f.error.message), ("path", .ofOption .string f.path),
        ("query_index", .ofOption .ofNat f.queryIndex)])

/-- The counts of a search. -/
def SearchMetrics.toJson (m : SearchMetrics) : Json :=
  .object
    [("filesSeen", .ofNat m.filesSeen), ("filesFiltered", .ofNat m.filesFiltered),
      ("filesParsed", .ofNat m.filesParsed), ("filesFailed", .ofNat m.filesFailed),
      ("rawMatches", .ofNat m.rawMatches),
      ("invariantViolations", .ofNat m.invariantViolations)]

end CodeSearch

import CodeSearch.Language.Basic
import CodeSearch.Language.CSharp
import CodeSearch.Language.Conversion
import CodeSearch.Language.Css
import CodeSearch.Language.Ecma
import CodeSearch.Language.Html
import CodeSearch.Language.Lua
import CodeSearch.Language.Placeholder
import CodeSearch.Language.Python
import CodeSearch.Language.Rust
import CodeSearch.Search

/-!
# The grammars of the languages

A grammar is made of a parser for the language, the node types the parser declares, and the
dialect. A registry hands out grammars by the extensions of files.
-/

set_option autoImplicit false

namespace CodeSearch

/-- What the languages are parsed with. -/
structure ParserSet where
  /-- The concrete tree of a text. -/
  tree : Language → String → Option ConcreteTree
  /-- The node types of a language's concrete trees. -/
  types : Language → NodeTypes

namespace Language

/-- The peculiarities of a language. -/
def dialect : Language → Dialect
  | javaScript => Ecma.javaScript
  | typeScript | tsx => Ecma.typeScript
  | python => Python.dialect
  | cSharp => CSharp.dialect
  | css => Css.dialect
  | html => Html.dialect
  | rust => Rust.dialect
  | lua => Lua.dialect

/-- The tree of a text. -/
def parse (parsers : ParserSet) (language : Language) (text : String) :
    Except ParseFailure Node :=
  match parsers.tree language text with
  | none => .error ⟨"failed to parse " ++ language.name, none⟩
  | some tree =>
      Converter.convert ⟨language.dialect, parsers.types language, text.toList⟩ tree

/-- The grammar of a language for queries with the given markers. -/
def grammar (parsers : ParserSet) (markers : Markers) (language : Language) : Grammar where
  name := language.name
  kinds := language.dialect.kinds
  parse := language.parse parsers
  isOptional kind field := (parsers.types language).isOptional kind field
  sanitize := language.dialect.sanitize
  isComparable := language.dialect.isComparable
  encodeQuery text := if language.dialect.usesPlaceholders then markers.encode text else text
  decodeQuery node := if language.dialect.usesPlaceholders then node.decode markers else node
  wrap := language.dialect.wrap
  statements := language.dialect.statements
  rulesBefore := language.dialect.rulesBefore
  rulesAfter := language.dialect.rulesAfter

end Language

/-- Chooses the language of each file, by its extension or once for all files. -/
structure Registry where
  parsers : ParserSet
  markers : Markers := {}
  forced : Option Language := none

namespace Registry

/-- The language a file is taken to be in. -/
def languageFor? (r : Registry) (path : String) : Option Language :=
  r.forced.or (Language.ofPath? path)

/-- The grammar of a file. -/
def resolve (r : Registry) : Resolver := fun path =>
  (r.languageFor? path).map (Language.grammar r.parsers r.markers)

end Registry

end CodeSearch

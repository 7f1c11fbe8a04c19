import CodeSearch.Path
import CodeSearch.Text.Blank
import CodeSearch.Text.Lowercase

/-!
# Languages

The languages that can be searched, their names, and how a file shows which one it is in.
-/

set_option autoImplicit false

namespace CodeSearch

/-- A language that can be searched. -/
inductive Language where
  | javaScript
  | typeScript
  /-- TypeScript with elements of markup. -/
  | tsx
  | python
  | cSharp
  | css
  | html
  | rust
  | lua
  deriving DecidableEq, Repr

namespace Language

/-- All languages. -/
def all : List Language :=
  [javaScript, typeScript, tsx, python, cSharp, css, html, rust, lua]

/-- The name of a language. -/
def name : Language → String
  | javaScript => "javascript"
  | typeScript => "typescript"
  | tsx => "tsx"
  | python => "python"
  | cSharp => "csharp"
  | css => "css"
  | html => "html"
  | rust => "rust"
  | lua => "lua"

/-- The extensions of a language's files. -/
def extensions : Language → List String
  | javaScript => ["js", "jsx", "mjs", "cjs"]
  | typeScript => ["ts", "mts", "cts"]
  | tsx => ["tsx"]
  | python => ["py", "pyi"]
  | cSharp => ["cs"]
  | css => ["css"]
  | html => ["html", "htm"]
  | rust => ["rs"]
  | lua => ["lua"]

/-- The names under which a language can be asked for. -/
def aliases : Language → List String
  | javaScript => ["javascript", "js", "jsx"]
  | typeScript => ["typescript", "ts"]
  | tsx => ["tsx"]
  | python => ["python", "py"]
  | cSharp => ["csharp", "c#", "cs"]
  | css => ["css"]
  | html => ["html", "htm"]
  | rust => ["rust", "rs"]
  | lua => ["lua"]

/-- The language of a file extension, in any ASCII letter case. -/
def ofExtension? (extension : String) : Option Language :=
  all.find? fun language => language.extensions.contains (Text.lowercaseAscii extension)

/-- The language of a file, by its extension. -/
def ofPath? (path : String) : Option Language := (Path.extension? path).bind ofExtension?

/-- The name by which a language is asked for, without blanks around it and in lower case. -/
def normalName (text : String) : String :=
  Text.lowercaseAscii (String.ofList (Text.trim text.toList))

/-- The language that is asked for by some name. -/
def ofName? (text : String) : Option Language :=
  all.find? fun language => language.aliases.contains (normalName text)

/-- What is said of a name that no language has. -/
def unknownMessage (name : String) : String := "unsupported language: '" ++ name ++ "'"

end Language

end CodeSearch

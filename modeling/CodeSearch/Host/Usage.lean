import CodeSearch.CommandLine.Surroundings
import CodeSearch.Host.Arguments

/-!
# Usage

What the program says about itself when it runs on a snapshot: its name and version, and a summary
of its options.
-/

set_option autoImplicit false

namespace CodeSearch

/-- The name of the program. -/
def programName : String := "sift"

/-- The name and version of the program. -/
def versionText : String := programName ++ " 0.1.0\n"

namespace Setting

/-- What an option is for. -/
def summary : Setting → String
  | query => "Query to search for. May be repeated; matches of any query are reported"
  | queryFile => "Reads an additional query from a file"
  | mode =>
      "How strictly code must match: exact, include or include-with-order [default: include]"
  | caseInsensitive => "Compares identifiers and strings ignoring case"
  | maxResults => "Stops after this many matches"
  | language => "Parses every file as this language instead of guessing from the extension"
  | output =>
      "Controls how matches are rendered [default: auto] [possible values: auto, human, json]"
  | logFilter => "Tracing filter directive for diagnostics on stderr [default: warn]"
  | logFormat => "Format of diagnostics on stderr: json or compact [default: compact]"
  | help => "Print help"
  | version => "Print version"

/-- How an option is written: its letter, its name and what stands for its value. -/
def pattern (setting : Setting) : String :=
  let letter := match setting.letter? with
    | some c => "-" ++ String.singleton c ++ ", "
    | none => "    "
  let value := match setting.valueName? with
    | some name => " <" ++ name ++ ">"
    | none => ""
  letter ++ "--" ++ setting.name ++ value

/-- The line on an option in a list of options. -/
def usageLine (setting : Setting) : String :=
  let width := 31
  let blanks := String.ofList (List.replicate (width - setting.pattern.length) ' ')
  "  " ++ setting.pattern ++ blanks ++ setting.summary ++ "\n"

end Setting

/-- How the program is used. -/
def helpText : String :=
  "Structural code search: find code that looks like the query\n\n" ++
    "Usage: " ++ programName ++ " [OPTIONS] [PATH]...\n\nArguments:\n" ++
    "  [PATH]...  Files or directories to search. Defaults to the current directory\n\n" ++
    "Options:\n" ++ String.join (Setting.all.map Setting.usageLine)

/-- The options that arguments ask for, or what is to be said of them. -/
def parseArguments (arguments : List String) : Except Halt Options :=
  match Options.ofArguments arguments with
  | .ok options => .ok options
  | .error .help => .error (.shown helpText)
  | .error .version => .error (.shown versionText)
  | .error (.usage error) => .error (.usage error.message)

end CodeSearch

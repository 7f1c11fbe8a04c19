import CodeSearch.CommandLine.Options
import CodeSearch.Text.Decimal

/-!
# Arguments

The command line as the program reads it when it runs on a snapshot: options with two dashes and
their value as the next argument or after an equals sign, options of one letter that may be run
together, and paths. An argument that starts with a dash is no value, and after `--` all arguments
are paths.
-/

set_option autoImplicit false

namespace CodeSearch

/-- An option of the command line. -/
inductive Setting where
  | query
  | queryFile
  | mode
  | caseInsensitive
  | maxResults
  | language
  | output
  | logFilter
  | logFormat
  | help
  | version
  deriving DecidableEq, Repr

namespace Setting

/-- All options. -/
def all : List Setting :=
  [query, queryFile, mode, caseInsensitive, maxResults, language, output, logFilter, logFormat,
    help, version]

/-- The name of an option, after two dashes. -/
def name : Setting → String
  | query => "query"
  | queryFile => "query-file"
  | mode => "mode"
  | caseInsensitive => "case-insensitive"
  | maxResults => "max-results"
  | language => "lang"
  | output => "output"
  | logFilter => "log-filter"
  | logFormat => "log-format"
  | help => "help"
  | version => "version"

/-- The letter of an option, after one dash. -/
def letter? : Setting → Option Char
  | query => some 'q'
  | caseInsensitive => some 'i'
  | help => some 'h'
  | version => some 'V'
  | _ => none

/-- What stands for the value of an option when its use is explained, if it has a value. -/
def valueName? : Setting → Option String
  | query => some "QUERY"
  | queryFile => some "FILE"
  | mode => some "MODE"
  | maxResults => some "N"
  | language => some "LANG"
  | output => some "OUTPUT"
  | logFilter => some "FILTER"
  | logFormat => some "FORMAT"
  | caseInsensitive | help | version => none

/-- Whether an option has a value. -/
def takesValue (setting : Setting) : Bool := setting.valueName?.isSome

/-- Whether an option may be given more than once. -/
def mayRepeat : Setting → Bool
  | query | queryFile => true
  | _ => false

end Setting

/-- Why arguments cannot be understood. -/
inductive UsageError where
  | unknownArgument (argument : String)
  | missingValue (setting : Setting)
  | unexpectedValue (setting : Setting)
  | repeated (setting : Setting)
  | invalidValue (setting : Setting) (value reason : String)
  deriving DecidableEq, Repr

/-- The error in words. -/
def UsageError.message : UsageError → String
  | unknownArgument argument => "error: unexpected argument '" ++ argument ++ "' found"
  | missingValue setting =>
      "error: a value is required for '--" ++ setting.name ++ "' but none was supplied"
  | unexpectedValue setting => "error: unexpected value for '--" ++ setting.name ++ "' found"
  | repeated setting =>
      "error: the argument '--" ++ setting.name ++ "' cannot be used multiple times"
  | invalidValue setting value reason =>
      "error: invalid value '" ++ value ++ "' for '--" ++ setting.name ++ "': " ++ reason

/-- Why the reading of arguments ends before their end. -/
inductive ArgumentStop where
  | usage (error : UsageError)
  | help
  | version
  deriving DecidableEq, Repr

/-- The options read so far and which were given. -/
structure ArgumentState where
  options : Options := {}
  given : List Setting := []

/-- The number of matches written in decimal, possibly with a plus sign. It has to fit a word of
sixty-four bits. -/
def limitOfText (text : String) : Except String Nat :=
  match Text.natural? text.toList with
  | none => .error "invalid digit found in string"
  | some limit =>
      if limit < UInt64.size then .ok limit
      else .error "number too large to fit in target type"

/-- The output format of a name. -/
def OutputFormat.ofName? : String → Option OutputFormat
  | "auto" => some auto
  | "human" => some human
  | "json" => some json
  | _ => none

/-- The format of diagnostics of a name, in any ASCII letter case. -/
def LogFormat.ofName? (text : String) : Option LogFormat :=
  match Text.lowercaseAscii text with
  | "json" => some json
  | "compact" => some compact
  | _ => none

/-- What a name stands for; if it stands for nothing, what is said of it. -/
def ofName {α : Type} (named : Option α) (unknown : String) : Except String α :=
  match named with
  | some a => .ok a
  | none => .error unknown

/-- The options with the value of one of them, or what is wrong with the value. -/
def Options.set (o : Options) (setting : Setting) (value : String) : Except String Options :=
  match setting with
  | .query => .ok { o with queries := o.queries ++ [value] }
  | .queryFile => .ok { o with queryFiles := o.queryFiles ++ [value] }
  | .mode => (ofName (Mode.ofName? value) unknownNameMessage).map fun mode => { o with mode }
  | .maxResults => (limitOfText value).map fun limit => { o with maxResults := some limit }
  | .language =>
      (ofName (Language.ofName? value) (Language.unknownMessage (Language.normalName value))).map
        fun language => { o with language := some language }
  | .output =>
      (ofName (OutputFormat.ofName? value) "the values are auto, human and json").map
        fun output => { o with output }
  | .logFilter => .ok { o with logFilter := value }
  | .logFormat =>
      (ofName (LogFormat.ofName? value) unknownNameMessage).map
        fun logFormat => { o with logFormat }
  | .caseInsensitive | .help | .version => .error "the option has no value"

namespace ArgumentState

/-- Takes up an option with its value. -/
def withValue (s : ArgumentState) (setting : Setting) (value : String) :
    Except ArgumentStop ArgumentState :=
  match s.options.set setting value with
  | .error reason => .error (.usage (.invalidValue setting value reason))
  | .ok options =>
      if s.given.contains setting && !setting.mayRepeat then .error (.usage (.repeated setting))
      else .ok ⟨options, setting :: s.given⟩

/-- Takes up an option without a value. -/
def withFlag (s : ArgumentState) (setting : Setting) : Except ArgumentStop ArgumentState :=
  match setting with
  | .help => .error .help
  | .version => .error .version
  | _ =>
      if s.given.contains setting then .error (.usage (.repeated setting))
      else .ok ⟨{ s.options with ignoreCase := true }, setting :: s.given⟩

/-- Takes up a path. -/
def withPath (s : ArgumentState) (path : String) : ArgumentState :=
  { s with options := { s.options with paths := s.options.paths ++ [path] } }

/-- Takes up what follows two dashes. The result tells which option still needs its value. -/
def withName (s : ArgumentState) (argument : List Char) :
    Except ArgumentStop (ArgumentState × Option Setting) :=
  let name := argument.takeWhile (· != '=')
  let value? := ((argument.drop name.length).tail?).map String.ofList
  match Setting.all.find? (·.name == String.ofList name) with
  | none => .error (.usage (.unknownArgument ("--" ++ String.ofList argument)))
  | some setting =>
      match setting.takesValue, value? with
      | true, some value => (s.withValue setting value).map (·, none)
      | true, none => .ok (s, some setting)
      | false, some _ => .error (.usage (.unexpectedValue setting))
      | false, none => (s.withFlag setting).map (·, none)

/-- Takes up the letters that follow one dash. What follows the letter of an option with a
value is its value. The result tells which option still needs its value. -/
def withLetters (s : ArgumentState) :
    List Char → Except ArgumentStop (ArgumentState × Option Setting)
  | [] => .ok (s, none)
  | c :: rest =>
      match Setting.all.find? (·.letter? == some c) with
      | none => .error (.usage (.unknownArgument ("-" ++ String.singleton c)))
      | some setting =>
          if setting.takesValue then
            match rest with
            | [] => .ok (s, some setting)
            | '=' :: value => (s.withValue setting (String.ofList value)).map (·, none)
            -- the rest of the argument is the value, as in `-qfoo`
            | value => (s.withValue setting (String.ofList value)).map (·, none)
          else
            match s.withFlag setting with
            | .error stop => .error stop
            | .ok s => s.withLetters rest

/-- Takes up arguments, the first of which is the value of `waiting` if that is an option. -/
def withArguments (s : ArgumentState) (waiting : Option Setting) :
    List String → Except ArgumentStop ArgumentState
  | [] =>
      match waiting with
      | some setting => .error (.usage (.missingValue setting))
      | none => .ok s
  | argument :: rest =>
      let isOption := match argument.toList with
        | '-' :: _ :: _ => true
        | _ => false
      match waiting with
      | some setting =>
          -- a lone dash is a value, anything longer that starts with one is not
          if isOption then .error (.usage (.missingValue setting))
          else
            match s.withValue setting argument with
            | .error stop => .error stop
            | .ok s => s.withArguments none rest
      | none =>
          match argument.toList with
          | ['-', '-'] => .ok (rest.foldl withPath s)
          | '-' :: '-' :: long =>
              match s.withName long with
              | .error stop => .error stop
              | .ok (s, waiting) => s.withArguments waiting rest
          | '-' :: c :: letters =>
              match s.withLetters (c :: letters) with
              | .error stop => .error stop
              | .ok (s, waiting) => s.withArguments waiting rest
          | _ => (s.withPath argument).withArguments none rest

end ArgumentState

/-- The options that arguments ask for. -/
def Options.ofArguments (arguments : List String) : Except ArgumentStop Options :=
  (ArgumentState.withArguments {} none arguments).map (·.options)

end CodeSearch

import CodeSearch.Text.AlphanumericTable
import CodeSearch.Text.Hexadecimal

/-!
# Patterns of field values

A log filter of a run on a snapshot can ask for fields whose value matches a regular expression.
This file tells whether a text is such an expression. An expression that looks for the edges of
words is one, but cannot be used, because a word can hold letters of any script.

Braces close the field that a pattern stands in, so a pattern holds no closing brace and no
repetition with bounds.
-/

set_option autoImplicit false

namespace CodeSearch.FieldPattern

/-- Why a text cannot be used as a pattern. -/
inductive PatternError where
  | malformed
  /-- The pattern looks for the edges of words. -/
  | wordBoundary
  deriving DecidableEq, Repr

/-- The reason in words. -/
def PatternError.message : PatternError → String
  | malformed => "error building NFA"
  | wordBoundary =>
      "unsupported regex feature for DFAs: cannot build DFAs for regexes with Unicode word " ++
        "boundaries; switch to ASCII word boundaries, or heuristically enable Unicode word " ++
        "boundaries or use a different regex engine"

/-- What an escape stands for. -/
inductive Escape where
  | character (c : Char)
  /-- One of a set of characters. -/
  | oneOf
  /-- All characters but those of a set. -/
  | noneOf
  /-- Characters with a Unicode property. -/
  | property
  | wordEdge
  | textEdge
  deriving DecidableEq, Repr

/-- Reads a character written with so many hexadecimal digits. -/
def hexEscape? (count : Nat) (text : List Char) : Option (Escape × List Char) := do
  let digits := text.take count
  let value ← Text.hexValue? digits
  if digits.length = count ∧ value.isValidChar then
    some (.character (Char.ofNat value), text.drop count)
  else none

/-- The letters that stand for control characters. -/
def controls : List (Char × Char) :=
  [('a', '\x07'), ('t', '\t'), ('n', '\n'), ('v', '\x0b'), ('f', '\x0c'), ('r', '\r')]

/-- Reads what follows a backslash. -/
def escape? : List Char → Option (Escape × List Char)
  | [] => none
  | 'x' :: rest => hexEscape? 2 rest
  | 'u' :: rest => hexEscape? 4 rest
  | 'U' :: rest => hexEscape? 8 rest
  | c :: rest =>
      if c = 'p' ∨ c = 'P' then
        match rest with
        -- the property is a general category by its letter
        | category :: rest =>
            if category.toLower ∈ ['c', 'l', 'm', 'n', 'p', 's', 'z'] then some (.property, rest)
            else none
        | [] => none
      else if c ∈ ['d', 's', 'w'] then some (.oneOf, rest)
      else if c ∈ ['D', 'S', 'W'] then some (.noneOf, rest)
      else if c ∈ ['b', 'B', '<', '>'] then some (.wordEdge, rest)
      else if c ∈ ['A', 'z'] then some (.textEdge, rest)
      else
        match controls.lookup c with
        | some control => some (.character control, rest)
        | none => if c.toNat < 0x80 ∧ !c.isAlphanum then some (.character c, rest) else none

/-! ## Brackets -/

/-- The classes of characters that have a name between colons. -/
def classNames : List String :=
  ["alnum", "alpha", "ascii", "blank", "cntrl", "digit", "graph", "lower", "print", "punct",
    "space", "upper", "word", "xdigit"]

/-- Reads a class by its name, after an opening bracket. -/
def namedClass? : List Char → Option (List Char)
  | ':' :: rest =>
      let rest := match rest with
        | '^' :: rest => rest
        | _ => rest
      let name := rest.takeWhile (· != ':')
      match rest.drop name.length with
      | ':' :: ']' :: rest => if String.ofList name ∈ classNames then some rest else none
      | _ => none
  | _ => none

/-- What follows an opening bracket and the signs that only stand there: that of a complement,
and a closing bracket or dashes that stand for themselves. -/
def afterBracket (text : List Char) : List Char :=
  let text := match text with
    | '^' :: rest => rest
    | _ => text
  match text with
  | ']' :: rest => rest
  | _ => text.dropWhile (· == '-')

/-- Reads a character or a set of characters, without a character for a set. -/
def member? : List Char → Option (Option Char × List Char)
  | [] => none
  | '\\' :: rest =>
      match escape? rest with
      | some (.character c, rest) => some (some c, rest)
      | some (.wordEdge, _) | some (.textEdge, _) | none => none
      | some (_, rest) => some (none, rest)
  | c :: rest => some (some c, rest)

/-- Reads a member of brackets or a range from one character to another. -/
def range? (text : List Char) : Option (List Char) :=
  match member? text with
  | none => none
  | some (first, rest) =>
      match rest with
      | '-' :: ']' :: _ | '-' :: '-' :: _ => some rest
      | '-' :: rest =>
          match first, member? rest with
          | some first, some (some last, rest) => if first ≤ last then some rest else none
          | _, _ => none
      | _ => some rest

/-- Reads the rest of brackets, so many of them inside others. The first argument bounds the
number of steps. -/
def brackets? : Nat → Nat → List Char → Option (List Char)
  | 0, _, _ | _, _, [] => none
  | fuel + 1, depth, '[' :: rest =>
      match namedClass? rest with
      | some rest => brackets? fuel depth rest
      | none => brackets? fuel (depth + 1) (afterBracket rest)
  | _ + 1, 0, ']' :: rest => some rest
  | fuel + 1, depth + 1, ']' :: rest => brackets? fuel depth rest
  | fuel + 1, depth, '&' :: '&' :: rest => brackets? fuel depth rest
  | fuel + 1, depth, '-' :: '-' :: rest => brackets? fuel depth rest
  | fuel + 1, depth, '~' :: '~' :: rest => brackets? fuel depth rest
  | fuel + 1, depth, text =>
      match range? text with
      | some rest => brackets? fuel depth rest
      | none => none

/-! ## Groups -/

/-- Reads the name of a group up to its closing angle bracket. -/
def groupName? (text : List Char) : Option (List Char × List Char) :=
  let name := text.takeWhile (· != '>')
  match name, text.drop name.length with
  | first :: others, _ :: rest =>
      if (first = '_' || (Text.isAlphanumeric first && !first.isDigit)) &&
          others.all (fun c => Text.isAlphanumeric c || c ∈ ['_', '.', '[', ']']) then
        some (name, rest)
      else none
  | _, _ => none

/-- Reads flags up to a colon or a closing parenthesis. The result tells what ended them and
whether they switch Unicode on or off. -/
def flags? (text : List Char) : Option (Option Bool × Char × List Char) :=
  let flags := text.takeWhile fun c => c != ':' && c != ')'
  match text.drop flags.length with
  | [] => none
  | stop :: rest =>
      let on := flags.takeWhile (· != '-')
      let off := flags.drop (on.length + 1)
      if (on ++ off).all (['i', 'm', 's', 'U', 'u', 'R', 'x'].contains ·) &&
          (on ++ off).eraseDups.length == (on ++ off).length &&
          flags.getLast? != some '-' && (stop == ':' || !flags.isEmpty) then
        let unicode := if 'u' ∈ on then some true else if 'u' ∈ off then some false else none
        some (unicode, stop, rest)
      else none

/-! ## Expressions -/

/-- What is known in the middle of an expression. -/
structure State where
  /-- Whether letters of any script count. -/
  unicode : Bool := true
  /-- The open groups, the inner ones first, each with what counted outside it. -/
  groups : List Bool := []
  /-- The names of groups. -/
  names : List (List Char) := []
  /-- Whether there is something to repeat. -/
  canRepeat : Bool := false
  /-- Whether the edges of words are looked for. -/
  hasWordEdge : Bool := false

/-- Reads an expression. The first argument bounds the number of steps. -/
def read? : Nat → State → List Char → Option State
  | 0, _, _ => none
  | _, s, [] => if s.groups.isEmpty then some s else none
  | fuel + 1, s, '(' :: rest =>
      let inside := { s with groups := s.unicode :: s.groups, canRepeat := false }
      let named (text : List Char) : Option State :=
        match groupName? text with
        | some (name, rest) =>
            if name ∈ s.names then none
            else read? fuel { inside with names := name :: s.names } rest
        | none => none
      match rest with
      | '?' :: 'P' :: '<' :: rest | '?' :: '<' :: rest => named rest
      | '?' :: rest =>
          match flags? rest with
          | some (unicode, ':', rest) =>
              read? fuel { inside with unicode := unicode.getD s.unicode } rest
          | some (unicode, _, rest) =>
              read? fuel { s with unicode := unicode.getD s.unicode, canRepeat := false } rest
          | none => none
      | _ => read? fuel inside rest
  | fuel + 1, s, ')' :: rest =>
      match s.groups with
      | unicode :: groups => read? fuel { s with unicode, groups, canRepeat := true } rest
      | [] => none
  | fuel + 1, s, '|' :: rest => read? fuel { s with canRepeat := false } rest
  | fuel + 1, s, '[' :: rest =>
      -- without Unicode, what is not in the brackets might be a part of a character
      if rest.head? = some '^' ∧ !s.unicode then none
      else
        match brackets? rest.length 0 (afterBracket rest) with
        | some rest => read? fuel { s with canRepeat := true } rest
        | none => none
  | _ + 1, _, '\x7b' :: _ => none
  | fuel + 1, s, '\\' :: rest =>
      match escape? rest with
      | some (escape, rest) =>
          if escape ∈ [.noneOf, .property] ∧ !s.unicode then none
          else
            let hasWordEdge := s.hasWordEdge || (escape == .wordEdge && s.unicode)
            read? fuel { s with canRepeat := true, hasWordEdge } rest
      | none => none
  | fuel + 1, s, c :: rest =>
      if c ∈ ['*', '+', '?'] then
        if s.canRepeat then
          match rest with
          | '?' :: rest => read? fuel s rest
          | _ => read? fuel s rest
        else none
      else if c = '.' ∧ !s.unicode then none
      else read? fuel { s with canRepeat := true } rest

/-- Why a text cannot be used as a pattern, if so. -/
def error? (text : List Char) : Option PatternError :=
  match read? (text.length + 1) {} text with
  | none => some .malformed
  | some s => if s.hasWordEdge then some .wordBoundary else none

end CodeSearch.FieldPattern

import CodeSearch.Json.Basic

/-!
# Printing JSON

A value on one line and without blanks. In strings, quotes, backslashes and control
characters are escaped, and nothing else is.
-/

set_option autoImplicit false

namespace CodeSearch.Json

/-- Two hexadecimal digits. -/
def hexPair (n : Nat) : List Char := [Nat.digitChar (n / 16 % 16), Nat.digitChar (n % 16)]

/-- A character inside a string. -/
def escapeChar (c : Char) : List Char :=
  if c = '"' then ['\\', '"']
  else if c = '\\' then ['\\', '\\']
  else if c = '\x08' then ['\\', 'b']
  else if c = '\x0c' then ['\\', 'f']
  else if c = '\n' then ['\\', 'n']
  else if c = '\r' then ['\\', 'r']
  else if c = '\t' then ['\\', 't']
  else if c.toNat < 0x20 then ['\\', 'u', '0', '0'] ++ hexPair c.toNat
  else [c]

/-- A text as a JSON string. -/
def printString (text : String) : String :=
  String.ofList ('"' :: text.toList.flatMap escapeChar ++ ['"'])

mutual

/-- A value on one line. -/
def print : Json → String
  | null => "null"
  | bool value => if value then "true" else "false"
  | int value => toString value
  | decimal literal => literal
  | string value => printString value
  | array items => "[" ++ printItems items ++ "]"
  | object entries => "\x7b" ++ printEntries entries ++ "\x7d"
  | unusable => "null"

/-- Values with commas between them. -/
def printItems : List Json → String
  | [] => ""
  | [item] => print item
  | item :: next :: rest => print item ++ "," ++ printItems (next :: rest)

/-- Entries with commas between them. -/
def printEntries : List (String × Json) → String
  | [] => ""
  | [(name, value)] => printString name ++ ":" ++ print value
  | (name, value) :: next :: rest =>
      printString name ++ ":" ++ print value ++ "," ++ printEntries (next :: rest)

end

end CodeSearch.Json

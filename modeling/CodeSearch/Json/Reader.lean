import CodeSearch.Json.Basic
import CodeSearch.Text.Decimal
import CodeSearch.Text.Hexadecimal

/-!
# Reading JSON

The grammar of JSON and nothing beyond it: no comments, no trailing commas, no leading zeros,
no control characters in strings, nothing after the value but blanks.
-/

set_option autoImplicit false

namespace CodeSearch.Json

/-- The text without the blanks it starts with. -/
def skipBlanks (text : List Char) : List Char :=
  text.dropWhile fun c => c == ' ' || c == '\n' || c == '\t' || c == '\r'

/-- The character that a letter stands for after a backslash. -/
def escaped? : Char → Option Char
  | '"' => some '"'
  | '\\' => some '\\'
  | '/' => some '/'
  | 'b' => some '\x08'
  | 'f' => some '\x0c'
  | 'n' => some '\n'
  | 'r' => some '\r'
  | 't' => some '\t'
  | _ => none

/-- What has been read of a string. -/
structure StringState where
  /-- The characters so far, the last first; none if the string cannot denote a text. -/
  chars : Option (List Char)
  /-- The first half of a surrogate pair that has to be completed. -/
  half : Option Nat

namespace StringState

/-- One more character. -/
def push (s : StringState) (c : Char) : StringState :=
  match s.half with
  | some _ => ⟨none, none⟩
  | none => ⟨s.chars.map (c :: ·), none⟩

/-- One more escaped unit of sixteen bits. -/
def pushUnit (s : StringState) (unit : Nat) : StringState :=
  let isLow := 0xDC00 ≤ unit ∧ unit ≤ 0xDFFF
  match s.half with
  | some high =>
      if isLow then
        let code := 0x10000 + (high - 0xD800) * 0x400 + (unit - 0xDC00)
        ⟨s.chars.map (Char.ofNat code :: ·), none⟩
      else ⟨none, none⟩
  | none =>
      if 0xD800 ≤ unit ∧ unit ≤ 0xDBFF then ⟨s.chars, some unit⟩
      else if isLow then ⟨none, none⟩
      else s.push (Char.ofNat unit)

/-- The text of the whole string. -/
def text? (s : StringState) : Option String :=
  if s.half.isSome then none else s.chars.map fun chars => String.ofList chars.reverse

end StringState

/-- Reads a string from after its opening quote: its text, if it has one, and what follows. -/
def readString (s : StringState) : List Char → Option (Option String × List Char)
  | [] => none
  | '"' :: rest => some (s.text?, rest)
  | '\\' :: 'u' :: a :: b :: c :: d :: rest =>
      match Text.hexValue? [a, b, c, d] with
      | some unit => readString (s.pushUnit unit) rest
      | none => none
  | '\\' :: c :: rest =>
      match escaped? c with
      | some char => readString (s.push char) rest
      | none => none
  | c :: rest => if c.toNat < 0x20 || c == '\\' then none else readString (s.push c) rest

/-- Splits off the digits a text starts with, of which there must be one. -/
def readDigits (text : List Char) : Option (List Char × List Char) :=
  let digits := text.takeWhile Char.isDigit
  if digits.isEmpty then none else some (digits, text.dropWhile Char.isDigit)

/-- Reads the fraction of a number, if there is one. -/
def readFraction : List Char → Option (List Char × List Char)
  | '.' :: rest => (readDigits rest).map fun (digits, rest) => ('.' :: digits, rest)
  | text => some ([], text)

/-- Reads the exponent of a number, if there is one. -/
def readExponent : List Char → Option (List Char × List Char)
  | c :: rest =>
      if c == 'e' || c == 'E' then
        let (sign, rest) := match rest with
          | '+' :: rest => (['+'], rest)
          | '-' :: rest => (['-'], rest)
          | rest => ([], rest)
        (readDigits rest).map fun (digits, rest) => (c :: sign ++ digits, rest)
      else some ([], c :: rest)
  | [] => some ([], [])

/-- Reads a number without its sign. The negative zero is no whole number. -/
def readUnsigned (negative : Bool) (text : List Char) : Option (Json × List Char) := do
  let (digits, rest) ← readDigits text
  if digits.head? == some '0' && digits.length != 1 then none
  else
    let (fraction, rest) ← readFraction rest
    let (exponent, rest) ← readExponent rest
    let value := Text.decimalValue digits
    if fraction.isEmpty && exponent.isEmpty && !(negative && value == 0) then
      some (int (if negative then -value else value), rest)
    else
      let sign := if negative then ['-'] else []
      some (decimal (String.ofList (sign ++ digits ++ fraction ++ exponent)), rest)

/-- The object of entries, if all their names are texts. -/
def ofEntries (entries : List (Option String × Json)) : Json :=
  match entries.mapM fun (name, value) => name.map fun name => (name, value) with
  | some entries => object entries
  | none => unusable

mutual

/-- Reads a value that starts a text, within a number of steps. -/
def readValue : Nat → List Char → Option (Json × List Char)
  | 0, _ => none
  | steps + 1, text =>
      match text with
      | 'n' :: 'u' :: 'l' :: 'l' :: rest => some (null, rest)
      | 't' :: 'r' :: 'u' :: 'e' :: rest => some (bool true, rest)
      | 'f' :: 'a' :: 'l' :: 's' :: 'e' :: rest => some (bool false, rest)
      | '"' :: rest =>
          (readString ⟨some [], none⟩ rest).map fun (text, rest) =>
            (match text with
              | some text => string text
              | none => unusable, rest)
      | '[' :: rest =>
          match skipBlanks rest with
          | ']' :: rest => some (array [], rest)
          | rest => readItems steps [] rest
      | '\x7b' :: rest =>
          match skipBlanks rest with
          | '\x7d' :: rest => some (object [], rest)
          | rest => readEntries steps [] rest
      | '-' :: rest => readUnsigned true rest
      | text => readUnsigned false text

/-- Reads the items of an array up to its end, after those already read, the last first. -/
def readItems : Nat → List Json → List Char → Option (Json × List Char)
  | 0, _, _ => none
  | steps + 1, items, text =>
      match readValue steps text with
      | none => none
      | some (item, rest) =>
          match skipBlanks rest with
          | ',' :: rest => readItems steps (item :: items) (skipBlanks rest)
          | ']' :: rest => some (array (item :: items).reverse, rest)
          | _ => none

/-- Reads the entries of an object up to its end, after those already read, the last
first. -/
def readEntries : Nat → List (Option String × Json) → List Char → Option (Json × List Char)
  | 0, _, _ => none
  | steps + 1, entries, text =>
      match text with
      | '"' :: rest =>
          match readString ⟨some [], none⟩ rest with
          | none => none
          | some (name, rest) =>
              match skipBlanks rest with
              | ':' :: rest =>
                  match readValue steps (skipBlanks rest) with
                  | none => none
                  | some (value, rest) =>
                      match skipBlanks rest with
                      | ',' :: rest =>
                          readEntries steps ((name, value) :: entries) (skipBlanks rest)
                      | '\x7d' :: rest => some (ofEntries ((name, value) :: entries).reverse, rest)
                      | _ => none
              | _ => none
      | _ => none

end

/-- The value that a text denotes. -/
def parse? (text : String) : Option Json :=
  let chars := skipBlanks text.toList
  match readValue (2 * chars.length + 2) chars with
  | some (value, rest) => if (skipBlanks rest).isEmpty then some value else none
  | none => none

end CodeSearch.Json

import CodeSearch.Host.FieldPattern
import CodeSearch.Text.AlphanumericTable
import CodeSearch.Text.Blank
import CodeSearch.Text.Decimal

/-!
# Log filters

Which diagnostics a run on a snapshot writes is chosen by directives with commas between them. A
directive names a part of the program, possibly a span with fields in brackets, and a level after an
equals sign; or it is a level for everything.

Blanks around a directive are skipped to find its parts, but the texts of its fields and of its
level are taken from the same places of the directive as it was written. So blanks that come
first move these texts, and a level after an equals sign has none around it.
-/

set_option autoImplicit false

namespace CodeSearch.LogFilter

/-- What is wrong with a filter. -/
inductive FilterError where
  /-- A directive is not formed as it should be. -/
  | directive
  /-- A level is none of those there are. -/
  | level
  /-- The value of a field cannot be used as a pattern. -/
  | field (error : FieldPattern.PatternError)
  deriving DecidableEq, Repr

/-- What is wrong, in words. -/
def FilterError.message : FilterError → String
  | directive => "invalid filter directive"
  | level =>
      "error parsing level filter: expected one of \"off\", \"error\", \"warn\", \"info\", " ++
        "\"debug\", \"trace\", or a number 0-5"
  | field error => "invalid field filter: " ++ error.message

/-- The names of the levels, each also known by its place. -/
def levels : List String := ["off", "error", "warn", "info", "debug", "trace"]

/-- Whether a text names a level, in any ASCII letter case or by its number. -/
def isLevel (text : List Char) : Bool :=
  levels.contains (String.ofList (text.map Char.toLower)) ||
    (Text.natural? text).any (· < levels.length)

/-- Whether a text is a number: decimal digits with at most one point among them and possibly
an exponent, or one of the words for what is no finite number. -/
def isNumber (text : List Char) : Bool :=
  let mantissa := text.takeWhile fun c => c != 'e' && c != 'E'
  let exponent := match text.drop (mantissa.length + 1) with
    | '+' :: digits | '-' :: digits => digits
    | digits => digits
  ["inf", "infinity", "nan"].contains (String.ofList (text.map Char.toLower)) ||
    mantissa.any Char.isDigit && mantissa.all (fun c => c.isDigit || c == '.') &&
      mantissa.count '.' ≤ 1 && exponent.all Char.isDigit &&
      (mantissa.length == text.length || !exponent.isEmpty)

/-- What is wrong with the value of a field, if anything. Of the numbers, only those with a plus
sign are no patterns too. -/
def valueError? (value : List Char) : Option FieldPattern.PatternError :=
  match value with
  | '+' :: rest => if isNumber rest then none else FieldPattern.error? value
  | _ => FieldPattern.error? value

/-- What is wrong with a field, if anything. A field has a name and possibly, after an equals
sign, a value, which is a number or a pattern. -/
def fieldError? (field : List Char) : Option FilterError :=
  if field.isEmpty then some .directive
  else
    match field.splitOn '=' with
    | _ :: value :: _ => (valueError? value).map .field
    | _ => none

/-- The part of a directive that is being read, with the text so far, the last character
first, where it matters. -/
inductive Part where
  | start
  | target
  /-- Inside brackets. -/
  | span
  /-- Inside braces. -/
  | field (reversed : List Char)
  /-- After braces. -/
  | fields
  /-- After brackets. -/
  | afterSpan
  /-- After the equals sign. -/
  | level (reversed : List Char)

/-- Whether a directive may start with a character. -/
def startsDirective (c : Char) : Bool :=
  Text.isAlphanumeric c || c == '-' || c == ':' || c == '_'

/-- Reads one character of a directive, given with the one written at its place. -/
def Part.next : Part → Char × Char → Except FilterError Part
  | start, (c, _) =>
      if c = '[' then .ok span else if startsDirective c then .ok target else .error .directive
  | target, (c, _) => .ok (if c = '=' then level [] else if c = '[' then span else target)
  | span, (c, _) => .ok (if c = ']' then afterSpan else if c = '\x7b' then field [] else span)
  | field reversed, (c, written) =>
      if c = '\x7d' then
        match fieldError? reversed.reverse with
        | some error => .error error
        | none => .ok fields
      else .ok (field (written :: reversed))
  | fields, (c, _) => if c = ']' then .ok afterSpan else .error .directive
  | afterSpan, (c, _) => if c = '=' then .ok (level []) else .error .directive
  | level reversed, (_, written) => .ok (level (written :: reversed))

/-- What is wrong with a directive, if anything. -/
def directiveError? (directive : List Char) : Option FilterError :=
  let text := Text.trim directive
  match (text.zip directive).foldlM Part.next Part.start with
  | .ok .target | .ok .afterSpan => none
  | .ok (.level reversed) =>
      let level := reversed.reverse ++ directive.drop text.length
      if level.isEmpty || isLevel level then none else some .level
  | .ok _ => some .directive
  | .error error => some error

/-- What is wrong with a filter, if anything. Nothing between two commas is no directive. -/
def error? (filter : String) : Option FilterError :=
  ((filter.toList.splitOn ',').filter (! ·.isEmpty)).findSome? directiveError?

end CodeSearch.LogFilter

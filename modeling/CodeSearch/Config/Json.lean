import CodeSearch.Config
import CodeSearch.Json.Basic

/-!
# Settings as JSON

Settings are read from an object or from an array with their values in order. What is left out
takes its default, and unknown names are ignored; an array may leave out values at its end only
and must not have more than there are settings.
-/

set_option autoImplicit false

namespace CodeSearch

/-- The member of a record under a name or at a place, if it is given: in an object, the last
entry of the name. -/
def Json.member? (value : Json) (name : String) (place : Nat) : Option Json :=
  match value with
  | .array items => items[place]?
  | value => value.get? name

/-- Whether a value can hold a record of so many members. -/
def Json.isRecord (value : Json) (members : Nat) : Bool :=
  match value with
  | .object _ => true
  | .array items => items.length ≤ members
  | _ => false

/-- A member as read by `read`, or its default if it is not given. -/
def Json.memberOr {α : Type} (value : Json) (name : String) (place : Nat)
    (read : Json → Option α) (default : α) : Option α :=
  match value.member? name place with
  | some member => read member
  | none => some default

/-- A mode is its name, or an object with the name and null. -/
def Mode.ofJson? : Json → Option Mode
  | .string name => Mode.all.find? (·.name == name)
  | .object [(name, .null)] => Mode.all.find? (·.name == name)
  | _ => none

/-- A text of one character. -/
def charOfJson? : Json → Option Char
  | .string text =>
      match text.toList with
      | [c] => some c
      | _ => none
  | _ => none

/-- A number that fits a word of sixty-four bits, or null. -/
def limitOfJson? : Json → Option (Option Nat)
  | .null => some none
  | value =>
      match value.nat? with
      | some n => if n < UInt64.size then some (some n) else none
      | none => none

/-- Reads markers. -/
def Markers.ofJson? (value : Json) : Option Markers := do
  if !value.isRecord 2 then none
  else
    let marker ← value.memberOr "marker" 0 charOfJson? ({} : Markers).marker
    let numeric ← value.memberOr "numeric" 1 Json.string? ({} : Markers).numeric
    some { marker, numeric }

/-- Reads settings. -/
def SearchConfig.ofJson? (value : Json) : Option SearchConfig := do
  if !value.isRecord 4 then none
  else
    let mode ← value.memberOr "mode" 0 Mode.ofJson? ({} : SearchConfig).mode
    let ignoreCase ← value.memberOr "case_insensitive" 1 Json.bool? false
    let maxResults ← value.memberOr "max_results" 2 limitOfJson? none
    let markers ← value.memberOr "wildcards" 3 Markers.ofJson? {}
    some { mode, ignoreCase, maxResults, markers }

/-- Writes markers. -/
def Markers.toJson (m : Markers) : Json :=
  .object [("marker", .string (String.singleton m.marker)), ("numeric", .string m.numeric)]

/-- Writes settings. -/
def SearchConfig.toJson (c : SearchConfig) : Json :=
  .object
    [("mode", .string c.mode.name), ("case_insensitive", .bool c.ignoreCase),
      ("max_results", .ofOption .ofNat c.maxResults), ("wildcards", c.markers.toJson)]

end CodeSearch

/-!
# JSON values

Objects keep their entries in the order written, repeated names included. Numbers are whole
numbers, or literals kept as written. There are texts that are well formed and still denote no
value, because half a surrogate pair is no character; they can be skipped but not used.
-/

set_option autoImplicit false

namespace CodeSearch

/-- A JSON value. -/
inductive Json where
  | null
  | bool (value : Bool)
  | int (value : Int)
  /-- A number with a fraction or an exponent, as written. -/
  | decimal (literal : String)
  | string (value : String)
  | array (items : List Json)
  | object (entries : List (String × Json))
  /-- Well formed, but not a value. -/
  | unusable
  deriving Inhabited

namespace Json

/-- A natural number. -/
def ofNat (n : Nat) : Json := int n

/-- A text, or null if there is none. -/
def ofOption {α : Type} (encode : α → Json) : Option α → Json
  | some value => encode value
  | none => null

/-- The text of a string. -/
def string? : Json → Option String
  | string value => some value
  | _ => none

/-- The value of a natural number. -/
def nat? : Json → Option Nat
  | int value => if 0 ≤ value then some value.toNat else none
  | _ => none

/-- The truth value. -/
def bool? : Json → Option Bool
  | bool value => some value
  | _ => none

/-- The items of an array. -/
def array? : Json → Option (List Json)
  | array items => some items
  | _ => none

/-- The entries of an object. -/
def object? : Json → Option (List (String × Json))
  | object entries => some entries
  | _ => none

/-- The last entry of a name in an object. -/
def get? (value : Json) (name : String) : Option Json :=
  match value with
  | object entries => entries.reverse.lookup name
  | _ => none

end Json

end CodeSearch

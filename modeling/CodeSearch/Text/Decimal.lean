/-!
# Decimal numbers

The value of a text of decimal digits, and numbers as they are written on a command line.
-/

set_option autoImplicit false

namespace CodeSearch.Text

/-- The natural number written in decimal digits, zero for no digits. -/
def decimalValue (digits : List Char) : Nat :=
  digits.foldl (fun value c => value * 10 + (c.toNat - '0'.toNat)) 0

/-- The natural number written in decimal digits, at least one, possibly after a plus sign. -/
def natural? (text : List Char) : Option Nat :=
  let digits := match text with
    | '+' :: rest => rest
    | all => all
  if digits.isEmpty || !digits.all Char.isDigit then none else some (decimalValue digits)

end CodeSearch.Text

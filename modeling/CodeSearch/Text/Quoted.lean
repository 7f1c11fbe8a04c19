import CodeSearch.Text.EscapedTable
import CodeSearch.Text.Hexadecimal

/-!
# Quoted text

Text between double quotes, with escapes for quotes, backslashes and whatever a reader could
not see.
-/

set_option autoImplicit false

namespace CodeSearch.Text

/-- One character inside quotes. -/
def quoteChar (c : Char) : List Char :=
  if c = '\x00' then ['\\', '0']
  else if c = '\t' then ['\\', 't']
  else if c = '\r' then ['\\', 'r']
  else if c = '\n' then ['\\', 'n']
  else if c = '\\' then ['\\', '\\']
  else if c = '"' then ['\\', '"']
  else if c.toNat < 0x20 || escapedRanges.has c then
    ['\\', 'u', '\x7b'] ++ hexDigits c.toNat ++ ['\x7d']
  else [c]

/-- A text between double quotes. -/
def quoted (s : String) : String :=
  String.ofList (['"'] ++ s.toList.flatMap quoteChar ++ ['"'])

end CodeSearch.Text

import Untangle.Text.Digit
import Untangle.Text.Printable

/-!
# Quoted texts

`quoted` — a text between double quotes for a message, with escapes for the quote, the backslash and
whatever cannot be shown.
-/

namespace Untangle.Text

def quotedChar (c : Char) : List Char :=
  if c == '\x22' || c == '\x5c' then ['\x5c', c]
  else if c == '\n' then ['\x5c', 'n']
  else if c == '\r' then ['\x5c', 'r']
  else if c == '\t' then ['\x5c', 't']
  else if c.toNat == 0 then ['\x5c', '0']
  else if isPrintable c then [c]
  else ['\x5c', 'u', '\x7b'] ++ hexDigits 1 c.toNat ++ ['\x7d']

def quoted (s : String) : String :=
  String.ofList ('\x22' :: s.toList.flatMap quotedChar ++ ['\x22'])

end Untangle.Text

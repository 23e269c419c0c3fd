import Untangle.Text.Blank
import Untangle.Text.Digit

/-!
# Leading integers

`leadingInteger` — the integer that a text starts with, after blanks and a sign, in decimal or after
`0x` in hexadecimal; not a number if there is none. What follows the digits is ignored.
-/

namespace Untangle.Number

/-- The digits that a text starts with, added to the value before them. -/
def readDigits (radix : Nat) : Option Float → List Char → Option Float
  | acc, [] => acc
  | acc, c :: rest =>
    match Text.digit? radix c with
    | some d => readDigits radix (some (acc.getD 0 * Float.ofNat radix + Float.ofNat d)) rest
    | none => acc

def isLeadingBlank (c : Char) : Bool := Text.isBlank c || c.toNat == 0xFEFF

def leadingInteger (s : String) : Float :=
  let cs := s.toList.dropWhile isLeadingBlank
  let (negative, cs) := match cs with
    | '-' :: rest => (true, rest)
    | '+' :: rest => (false, rest)
    | rest => (false, rest)
  let value := match cs with
    | '0' :: 'x' :: rest => readDigits 16 none rest
    | '0' :: 'X' :: rest => readDigits 16 none rest
    | rest => readDigits 10 none rest
  match value with
  | some v => if negative then -v else v
  | none => 0.0 / 0.0

end Untangle.Number

/-!
# Digits

Only ASCII digits and letters are digits here.
-/

namespace Untangle.Text

def digit? (radix : Nat) (c : Char) : Option Nat :=
  let v :=
    if '0' ≤ c && c ≤ '9' then c.toNat - '0'.toNat
    else if 'a' ≤ c && c ≤ 'z' then c.toNat - 'a'.toNat + 10
    else if 'A' ≤ c && c ≤ 'Z' then c.toNat - 'A'.toNat + 10
    else 36
  if v < radix then some v else none

/-- The number that digits write after a number of higher digits. -/
def digitsAfter? (radix : Nat) : Nat → List Char → Option Nat
  | n, [] => some n
  | n, c :: cs => (digit? radix c).bind fun d => digitsAfter? radix (n * radix + d) cs

def digitsValue? (radix : Nat) (cs : List Char) : Option Nat := digitsAfter? radix 0 cs

/-- A number in base sixteen, in lower case. -/
def hexDigits (width n : Nat) : List Char :=
  let ds := Nat.toDigits 16 n
  List.replicate (width - ds.length) '0' ++ ds

end Untangle.Text

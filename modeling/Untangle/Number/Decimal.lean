import Untangle.Number.Shortest

/-!
# Numbers as text

The shortest digits of a double in two layouts.

Reading is `readDecimal`, correctly rounded, with exponents of any size.
-/

namespace Untangle.Number

def isNegative (x : Float) : Bool := (Binary.ofFloat x).negative

private def zeros (n : Nat) : List Char := List.replicate n '0'

/-- Digits around a decimal point, without an exponent. -/
def Digits.positional (d : Digits) : List Char :=
  let n := d.digits.length
  if d.point ≤ 0 then '0' :: '.' :: (zeros (-d.point).toNat ++ d.digits)
  else if n ≤ d.point.toNat then d.digits ++ zeros (d.point.toNat - n)
  else d.digits.take d.point.toNat ++ '.' :: d.digits.drop d.point.toNat

/-- One digit, a fraction if there are more, and a signed exponent. -/
def Digits.scientific (d : Digits) : List Char :=
  let e := d.point - 1
  let mantissa := match d.digits with
    | [c] => [c]
    | c :: rest => c :: '.' :: rest
    | [] => ['0']
  mantissa ++ 'e' :: (if e < 0 then '-' else '+') :: natDigits e.natAbs

private def signed (x : Float) (cs : List Char) : String :=
  String.ofList (if isNegative x then '-' :: cs else cs)

def positional (x : Float) : String :=
  if x.isNaN then "NaN"
  else if x.isInf then signed x "inf".toList
  else if x == 0 then signed x ['0']
  else signed x (shortestDigits .up x).positional

/-- The text of a double as a script prints it; zero has no sign. -/
def scriptText (x : Float) : String :=
  if x.isNaN then "NaN"
  else if x.isInf then signed x "Infinity".toList
  else if x == 0 then "0"
  else
    let d := shortestDigits .even x
    signed x (if -6 < d.point && d.point ≤ 21 then d.positional else d.scientific)

/-- Reads digits with a decimal exponent, rounding once. Exponents far outside the range of a
double give infinity or zero without being computed. -/
def readDecimal (digits : List Char) (exponent : Int) : Float :=
  let significant := digits.dropWhile (· == '0')
  let m := significant.foldl (fun acc c => acc * 10 + (c.toNat - '0'.toNat)) 0
  let top : Int := exponent + significant.length
  if m = 0 || top < -400 then 0
  else if 400 < top then 1.0 / 0.0
  else Float.ofScientific m (exponent < 0) exponent.natAbs

end Untangle.Number

import Untangle.Number.Decimal
import Untangle.Text.Blank
import Untangle.Text.Digit

/-!
# Numbers in strings
-/

namespace Untangle.Number

private def notANumber : Float := 0.0 / 0.0

private def infinity : Float := 1.0 / 0.0

/-- Digits of a radix, after an optional plus sign, with a value below `2^64`. -/
def radixDigits? (radix : Nat) (cs : List Char) : Option Nat :=
  let ds := match cs with
    | '+' :: rest => rest
    | rest => rest
  if ds.isEmpty then none else (Text.digitsValue? radix ds).filter (· < Nat.pow 2 64)

def radixMark? : List Char → Option (Nat × List Char)
  | '0' :: m :: rest =>
    if m == 'x' || m == 'X' then some (16, rest)
    else if m == 'o' || m == 'O' then some (8, rest)
    else if m == 'b' || m == 'B' then some (2, rest)
    else none
  | _ => none

/-- An exponent: nothing, or a mark, an optional sign and at least one digit. -/
def exponent? : List Char → Option Int
  | [] => some 0
  | e :: rest =>
    if e == 'e' || e == 'E' then
      let (negative, ds) := match rest with
        | '-' :: ds => (true, ds)
        | '+' :: ds => (false, ds)
        | ds => (false, ds)
      if ds.isEmpty || !ds.all Char.isDigit then none
      else
        let n : Nat := ds.foldl (fun acc c => acc * 10 + (c.toNat - '0'.toNat)) 0
        some (if negative then -(n : Int) else n)
    else none

/-- An unsigned decimal: digits with at most one point and at least one digit, then an exponent. -/
def unsignedDecimal? (cs : List Char) : Option Float :=
  let whole := cs.takeWhile Char.isDigit
  let rest := cs.dropWhile Char.isDigit
  let (fraction, rest) := match rest with
    | '.' :: more => (more.takeWhile Char.isDigit, more.dropWhile Char.isDigit)
    | more => ([], more)
  if whole.isEmpty && fraction.isEmpty then none
  else (exponent? rest).map fun e => readDecimal (whole ++ fraction) (e - fraction.length)

def decimal? : List Char → Option Float
  | '-' :: rest => (unsignedDecimal? rest).map fun x => -x
  | '+' :: rest => unsignedDecimal? rest
  | cs => unsignedDecimal? cs

/-- The number a string converts to; not a number if it spells none. -/
def ofText (s : String) : Float :=
  let cs := Text.trimBlank s.toList
  if cs.isEmpty then 0
  else match radixMark? cs with
    | some (radix, ds) =>
      match radixDigits? radix ds with
      | some n => Float.ofNat n
      | none => notANumber
    | none =>
      if cs == "Infinity".toList || cs == "+Infinity".toList then infinity
      else if cs == "-Infinity".toList then -infinity
      else (decimal? cs).getD notANumber

/-- The string a number converts to, for zero and magnitudes from `1e-6` up to `1e21`. -/
def conversionText? (x : Float) : Option String :=
  if x.isNaN || x.isInf then none
  else if x == 0 then some "0"
  else if x.abs < 1e-6 || 1e21 ≤ x.abs then none
  else some (positional x)

end Untangle.Number

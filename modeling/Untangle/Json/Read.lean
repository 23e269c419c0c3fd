import Untangle.Json.Basic
import Untangle.Number.Decimal
import Untangle.Text.Digit
import Untangle.Text.Units

/-!
# Reading structured values

`Json.read?` reads one value and the blanks around it. A number without point or exponent is whole
if it fits 64 bits, with or without sign; any other number is a double.
-/

namespace Untangle.Json

private def skipBlanks (cs : List Char) : List Char :=
  cs.dropWhile fun c => c == ' ' || c == '\n' || c == '\r' || c == '\t'

private def hex4? (cs : List Char) : Option UInt16 :=
  if cs.length = 4 then (Text.digitsValue? 16 cs).map Nat.toUInt16 else none

private def simpleEscape? (c : Char) : Option UInt16 :=
  if c == '\x22' || c == '\x5c' || c == '/' then some c.toNat.toUInt16
  else if c == 'b' then some 8
  else if c == 'f' then some 12
  else if c == 'n' then some 10
  else if c == 'r' then some 13
  else if c == 't' then some 9
  else none

/-- The units of a string after its opening quote, newest first, and the rest of the text. -/
private def readString : Nat → List Char → Units → Option (String × List Char)
  | 0, _, _ => none
  | fuel + 1, cs, acc =>
    match cs with
    | [] => none
    | c :: rest =>
      if c == '\x22' then (Units.toString? acc.reverse).map fun s => (s, rest)
      else if c == '\x5c' then
        match rest with
        | 'u' :: rest' =>
          match hex4? (rest'.take 4) with
          | some u => readString fuel (rest'.drop 4) (u :: acc)
          | none => none
        | e :: rest' =>
          match simpleEscape? e with
          | some u => readString fuel rest' (u :: acc)
          | none => none
        | [] => none
      else readString fuel rest ((Units.ofChar c).reverse ++ acc)

private def readNumber (cs : List Char) : Option (Json × List Char) :=
  let (negative, body) := match cs with
    | '-' :: rest => (true, rest)
    | rest => (false, rest)
  let whole := body.takeWhile Char.isDigit
  let rest := body.dropWhile Char.isDigit
  let (fraction, rest, hasFraction) := match rest with
    | '.' :: more => (more.takeWhile Char.isDigit, more.dropWhile Char.isDigit, true)
    | more => ([], more, false)
  let (exponent, rest, hasExponent) : Int × List Char × Bool := match rest with
    | e :: more =>
      if e == 'e' || e == 'E' then
        let (minus, digits) := match more with
          | '-' :: ds => (true, ds)
          | '+' :: ds => (false, ds)
          | ds => (false, ds)
        let ds := digits.takeWhile Char.isDigit
        let n : Nat := ds.foldl (fun acc c => acc * 10 + (c.toNat - '0'.toNat)) 0
        (if minus then -(n : Int) else n, digits.dropWhile Char.isDigit, true)
      else (0, rest, false)
    | [] => (0, [], false)
  if whole.isEmpty then none
  else
    let n : Nat := whole.foldl (fun acc c => acc * 10 + (c.toNat - '0'.toNat)) 0
    let magnitude := Number.readDecimal (whole ++ fraction) (exponent - fraction.length)
    let asFloat : Json := .float (if negative then -magnitude else magnitude)
    if hasFraction || hasExponent then some (asFloat, rest)
    else if negative then
      some (if n = 0 then .float (-0.0)
        else if n ≤ Nat.pow 2 63 then .int (-(n : Int)) else asFloat, rest)
    else some (if n < Nat.pow 2 64 then .int n else asFloat, rest)

mutual

private def readValue : Nat → List Char → Option (Json × List Char)
  | 0, _ => none
  | fuel + 1, cs =>
    match skipBlanks cs with
    | 'n' :: 'u' :: 'l' :: 'l' :: rest => some (.null, rest)
    | 't' :: 'r' :: 'u' :: 'e' :: rest => some (.bool true, rest)
    | 'f' :: 'a' :: 'l' :: 's' :: 'e' :: rest => some (.bool false, rest)
    | '\x22' :: rest => (readString (rest.length + 1) rest []).map fun (s, r) => (.str s, r)
    | '[' :: rest =>
      match skipBlanks rest with
      | ']' :: r => some (.arr [], r)
      | r => (readItems fuel r).map fun (items, r) => (.arr items, r)
    | '{' :: rest =>
      match skipBlanks rest with
      | '}' :: r => some (.obj [], r)
      | r => (readMembers fuel r).map fun (members, r) => (ofMembers members, r)
    | cs => readNumber cs

private def readItems : Nat → List Char → Option (List Json × List Char)
  | 0, _ => none
  | fuel + 1, cs => do
    let (v, rest) ← readValue fuel cs
    match skipBlanks rest with
    | ',' :: r =>
      let (vs, r') ← readItems fuel r
      pure (v :: vs, r')
    | ']' :: r => pure ([v], r)
    | _ => none

private def readMembers : Nat → List Char → Option (List (String × Json) × List Char)
  | 0, _ => none
  | fuel + 1, cs => do
    match skipBlanks cs with
    | '\x22' :: r =>
      let (key, r) ← readString (r.length + 1) r []
      match skipBlanks r with
      | ':' :: r =>
        let (v, r) ← readValue fuel r
        match skipBlanks r with
        | ',' :: r =>
          let (ms, r') ← readMembers fuel r
          pure ((key, v) :: ms, r')
        | '}' :: r => pure ([(key, v)], r)
        | _ => none
      | _ => none
    | _ => none

end

def read? (s : String) : Option Json :=
  let cs := s.toList
  match readValue (2 * cs.length + 2) cs with
  | some (j, rest) => if (skipBlanks rest).isEmpty then some j else none
  | none => none

end Untangle.Json

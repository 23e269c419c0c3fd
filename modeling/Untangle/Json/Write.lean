import Untangle.Json.Basic
import Untangle.Number.Decimal
import Untangle.Text.Digit

/-!
# Writing structured values

A double always shows a point or an exponent: positional from `1e-5` up to `1e16`, an exponent with
its sign outside.
-/

namespace Untangle.Json

private def escaped (c : Char) : List Char :=
  if c == '\x22' then ['\x5c', '\x22']
  else if c == '\x5c' then ['\x5c', '\x5c']
  else if c == '\n' then ['\x5c', 'n']
  else if c == '\r' then ['\x5c', 'r']
  else if c == '\t' then ['\x5c', 't']
  else if c.toNat == 8 then ['\x5c', 'b']
  else if c.toNat == 12 then ['\x5c', 'f']
  else if c.toNat < 0x20 then
    '\x5c' :: 'u' :: Text.hexDigits 4 c.toNat
  else [c]

def quote (s : String) : String :=
  String.ofList ('\x22' :: s.toList.flatMap escaped ++ ['\x22'])

/-- A finite double with a point or an exponent. -/
def floatText (x : Float) : String :=
  if x.isNaN || x.isInf then "null"
  else
    let sign := if Number.isNegative x then "-" else ""
    if x == 0 then sign ++ "0.0"
    else
      let d := Number.shortestDigits .even x
      let body :=
        if -5 < d.point && d.point ≤ 16 then
          if (d.digits.length : Int) ≤ d.point then d.positional ++ ['.', '0'] else d.positional
        else d.scientific
      sign ++ String.ofList body

mutual

def compact : Json → String
  | .null => "null"
  | .bool b => if b then "true" else "false"
  | .int n => toString n
  | .float x => floatText x
  | .str s => quote s
  | .arr items => "[" ++ String.intercalate "," (compactItems items) ++ "]"
  | .obj members => "\x7b" ++ String.intercalate "," (compactMembers members) ++ "\x7d"

def compactItems : List Json → List String
  | [] => []
  | j :: js => compact j :: compactItems js

def compactMembers : List (String × Json) → List String
  | [] => []
  | (k, v) :: rest => (quote k ++ ":" ++ compact v) :: compactMembers rest

end

private def margin (level : Nat) : String := String.ofList (List.replicate (2 * level) ' ')

mutual

def prettyAt (level : Nat) : Json → String
  | .arr items =>
    match prettyItems (level + 1) items with
    | [] => "[]"
    | lines => "[\n" ++ String.intercalate ",\n" lines ++ "\n" ++ margin level ++ "]"
  | .obj members =>
    match prettyMembers (level + 1) members with
    | [] => "\x7b\x7d"
    | lines => "\x7b\n" ++ String.intercalate ",\n" lines ++ "\n" ++ margin level ++ "\x7d"
  | .null => "null"
  | .bool b => if b then "true" else "false"
  | .int n => toString n
  | .float x => floatText x
  | .str s => quote s

def prettyItems (level : Nat) : List Json → List String
  | [] => []
  | j :: js => (margin level ++ prettyAt level j) :: prettyItems level js

def prettyMembers (level : Nat) : List (String × Json) → List String
  | [] => []
  | (k, v) :: rest =>
    (margin level ++ quote k ++ ": " ++ prettyAt level v) :: prettyMembers level rest

end

def pretty (j : Json) : String := prettyAt 0 j

end Untangle.Json

import Untangle.Number.Decimal
import Untangle.Settings.Language
import Untangle.Text.Digit
import Untangle.Tree.Literal

/-!
# Spelling of literals

A literal with a source spelling keeps it, unless the edition written for is too old for it; any
other is spelled here.
-/

namespace Untangle.Print

private def hexEscape (n : Nat) : List Char := '\x5c' :: 'x' :: Text.hexDigits 2 n

private def unitEscape (u : UInt16) : List Char :=
  '\x5c' :: 'u' :: (Text.hexDigits 4 u.toNat).map Char.toUpper

/-- Editions before template literals, which lack the braced escape. -/
def beforeBracedEscapes (v : EcmaVersion) : Bool := v.olderThan .es2015

/-- The spelling of one scalar inside quotes. `next` is the scalar after it. -/
def escapeChar (v : EcmaVersion) (quote : Char) (c : Char) (next : Option Char) : List Char :=
  let n := c.toNat
  let digitNext := match next with
    | some d => d.isDigit
    | none => false
  if n = 0 then if digitNext || v == .es3 then hexEscape 0 else ['\x5c', '0']
  else if n = 8 then ['\x5c', 'b']
  else if n = 12 then ['\x5c', 'f']
  else if n = 10 then ['\x5c', 'n']
  else if n = 13 then ['\x5c', 'r']
  else if n = 11 then ['\x5c', 'v']
  else if n = 9 then [c]
  else if c == '\x5c' then ['\x5c', '\x5c']
  else if c == quote then ['\x5c', quote]
  else if n < 0x20 then hexEscape n
  else if n = 0x2028 || n = 0x2029 || n = 0xFEFF then unitEscape n.toUInt16
  else if beforeBracedEscapes v && 0x7F ≤ n && n ≤ 0xFF then hexEscape n
  else if beforeBracedEscapes v && 0xFFFF < n then (Units.ofChar c).flatMap unitEscape
  else [c]

/-- The spelling of decoded units inside quotes. -/
def escapePieces (v : EcmaVersion) (quote : Char) : List Units.Piece → List Char
  | [] => []
  | .lone u :: rest => unitEscape u ++ escapePieces v quote rest
  | .scalar c :: rest =>
    let next := match rest with
      | .scalar d :: _ => some d
      | _ => none
    escapeChar v quote c next ++ escapePieces v quote rest

def quoteFor (us : Units) : Char :=
  if us.count 39 < us.count 34 then '\x27' else '\x22'

def quoted (v : EcmaVersion) (us : Units) : String :=
  let q := quoteFor us
  String.ofList (q :: escapePieces v q (Units.pieces us) ++ [q])

def holds (needle : List Char) : List Char → Bool
  | [] => needle.isEmpty
  | c :: cs => needle.isPrefixOf (c :: cs) || holds needle cs

def stringText (v : EcmaVersion) (s : StrLit) : String :=
  match s.raw with
  | some raw =>
    if beforeBracedEscapes v && holds ['\x5c', 'u', '\x7b'] raw.toList then quoted v s.units
    else raw
  | none => quoted v s.units

private def withoutSeparators (raw : String) : String :=
  String.ofList (raw.toList.filter (· != '_'))

private def hasNewRadix (raw : String) : Bool :=
  match raw.toList with
  | '0' :: m :: _ :: _ => m == 'b' || m == 'B' || m == 'o' || m == 'O'
  | _ => false

/-- Whether a spelling has to give way because its radix is too new, for which the value must be
finite. -/
private def outdated (v : EcmaVersion) (raw : String) : Bool :=
  v.olderThan .es2015 && hasNewRadix raw

def keptSpelling (v : EcmaVersion) (n : NumLit) : Option String :=
  match n.raw with
  | none => none
  | some raw =>
    if outdated v raw then if n.value.isInf then some raw else none
    else if v.olderThan .es2021 then some (withoutSeparators raw)
    else some raw

def numberText (v : EcmaVersion) (n : NumLit) : String :=
  (keptSpelling v n).getD (Number.scriptText n.value)

/-- Whether a point directly after the number would be read as its decimal point. A spelling of
digits alone needs one more point, unless it starts with a zero as old octal numbers do; a spelling
that should have given way always gets one. -/
def needsDot (v : EcmaVersion) (n : NumLit) : Bool :=
  match keptSpelling v n with
  | some raw =>
    let cs := raw.toList.filter (· != '_')
    outdated v raw || (cs.all Char.isDigit && !(2 ≤ cs.length && cs.head? == some '0'))
  | none =>
    let cs := (Number.scriptText n.value).toList
    !n.value.isInf && !cs.contains '.' && !cs.contains 'e'

def bigintText (v : EcmaVersion) (raw : String) : String :=
  if v.olderThan .es2021 then withoutSeparators raw else raw

end Untangle.Print

/-!
# UTF-16 code units

JavaScript strings are sequences of 16-bit code units, so they may hold halves of a surrogate
pair that no text holds.
-/

namespace Untangle

/-- A sequence of UTF-16 code units. -/
abbrev Units := List UInt16

namespace Units

def isHigh (u : UInt16) : Bool := 0xD800 ≤ u && u ≤ 0xDBFF

def isLow (u : UInt16) : Bool := 0xDC00 ≤ u && u ≤ 0xDFFF

def ofChar (c : Char) : Units :=
  let n := c.toNat
  if n < 0x10000 then [n.toUInt16]
  else [(0xD800 + (n - 0x10000) / 0x400).toUInt16, (0xDC00 + (n - 0x10000) % 0x400).toUInt16]

def ofString (s : String) : Units := s.toList.flatMap ofChar

def combine (hi lo : UInt16) : Char :=
  Char.ofNat (0x10000 + (hi.toNat - 0xD800) * 0x400 + (lo.toNat - 0xDC00))

/-- One decoded step: a scalar, or a half without its partner. -/
inductive Piece
  | scalar (c : Char)
  | lone (u : UInt16)
  deriving DecidableEq, Inhabited

/-- Units read from the left, pairing surrogates where they stand side by side. -/
def pieces : Units → List Piece
  | [] => []
  | u :: rest =>
    if isHigh u then
      match rest with
      | v :: rest' =>
        if isLow v then .scalar (combine u v) :: pieces rest'
        else .lone u :: pieces (v :: rest')
      | [] => [.lone u]
    else if isLow u then .lone u :: pieces rest
    else .scalar (Char.ofNat u.toNat) :: pieces rest

def Piece.char? : Piece → Option Char
  | .scalar c => some c
  | .lone _ => none

/-- The scalar of a piece, U+FFFD for a lone half. -/
def Piece.charLossy : Piece → Char
  | .scalar c => c
  | .lone _ => Char.ofNat 0xFFFD

/-- The text of a unit sequence; none when a surrogate stands alone. -/
def toString? (us : Units) : Option String :=
  ((pieces us).mapM Piece.char?).map String.ofList

/-- The text of a unit sequence, with U+FFFD for each surrogate that stands alone. -/
def toStringLossy (us : Units) : String :=
  String.ofList ((pieces us).map Piece.charLossy)

end Units

end Untangle

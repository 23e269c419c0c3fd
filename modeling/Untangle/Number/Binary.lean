/-!
# Doubles as binary fractions

A finite double is a sign and `m · 2^e` with `m < 2^53`. The operations below work on that form
in exact integer arithmetic and pack the result back; none of them rounds.
-/

namespace Untangle

/-- A sign and a magnitude `mantissa · 2^exponent`. -/
structure Binary where
  negative : Bool
  mantissa : Nat
  exponent : Int
  deriving DecidableEq, Inhabited

namespace Binary

/-- The binary form of a finite double; the sign bit and the raw fields of any other. -/
def ofFloat (x : Float) : Binary :=
  let bits : Nat := x.toBits.toNat
  let field : Nat := bits / Nat.pow 2 52 % Nat.pow 2 11
  let fraction : Nat := bits % Nat.pow 2 52
  { negative := Nat.pow 2 63 ≤ bits
    mantissa := if field = 0 then fraction else fraction + Nat.pow 2 52
    exponent := if field = 0 then -1074 else (field : Int) - 1075 }

/-- The bits of a nonzero magnitude, normalised to 53 significant bits where the exponent range
allows it. Exact whenever the magnitude is a double. -/
def magnitudeBits (m : Nat) (e : Int) : Nat :=
  let shift : Int := 52 - (Nat.log2 m : Int)
  let m53 := if 0 ≤ shift then m * Nat.pow 2 shift.toNat else m / Nat.pow 2 (-shift).toNat
  let field : Int := e - shift + 1075
  if 1 ≤ field then field.toNat * Nat.pow 2 52 + (m53 - Nat.pow 2 52)
  else m53 / Nat.pow 2 (1 - field).toNat

/-- The double with this sign and magnitude, for a magnitude that is one. -/
def toFloat (b : Binary) : Float :=
  let magnitude := if b.mantissa = 0 then 0 else magnitudeBits b.mantissa b.exponent
  Float.ofBits ((if b.negative then Nat.pow 2 63 else 0) + magnitude).toUInt64

end Binary

namespace Number

/-- The integer part of the magnitude of a finite double. -/
def wholeMagnitude (x : Float) : Nat :=
  let b := Binary.ofFloat x
  if 0 ≤ b.exponent then b.mantissa * Nat.pow 2 b.exponent.toNat
  else b.mantissa / Nat.pow 2 (-b.exponent).toNat

def isWhole (x : Float) : Bool :=
  let b := Binary.ofFloat x
  x.isFinite && (0 ≤ b.exponent || b.mantissa % Nat.pow 2 (-b.exponent).toNat == 0)

/-- The remainder of truncated division; not a number when the divisor is zero or the dividend
infinite. -/
def remainder (x y : Float) : Float :=
  if x.isNaN || y.isNaN || x.isInf || y == 0 then 0.0 / 0.0
  else if y.isInf then x
  else
    let a := Binary.ofFloat x
    let b := Binary.ofFloat y
    let e := min a.exponent b.exponent
    let scaled (v : Binary) : Nat := v.mantissa * Nat.pow 2 (v.exponent - e).toNat
    Binary.toFloat { negative := a.negative, mantissa := scaled a % scaled b, exponent := e }

/-- The integer part modulo `2^32`; zero for what is not finite. -/
def toUInt32Wrapping (x : Float) : UInt32 :=
  if x.isFinite then
    let w := wholeMagnitude x % Nat.pow 2 32
    if (Binary.ofFloat x).negative then (Nat.pow 2 32 - w).toUInt32 else w.toUInt32
  else 0

/-- The integer part modulo `2^32`, read as a signed word. -/
def toInt32Wrapping (x : Float) : Int32 := (toUInt32Wrapping x).toInt32

def ofUInt32 (w : UInt32) : Float := Float.ofNat w.toNat

def ofInt32 (w : Int32) : Float :=
  if w.toInt < 0 then -(Float.ofNat w.toInt.natAbs) else Float.ofNat w.toInt.natAbs

/-- Exponentiation. A zero exponent and a base of one give one whatever the other is, and so does
a base of minus one under an infinite exponent; otherwise not-a-number is passed on. -/
def power (x y : Float) : Float :=
  if y == 0 || x == 1 then 1
  else if x.isNaN || y.isNaN then 0.0 / 0.0
  else if x == -1 && y.isInf then 1
  else x.pow y

end Number

end Untangle

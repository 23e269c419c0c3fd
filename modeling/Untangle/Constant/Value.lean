import Untangle.Number.Spelling
import Untangle.Tree.Build

/-!
# Known values

* `toBoolean`, `toNumber`, `toText?`, `toUInt32`, `toInt32` — the conversions of the language.
-/

namespace Untangle

/-- A value known without running the program. -/
inductive Value
  | number (x : Float)
  | boolean (b : Bool)
  | string (us : Units)
  | null
  | undefined
  /-- An array literal without elements. -/
  | emptyArray
  deriving DecidableEq, Inhabited

namespace Value

def toBoolean : Value → Bool
  | .number x => x != 0 && !x.isNaN
  | .boolean b => b
  | .string us => !us.isEmpty
  | .null | .undefined => false
  | .emptyArray => true

def toNumber : Value → Float
  | .number x => x
  | .boolean b => if b then 1 else 0
  | .null => 0
  | .undefined => 0.0 / 0.0
  | .string us => Number.ofText us.toStringLossy
  | .emptyArray => 0

/-- The integer part modulo `2^32`. -/
def toUInt32 (v : Value) : UInt32 := Number.toUInt32Wrapping v.toNumber

def toInt32 (v : Value) : Int32 := Number.toInt32Wrapping v.toNumber

/-- The string a value converts to; none for a number that would need an exponent. -/
def toText? : Value → Option Units
  | .number x => (Number.conversionText? x).map Units.ofString
  | .boolean b => some (Units.ofString (if b then "true" else "false"))
  | .null => some (Units.ofString "null")
  | .undefined => some (Units.ofString "undefined")
  | .string us => some us
  | .emptyArray => some []

def isPrimitive : Value → Bool
  | .emptyArray => false
  | _ => true

def isNullish : Value → Bool
  | .null | .undefined => true
  | _ => false

/-- What `typeof` gives. -/
def typeName : Value → String
  | .number _ => "number"
  | .boolean _ => "boolean"
  | .string _ => "string"
  | .null | .emptyArray => "object"
  | .undefined => "undefined"

def toExpr? : Value → Option Expr
  | .number x =>
    if x.isFinite && !(x == 0 && Number.isNegative x) then some (.ofNumber x) else none
  | .boolean b => some (.ofBool b)
  | .string us => us.toString?.map .ofText
  | .null => some (.lit .null)
  | .undefined => some .undefined
  | .emptyArray => none

end Value

end Untangle

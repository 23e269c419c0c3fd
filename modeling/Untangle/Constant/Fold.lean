import Untangle.Constant.Value

/-!
# Operators on known values

`foldUnary?` and `foldBinary?` apply an operator to known values. They give nothing where the
result depends on the run, or cannot be named: membership tests, comparisons with an object, and
strings made of numbers that would need an exponent.
-/

namespace Untangle

def compareUnits : Units → Units → Ordering
  | [], [] => .eq
  | [], _ :: _ => .lt
  | _ :: _, [] => .gt
  | a :: as, b :: bs => if a < b then .lt else if b < a then .gt else compareUnits as bs

/-- The order of two doubles; none if either is not a number. -/
def compareNumbers? (x y : Float) : Option Ordering :=
  if x < y then some .lt
  else if y < x then some .gt
  else if x == y then some .eq
  else none

namespace Value

/-- Equality without conversion. Two array literals are distinct objects. -/
def strictEquals : Value → Value → Bool
  | .number x, .number y => x == y
  | .boolean a, .boolean b => a == b
  | .string a, .string b => a == b
  | .null, .null => true
  | .undefined, .undefined => true
  | _, _ => false

/-- Equality with conversion, of values that are no objects. -/
def looseEquals? (a b : Value) : Option Bool :=
  if !a.isPrimitive || !b.isPrimitive then none
  else if a.isNullish || b.isNullish then some (a.isNullish && b.isNullish)
  else match a, b with
    | .string s, .string t => some (s == t)
    | _, _ => some (a.toNumber == b.toNumber)

/-- A comparison of values that are no objects: strings by units, all else as numbers, and false
with what is not a number. -/
def compare? (a b : Value) (accept : Ordering → Bool) : Option Value :=
  if !a.isPrimitive || !b.isPrimitive then none
  else match a, b with
    | .string s, .string t => some (.boolean (accept (compareUnits s t)))
    | _, _ =>
      some (.boolean (match compareNumbers? a.toNumber b.toNumber with
        | some o => accept o
        | none => false))

/-- Whether a value makes addition join strings. -/
def isStringy : Value → Bool
  | .string _ | .emptyArray => true
  | _ => false

/-- Addition: joins strings when either side converts to one. -/
def add? (a b : Value) : Option Value :=
  if a.isStringy || b.isStringy then do
    let s ← a.toText?
    let t ← b.toText?
    pure (.string (s ++ t))
  else some (.number (a.toNumber + b.toNumber))

private def onNumbers (f : Float → Float → Float) (a b : Value) : Option Value :=
  some (.number (f a.toNumber b.toNumber))

private def onWords (f : Int32 → Int32 → Int32) (a b : Value) : Option Value :=
  some (.number (Number.ofInt32 (f a.toInt32 b.toInt32)))

/-- The amount of a shift: the low five bits. -/
private def shiftAmount (b : Value) : UInt32 := b.toUInt32 &&& 31

end Value

open Value in
def foldUnary? : UnaryOp → Value → Option Value
  | .minus, v => some (.number (-v.toNumber))
  | .plus, v => some (.number v.toNumber)
  | .not, v => some (.boolean (!v.toBoolean))
  | .bitNot, v => some (.number (Number.ofInt32 (~~~v.toInt32)))
  | .typeOf, v => some (.string (Units.ofString v.typeName))
  | .void, _ => some .undefined
  | .delete, _ => none

open Value in
def foldBinary? : BinaryOp → Value → Value → Option Value
  | .add, a, b => add? a b
  | .sub, a, b => onNumbers (· - ·) a b
  | .mul, a, b => onNumbers (· * ·) a b
  | .div, a, b => onNumbers (· / ·) a b
  | .mod, a, b => onNumbers Number.remainder a b
  | .exp, a, b => onNumbers Number.power a b
  | .bitAnd, a, b => onWords (· &&& ·) a b
  | .bitOr, a, b => onWords (· ||| ·) a b
  | .bitXor, a, b => onWords (· ^^^ ·) a b
  | .shl, a, b =>
    some (.number (Number.ofInt32 ((a.toInt32.toUInt32 <<< shiftAmount b).toInt32)))
  | .shr, a, b => some (.number (Number.ofInt32 (a.toInt32 >>> (shiftAmount b).toInt32)))
  | .ushr, a, b => some (.number (Number.ofUInt32 (a.toUInt32 >>> shiftAmount b)))
  | .strictEq, a, b => some (.boolean (strictEquals a b))
  | .strictNe, a, b => some (.boolean (!strictEquals a b))
  | .looseEq, a, b => (looseEquals? a b).map fun r => .boolean r
  | .looseNe, a, b => (looseEquals? a b).map fun r => .boolean !r
  | .lt, a, b => compare? a b (· == .lt)
  | .le, a, b => compare? a b (· != .gt)
  | .gt, a, b => compare? a b (· == .gt)
  | .ge, a, b => compare? a b (· != .lt)
  | .and, a, b => some (if a.toBoolean then b else a)
  | .or, a, b => some (if a.toBoolean then a else b)
  | .nullish, a, b => some (if a.isNullish then b else a)
  | .isIn, _, _ => none
  | .isInstance, _, _ => none

end Untangle

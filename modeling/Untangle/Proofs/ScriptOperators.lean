import Mathlib.Data.Rat.Floor
import Untangle.Constant.Fold
import Untangle.Proofs.ShortestDigits

/-!
# Operators of the language

What the language says that its operators give on known values, and that folding gives the same. The
rules are written down as the language has them: by conversions that lead from one type to another
until two operands can be compared or computed with.

* `operation?` — the result of an operator.

Doubles are computed with as the host does. Numbers are read from strings by `ofText` and written by
`conversionText?`.
-/

namespace Untangle.Script

/-! ### Conversions -/

/-- What stands for a value where no object can. -/
def primitive : Value → Value
  | .emptyArray => .string []
  | v => v

def number (v : Value) : Float :=
  match primitive v with
  | .number x => x
  | .string us => Number.ofText us.toStringLossy
  | .boolean true => 1
  | .undefined => 0.0 / 0.0
  | _ => 0

/-- The text that a value counts for, none for a number that no text is known for. -/
def text? (v : Value) : Option Units :=
  match primitive v with
  | .string us => some us
  | .number x => (Number.conversionText? x).map .ofString
  | .boolean b => some (.ofString (toString b))
  | .null => some (.ofString "null")
  | _ => some (.ofString "undefined")

theorem primitive_eq {v : Value} (h : v.isPrimitive) : primitive v = v := by
  cases v with
  | emptyArray => cases h
  | _ => rfl

theorem number_eq (v : Value) : number v = v.toNumber := by
  rcases v with x | b | us | _ | _ | _
  case boolean => cases b <;> rfl
  all_goals rfl

theorem text?_eq (v : Value) : text? v = v.toText? := by
  rcases v with x | b | us | _ | _ | _
  case boolean => cases b <;> rfl
  all_goals rfl

/-! ### Equality -/

/-- Equality of type and value. Two array literals are two objects. -/
def strictlyEqual : Value → Value → Bool
  | .number x, .number y => x == y
  | .emptyArray, .emptyArray => false
  | a, b => a = b

/-- How far a value is from a number: each conversion brings it nearer. -/
def rank : Value → Nat
  | .emptyArray => 3
  | .boolean _ => 2
  | .string _ => 1
  | _ => 0

def looselyEqual : Value → Value → Bool
  | .null, .undefined | .undefined, .null => true
  | .boolean a, .boolean b => a = b
  | .emptyArray, .emptyArray => false
  | .number x, .string s => looselyEqual (.number x) (.number (number (.string s)))
  | .string s, .number x => looselyEqual (.number (number (.string s))) (.number x)
  | .boolean a, b => looselyEqual (.number (number (.boolean a))) b
  | a, .boolean b => looselyEqual a (.number (number (.boolean b)))
  | .string s, .emptyArray => looselyEqual (.string s) (primitive .emptyArray)
  | .number x, .emptyArray => looselyEqual (.number x) (primitive .emptyArray)
  | .emptyArray, .string s => looselyEqual (primitive .emptyArray) (.string s)
  | .emptyArray, .number x => looselyEqual (primitive .emptyArray) (.number x)
  | a, b => strictlyEqual a b
termination_by a b => rank a + rank b
decreasing_by all_goals simp [rank, primitive]

theorem strictlyEqual_eq (a b : Value) : strictlyEqual a b = a.strictEquals b := by
  cases a <;> cases b <;> simp [strictlyEqual, Value.strictEquals, beq_eq_decide]

theorem looselyEqual_eq {a b : Value} (ha : a.isPrimitive) (hb : b.isPrimitive) :
    a.looseEquals? b = some (looselyEqual a b) := by
  rcases a with x | a | s | _ | _ | _ <;> rcases b with y | b | t | _ | _ | _ <;>
    simp_all [Value.looseEquals?, Value.isPrimitive, Value.isNullish, looselyEqual, strictlyEqual,
      number_eq, Value.toNumber, beq_eq_decide]
  case boolean.boolean => cases a <;> cases b <;> decide

/-! ### Order -/

/-- Whether a value is less than another: strings by their units, all else as numbers, and none with
what is not a number. -/
def lessThan (a b : Value) : Option Bool :=
  match primitive a, primitive b with
  | .string s, .string t => some (s < t)
  | _, _ => if (number a).isNaN || (number b).isNaN then none else some (number a < number b)

theorem compareUnits_swap (s t : Units) : compareUnits t s = (compareUnits s t).swap := by
  fun_induction compareUnits s t with
  | case1 | case2 | case3 => rfl
  | case4 a as b bs h => simp [compareUnits, h, UInt16.lt_asymm h]
  | case5 a as b bs h h' => simp [compareUnits, h']
  | case6 a as b bs h h' ih => simp [compareUnits, h, h', ih]

theorem compareUnits_eq_lt (s t : Units) : compareUnits s t = .lt ↔ s < t := by
  fun_induction compareUnits s t with
  | case1 | case2 | case3 => simp
  | case4 a as b bs h => simp [List.cons_lt_cons_iff, h]
  | case5 a as b bs h h' => simp [List.cons_lt_cons_iff, h, (UInt16.ne_of_lt h').symm]
  | case6 a as b bs h h' ih =>
    obtain rfl : a = b := UInt16.le_antisymm (UInt16.not_lt.1 h') (UInt16.not_lt.1 h)
    simp [ih]

open Float.Model in
theorem compare_swap (u v : UnpackedFloat) : v.compare u = (u.compare v).map .swap := by
  rcases u with s | _ | s | ⟨s, m, e, _⟩ <;> rcases v with t | _ | t | ⟨t, n, k, _⟩ <;>
    try cases s <;> try cases t
  case finite.finite.positive.positive | finite.finite.negative.negative =>
    simp [UnpackedFloat.compare, Ordering.swap_then, Int.compare_swap, Nat.compare_swap]
  all_goals rfl

theorem compareNumbers?_eq (x y : Float) :
    compareNumbers? x y = x.toModel.unpack.compare y.toModel.unpack := by
  have hlt (x y : Float) : x < y ↔ x.toModel.unpack.compare y.toModel.unpack = some .lt :=
    decide_eq_true_iff.trans beq_iff_eq
  have heq : (x == y) = (x.toModel.unpack.compare y.toModel.unpack == some .eq) := rfl
  simp only [compareNumbers?, hlt, heq, compare_swap x.toModel.unpack]
  rcases x.toModel.unpack.compare y.toModel.unpack with _ | _ | _ | _ <;> rfl

theorem compareNumbers?_swap (x y : Float) :
    compareNumbers? y x = (compareNumbers? x y).map .swap := by
  rw [compareNumbers?_eq, compareNumbers?_eq, compare_swap]

def order? (a b : Value) : Option Ordering :=
  match a, b with
  | .string s, .string t => some (compareUnits s t)
  | _, _ => compareNumbers? a.toNumber b.toNumber

theorem order?_swap (a b : Value) : order? b a = (order? a b).map .swap := by
  rcases a with _ | _ | s | _ | _ | _ <;> rcases b with _ | _ | t | _ | _ | _
  case string.string => exact congrArg some (compareUnits_swap s t)
  all_goals exact compareNumbers?_swap _ _

theorem compareNumbers?_isNone (x y : Float) :
    (compareNumbers? x y).isNone = (x.isNaN || y.isNaN) := by
  rw [compareNumbers?_eq]
  show _ = (x.toModel.unpack.isNaN || y.toModel.unpack.isNaN)
  rcases x.toModel.unpack with s | _ | s | ⟨s, m, e, _⟩ <;>
    rcases y.toModel.unpack with t | _ | t | ⟨t, n, k, _⟩ <;> try cases s <;> try cases t
  all_goals rfl

theorem lessThan_eq {a b : Value} (ha : a.isPrimitive) (hb : b.isPrimitive) :
    lessThan a b = (order? a b).map (· == .lt) := by
  fun_cases order? a b with
  | case1 s t => simp [lessThan, primitive, ← compareUnits_eq_lt, beq_eq_decide]
  | case2 a b h =>
    simp only [lessThan, primitive_eq ha, primitive_eq hb, number_eq, ← compareNumbers?_isNone]
    rw [compareNumbers?]
    grind

theorem compare?_eq {a b : Value} (ha : a.isPrimitive) (hb : b.isPrimitive)
    (accept : Ordering → Bool) :
    a.compare? b accept = some (.boolean ((order? a b).any accept)) := by
  fun_cases order? a b with
  | case1 s t => rfl
  | case2 h =>
    simp only [Value.compare?, ha, hb, Bool.not_true, Bool.or_self, Bool.false_eq_true, if_false]
    cases compareNumbers? a.toNumber b.toNumber <;> rfl

/-! ### Words -/

/-- The integer part of a number: its sign with the floor of its magnitude, and zero for what is not
finite. -/
def truncated (x : Float) : Int :=
  let b := Binary.ofFloat x
  if !x.isFinite then 0 else if b.negative then -⌊b.magnitude⌋ else ⌊b.magnitude⌋

/-- The integer part modulo `2^32`, from zero on. -/
def unsignedWord (v : Value) : Int := truncated (number v) % 2 ^ 32

/-- The integer part modulo `2^32`, from `-2^31` on. -/
def word (v : Value) : Int := (truncated (number v)).bmod (2 ^ 32)

/-- How far a shift goes. -/
def shift (v : Value) : Nat := (unsignedWord v % 32).toNat

theorem floor_magnitude (x : Float) :
    ⌊(Binary.ofFloat x).magnitude⌋ = (Number.wholeMagnitude x : Int) := by
  simp only [Number.wholeMagnitude, Binary.magnitude, Nat.pow_eq]
  obtain ⟨n, hn | hn⟩ := (Binary.ofFloat x).exponent.eq_nat_or_neg
  · rw [hn, if_pos (by omega), Int.toNat_natCast, zpow_natCast]
    exact_mod_cast Int.floor_natCast (R := ℚ) _
  · rcases n.eq_zero_or_pos with rfl | hpos
    · simp [hn]
    · rw [hn, if_neg (by omega), neg_neg, Int.toNat_natCast, zpow_neg, zpow_natCast,
        ← div_eq_mul_inv]
      exact_mod_cast Rat.floor_natCast_div_natCast _ (2 ^ n)

theorem unsignedWord_eq (v : Value) : unsignedWord v = v.toUInt32.toNat := by
  simp only [unsignedWord, number_eq, Value.toUInt32, Number.toUInt32Wrapping, truncated,
    floor_magnitude, Nat.pow_eq]
  by_cases h : v.toNumber.isFinite
  · simp only [h, Bool.not_true, Bool.false_eq_true, if_false, if_true]
    split <;> simp only [UInt32.toNat_ofNat', Nat.toUInt32] <;> omega
  · simp [h]

theorem word_eq (v : Value) : word v = v.toInt32.toInt := by
  show _ = v.toUInt32.toBitVec.toInt
  rw [word, BitVec.toInt_eq_toNat_bmod, UInt32.toNat_toBitVec, ← unsignedWord_eq]
  exact (Int.emod_bmod _ (2 ^ 32)).symm

theorem shift_eq (v : Value) : shift v = (v.toUInt32 &&& 31).toNat := by
  rw [shift, unsignedWord_eq, UInt32.toNat_and]
  show _ = v.toUInt32.toNat &&& 2 ^ 5 - 1
  rw [Nat.and_two_pow_sub_one_eq_mod]
  omega

theorem shift_lt (v : Value) : shift v < 32 := by
  rw [shift]
  omega

theorem shiftLeft_eq (a b : Value) : (word a * 2 ^ shift b).bmod (2 ^ 32) =
    (a.toInt32.toUInt32 <<< (b.toUInt32 &&& 31)).toInt32.toInt := by
  show _ = (a.toInt32.toUInt32 <<< (b.toUInt32 &&& 31)).toBitVec.toInt
  rw [BitVec.toInt_eq_toNat_bmod, UInt32.toNat_toBitVec, UInt32.toNat_shiftLeft, ← shift_eq,
    Nat.mod_eq_of_lt (shift_lt b), Nat.shiftLeft_eq, word_eq]
  show (a.toInt32.toBitVec.toInt * _).bmod _ =
    ((a.toInt32.toBitVec.toNat * _ % _ : Nat) : Int).bmod _
  rw [BitVec.toInt_eq_toNat_bmod, Int.natCast_emod, Int.emod_bmod, Nat.cast_mul, Nat.cast_pow,
    Int.bmod_mul_bmod, Nat.cast_ofNat]

theorem shiftRight_eq (a b : Value) : word a / 2 ^ shift b =
    (a.toInt32 >>> (b.toUInt32 &&& 31).toInt32).toInt := by
  have hlt := shift_lt b
  have hnat : (b.toUInt32 &&& 31).toInt32.toBitVec.toNat = shift b := (shift_eq b).symm
  have hamount : ((b.toUInt32 &&& 31).toInt32.toBitVec.smod 32).toNat = shift b := by
    rw [BitVec.smod_eq, BitVec.msb_eq_false_iff_two_mul_lt.2 (by omega)]
    exact (BitVec.toNat_umod ..).trans ((Nat.mod_eq_of_lt (hnat ▸ hlt)).trans hnat)
  rw [Int32.toInt, Int32.toBitVec_shiftRight, BitVec.sshiftRight_eq', hamount,
    BitVec.toInt_sshiftRight, Int.shiftRight_eq_div_pow, word_eq]
  norm_cast

theorem unsignedShiftRight_eq (a b : Value) : unsignedWord a / 2 ^ shift b =
    (a.toUInt32 >>> (b.toUInt32 &&& 31)).toNat := by
  rw [UInt32.toNat_shiftRight, ← shift_eq, Nat.mod_eq_of_lt (shift_lt b), Nat.shiftRight_eq_div_pow,
    unsignedWord_eq]
  norm_cast

/-! ### Operators -/

/-- The sum: strings are joined if there is one. -/
def sum? (a b : Value) : Option Value :=
  match primitive a, primitive b with
  | .string _, _ | _, .string _ => do return .string ((← text? a) ++ (← text? b))
  | _, _ => some (.number (number a + number b))

def numeric (f : Float → Float → Float) (a b : Value) : Option Value :=
  some (.number (f (number a) (number b)))

def bitwise (f : BitVec 32 → BitVec 32 → BitVec 32) (a b : Value) : Option Value :=
  some (.number (.ofInt (f (.ofInt 32 (word a)) (.ofInt 32 (word b))).toInt))

/-- The operators described here, with their results. -/
def operation? : BinaryOp → Option (Value → Value → Option Value)
  | .add => some sum?
  | .sub => some (numeric (· - ·))
  | .mul => some (numeric (· * ·))
  | .div => some (numeric (· / ·))
  | .mod => some (numeric Number.remainder)
  | .bitAnd => some (bitwise (· &&& ·))
  | .bitOr => some (bitwise (· ||| ·))
  | .bitXor => some (bitwise (· ^^^ ·))
  | .shl => some fun a b => some (.number (.ofInt ((word a * 2 ^ shift b).bmod (2 ^ 32))))
  | .shr => some fun a b => some (.number (.ofInt (word a / 2 ^ shift b)))
  | .ushr => some fun a b => some (.number (.ofInt (unsignedWord a / 2 ^ shift b)))
  | .strictEq => some fun a b => some (.boolean (strictlyEqual a b))
  | .strictNe => some fun a b => some (.boolean !strictlyEqual a b)
  | .looseEq => some fun a b => some (.boolean (looselyEqual a b))
  | .looseNe => some fun a b => some (.boolean !looselyEqual a b)
  | .lt => some fun a b => some (.boolean (lessThan a b == some true))
  | .gt => some fun a b => some (.boolean (lessThan b a == some true))
  | .le => some fun a b => some (.boolean (lessThan b a == some false))
  | .ge => some fun a b => some (.boolean (lessThan a b == some false))
  | _ => none

def converts : BinaryOp → Bool
  | .looseEq | .looseNe | .lt | .le | .gt | .ge => true
  | _ => false

theorem sum?_eq (a b : Value) : sum? a b = a.add? b := by
  cases a <;> cases b <;>
    simp [sum?, primitive, Value.add?, Value.isStringy, text?_eq, number_eq]

theorem numeric_eq (f : Float → Float → Float) (a b : Value) :
    numeric f a b = some (.number (f a.toNumber b.toNumber)) := by
  rw [numeric, number_eq, number_eq]

theorem ofInt32_eq (w : Int32) : Number.ofInt32 w = .ofInt w.toInt := by
  rw [Number.ofInt32]
  cases w.toInt with
  | ofNat n => rfl
  | negSucc n => exact if_pos (Int.negSucc_lt_zero n)

theorem bitwise_eq {f : BitVec 32 → BitVec 32 → BitVec 32} {g : Int32 → Int32 → Int32}
    (h : ∀ v w, (g v w).toBitVec = f v.toBitVec w.toBitVec) (a b : Value) :
    bitwise f a b = some (.number (Number.ofInt32 (g a.toInt32 b.toInt32))) := by
  have hbits (v : Value) : BitVec.ofInt 32 (word v) = v.toInt32.toBitVec := by
    rw [word_eq, Int32.toInt, BitVec.ofInt_toInt]
  rw [ofInt32_eq, Int32.toInt, h, bitwise, hbits, hbits]

variable {op : BinaryOp} {f : Value → Value → Option Value} (h : operation? op = some f)

include h

theorem foldBinary?_converted (hop : converts op) (a b : Value) :
    foldBinary? op a b = if a.isPrimitive && b.isPrimitive then f a b else none := by
  by_cases hab : a.isPrimitive && b.isPrimitive
  · obtain ⟨ha, hb⟩ := Bool.and_eq_true_iff.1 hab
    rw [if_pos hab]
    cases op with
    | looseEq | looseNe =>
      cases h
      simp only [foldBinary?, looselyEqual_eq ha hb, Option.map_some]
    | lt | le | gt | ge =>
      cases h
      simp only [foldBinary?, compare?_eq ha hb, lessThan_eq ha hb, lessThan_eq hb ha,
        order?_swap a b]
      rcases order? a b with _ | _ | _ | _ <;> rfl
    | _ => cases hop
  · have hnone : (!a.isPrimitive || !b.isPrimitive) = true := by simpa [imp_iff_not_or] using hab
    rw [if_neg hab]
    cases op with
    | looseEq | looseNe =>
      simp only [foldBinary?, Value.looseEquals?, hnone, if_true, Option.map_none]
    | lt | le | gt | ge => simp only [foldBinary?, Value.compare?, hnone, if_true]
    | _ => cases hop

theorem foldBinary?_computed (hop : converts op = false) (a b : Value) :
    foldBinary? op a b = f a b := by
  cases op with
  | looseEq | looseNe | lt | le | gt | ge => cases hop
  | add => cases h; exact (sum?_eq a b).symm
  | sub | mul | div | mod => cases h; exact (numeric_eq _ a b).symm
  | bitAnd => cases h; exact (bitwise_eq Int32.toBitVec_and a b).symm
  | bitOr => cases h; exact (bitwise_eq Int32.toBitVec_or a b).symm
  | bitXor => cases h; exact (bitwise_eq Int32.toBitVec_xor a b).symm
  | shl => cases h; simp only [shiftLeft_eq, ← ofInt32_eq]; rfl
  | shr => cases h; simp only [shiftRight_eq, ← ofInt32_eq]; rfl
  | ushr => cases h; simp only [unsignedShiftRight_eq]; rfl
  | strictEq | strictNe => cases h; simp only [strictlyEqual_eq]; rfl
  | _ => cases h

/-- Folding gives what the language says, and nothing where a comparison would convert an object. -/
theorem foldBinary?_follows (a b : Value) : foldBinary? op a b =
    if !converts op || (a.isPrimitive && b.isPrimitive) then f a b else none := by
  cases hop : converts op with
  | true => exact foldBinary?_converted h hop a b
  | false => exact foldBinary?_computed h hop a b

omit h

/-- Strings are ordered by units: the half of a pair stands before U+FFFD, the scalar of the pair
behind. -/
theorem foldBinary?_follows_pair :
    foldBinary? .lt (.string [0xD83D, 0xDE00]) (.string [0xFFFD]) = some (.boolean true) :=
  (foldBinary?_follows rfl _ _).trans rfl

/-! ### Powers -/

/-- Whether the language makes a power not a number because of its exponent: this is not a number,
or it is infinite and the base is one or minus one. -/
def powerUndefined (x y : Float) : Bool := y.isNaN || (y.isInf && (x == 1 || x == -1))

theorem power_of_undefined {x y : Float} (h : powerUndefined x y = true) :
    Number.power x y = if x == 1 || y.isInf then 1 else 0.0 / 0.0 := by
  cases hx : x == 1 with
  | true => simp [Number.power, hx]
  | false =>
    simp only [powerUndefined, hx, Bool.false_or, Bool.or_eq_true, Bool.and_eq_true] at h
    rcases h with hnan | ⟨hinf, hminus⟩
    · obtain rfl : y = Float.nan := by simpa [Float.isNaN_eq_decide_eq_nan] using hnan
      have hzero : (Float.nan == 0) = false := by decide
      have hfinite : Float.nan.isInf = false := by decide
      simp [Number.power, hx, hzero, hfinite]
    · have hnan : y ≠ Float.nan := by
        rintro rfl
        exact absurd hinf (by decide)
      have hbase : x ≠ Float.nan := (Float.beq_iff_ne_nan_and_eq.1 hminus).1
      simp [Number.power, hinf, hminus, hnan, hbase]

/-- A power that the language makes not a number is folded to that, unless the base is one or the
exponent infinite, where the result is one. -/
theorem foldBinary?_exp_undefined {a b : Value} (h : powerUndefined a.toNumber b.toNumber = true) :
    foldBinary? .exp a b = some (.number
      (if a.toNumber == 1 || b.toNumber.isInf then 1 else 0.0 / 0.0)) := by
  rw [← power_of_undefined h]
  rfl

theorem foldBinary?_exp_undefined_minus_one :
    foldBinary? .exp (.number (-1)) .undefined = some (.number (0.0 / 0.0)) :=
  (foldBinary?_exp_undefined (by decide)).trans (by decide)

/-- One to what is not a number is folded to one. -/
theorem foldBinary?_exp_one : foldBinary? .exp (.number 1) .undefined = some (.number 1) := by
  decide

end Untangle.Script

import Untangle.Number.Spelling
import Untangle.Proofs.DoubleArithmetic

/-!
# Numbers told apart by their texts

The string a number converts to has the fewest digits that read back. Two numbers with one string are
equal, and equal numbers have one string, so a comparison of strings decides the comparison of
numbers.

The argument is on rationals. The digits found lie in the rounding interval of the double
(`shortestDigits_admits`), for which the search must not run out: an interval is wider than the grid
of seventeen digits (`onGrid_isSome`). The intervals of different doubles do not meet
(`admits_unique`), and the text of a number gives back the decimal it spells (`value_positional`).
-/

namespace Untangle

/-! ### The parts of a double -/

variable {x y : Float}

namespace Binary

/-- The one form of a positive magnitude that a double has. -/
structure Positive (b : Binary) : Prop where
  pos : 0 < b.mantissa
  lt : b.mantissa < 2 ^ 53
  least : -1074 ≤ b.exponent
  full : b.exponent ≠ -1074 → 2 ^ 52 ≤ b.mantissa

def magnitude (b : Binary) : ℚ := b.mantissa * 2 ^ b.exponent

theorem eq_of_toNat_toBits (h : x.toBits.toNat = y.toBits.toNat) : x = y :=
  Float.toBits_inj.1 (UInt64.toNat_inj.1 h)

theorem ofFloat_inj (h : ofFloat x = ofFloat y) : x = y := by
  apply eq_of_toNat_toBits
  have hx := x.toBits.toNat_lt
  have hy := y.toBits.toNat_lt
  simp only [ofFloat, Binary.mk.injEq, decide_eq_decide, Nat.pow_eq, Nat.reducePow] at h
  obtain ⟨hsign, hmantissa, hexponent⟩ := h
  by_cases hfx : x.toBits.toNat / 4503599627370496 % 2048 = 0 <;>
    by_cases hfy : y.toBits.toNat / 4503599627370496 % 2048 = 0 <;>
    simp only [hfx, hfy, if_true, if_false] at hmantissa hexponent <;> omega

theorem ofFloat_positive (h : (x == 0) = false) : (ofFloat x).Positive := by
  have hlt := x.toBits.toNat_lt
  have hne : (ofFloat x).mantissa ≠ 0 := by
    intro hzero
    simp only [ofFloat, Nat.pow_eq, Nat.reducePow] at hzero
    have hbits : x.toBits.toNat = 0 ∨ x.toBits.toNat = 2 ^ 63 := by
      split at hzero <;> omega
    rcases hbits with hbits | hbits
    · obtain rfl : x = 0 := eq_of_toNat_toBits (hbits.trans (by decide))
      exact absurd h (by decide)
    · obtain rfl : x = -0 := eq_of_toNat_toBits (hbits.trans (by decide))
      exact absurd h (by decide)
  refine ⟨Nat.pos_of_ne_zero hne, ?_, ?_, ?_⟩
  all_goals
    simp only [ofFloat, Nat.pow_eq, Nat.reducePow]
    repeat' split
    all_goals omega

end Binary

namespace Number

/-! ### Rounding intervals -/

theorem scale_eq (b : Nat) (u : Int) :
    ((if 0 ≤ u then Nat.pow b u.toNat else 1 : Nat) : ℚ) /
      ((if 0 ≤ u then 1 else Nat.pow b (-u).toNat : Nat) : ℚ) = (b : ℚ) ^ u := by
  by_cases hu : 0 ≤ u
  · obtain ⟨n, rfl⟩ := Int.eq_ofNat_of_zero_le hu
    simp
  · obtain ⟨n, rfl⟩ : ∃ n : Nat, u = -(n : Int) := ⟨(-u).toNat, by omega⟩
    rw [if_neg hu, if_neg hu, neg_neg, Int.toNat_natCast, zpow_neg, zpow_natCast]
    simp

theorem scale_pos {b : Nat} (hb : 0 < b) (u : Int) :
    0 < (if 0 ≤ u then 1 else Nat.pow b (-u).toNat) := by
  split
  · exact Nat.one_pos
  · exact Nat.pow_pos hb

/-- The rationals that round to the value. -/
def Rounding.Admits (r : Rounding) (q : ℚ) : Prop :=
  if r.closed then r.low ≤ q * r.denominator ∧ q * r.denominator ≤ r.high
  else r.low < q * r.denominator ∧ q * r.denominator < r.high

variable {k fuel n : Nat} {b' : Binary} {r : Rounding} {tie : Tie} {unit point : Int}
  {cs : List Char} {d : Digits} {s : String}

theorem Rounding.holds_iff (r : Rounding) {up down : Nat} (hdown : 0 < down) :
    r.holds k up down = true ↔ r.Admits (k * (up / down)) := by
  have hd : (0 : ℚ) < down := by exact_mod_cast hdown
  have hq : (k * (up / down) * r.denominator : ℚ) = (k * up * r.denominator : Nat) / down := by
    push_cast
    ring
  unfold Rounding.holds Rounding.Admits
  rw [hq]
  split
  · rw [le_div_iff₀ hd, div_le_iff₀ hd, Bool.and_eq_true, decide_eq_true_iff, decide_eq_true_iff]
    norm_cast
  · rw [lt_div_iff₀ hd, div_lt_iff₀ hd, Bool.and_eq_true, decide_eq_true_iff, decide_eq_true_iff]
    norm_cast

/-- The quarters of a unit in the last place from the lower end of the interval to the value. -/
def lowerGap (b : Binary) : ℚ :=
  if b.mantissa = 2 ^ 52 ∧ b.exponent ≠ -1074 then 1 else 2

theorem lowerGap_bounds (b : Binary) : 1 ≤ lowerGap b ∧ lowerGap b ≤ 2 := by
  unfold lowerGap
  split <;> norm_num

variable {b : Binary} {q : ℚ}

/-- The interval of a double, in quarters of a unit in the last place. -/
theorem admits_ofBinary (hb : b.Positive) : (Rounding.ofBinary b).Admits q ↔
    if b.mantissa % 2 = 0 then
      (4 * b.mantissa - lowerGap b) * 2 ^ (b.exponent - 2) ≤ q ∧
        q ≤ (4 * b.mantissa + 2) * 2 ^ (b.exponent - 2)
    else
      (4 * b.mantissa - lowerGap b) * 2 ^ (b.exponent - 2) < q ∧
        q < (4 * b.mantissa + 2) * 2 ^ (b.exponent - 2) := by
  have hpos := hb.pos
  have hscale := scale_eq 2 (b.exponent - 2)
  have hdown : (0 : ℚ) < ((if 0 ≤ b.exponent - 2 then 1 else
      Nat.pow 2 (-(b.exponent - 2)).toNat : Nat) : ℚ) := by
    exact_mod_cast scale_pos Nat.two_pos _
  have hlow : (((if b.mantissa == Nat.pow 2 52 && b.exponent != -1074 then 4 * b.mantissa - 1
      else 4 * b.mantissa - 2 : Nat)) : ℚ) = 4 * b.mantissa - lowerGap b := by
    unfold lowerGap
    by_cases hnarrow : b.mantissa = 2 ^ 52 ∧ b.exponent ≠ -1074
    · rw [if_pos hnarrow, if_pos (by simpa using hnarrow), Nat.cast_sub (by omega)]
      push_cast
      ring
    · rw [if_neg hnarrow, if_neg (by simpa using hnarrow), Nat.cast_sub (by omega)]
      push_cast
      ring
  unfold Rounding.Admits Rounding.ofBinary
  simp only [Nat.cast_mul, hlow, beq_iff_eq]
  rw [Nat.cast_ofNat] at hscale
  rw [← hscale]
  generalize ((if 0 ≤ b.exponent - 2 then 1 else
    Nat.pow 2 (-(b.exponent - 2)).toNat : Nat) : ℚ) = down at hdown ⊢
  push_cast
  simp only [← mul_div_assoc, div_le_iff₀ hdown, le_div_iff₀ hdown, div_lt_iff₀ hdown,
    lt_div_iff₀ hdown]

theorem admits_bounds (hb : b.Positive) (h : (Rounding.ofBinary b).Admits q) :
    (4 * b.mantissa - lowerGap b) * 2 ^ (b.exponent - 2) ≤ q ∧
      q ≤ (4 * b.mantissa + 2) * 2 ^ (b.exponent - 2) := by
  rw [admits_ofBinary hb] at h
  split at h
  · exact h
  · exact ⟨h.1.le, h.2.le⟩

theorem admits_of_between (hb : b.Positive)
    (hlow : (4 * b.mantissa - lowerGap b) * 2 ^ (b.exponent - 2) < q)
    (hhigh : q < (4 * b.mantissa + 2) * 2 ^ (b.exponent - 2)) : (Rounding.ofBinary b).Admits q := by
  rw [admits_ofBinary hb]
  split
  · exact ⟨hlow.le, hhigh.le⟩
  · exact ⟨hlow, hhigh⟩

/-- An interval is below those of greater doubles with the same exponent. -/
theorem admits_apart_of_mantissa (hb : b.Positive) (hb' : b'.Positive)
    (he : b.exponent = b'.exponent) (hm : b.mantissa < b'.mantissa)
    (h : (Rounding.ofBinary b).Admits q) (h' : (Rounding.ofBinary b').Admits q) : False := by
  have hu : (0 : ℚ) < 2 ^ (b.exponent - 2) := by positivity
  have hgap := (lowerGap_bounds b').2
  have hcast : (b.mantissa : ℚ) + 1 ≤ b'.mantissa := by exact_mod_cast hm
  have hends : (4 * b.mantissa + 2) * (2 : ℚ) ^ (b.exponent - 2) ≤
      (4 * b'.mantissa - lowerGap b') * 2 ^ (b.exponent - 2) := by
    apply mul_le_mul_of_nonneg_right _ hu.le
    linarith
  rw [admits_ofBinary hb] at h
  rw [admits_ofBinary hb', ← he] at h'
  -- the ends can only touch between neighbours, and one of two neighbours is odd
  by_cases hnext : b.mantissa + 1 = b'.mantissa
  · rw [← hnext] at h'
    rcases Nat.mod_two_eq_zero_or_one b.mantissa with hpar | hpar
    · rw [if_pos hpar] at h
      rw [if_neg (by omega)] at h'
      rw [← hnext] at hends
      linarith [h.2, h'.1]
    · rw [if_neg (by omega)] at h
      rw [if_pos (by omega)] at h'
      rw [← hnext] at hends
      linarith [h.2, h'.1]
  · have hcast' : (b.mantissa : ℚ) + 2 ≤ b'.mantissa := by exact_mod_cast (by omega : _ + 2 ≤ _)
    have hstrict : (4 * b.mantissa + 2) * (2 : ℚ) ^ (b.exponent - 2) <
        (4 * b'.mantissa - lowerGap b') * 2 ^ (b.exponent - 2) := by
      apply mul_lt_mul_of_pos_right _ hu
      linarith
    have hq := (admits_bounds hb ((admits_ofBinary hb).2 h)).2
    have hq' := (admits_bounds hb' ((admits_ofBinary hb').2 (he ▸ h'))).1
    rw [← he] at hq'
    linarith

theorem admits_apart_of_exponent (hb : b.Positive) (hb' : b'.Positive)
    (he : b.exponent < b'.exponent) (h : (Rounding.ofBinary b).Admits q)
    (h' : (Rounding.ofBinary b').Admits q) : False := by
  have hu : (0 : ℚ) < 2 ^ (b.exponent - 2) := by positivity
  have htwice : 2 * (2 : ℚ) ^ (b.exponent - 2) ≤ 2 ^ (b'.exponent - 2) := by
    have hpow : 2 * (2 : ℚ) ^ (b.exponent - 2) = 2 ^ (b.exponent - 1) := by
      rw [← zpow_one_add₀ (by norm_num)]
      congr 1
      ring
    rw [hpow]
    exact zpow_le_zpow_right₀ (by norm_num) (by omega)
  have hne : b'.exponent ≠ -1074 := by
    have := hb.least
    omega
  have hfull := hb'.full hne
  have hq' := (admits_bounds hb' h').1
  -- the lower end of an interval, against the greatest mantissa one exponent below
  have hgap : (2 ^ 54 - 1 : ℚ) ≤ 4 * b'.mantissa - lowerGap b' := by
    unfold lowerGap
    split
    · rename_i hnarrow
      rw [hnarrow.1]
      norm_num
    · rename_i hwide
      have hmore : 2 ^ 52 + 1 ≤ b'.mantissa := by
        rcases Nat.lt_or_eq_of_le hfull with hlt | heq
        · exact hlt
        · exact absurd ⟨heq.symm, hne⟩ hwide
      have hcast : (2 ^ 52 + 1 : ℚ) ≤ b'.mantissa := by exact_mod_cast hmore
      linarith
  have hlow : (2 ^ 55 - 2 : ℚ) * 2 ^ (b.exponent - 2) ≤ q := by
    have hscaled := mul_le_mul hgap htwice (by positivity) (by linarith)
    linarith
  have hlt := hb.lt
  rw [admits_ofBinary hb] at h
  split at h
  · rename_i heven
    have hcast : (b.mantissa : ℚ) + 2 ≤ 2 ^ 53 := by exact_mod_cast (by omega : b.mantissa + 2 ≤ _)
    have hhigh : (4 * b.mantissa + 2) * (2 : ℚ) ^ (b.exponent - 2) <
        (2 ^ 55 - 2) * 2 ^ (b.exponent - 2) := by
      apply mul_lt_mul_of_pos_right _ hu
      linarith
    linarith [h.2]
  · have hcast : (b.mantissa : ℚ) + 1 ≤ 2 ^ 53 := by exact_mod_cast hlt
    have hhigh : (4 * b.mantissa + 2) * (2 : ℚ) ^ (b.exponent - 2) ≤
        (2 ^ 55 - 2) * 2 ^ (b.exponent - 2) := by
      apply mul_le_mul_of_nonneg_right _ hu.le
      linarith
    linarith [h.2]

theorem admits_unique (hb : b.Positive) (hb' : b'.Positive) (h : (Rounding.ofBinary b).Admits q)
    (h' : (Rounding.ofBinary b').Admits q) :
    b.mantissa = b'.mantissa ∧ b.exponent = b'.exponent := by
  rcases lt_trichotomy b.exponent b'.exponent with he | he | he
  · exact (admits_apart_of_exponent hb hb' he h h').elim
  · rcases lt_trichotomy b.mantissa b'.mantissa with hm | hm | hm
    · exact (admits_apart_of_mantissa hb hb' he hm h h').elim
    · exact ⟨hm, he⟩
    · exact (admits_apart_of_mantissa hb' hb he.symm hm h' h).elim
  · exact (admits_apart_of_exponent hb' hb he h' h).elim

/-! ### The search -/

/-- The answer on the grid of multiples of a power of ten. -/
def Rounding.atUnit (r : Rounding) (tie : Tie) (unit : Int) : Option Nat :=
  r.onGrid tie (if 0 ≤ unit then Nat.pow 10 unit.toNat else 1)
    (if 0 ≤ unit then 1 else Nat.pow 10 (-unit).toNat)

theorem search_succ (r : Rounding) (tie : Tie) (point : Int) (fuel n : Nat) :
    r.search tie point (fuel + 1) n = match r.atUnit tie (point - n) with
      | some k => (some k, point - n)
      | none => r.search tie point fuel (n + 1) := rfl

theorem atUnit_admits (h : r.atUnit tie unit = some k) : r.Admits (k * 10 ^ unit) := by
  have hscale := scale_eq 10 unit
  have hholds : r.holds k (if 0 ≤ unit then Nat.pow 10 unit.toNat else 1)
      (if 0 ≤ unit then 1 else Nat.pow 10 (-unit).toNat) = true := by
    unfold Rounding.atUnit Rounding.onGrid at h
    grind
  rw [r.holds_iff (scale_pos (by decide) unit), hscale] at hholds
  exact hholds

theorem search_admits (h : r.search tie point fuel n = (some k, unit)) :
    r.Admits (k * 10 ^ unit) := by
  induction fuel generalizing n with
  | zero => simp [Rounding.search] at h
  | succ fuel ih =>
    rw [search_succ] at h
    split at h
    · rename_i k' hgrid
      cases h
      exact atUnit_admits hgrid
    · exact ih h

theorem search_isSome {j : Nat} (hn : n ≤ j) (hj : j < n + fuel)
    (h : (r.atUnit tie (point - j)).isSome = true) :
    (r.search tie point fuel n).1.isSome = true := by
  induction fuel generalizing n with
  | zero => omega
  | succ fuel ih =>
    rw [search_succ]
    split
    · rfl
    · rename_i hnone
      rcases Nat.eq_or_lt_of_le hn with rfl | hlt
      · rw [hnone] at h
        cases h
      · exact ih (by omega) (by omega)

theorem value_ofBinary (b : Binary) :
    ((Rounding.ofBinary b).value : ℚ) / (Rounding.ofBinary b).denominator = b.magnitude := by
  have hscale := scale_eq 2 (b.exponent - 2)
  unfold Rounding.ofBinary Binary.magnitude
  rw [Nat.cast_mul, mul_div_assoc, hscale, zpow_sub₀ (by norm_num)]
  push_cast
  ring

theorem denominator_pos (b : Binary) : 0 < (Rounding.ofBinary b).denominator :=
  scale_pos Nat.two_pos _

/-- Of the two neighbours of a positive value on a grid, one is enough. -/
theorem atUnit_isSome (hden : 0 < r.denominator) (tie : Tie) (unit : Int)
    (h : ∀ k : Nat, k * 10 ^ unit ≤ (r.value / r.denominator : ℚ) →
      (r.value / r.denominator : ℚ) < (k + 1) * 10 ^ unit →
      k ≠ 0 ∧ r.Admits (k * 10 ^ unit) ∨ r.Admits ((k + 1) * 10 ^ unit)) :
    (r.atUnit tie unit).isSome = true := by
  have hscale := scale_eq 10 unit
  have hdown := scale_pos (by decide : 0 < 10) unit
  have hup : 0 < (if 0 ≤ unit then Nat.pow 10 unit.toNat else 1) := by
    split
    · exact Nat.pow_pos (by decide)
    · exact Nat.one_pos
  unfold Rounding.atUnit
  generalize (if 0 ≤ unit then Nat.pow 10 unit.toNat else 1) = up at hscale hup ⊢
  generalize (if 0 ≤ unit then 1 else Nat.pow 10 (-unit).toNat) = down at hscale hdown ⊢
  rw [Nat.cast_ofNat] at hscale
  have hd : (0 : ℚ) < r.denominator := by exact_mod_cast hden
  have hs : (0 : ℚ) < down := by exact_mod_cast hdown
  -- the neighbour below is the quotient of the division
  have hle : ((r.value * down / (r.denominator * up) : Nat) : ℚ) * (up / down) ≤
      r.value / r.denominator := by
    rw [← mul_div_assoc, div_le_div_iff₀ hs hd]
    have := Nat.div_mul_le_self (r.value * down) (r.denominator * up)
    exact_mod_cast (by linarith :
      r.value * down / (r.denominator * up) * up * r.denominator ≤ r.value * down)
  have hlt : (r.value / r.denominator : ℚ) <
      ((r.value * down / (r.denominator * up) : Nat) + 1) * (up / down) := by
    rw [← mul_div_assoc, div_lt_div_iff₀ hd hs]
    have := Nat.lt_div_mul_add (a := r.value * down) (Nat.mul_pos hden hup)
    exact_mod_cast (by linarith :
      r.value * down < (r.value * down / (r.denominator * up) + 1) * up * r.denominator)
  rw [hscale] at hle hlt
  have hone := h _ hle hlt
  have hcast (k : Nat) : ((k + 1) * 10 ^ unit : ℚ) = (k + 1 : Nat) * 10 ^ unit := by push_cast; rfl
  rw [hcast, ← hscale, ← r.holds_iff hdown, ← r.holds_iff hdown] at hone
  unfold Rounding.onGrid
  rcases hone with ⟨hne, hbelow⟩ | habove
  · simp only [hbelow, bne_iff_ne.2 hne]
    grind
  · simp only [habove]
    grind

/-- A grid of seventeen digits has a decimal in the interval of every double. -/
theorem atUnit_ofBinary_isSome (hb : b.Positive) (tie : Tie)
    (hunit : (10 : ℚ) ^ unit * 10 ^ 16 ≤ b.magnitude) :
    ((Rounding.ofBinary b).atUnit tie unit).isSome = true := by
  apply atUnit_isSome (denominator_pos b)
  intro k hbelow habove
  rw [value_ofBinary] at hbelow habove
  have hw : (0 : ℚ) < 2 ^ (b.exponent - 2) := by positivity
  have hmag : b.magnitude = 4 * b.mantissa * 2 ^ (b.exponent - 2) := by
    rw [Binary.magnitude, zpow_sub₀ (by norm_num)]
    ring
  have hgap := lowerGap_bounds b
  rw [hmag] at hbelow habove hunit
  have hne : k ≠ 0 := by
    rintro rfl
    have : (0 : ℚ) < 10 ^ unit := by positivity
    norm_num at habove
    linarith
  -- otherwise a step of the grid is wider than the interval
  by_contra hnone
  rw [not_or, not_and] at hnone
  have hlow : (k * 10 ^ unit : ℚ) ≤ (4 * b.mantissa - lowerGap b) * 2 ^ (b.exponent - 2) := by
    by_contra hc
    apply hnone.1 hne
    apply admits_of_between hb (not_le.1 hc)
    linarith
  have hhigh : (4 * b.mantissa + 2) * (2 : ℚ) ^ (b.exponent - 2) ≤ (k + 1) * 10 ^ unit := by
    by_contra hc
    apply hnone.2
    apply admits_of_between hb _ (not_le.1 hc)
    have : 0 < lowerGap b * (2 : ℚ) ^ (b.exponent - 2) := mul_pos (by linarith) hw
    linarith
  have hstep : (2 + lowerGap b) * (2 : ℚ) ^ (b.exponent - 2) ≤ 10 ^ unit := by linarith
  have hwide : ((2 + lowerGap b) * 10 ^ 16) * (2 : ℚ) ^ (b.exponent - 2) ≤
      (4 * b.mantissa) * 2 ^ (b.exponent - 2) := by linarith
  have hcontra := le_of_mul_le_mul_right hwide hw
  have hlt : (b.mantissa : ℚ) < 2 ^ 53 := by exact_mod_cast hb.lt
  unfold lowerGap at hcontra
  split at hcontra
  · rename_i hnarrow
    rw [hnarrow.1] at hcontra
    norm_num at hcontra
  · linarith

/-! ### The number of digits before the point -/

/-- A fraction slightly below the decimal logarithm of two gives the number of digits of a power of
two, but for two of them. -/
theorem ten_zpow_le_two_zpow {p q : Nat} (hq : 0 < q) (hlow : 10 ^ p ≤ 2 ^ q)
    (hhigh : 2 ^ q ≤ 2 * 10 ^ p) {n : Int} (hn : -q ≤ n) :
    (10 : ℚ) ^ (n * p / q - 2) ≤ 2 ^ (n - 1) := by
  have hlow' : (10 : ℚ) ^ p ≤ 2 ^ q := by exact_mod_cast hlow
  have hhigh' : (2 : ℚ) ^ q ≤ 2 * 10 ^ p := by exact_mod_cast hhigh
  -- both sides are compared after raising them to the power q, which makes the fraction whole
  apply le_of_pow_le_pow_left₀ (Nat.pos_iff_ne_zero.1 hq) (by positivity)
  rw [← zpow_natCast, ← zpow_natCast, ← zpow_mul, ← zpow_mul]
  have hexp : (n * p / q - 2) * q ≤ p * n - 2 * q := by
    have := Int.ediv_mul_le (n * p) (by omega : (q : Int) ≠ 0)
    linarith
  apply (zpow_le_zpow_right₀ (by norm_num) hexp).trans
  rw [sub_mul, one_mul, mul_comm n, zpow_sub₀ (by norm_num), zpow_sub₀ (by norm_num)]
  rw [zpow_mul, zpow_mul, zpow_mul, zpow_natCast, zpow_natCast, zpow_ofNat, zpow_natCast]
  by_cases hsign : 0 ≤ n
  · obtain ⟨k, rfl⟩ := Int.eq_ofNat_of_zero_le hsign
    rw [zpow_natCast, zpow_natCast]
    apply div_le_div₀ (by positivity) (pow_le_pow_left₀ (by positivity) hlow' k) (by positivity)
    exact pow_le_pow_left₀ (by norm_num) (by norm_num) q
  · obtain ⟨k, rfl⟩ : ∃ k : Nat, n = -(k : Int) := ⟨(-n).toNat, by omega⟩
    rw [zpow_neg, zpow_neg, zpow_natCast, zpow_natCast, inv_eq_one_div, inv_eq_one_div, div_div,
      div_div]
    apply one_div_le_one_div_of_le (by positivity)
    calc ((2 : ℚ) ^ q) ^ k * 2 ^ q
        ≤ (2 * 10 ^ p) ^ k * 2 ^ q := by gcongr
      _ = (10 ^ p) ^ k * (2 ^ k * 2 ^ q) := by rw [mul_pow]; ring
      _ ≤ (10 ^ p) ^ k * (2 ^ q * 2 ^ q) := by
          gcongr
          · norm_num
          · omega
      _ ≤ (10 ^ p) ^ k * (10 ^ 2) ^ q := by
          rw [← mul_pow]
          gcongr
          norm_num

/-- Whether the value is below a power of ten. -/
def Rounding.fits (r : Rounding) (t : Int) : Bool :=
  if 0 ≤ t then r.value < Nat.pow 10 t.toNat * r.denominator
  else r.value * Nat.pow 10 (-t).toNat < r.denominator

theorem magnitude_eq (r : Rounding) (estimate : Int) : r.magnitude estimate =
    if r.fits (estimate - 1) then estimate - 1 else if r.fits estimate then estimate
    else if r.fits (estimate + 1) then estimate + 1 else estimate + 2 := rfl

theorem le_of_not_fits (hden : 0 < r.denominator) {t : Int} (h : ¬r.fits t = true) :
    (10 : ℚ) ^ t ≤ r.value / r.denominator := by
  have hd : (0 : ℚ) < r.denominator := by exact_mod_cast hden
  rw [le_div_iff₀ hd]
  unfold Rounding.fits at h
  split at h
  · rename_i hpos
    obtain ⟨n, rfl⟩ := Int.eq_ofNat_of_zero_le hpos
    rw [decide_eq_true_iff] at h
    rw [zpow_natCast]
    exact_mod_cast Nat.le_of_not_lt h
  · rename_i hneg
    obtain ⟨n, rfl⟩ : ∃ n : Nat, t = -(n : Int) := ⟨(-t).toNat, by omega⟩
    rw [neg_neg, Int.toNat_natCast, decide_eq_true_iff] at h
    rw [zpow_neg, zpow_natCast, inv_mul_le_iff₀ (by positivity), mul_comm]
    exact_mod_cast Nat.le_of_not_lt h

theorem magnitude_le (hden : 0 < r.denominator) {estimate : Int}
    (h : (10 : ℚ) ^ (estimate - 2) ≤ r.value / r.denominator) :
    (10 : ℚ) ^ (r.magnitude estimate - 1) ≤ r.value / r.denominator := by
  rw [magnitude_eq]
  split
  · rw [sub_sub]
    exact h
  · rename_i hfirst
    split
    · exact le_of_not_fits hden hfirst
    · rename_i hsecond
      split
      · rw [add_sub_cancel_right]
        exact le_of_not_fits hden hsecond
      · rename_i hthird
        rw [show estimate + 2 - 1 = estimate + 1 by ring]
        exact le_of_not_fits hden hthird

/-! ### Digits -/

/-- The decimal that digits and a point spell. -/
def Digits.value (d : Digits) : ℚ :=
  Nat.ofDigitChars 10 d.digits 0 * 10 ^ (d.point - d.digits.length)

theorem ofDigitChars_zeros (n : Nat) (acc : Nat) :
    Nat.ofDigitChars 10 (List.replicate n '0') acc = acc * 10 ^ n := by
  induction n generalizing acc with
  | zero => simp [Nat.ofDigitChars]
  | succ n ih =>
    rw [List.replicate_succ, Nat.ofDigitChars_cons, ih, pow_succ]
    simp
    ring

theorem dropTrailingZeros_append (ds : List Char) :
    ∃ n, ds = dropTrailingZeros ds ++ List.replicate n '0' := by
  refine ⟨(ds.reverse.takeWhile (· == '0')).length, ?_⟩
  have hzeros : ds.reverse.takeWhile (· == '0') =
      List.replicate (ds.reverse.takeWhile (· == '0')).length '0' := by
    apply List.eq_replicate_of_mem
    intro c hc
    exact beq_iff_eq.1 (List.all_eq_true.1 List.all_takeWhile c hc)
  apply List.reverse_injective
  rw [dropTrailingZeros, List.reverse_append, List.reverse_reverse, List.reverse_replicate,
    ← hzeros, List.takeWhile_append_dropWhile]

theorem value_dropTrailingZeros (k : Nat) (unit : Int) :
    Digits.value { digits := dropTrailingZeros (natDigits k)
                   point := unit + (natDigits k).length } = k * 10 ^ unit := by
  obtain ⟨n, hn⟩ := dropTrailingZeros_append (natDigits k)
  have hk : Nat.ofDigitChars 10 (dropTrailingZeros (natDigits k)) 0 * 10 ^ n = k := by
    rw [← ofDigitChars_zeros, ← Nat.ofDigitChars_append, ← hn]
    exact Nat.ofDigitChars_toDigits (by decide) (by decide)
  have hlen : (natDigits k).length = (dropTrailingZeros (natDigits k)).length + n := by
    conv_lhs => rw [hn]
    simp
  have hexp : unit + ((natDigits k).length : Int) - (dropTrailingZeros (natDigits k)).length =
      n + unit := by
    rw [hlen]
    push_cast
    ring
  unfold Digits.value
  rw [hexp, zpow_add₀ (by norm_num), zpow_natCast, ← mul_assoc]
  congr 1
  exact_mod_cast hk

theorem isDigit_dropTrailingZeros {c : Char} (hc : c ∈ dropTrailingZeros (natDigits k)) :
    c.isDigit = true := by
  apply Nat.isDigit_of_mem_toDigits (b := 10) (n := k) (by decide) (by decide)
  obtain ⟨n, hn⟩ := dropTrailingZeros_append (natDigits k)
  change c ∈ natDigits k
  rw [hn]
  exact List.mem_append_left _ hc

theorem shortestDigits_admits (tie : Tie) (hx : (x == 0) = false) :
    (∀ c ∈ (shortestDigits tie x).digits, c.isDigit = true) ∧
      (Rounding.ofBinary (Binary.ofFloat x)).Admits (shortestDigits tie x).value := by
  have hb := Binary.ofFloat_positive hx
  unfold shortestDigits
  simp only
  generalize Binary.ofFloat x = b at hb ⊢
  generalize hpoint : (Rounding.ofBinary b).magnitude _ = point
  have hlog : (2 : ℚ) ^ (((b.mantissa.log2 : Int) + 1 + b.exponent) - 1) ≤ b.magnitude := by
    have hself : ((2 ^ b.mantissa.log2 : Nat) : ℚ) ≤ b.mantissa := by
      exact_mod_cast Nat.log2_self_le hb.pos.ne'
    rw [show (b.mantissa.log2 : Int) + 1 + b.exponent - 1 = b.mantissa.log2 + b.exponent by ring,
      zpow_add₀ (by norm_num), zpow_natCast, Binary.magnitude]
    push_cast at hself
    exact mul_le_mul_of_nonneg_right hself (by positivity)
  have htop : (10 : ℚ) ^ (point - 1) ≤ b.magnitude := by
    rw [← value_ofBinary, ← hpoint]
    apply magnitude_le (denominator_pos b)
    rw [value_ofBinary]
    apply le_trans _ hlog
    apply ten_zpow_le_two_zpow (p := 1233) (q := 4096) (by decide) (by decide +kernel)
      (by decide +kernel)
    have := hb.least
    omega
  have hgrid : ((Rounding.ofBinary b).atUnit tie (point - (17 : Nat))).isSome = true := by
    apply atUnit_ofBinary_isSome hb
    have hunit : (10 : ℚ) ^ (point - (17 : Nat)) * 10 ^ 16 = 10 ^ (point - 1) := by
      rw [show ((10 : ℚ) ^ 16) = 10 ^ (16 : Int) from rfl, ← zpow_add₀ (by norm_num)]
      congr 1
      push_cast
      ring
    rw [hunit]
    exact htop
  have hfound := search_isSome (by decide : 1 ≤ 17) (by decide : 17 < 1 + 17) hgrid
  split
  · rename_i k unit hsearch
    refine ⟨fun c hc => isDigit_dropTrailingZeros hc, ?_⟩
    rw [value_dropTrailingZeros]
    exact search_admits hsearch
  · rename_i hsearch
    rw [hsearch] at hfound
    cases hfound

/-! ### Texts -/

/-- The decimal that a text with at most one point spells. -/
def decimalValue (cs : List Char) : ℚ :=
  let whole := cs.takeWhile (· != '.')
  let fraction := (cs.dropWhile (· != '.')).tail
  Nat.ofDigitChars 10 (whole ++ fraction) 0 / 10 ^ fraction.length

theorem digit_ne_point (h : ∀ c ∈ cs, c.isDigit = true) : ∀ c ∈ cs, (c != '.') = true := by
  intro c hc
  have hdigit := h c hc
  rw [bne_iff_ne]
  rintro rfl
  cases hdigit

theorem decimalValue_whole (h : ∀ c ∈ cs, c.isDigit = true) :
    decimalValue cs = Nat.ofDigitChars 10 cs 0 := by
  have hwhole := List.takeWhile_eq_self_iff.2 (digit_ne_point h)
  have hrest := List.dropWhile_eq_nil_iff.2 (digit_ne_point h)
  simp [decimalValue, hwhole, hrest]

theorem decimalValue_point {ds : List Char} (h : ∀ c ∈ cs, c.isDigit = true) :
    decimalValue (cs ++ '.' :: ds) = Nat.ofDigitChars 10 (cs ++ ds) 0 / 10 ^ ds.length := by
  unfold decimalValue
  rw [List.takeWhile_append_of_pos (digit_ne_point h),
    List.dropWhile_append_of_pos (digit_ne_point h)]
  simp

theorem positional_eq (d : Digits) : d.positional =
    if d.point ≤ 0 then ['0'] ++ '.' :: (List.replicate (-d.point).toNat '0' ++ d.digits)
    else if d.digits.length ≤ d.point.toNat then
      d.digits ++ List.replicate (d.point.toNat - d.digits.length) '0'
    else d.digits.take d.point.toNat ++ '.' :: d.digits.drop d.point.toNat := rfl

/-- The layout of digits around a point spells their value. -/
theorem value_positional (h : ∀ c ∈ d.digits, c.isDigit = true) :
    decimalValue d.positional = d.value := by
  rw [positional_eq, Digits.value]
  split
  · rename_i hpoint
    have hzeros : Nat.ofDigitChars 10 (List.replicate (-d.point).toNat '0') 0 = 0 := by
      rw [ofDigitChars_zeros, Nat.zero_mul]
    have hexp : d.point - d.digits.length = -(((-d.point).toNat + d.digits.length : Nat) : Int) := by
      omega
    rw [decimalValue_point (by simp), hexp, zpow_neg, zpow_natCast, ← div_eq_mul_inv]
    simp [Nat.ofDigitChars_cons, Nat.ofDigitChars_append, hzeros]
  · rename_i hpoint
    split
    · rename_i hlen
      have hdigits : ∀ c ∈ d.digits ++ List.replicate (d.point.toNat - d.digits.length) '0',
          c.isDigit = true := by
        intro c hc
        rcases List.mem_append.1 hc with hc | hc
        · exact h c hc
        · rw [List.eq_of_mem_replicate hc]
          rfl
      have hexp : d.point - d.digits.length = ((d.point.toNat - d.digits.length : Nat) : Int) := by
        omega
      rw [decimalValue_whole hdigits, Nat.ofDigitChars_append, ofDigitChars_zeros, hexp, zpow_natCast]
      push_cast
      rfl
    · rename_i hlen
      have hexp : d.point - d.digits.length = -((d.digits.length - d.point.toNat : Nat) : Int) := by
        omega
      rw [decimalValue_point (fun c hc => h c (List.mem_of_mem_take hc)), List.take_append_drop,
        List.length_drop, hexp, zpow_neg, zpow_natCast, div_eq_mul_inv]

theorem positional_ne_minus (h : ∀ c ∈ d.digits, c.isDigit = true) : '-' ∉ d.positional := by
  have hdigits : '-' ∉ d.digits := fun hc => Bool.noConfusion (h '-' hc)
  rw [positional_eq]
  split
  · simp [hdigits]
  · split
    · simp [hdigits]
    · simp only [List.mem_append, List.mem_cons, not_or]
      exact ⟨fun hc => hdigits (List.mem_of_mem_take hc), by decide,
        fun hc => hdigits (List.mem_of_mem_drop hc)⟩

theorem conversionText?_eq (h : conversionText? x = some s) (hx : (x == 0) = false) :
    s = String.ofList (if (Binary.ofFloat x).negative
      then '-' :: (shortestDigits .up x).positional else (shortestDigits .up x).positional) := by
  unfold conversionText? at h
  split at h
  · cases h
  · rename_i hfinite
    rw [Bool.or_eq_true, not_or] at hfinite
    rw [if_neg (by simp [hx])] at h
    split at h
    · cases h
    · cases h
      unfold positional
      rw [if_neg hfinite.1, if_neg hfinite.2, if_neg (by simp [hx])]
      rfl

theorem conversionText?_zero (h : conversionText? x = some s) (hx : (x == 0) = true) : s = "0" := by
  unfold conversionText? at h
  split at h
  · cases h
  · cases h
    rfl

theorem not_nan_of_conversionText? (h : conversionText? x = some s) : x.isNaN = false := by
  cases hnan : x.isNaN with
  | false => rfl
  | true => simp only [conversionText?, hnan, Bool.true_or, if_true, reduceCtorEq] at h

/-! ### Equality -/

theorem beq_iff : (x == y) = true ↔
    (x = y ∧ x.isNaN = false) ∨ ((x == 0) = true ∧ (y == 0) = true) := by
  have hzero : (0 : Float) ≠ Float.nan := by decide
  have hminus : (-0 : Float) ≠ Float.nan := by decide
  simp only [Float.beq_iff_ne_nan_and_eq, Float.isNaN_eq_decide_eq_nan, decide_eq_false_iff_not]
  grind

theorem conversionText?_ne_zero (hx : (x == 0) = false) : conversionText? x ≠ some "0" := by
  intro h
  have hb := Binary.ofFloat_positive hx
  obtain ⟨hdigits, hin⟩ := shortestDigits_admits .up hx
  have hchars : ['0'] = if (Binary.ofFloat x).negative
      then '-' :: (shortestDigits .up x).positional else (shortestDigits .up x).positional :=
    String.ofList_injective (conversionText?_eq h hx)
  split at hchars
  · cases hchars
  · rw [← value_positional hdigits, ← hchars] at hin
    have hlow := (admits_bounds hb hin).1
    rw [decimalValue_whole (by simp)] at hlow
    have hm : (1 : ℚ) ≤ (Binary.ofFloat x).mantissa := by exact_mod_cast hb.pos
    have hgap := (lowerGap_bounds (Binary.ofFloat x)).2
    have hpos : 0 < (4 * (Binary.ofFloat x).mantissa - lowerGap (Binary.ofFloat x)) *
        (2 : ℚ) ^ ((Binary.ofFloat x).exponent - 2) := mul_pos (by linarith) (by positivity)
    norm_num [Nat.ofDigitChars] at hlow
    linarith

theorem eq_of_conversionText? (hx : conversionText? x = some s) (hy : conversionText? y = some s)
    (hx0 : (x == 0) = false) (hy0 : (y == 0) = false) : x = y := by
  obtain ⟨hdx, hinx⟩ := shortestDigits_admits .up hx0
  obtain ⟨hdy, hiny⟩ := shortestDigits_admits .up hy0
  have htexts := String.ofList_injective
    ((conversionText?_eq hx hx0).symm.trans (conversionText?_eq hy hy0))
  have hminus := positional_ne_minus hdx
  have hminus' := positional_ne_minus hdy
  -- the texts agree in the sign, as no digits start with one
  have hsame : (Binary.ofFloat x).negative = (Binary.ofFloat y).negative ∧
      (shortestDigits .up x).positional = (shortestDigits .up y).positional := by
    cases hsx : (Binary.ofFloat x).negative <;> cases hsy : (Binary.ofFloat y).negative <;>
      simp only [hsx, hsy, if_true, Bool.false_eq_true, if_false] at htexts
    · exact ⟨rfl, htexts⟩
    · rw [htexts] at hminus
      simp at hminus
    · rw [← htexts] at hminus'
      simp at hminus'
    · exact ⟨rfl, List.tail_eq_of_cons_eq htexts⟩
  rw [← value_positional hdx, hsame.2, value_positional hdy] at hinx
  obtain ⟨hm, he⟩ := admits_unique (Binary.ofFloat_positive hx0) (Binary.ofFloat_positive hy0)
    hinx hiny
  apply Binary.ofFloat_inj
  cases hbx : Binary.ofFloat x
  cases hby : Binary.ofFloat y
  simp_all

/-- **Numbers are equal exactly if they convert to the same string**, where they have one. -/
theorem conversionText?_eq_iff {t : String} (hx : conversionText? x = some s)
    (hy : conversionText? y = some t) : s = t ↔ (x == y) = true := by
  rw [beq_iff]
  constructor
  · rintro rfl
    cases hx0 : x == 0 <;> cases hy0 : y == 0
    · exact .inl ⟨eq_of_conversionText? hx hy hx0 hy0, not_nan_of_conversionText? hx⟩
    · obtain rfl := conversionText?_zero hy hy0
      exact absurd hx (conversionText?_ne_zero hx0)
    · obtain rfl := conversionText?_zero hx hx0
      exact absurd hy (conversionText?_ne_zero hy0)
    · exact .inr ⟨rfl, rfl⟩
  · rintro (⟨rfl, -⟩ | ⟨hx0, hy0⟩)
    · exact Option.some_inj.1 (hx.symm.trans hy)
    · rw [conversionText?_zero hx hx0, conversionText?_zero hy hy0]

end Number

end Untangle

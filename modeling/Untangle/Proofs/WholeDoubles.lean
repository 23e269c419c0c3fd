import Untangle.Proofs.DoubleArithmetic

/-!
# Counting with doubles

Whole numbers up to `2 ^ 53` are doubles, and one more or one less of them is exact. A loop that
counts with doubles in that range counts as one that counts with numbers does.

* `wholeMagnitude_ofNat`, `isWhole_ofNat` — the number is found again.

Every operation rounds a mantissa at an exponent. `roundWithAccuracy_exact` is the one fact about
rounding: nothing is lost of a mantissa that has 53 bits and zeros after them.
-/

namespace Untangle.Number

open Float.Model Float.Model.UnpackedFloat

/-! ### Rounding what needs no rounding -/

theorem shiftRight_exact (m j : Nat) :
    (⟨m * 2 ^ j, false, false⟩ : ExtendedMantissa) >>> j = ⟨m, false, false⟩ := by
  show j.repeat ExtendedMantissa.shiftRightOne _ = _
  induction j generalizing m with
  | zero => simp [Nat.repeat]
  | succ j ih =>
    rw [Nat.repeat, Nat.pow_succ', ← Nat.mul_assoc, ih]
    simp [ExtendedMantissa.shiftRightOne]

variable {m k : Nat} {e : Int}

theorem log2_mul_two_pow (hlo : 2 ^ 52 ≤ m) (hhi : m < 2 ^ 53) (j : Nat) :
    (m * 2 ^ j).log2 = 52 + j := by
  have hpos : m * 2 ^ j ≠ 0 := Nat.mul_ne_zero (by omega) (Nat.two_pow_pos j).ne'
  refine (Nat.log2_eq_iff hpos).2 ⟨?_, ?_⟩
  · rw [Nat.pow_add]
    exact Nat.mul_le_mul_right _ hlo
  · rw [Nat.add_right_comm, Nat.pow_add]
    exact Nat.mul_lt_mul_of_pos_right hhi (Nat.two_pow_pos j)

theorem targetExponent_exact (hlo : 2 ^ 52 ≤ m) (hhi : m < 2 ^ 53) (he : -1074 ≤ e) (j : Nat) :
    Format.binary64.targetExponent (totalExponent (m * 2 ^ j) (e - j)) = e := by
  simp only [Format.targetExponent, totalExponent, log2_mul_two_pow hlo hhi, Format.mantissaBits,
    Format.minExponent]
  omega

theorem roundWithAccuracy_exact (s : Sign) (hlo : 2 ^ 52 ≤ m) (hhi : m < 2 ^ 53) (he : -1074 ≤ e)
    (j : Nat) :
    roundWithAccuracy Format.binary64 s (m * 2 ^ j) (e - j) .exact =
      .finite s m e (by omega) := by
  have hfirst : shiftToTargetExponent Format.binary64 (m * 2 ^ j) (e - j) .exact =
      (⟨m, false, false⟩, e) := by
    have hj : (e - (e - j)).toNat = j := by omega
    simp only [shiftToTargetExponent, targetExponent_exact hlo hhi he, shiftToExponent, hj,
      ExtendedMantissa.ofMantissaAndAccuracy, shiftRight_exact]
    exact Prod.ext rfl (by omega)
  have hsecond : shiftToTargetExponent Format.binary64 m e .exact = (⟨m, false, false⟩, e) := by
    have htarget : Format.binary64.targetExponent (totalExponent m e) = e := by
      simpa using targetExponent_exact hlo hhi he 0
    simp only [shiftToTargetExponent, htarget, shiftToExponent, Int.sub_self,
      ExtendedMantissa.ofMantissaAndAccuracy]
    exact Prod.ext rfl (by simp)
  have hround : ExtendedMantissa.roundedMantissa ⟨m, false, false⟩ = m := rfl
  simp only [roundWithAccuracy, hfirst, hround, hsecond]
  rw [dif_neg (by omega)]

/-! ### Whole numbers -/

/-- The 53 bits of a number that is not zero, from the first one on. -/
def leading (k : Nat) : Nat := k * 2 ^ 52 / 2 ^ k.log2

theorem leading_spec (hpos : k ≠ 0) (hk : k ≤ 2 ^ 53) :
    leading k * 2 ^ k.log2 = k * 2 ^ 52 ∧ 2 ^ 52 ≤ leading k ∧ leading k < 2 ^ 53 := by
  have hlo : 2 ^ k.log2 ≤ k := Nat.log2_self_le hpos
  have hhi : k < 2 ^ (k.log2 + 1) := Nat.lt_log2_self
  have hdvd : 2 ^ k.log2 ∣ k * 2 ^ 52 := by
    by_cases hlog : k.log2 ≤ 52
    · exact Dvd.dvd.mul_left (Nat.pow_dvd_pow 2 hlog) k
    · -- only the last of them has more than 53 bits
      have h53 : 53 ≤ k.log2 := by omega
      have hle : 2 ^ 53 ≤ k := (Nat.pow_le_pow_right (by decide) h53).trans hlo
      obtain rfl : k = 2 ^ 53 := by omega
      rw [Nat.log2_two_pow]
      exact Dvd.intro _ rfl
  have heq : leading k * 2 ^ k.log2 = k * 2 ^ 52 := Nat.div_mul_cancel hdvd
  refine ⟨heq, ?_, ?_⟩
  · refine Nat.le_of_mul_le_mul_right ?_ (Nat.two_pow_pos k.log2)
    rw [heq, Nat.mul_comm]
    exact Nat.mul_le_mul_right _ hlo
  · refine Nat.lt_of_mul_lt_mul_right (a := 2 ^ k.log2) ?_
    have hlt := Nat.mul_lt_mul_of_pos_right hhi (Nat.two_pow_pos 52)
    rw [Nat.pow_succ] at hlt
    rw [heq]
    omega

theorem log2_le (hpos : k ≠ 0) (hk : k ≤ 2 ^ 53) : k.log2 ≤ 53 := by
  have hlt : k.log2 < 54 := (Nat.log2_lt hpos).2 (by omega)
  omega

def whole (k : Nat) : UnpackedFloat :=
  if h : 0 < leading k then .finite .positive (leading k) (k.log2 - 52) h else .zero .positive

theorem whole_pos (hpos : k ≠ 0) (hk : k ≤ 2 ^ 53) :
    whole k = .finite .positive (leading k) (k.log2 - 52)
      (by have := (leading_spec hpos hk).2.1; omega) := by
  have hlo := (leading_spec hpos hk).2.1
  rw [whole, dif_pos (by omega)]

theorem normalize_whole (hk : k ≤ 2 ^ 53) (hm : m = k * 2 ^ 52) :
    normalize Format.binary64 m (-52) .positive = whole k := by
  by_cases hpos : k = 0
  · rw [hm, hpos, Nat.zero_mul]
    rfl
  · obtain ⟨heq, hlo, hhi⟩ := leading_spec hpos hk
    rw [← hm] at heq
    have hcompare : compare (m : Int) 0 = .gt := compare_gt_iff_gt.2 (by omega)
    have htarget : Format.binary64.targetExponent (totalExponent m (-52)) = k.log2 - 52 := by
      have h := targetExponent_exact hlo hhi (e := k.log2 - 52) (by omega) k.log2
      rwa [heq, show (k.log2 : Int) - 52 - k.log2 = -52 by omega] at h
    have hshift : ((-52 : Int) - (k.log2 - 52)).toNat = 0 := by omega
    have hround := roundWithAccuracy_exact .positive hlo hhi (e := k.log2 - 52) (by omega) k.log2
    rw [heq, show (k.log2 : Int) - 52 - k.log2 = -52 by omega] at hround
    simp only [UnpackedFloat.normalize, hcompare, UnpackedFloat.round, Int.toNat_natCast, htarget,
      decreaseExponent, hshift, Nat.shiftLeft_zero, Nat.cast_zero, Int.sub_zero]
    rw [hround, whole_pos hpos hk]

theorem normalize_natCast (hk : k < 2 ^ 53) :
    normalize Format.binary64 (k : Int) 0 .positive = whole k := by
  by_cases hpos : k = 0
  · subst hpos
    rfl
  · obtain ⟨heq, hlo, hhi⟩ := leading_spec hpos hk.le
    have hlog : k.log2 < 53 := (Nat.log2_lt hpos).2 hk
    have hcompare : compare (k : Int) 0 = .gt := compare_gt_iff_gt.2 (by omega)
    have htarget : Format.binary64.targetExponent (totalExponent k 0) = k.log2 - 52 := by
      simp only [Format.targetExponent, totalExponent, Format.mantissaBits, Format.minExponent]
      omega
    have hshift : ((0 : Int) - (k.log2 - 52)).toNat = 52 - k.log2 := by omega
    have hfull : k <<< (52 - k.log2) = leading k * 2 ^ 0 := by
      refine Nat.eq_of_mul_eq_mul_right (Nat.two_pow_pos k.log2) ?_
      rw [Nat.shiftLeft_eq, Nat.mul_assoc, ← Nat.pow_add, Nat.sub_add_cancel (by omega),
        Nat.pow_zero, Nat.mul_one, heq]
    have hexp : (0 : Int) - ((52 - k.log2 : Nat) : Int) = (k.log2 : Int) - 52 - (0 : Nat) := by
      omega
    simp only [UnpackedFloat.normalize, hcompare, UnpackedFloat.round, Int.toNat_natCast, htarget, decreaseExponent, hshift,
      hfull, hexp]
    rw [roundWithAccuracy_exact .positive hlo hhi (by omega), whole_pos hpos hk.le]

/-- The exponent field and the fraction field of a whole number. -/
def wholeFields (k : Nat) : BitVec 11 × BitVec 52 :=
  if k = 0 then (0#11, 0#52) else (BitVec.ofNat 11 (k.log2 + 1023), BitVec.ofNat 52 (leading k))

theorem ofFields_whole (hk : k ≤ 2 ^ 53) :
    ofFields .positive (wholeFields k).1 (wholeFields k).2 = whole k := by
  by_cases hpos : k = 0
  · subst hpos
    rfl
  · obtain ⟨-, hlo, hhi⟩ := leading_spec hpos hk
    have hlog := log2_le hpos hk
    have hexp : (BitVec.ofNat 11 (k.log2 + 1023)).toNat = k.log2 + 1023 := by
      rw [BitVec.toNat_ofNat]
      omega
    have htop : BitVec.ofNat 11 (k.log2 + 1023) ≠ -1#11 := by
      intro h
      have h' : k.log2 + 1023 = 2047 := hexp.symm.trans (congrArg BitVec.toNat h)
      omega
    have hzero : BitVec.ofNat 11 (k.log2 + 1023) ≠ 0#11 := by
      intro h
      have h' : k.log2 + 1023 = 0 := hexp.symm.trans (congrArg BitVec.toNat h)
      omega
    have hfraction : (1#1 ++ BitVec.ofNat 52 (leading k)).toNat = leading k := by
      rw [toNat_one_append, BitVec.toNat_ofNat]
      omega
    rw [wholeFields, if_neg hpos, whole_pos hpos hk, ofFields, if_neg htop, if_neg hzero]
    have hbias : ((k.log2 + 1023 : Nat) : Int) - 1075 = k.log2 - 52 := by omega
    simp only [hfraction, hexp, hbias]

theorem unpack_pack_whole (hk : k ≤ 2 ^ 53) :
    UnpackedFloat.unpack Format.binary64 (UnpackedFloat.pack Format.binary64 (whole k)) =
      whole k := by
  rw [← ofFields_whole hk, unpack_pack_ofFields]

theorem mul_whole_one (hk : k ≤ 2 ^ 53) :
    UnpackedFloat.mul Format.binary64 (whole k) (whole 1) = whole k := by
  have hone : whole 1 = .finite .positive (2 ^ 52) (-52) (by decide) := rfl
  by_cases hpos : k = 0
  · subst hpos
    rfl
  · obtain ⟨-, hlo, hhi⟩ := leading_spec hpos hk
    rw [whole_pos hpos hk, hone]
    exact roundWithAccuracy_exact .positive hlo hhi (by omega) 52

/-- Whole numbers up to `2 ^ 53` are doubles. -/
theorem unpack_ofNat (hk : k ≤ 2 ^ 53) : (Float.ofNat k).toModel.unpack = whole k := by
  rcases Nat.lt_or_eq_of_le hk with hlt | rfl
  · have hword : k.toUInt64.toNat = k := UInt64.toNat_ofNat_of_lt' (by
      show k < 2 ^ 64
      omega)
    have hfloat : k.toUInt64.toFloat.toModel.unpack = whole k := by
      show UnpackedFloat.unpack Format.binary64 (UnpackedFloat.pack Format.binary64
        (normalize Format.binary64 (k.toUInt64.toNat : Int) 0 .positive)) = whole k
      rw [hword, normalize_natCast hlt, unpack_pack_whole hk]
    have hone : (Float.ofBits 0x3FF0000000000000).toModel.unpack = whole 1 := rfl
    have heq : Float.ofNat k = k.toUInt64.toFloat * Float.ofBits 0x3FF0000000000000 :=
      dif_pos ⟨hlt, by decide⟩
    rw [heq]
    show UnpackedFloat.unpack Format.binary64 (UnpackedFloat.pack Format.binary64
      (UnpackedFloat.mul Format.binary64 k.toUInt64.toFloat.toModel.unpack
        (Float.ofBits 0x3FF0000000000000).toModel.unpack)) = whole k
    rw [hfloat, hone, mul_whole_one hk, unpack_pack_whole hk]
  · rfl

/-! ### Counting -/

theorem decreaseExponent_whole (hpos : k ≠ 0) (hk : k ≤ 2 ^ 53) :
    (decreaseExponent (leading k) (k.log2 - 52) (-52)).1 = k * 2 ^ 52 := by
  have hshift : ((k.log2 : Int) - 52 - -52).toNat = k.log2 := by omega
  rw [decreaseExponent, hshift, Nat.shiftLeft_eq, (leading_spec hpos hk).1]

theorem decreaseExponent_one : (decreaseExponent (2 ^ 52) (-52) (-52)).1 = 2 ^ 52 := rfl

theorem whole_one : whole 1 = .finite .positive (2 ^ 52) (-52) (by decide) := rfl

theorem sub_whole_one (hk : k + 1 ≤ 2 ^ 53) :
    UnpackedFloat.sub Format.binary64 (whole (k + 1)) (whole 1) = whole k := by
  have hmin : min (((k + 1).log2 : Int) - 52) (-52) = -52 := by omega
  rw [whole_pos (Nat.succ_ne_zero k) hk, whole_one]
  simp only [UnpackedFloat.sub, hmin, decreaseExponent_whole (Nat.succ_ne_zero k) hk,
    decreaseExponent_one, Sign.apply]
  have hdiff : (((k + 1) * 2 ^ 52 : Nat) : Int) - ((2 ^ 52 : Nat) : Int) = (k * 2 ^ 52 : Nat) := by
    omega
  rw [hdiff]
  exact normalize_whole (by omega) rfl

theorem add_whole_one (hk : k + 1 ≤ 2 ^ 53) :
    UnpackedFloat.add Format.binary64 (whole k) (whole 1) = whole (k + 1) := by
  by_cases hpos : k = 0
  · subst hpos
    rfl
  · have hmin : min ((k.log2 : Int) - 52) (-52) = -52 := by omega
    rw [whole_pos hpos (by omega), whole_one]
    simp only [UnpackedFloat.add, hmin, decreaseExponent_whole hpos (by omega : k ≤ 2 ^ 53),
      decreaseExponent_one, Sign.apply]
    have hsum : ((k * 2 ^ 52 : Nat) : Int) + ((2 ^ 52 : Nat) : Int) = ((k + 1) * 2 ^ 52 : Nat) := by
      omega
    rw [hsum]
    exact normalize_whole hk rfl

theorem eq_of_pack {x : Float} {u : UnpackedFloat} (h : x.toModel.unpack = u) :
    Float.ofModel (.pack u) = x := by
  rw [← h, pack_unpack]

theorem unpack_one : (1 : Float).toModel.unpack = whole 1 := unpack_ofNat (by decide)

theorem ofNat_sub_one (hk : k + 1 ≤ 2 ^ 53) : Float.ofNat (k + 1) - 1 = Float.ofNat k := by
  show Float.ofModel (.pack (UnpackedFloat.sub Format.binary64 (Float.ofNat (k + 1)).toModel.unpack
    (1 : Float).toModel.unpack)) = _
  rw [unpack_ofNat hk, unpack_one, sub_whole_one hk]
  exact eq_of_pack (unpack_ofNat (by omega))

theorem ofNat_add_one (hk : k + 1 ≤ 2 ^ 53) : Float.ofNat k + 1 = Float.ofNat (k + 1) := by
  show Float.ofModel (.pack (UnpackedFloat.add Format.binary64 (Float.ofNat k).toModel.unpack
    (1 : Float).toModel.unpack)) = _
  rw [unpack_ofNat (by omega), unpack_one, add_whole_one hk]
  exact eq_of_pack (unpack_ofNat hk)

/-! ### What is told of whole numbers -/

theorem ofNat_not_lt_zero (hk : k ≤ 2 ^ 53) : ¬Float.ofNat k < 0 := by
  have hzero : (0 : Float).toModel.unpack = .zero .positive := rfl
  show ¬(decide (UnpackedFloat.lt (Float.ofNat k).toModel.unpack (0 : Float).toModel.unpack) = true)
  rw [unpack_ofNat hk, hzero]
  by_cases hpos : k = 0
  · subst hpos
    decide
  · rw [whole_pos hpos hk]
    exact Bool.false_ne_true

theorem isFinite_ofNat (hk : k ≤ 2 ^ 53) : (Float.ofNat k).isFinite = true := by
  show (Float.ofNat k).toModel.unpack.isFinite = true
  rw [unpack_ofNat hk, whole]
  split <;> rfl

/-- The test of a counting loop fails at zero and nowhere else. -/
theorem toBoolean_ofNat (hk : k ≤ 2 ^ 53) :
    (Float.ofNat k != 0 && !(Float.ofNat k).isNaN) = decide (k ≠ 0) := by
  have hzero : (0 : Float).toModel.unpack = .zero .positive := rfl
  have hbeq : (Float.ofNat k == 0) = UnpackedFloat.beq (whole k) (.zero .positive) := by
    rw [← unpack_ofNat hk, ← hzero]
    rfl
  have hnan : (Float.ofNat k).isNaN = (whole k).isNaN := by
    rw [← unpack_ofNat hk]
    rfl
  rw [bne, hbeq, hnan]
  by_cases hpos : k = 0
  · subst hpos
    rfl
  · rw [whole_pos hpos hk, decide_eq_true hpos]
    rfl

theorem toNat_packComponents (e : BitVec 11) (m : BitVec 52) :
    (packComponents Format.binary64 .positive e m).toNat = e.toNat * 2 ^ 52 + m.toNat := by
  have hm := m.isLt
  show ((0#1 ++ e) ++ m).toNat = _
  rw [BitVec.toNat_append, ← Nat.shiftLeft_add_eq_or_of_lt hm, Nat.shiftLeft_eq,
    BitVec.toNat_append, BitVec.toNat_ofNat, Nat.zero_mod, Nat.zero_shiftLeft, Nat.zero_or]

theorem toBits_ofNat (hk : k ≤ 2 ^ 53) : (Float.ofNat k).toBits.toNat =
    (wholeFields k).1.toNat * 2 ^ 52 + (wholeFields k).2.toNat := by
  have htop : (wholeFields k).1 = -1#11 → (wholeFields k).2 = 0#52 := by
    intro h
    by_cases hpos : k = 0
    · rw [hpos]
      rfl
    · have hlog := log2_le hpos hk
      rw [wholeFields, if_neg hpos] at h
      have hexp := congrArg BitVec.toNat h
      rw [BitVec.toNat_ofNat, show (-1#11).toNat = 2047 from rfl] at hexp
      omega
  rw [← eq_of_pack (unpack_ofNat hk), ← ofFields_whole hk, ← toNat_packComponents,
    ← pack_ofFields htop]
  rfl

theorem ofFloat_ofNat (hpos : k ≠ 0) (hk : k ≤ 2 ^ 53) : Binary.ofFloat (Float.ofNat k) =
    { negative := false, mantissa := leading k, exponent := k.log2 - 52 } := by
  obtain ⟨-, hlo, hhi⟩ := leading_spec hpos hk
  have hlog := log2_le hpos hk
  have hbits := toBits_ofNat hk
  simp only [wholeFields, if_neg hpos, BitVec.toNat_ofNat] at hbits
  have hfield : (Float.ofNat k).toBits.toNat / Nat.pow 2 52 % Nat.pow 2 11 = k.log2 + 1023 := by
    simp only [Nat.pow_eq]
    omega
  have hfraction : (Float.ofNat k).toBits.toNat % Nat.pow 2 52 = leading k - 2 ^ 52 := by
    simp only [Nat.pow_eq]
    omega
  have hsign : ¬Nat.pow 2 63 ≤ (Float.ofNat k).toBits.toNat := by
    simp only [Nat.pow_eq]
    omega
  simp only [Binary.ofFloat, hfield, hfraction, decide_eq_false hsign, Nat.pow_eq]
  rw [if_neg (by omega), if_neg (by omega), Binary.mk.injEq]
  exact ⟨rfl, by omega, by omega⟩

/-- Only whole numbers up to `2 ^ 52` are written with zeros that are no part of them. -/
theorem leading_eq (hpos : k ≠ 0) (hk : k ≤ 2 ^ 53) (hlog : k.log2 ≤ 52) :
    leading k = k * 2 ^ (52 - k.log2) := by
  refine Nat.eq_of_mul_eq_mul_right (Nat.two_pow_pos k.log2) ?_
  rw [(leading_spec hpos hk).1, Nat.mul_assoc, ← Nat.pow_add, Nat.sub_add_cancel hlog]

theorem wholeMagnitude_ofNat (hk : k < 2 ^ 53) : wholeMagnitude (Float.ofNat k) = k := by
  by_cases hpos : k = 0
  · subst hpos
    decide +kernel
  · have hlog : k.log2 < 53 := (Nat.log2_lt hpos).2 hk
    simp only [wholeMagnitude, ofFloat_ofNat hpos hk.le, leading_eq hpos hk.le (by omega),
      Nat.pow_eq]
    split
    · rw [show 52 - k.log2 = 0 by omega, show ((k.log2 : Int) - 52).toNat = 0 by omega]
      simp
    · rw [show (-((k.log2 : Int) - 52)).toNat = 52 - k.log2 by omega]
      exact Nat.mul_div_cancel _ (Nat.two_pow_pos _)

theorem isWhole_ofNat (hk : k < 2 ^ 53) : isWhole (Float.ofNat k) = true := by
  by_cases hpos : k = 0
  · subst hpos
    decide +kernel
  · have hlog : k.log2 < 53 := (Nat.log2_lt hpos).2 hk
    simp only [isWhole, isFinite_ofNat hk.le, ofFloat_ofNat hpos hk.le,
      leading_eq hpos hk.le (by omega), Nat.pow_eq, Bool.true_and]
    rw [show (-((k.log2 : Int) - 52)).toNat = 52 - k.log2 by omega, Nat.mul_mod_left]
    exact Bool.or_true _

end Untangle.Number

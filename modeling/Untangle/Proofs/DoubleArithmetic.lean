import Mathlib
import Untangle.Number.Binary

/-!
# Arithmetic of doubles

Two laws of subtraction that hold for every double, infinities, not-a-number and both zeros
included: taking away zero changes nothing, and taking away a negated number adds it.

A double is its sign, its exponent field and its fraction field. `ofFields` reads the three as a
number; `pack_ofFields` writes it back. Both laws hold of the numbers by cases, and pass to doubles
because reading and writing undo each other.

* `Number.sub_zero`, `Number.sub_neg`
-/

namespace Untangle.Number

open Float.Model Float.Model.UnpackedFloat

theorem toNat_one_append (m : BitVec 52) : (1#1 ++ m).toNat = 2 ^ 52 + m.toNat := by
  have hm := m.isLt
  rw [BitVec.toNat_append, ← Nat.shiftLeft_add_eq_or_of_lt hm]
  rfl

/-- The number with this sign, exponent field and fraction field. -/
def ofFields (s : Sign) (e : BitVec 11) (m : BitVec 52) : UnpackedFloat :=
  if e = -1#11 then
    if m = 0#52 then .infinity s else .notANumber
  else if e = 0#11 then
    if h : m = 0#52 then .zero s
    else .finite s m.toNat ((e.toNat : Int) - 1075 + 1)
      (by simpa [BitVec.toNat_pos, BitVec.pos_iff_ne_zero])
  else .finite s (1#1 ++ m).toNat ((e.toNat : Int) - 1075)
      (by rw [toNat_one_append]; omega)

theorem unpack_eq_ofFields (b : BitVec Format.binary64.numBits) :
    UnpackedFloat.unpack Format.binary64 b =
      ofFields (.ofBitVec (unpackSign b)) (unpackExponent b) (unpackMantissa b) := rfl

theorem neg_ofFields (s : Sign) (e : BitVec 11) (m : BitVec 52) :
    (ofFields s e m).neg = ofFields (-s) e m := by
  unfold ofFields
  split
  · split <;> rfl
  · split
    · split <;> rfl
    · rfl

/-! ### Writing and reading -/

theorem log2_of_subnormal {n : Nat} (hn : n ≠ 0) (h : n < 2 ^ 52) : n.log2 + 1 ≠ 53 := by
  have : n.log2 < 52 := (Nat.log2_lt hn).mpr h
  omega

theorem log2_of_normal {n : Nat} (hlo : 2 ^ 52 ≤ n) (hhi : n < 2 ^ 53) : n.log2 + 1 = 53 := by
  have hn : n ≠ 0 := by omega
  have hle : 52 ≤ n.log2 := (Nat.le_log2 hn).mpr hlo
  have hlt : n.log2 < 53 := (Nat.log2_lt hn).mpr hhi
  omega

theorem pack_finite (s : Sign) {n : Nat} (x : Int) (hn : 0 < n) :
    UnpackedFloat.pack Format.binary64 (.finite s n x hn) =
      if 2 ^ 11 ≤ (x + 1075).toNat + 1 then packedInfinity Format.binary64 s
      else if n.log2 + 1 = 53 then
        packComponents Format.binary64 s (BitVec.ofNat 11 (x + 1075).toNat) (BitVec.ofNat 52 n)
      else packComponents Format.binary64 s 0#11 (BitVec.ofNat 52 n) := by
  have hx : x + 1075 = x + (1023 : Nat) + (52 : Nat) := by omega
  rw [hx]
  rfl

/-- Every number that the fields can mean is written as those fields, but for not-a-number, which is
written in one way only. -/
theorem pack_ofFields {s : Sign} {e : BitVec 11} {m : BitVec 52}
    (h : e = -1#11 → m = 0#52) :
    UnpackedFloat.pack Format.binary64 (ofFields s e m) =
      packComponents Format.binary64 s e m := by
  have he := e.isLt
  have hm := m.isLt
  unfold ofFields
  split
  case isTrue htop =>
    rw [if_pos (h htop), htop, h htop]
    rfl
  case isFalse htop =>
    have htop' : e.toNat ≠ 2047 := fun hc => htop (BitVec.toNat_inj.mp hc)
    split
    case isTrue hzero =>
      split
      case isTrue hm0 =>
        rw [hzero, hm0]
        rfl
      case isFalse hm0 =>
        have hne : m.toNat ≠ 0 := fun hc => hm0 (BitVec.toNat_inj.mp hc)
        have hbias : ((e.toNat : Int) - 1075 + 1 + 1075).toNat = 1 := by
          rw [hzero]
          rfl
        rw [pack_finite, hbias, if_neg (by decide), if_neg (log2_of_subnormal hne hm), hzero,
          BitVec.ofNat_toNat, BitVec.setWidth_eq]
    case isFalse hzero =>
      have hbias : ((e.toNat : Int) - 1075 + 1075).toNat = e.toNat := by omega
      have hlog : (1#1 ++ m).toNat.log2 + 1 = 53 := by
        rw [toNat_one_append]
        exact log2_of_normal (by omega) (by omega)
      have hm' : BitVec.ofNat 52 (1#1 ++ m).toNat = m := by
        rw [← BitVec.toNat_inj, BitVec.toNat_ofNat, toNat_one_append]
        omega
      rw [pack_finite, hbias, if_neg (by omega), if_pos hlog, hm', BitVec.ofNat_toNat,
        BitVec.setWidth_eq]

theorem pack_unpack (x : Float.Model) : Float.Model.pack x.unpack = x := by
  obtain ⟨bits, valid⟩ := x
  simp only [Float.Model.pack, Float.Model.unpack, pack_unpack_of_valid valid]

theorem unpack_pack_ofFields (s : Sign) (e : BitVec 11) (m : BitVec 52) :
    UnpackedFloat.unpack Format.binary64 (UnpackedFloat.pack Format.binary64 (ofFields s e m)) =
      ofFields s e m := by
  by_cases h : e = -1#11 → m = 0#52
  · rw [pack_ofFields h, unpack_eq_ofFields, unpackSign_packComponents, Sign.ofBitVec_toBitVec,
      unpackExponent_packComponents, unpackMantissa_packComponents]
  · obtain ⟨he, hm⟩ := Classical.not_imp.mp h
    have hnan : ofFields s e m = .notANumber := by
      rw [ofFields, if_pos he, if_neg hm]
    rw [hnan]
    rfl

theorem unpack_neg (x : Float) : (-x).toModel.unpack = x.toModel.unpack.neg := by
  have hx : x.toModel.unpack = ofFields _ _ _ := unpack_eq_ofFields x.toModel.toBits.toBitVec
  show UnpackedFloat.unpack _ (UnpackedFloat.pack _ x.toModel.unpack.neg) = _
  rw [hx, neg_ofFields, unpack_pack_ofFields]

/-! ### Subtraction -/

theorem unpacked_sub_zero (u : UnpackedFloat) :
    UnpackedFloat.sub Format.binary64 u (.zero .positive) = u := by
  cases u with
  | zero s => cases s <;> rfl
  | _ => rfl

theorem unpacked_sub_neg (u v : UnpackedFloat) :
    UnpackedFloat.sub Format.binary64 u v.neg = UnpackedFloat.add Format.binary64 u v := by
  have hsign (s : Sign) : - -s = s := by cases s <;> rfl
  have happly (s : Sign) (n : Int) : (-s).apply n = -s.apply n := by
    cases s
    · exact (Int.neg_neg n).symm
    · rfl
  cases u <;> cases v
  all_goals
    simp only [UnpackedFloat.neg, UnpackedFloat.sub, UnpackedFloat.add, hsign, happly, Int.sub_neg]

theorem sub_zero (x : Float) : x - 0 = x := by
  have hzero : (0 : Float).toModel.unpack = .zero .positive := rfl
  show Float.ofModel (.pack (UnpackedFloat.sub _ x.toModel.unpack (0 : Float).toModel.unpack)) = x
  rw [hzero, unpacked_sub_zero, pack_unpack]

theorem sub_neg (x y : Float) : x - -y = x + y := by
  show Float.ofModel (.pack (UnpackedFloat.sub _ x.toModel.unpack (-y).toModel.unpack)) =
    Float.ofModel (.pack (UnpackedFloat.add _ x.toModel.unpack y.toModel.unpack))
  rw [unpack_neg, unpacked_sub_neg]

end Untangle.Number

import Untangle.Source.Fingerprint

/-!
# Sources told apart by their fingerprints

Mixing a unit in can be undone, as 33 has an inverse modulo `2^32`, so what is put in front of two
sources keeps equal fingerprints equal and different ones different.

* `fingerprintUnits_append_inj` — the same units in front make no difference.
-/

namespace Untangle

theorem mixUnit_inj_acc {u : UInt16} {a b : UInt32} : mixUnit u a = mixUnit u b ↔ a = b := by
  constructor
  · intro h
    have hmul : a * 33 = b * 33 := (UInt32.xor_left_inj _).1 h
    have hinverse (c : UInt32) : c * 33 * 1041204193 = c := by
      rw [UInt32.mul_assoc]
      exact UInt32.mul_one c
    rw [← hinverse a, hmul, hinverse]
  · rintro rfl
    rfl

theorem mixUnit_inj_unit {u v : UInt16} {a : UInt32} : mixUnit u a = mixUnit v a ↔ u = v := by
  rw [mixUnit, mixUnit, UInt32.xor_right_inj, UInt16.toUInt32_inj]

/-- A unit moves the seed: the two differ in the upper half, which no unit reaches. -/
theorem mixUnit_seed_ne (u : UInt16) : mixUnit u fingerprintSeed ≠ fingerprintSeed := by
  intro h
  have hunit : u.toUInt32 = fingerprintSeed * 33 ^^^ fingerprintSeed := by
    rw [← UInt32.xor_right_inj (fingerprintSeed * 33), ← UInt32.xor_assoc, UInt32.xor_self,
      UInt32.zero_xor]
    exact h
  have hlt : u.toUInt32.toNat < 2 ^ 16 := u.toNat_lt
  rw [hunit] at hlt
  exact absurd hlt (by decide)

/-- The same units in front of two sources keep their fingerprints equal or different. -/
theorem fingerprintUnits_append_inj (p : Units) {a b : Units} :
    fingerprintUnits (p ++ a) = fingerprintUnits (p ++ b) ↔
      fingerprintUnits a = fingerprintUnits b := by
  induction p with
  | nil => rfl
  | cons u p ih => exact mixUnit_inj_acc.trans ih

/-- A unit that is replaced at any place, or appended, changes the fingerprint, and units in front
neither make nor undo a difference. -/
theorem fingerprintUnits_separates (s : Units) :
    (∀ (i : Nat) (h : i < s.length) (v : UInt16), s[i] ≠ v →
      fingerprintUnits (s.set i v) ≠ fingerprintUnits s) ∧
    (∀ v : UInt16, fingerprintUnits (s ++ [v]) ≠ fingerprintUnits s) ∧
    ∀ a b : Units, fingerprintUnits (s ++ a) = fingerprintUnits (s ++ b) ↔
      fingerprintUnits a = fingerprintUnits b := by
  refine ⟨fun i hi v hv h => hv ?_, fun v h => ?_, fun a b => fingerprintUnits_append_inj s⟩
  · have hs : s = s.take i ++ s[i] :: s.drop (i + 1) := by
      rw [← List.drop_eq_getElem_cons hi, List.take_append_drop]
    rw [List.set_eq_take_append_cons_drop, if_pos hi] at h
    have hrest := (fingerprintUnits_append_inj _).1 (h.trans (congrArg fingerprintUnits hs))
    exact (mixUnit_inj_unit.1 hrest).symm
  · have hend : fingerprintUnits s = fingerprintUnits (s ++ []) := by rw [List.append_nil]
    exact mixUnit_seed_ne v ((fingerprintUnits_append_inj s).1 (h.trans hend))

end Untangle

import Mathlib.Algebra.Order.Floor.Div
import Mathlib.Algebra.GroupWithZero.Nat
import Mathlib.Data.BitVec

namespace Words

variable {w k n m a : ℕ}

theorem toNat_or_shiftLeft (x y : BitVec w) (hx : x.toNat < 2 ^ k) :
    (x ||| y <<< k).toNat = x.toNat + y.toNat * 2 ^ k % 2 ^ w := by
  rw [BitVec.toNat_or, BitVec.toNat_shiftLeft, Nat.shiftLeft_eq]
  rcases le_total k w with hk | hk
  · have hw : 2 ^ w = 2 ^ (w - k) * 2 ^ k := by rw [← Nat.pow_add, Nat.sub_add_cancel hk]
    have hy : y.toNat * 2 ^ k % 2 ^ w = y.toNat % 2 ^ (w - k) * 2 ^ k := by
      rw [hw, Nat.mul_mod_mul_right]
    rw [hy, Nat.or_comm, ← Nat.shiftLeft_eq, ← Nat.shiftLeft_add_eq_or_of_lt hx, Nat.add_comm]
  · have hy : y.toNat * 2 ^ k % 2 ^ w = 0 :=
      Nat.mod_eq_zero_of_dvd (dvd_mul_of_dvd_right (pow_dvd_pow 2 hk) _)
    rw [hy, Nat.or_zero, Nat.add_zero]

theorem toNat_of_toInt {x : BitVec w} (h : x.toInt = n) : x.toNat = n := by
  have hlt := x.isLt
  rw [BitVec.toInt_eq_toNat_cond] at h
  split_ifs at h <;> omega

/-- The least multiple of `a` that is at least `n`. -/
def ceilTo (n a : ℕ) : ℕ := a * (n ⌈/⌉ a)

theorem dvd_ceilTo : a ∣ ceilTo n a := dvd_mul_right _ _

theorem le_ceilTo (ha : 0 < a) : n ≤ ceilTo n a := le_smul_ceilDiv ha

theorem ceilTo_le_iff (ha : 0 < a) (hm : a ∣ m) : ceilTo n a ≤ m ↔ n ≤ m := by
  obtain ⟨c, rfl⟩ := hm
  rw [ceilTo, Nat.mul_le_mul_left_iff ha, ceilDiv_le_iff_le_smul ha, smul_eq_mul]

theorem ceilTo_mono (ha : 0 < a) (h : n ≤ m) : ceilTo n a ≤ ceilTo m a :=
  (ceilTo_le_iff ha dvd_ceilTo).mpr (h.trans (le_ceilTo ha))

theorem ceilTo_eq_div (ha : 0 < a) : ceilTo n a = (n + (a - 1)) / a * a := by
  rw [ceilTo, Nat.ceilDiv_eq_add_pred_div, Nat.mul_comm, Nat.add_sub_assoc ha]

theorem lt_width {r : BitVec w} (hr : r.toNat = 2 ^ k) : k < w := by
  by_contra hk
  have hle : 2 ^ w ≤ 2 ^ k := Nat.pow_le_pow_right (by decide) (not_lt.mp hk)
  have hlt := r.isLt
  omega

theorem toNat_sub_one {r : BitVec w} (hr : r.toNat = 2 ^ k) : (r - 1#w).toNat = 2 ^ k - 1 := by
  have hone : (1#w).toNat = 1 := BitVec.toNat_one (by have := lt_width hr; omega)
  have hle : 1#w ≤ r := by
    rw [BitVec.le_def, hone, hr]
    exact Nat.one_le_two_pow
  rw [BitVec.toNat_sub_of_le hle, hone, hr]

theorem and_not_mask (x : BitVec w) {r : BitVec w} (hr : r.toNat = 2 ^ k) :
    x &&& ~~~(r - 1#w) = (x >>> k) <<< k := by
  ext i hi
  have hbit : (r - 1#w)[i] = decide (i < k) := by
    rw [← BitVec.getLsbD_eq_getElem, BitVec.getLsbD, toNat_sub_one hr, Nat.testBit_two_pow_sub_one]
  rw [BitVec.getElem_and, BitVec.getElem_not, hbit, BitVec.getElem_shiftLeft]
  rcases lt_or_ge i k with hik | hik
  · simp [hik]
  · simp [hi, Nat.not_lt.mpr hik, BitVec.getLsbD_eq_getElem, Nat.add_sub_cancel' hik]

theorem toNat_and_not_mask (x : BitVec w) {r : BitVec w} (hr : r.toNat = 2 ^ k) :
    (x &&& ~~~(r - 1#w)).toNat = x.toNat / 2 ^ k * 2 ^ k := by
  have hle := Nat.div_mul_le_self x.toNat (2 ^ k)
  rw [and_not_mask x hr, BitVec.toNat_shiftLeft, BitVec.toNat_ushiftRight, Nat.shiftRight_eq_div_pow,
    Nat.shiftLeft_eq, Nat.mod_eq_of_lt (hle.trans_lt x.isLt)]

theorem and_setWidth_of_lt {v : ℕ} (x : BitVec w) (m : BitVec v) (hx : x.toNat < 2 ^ v) :
    x &&& m.setWidth w = (x.setWidth v &&& m).setWidth w := by
  have hx' : x = (x.setWidth v).setWidth w := by
    apply BitVec.eq_of_toNat_eq
    rw [BitVec.toNat_setWidth, BitVec.toNat_setWidth, Nat.mod_eq_of_lt hx, Nat.mod_eq_of_lt x.isLt]
  conv_lhs => rw [hx']
  ext i hi
  simp [BitVec.getLsbD_setWidth, hi]

/-- Rounding in a width that the mask need not have. -/
theorem toNat_roundUp_setWidth {v : ℕ} (x : BitVec w) {r : BitVec v} (hr : r.toNat = 2 ^ k) (hvw : v ≤ w)
    (hx : x.toNat + 2 ^ k ≤ 2 ^ v) :
    ((x + (r - 1#v).setWidth w) &&& (~~~(r - 1#v)).setWidth w).toNat = ceilTo x.toNat (2 ^ k) := by
  have hpos : 0 < 2 ^ k := Nat.two_pow_pos k
  have hpow : 2 ^ v ≤ 2 ^ w := Nat.pow_le_pow_right (by decide) hvw
  have hsub : ((r - 1#v).setWidth w).toNat = 2 ^ k - 1 := by
    rw [BitVec.toNat_setWidth, toNat_sub_one hr]
    apply Nat.mod_eq_of_lt
    omega
  have hsum : (x + (r - 1#v).setWidth w).toNat = x.toNat + (2 ^ k - 1) := by
    rw [BitVec.toNat_add, hsub]
    apply Nat.mod_eq_of_lt
    omega
  have hlt : (x + (r - 1#v).setWidth w).toNat < 2 ^ v := by omega
  have hmask : ∀ y : BitVec v, (y.setWidth w).toNat = y.toNat := fun y => by
    rw [BitVec.toNat_setWidth]
    exact Nat.mod_eq_of_lt (y.isLt.trans_le hpow)
  rw [and_setWidth_of_lt _ _ hlt, hmask, toNat_and_not_mask _ hr, BitVec.toNat_setWidth,
    Nat.mod_eq_of_lt hlt, hsum, ceilTo_eq_div hpos]

theorem toNat_roundUp (x : BitVec w) {r : BitVec w} (hr : r.toNat = 2 ^ k) (hx : x.toNat + 2 ^ k ≤ 2 ^ w) :
    ((x + (r - 1#w)) &&& ~~~(r - 1#w)).toNat = ceilTo x.toNat (2 ^ k) := by
  simpa only [BitVec.setWidth_eq] using toNat_roundUp_setWidth x hr le_rfl hx

end Words

/-
Signed numbers that pass through a narrower type. `narrow v` keeps the low `v` bits and extends their sign back; a number comes
through unchanged iff it fits, and arithmetic before the cut does not matter to what is kept.
-/
import Mathlib.Tactic

namespace Bits

variable {w v : Nat} {x : BitVec v}

/-- The low `v` bits, sign extended to the old width. -/
def narrow (v : Nat) (x : BitVec w) : BitVec w := (x.setWidth v).signExtend w

/-- The number is one of `v` signed bits. -/
def FitsSigned (v : Nat) (x : BitVec w) : Prop := -2 ^ (v - 1) ≤ x.toInt ∧ x.toInt < 2 ^ (v - 1)

instance (v : Nat) (x : BitVec w) : Decidable (FitsSigned v x) := inferInstanceAs (Decidable (_ ∧ _))

theorem toInt_narrow (h : v ≤ w) (x : BitVec w) : (narrow v x).toInt = (x.setWidth v).toInt :=
  BitVec.toInt_signExtend_of_le h

theorem fitsSigned_narrow (h : v ≤ w) (x : BitVec w) : FitsSigned v (narrow v x) := by
  unfold FitsSigned
  rw [toInt_narrow h]
  exact ⟨BitVec.le_toInt _, BitVec.toInt_lt⟩

theorem toInt_setWidth_of_fits (hv : 0 < v) (h : v ≤ w) {x : BitVec w} (hx : FitsSigned v x) : (x.setWidth v).toInt = x.toInt := by
  have hdvd : 2 ^ v ∣ 2 ^ w := Nat.pow_dvd_pow 2 h
  have hpow : (2 : Int) ^ v = 2 * 2 ^ (v - 1) := by
    rw [← pow_succ', Nat.sub_add_cancel hv]
  calc (x.setWidth v).toInt
      _ = (x.toNat : Int).bmod (2 ^ v) := BitVec.toInt_setWidth ..
      _ = ((x.toNat : Int).bmod (2 ^ w)).bmod (2 ^ v) := (Int.bmod_bmod_of_dvd hdvd).symm
      _ = x.toInt.bmod (2 ^ v) := by rw [BitVec.toInt_eq_toNat_bmod]
      _ = x.toInt := by
        refine Int.bmod_eq_of_le ?_ ?_
        · have := hx.1
          push_cast
          omega
        · have := hx.2
          push_cast
          omega

theorem narrow_eq_iff (hv : 0 < v) (h : v ≤ w) {x : BitVec w} : narrow v x = x ↔ FitsSigned v x := by
  constructor
  · intro hx
    rw [← hx]
    exact fitsSigned_narrow h x
  · intro hx
    refine BitVec.eq_of_toInt_eq ?_
    rw [toInt_narrow h, toInt_setWidth_of_fits hv h hx]

theorem setWidth_signExtend (h : v ≤ w) (x : BitVec v) : (x.signExtend w).setWidth v = x := by
  ext i hi
  simp [BitVec.getLsbD_signExtend, hi]
  omega

theorem setWidth_sub (h : v ≤ w) (x y : BitVec w) : (x - y).setWidth v = x.setWidth v - y.setWidth v := by
  rw [BitVec.sub_eq_add_neg, BitVec.setWidth_add _ _ h, BitVec.setWidth_neg_of_le h, BitVec.sub_eq_add_neg]

/-- What is added before the cut is taken off again after it. -/
theorem setWidth_narrow_add_sub (h : v ≤ w) (x y : BitVec w) : (narrow v (x + y) - y).setWidth v = x.setWidth v := by
  unfold narrow
  rw [setWidth_sub h, setWidth_signExtend h, BitVec.setWidth_add _ _ h, BitVec.add_sub_cancel]

theorem msb_of_nonneg (hx : 0 ≤ x.toInt) : x.msb = false := by
  rw [BitVec.msb_eq_toInt]
  exact decide_eq_false (not_lt.2 hx)

/-- A number that is not negative is its own unsigned value, also in a wider type. -/
theorem ofNat_toNat_eq_signExtend (hx : 0 ≤ x.toInt) : BitVec.ofNat w x.toNat = x.signExtend w := by
  rw [BitVec.signExtend_eq_setWidth_of_msb_false (msb_of_nonneg hx), BitVec.ofNat_toNat]

theorem toNat_signExtend_of_nonneg (h : v ≤ w) (hx : 0 ≤ x.toInt) : (x.signExtend w).toNat = x.toNat := by
  rw [BitVec.signExtend_eq_setWidth_of_msb_false (msb_of_nonneg hx), BitVec.toNat_setWidth_of_le h]

theorem toNat_of_nonneg (hx : 0 ≤ x.toInt) : (x.toNat : Int) = x.toInt :=
  (BitVec.toInt_eq_toNat_of_msb (msb_of_nonneg hx)).symm

end Bits

/-
Rounding up to a multiple: on numbers, and on words with a mask of low bits.
-/
import Mathlib.Tactic

namespace Bits

/-! ## Numbers -/

/-- The least multiple of `g` from `n` on. -/
def ceilTo (g n : Nat) : Nat := (n + (g - 1)) / g * g

theorem dvd_ceilTo (g n : Nat) : g ∣ ceilTo g n := Nat.dvd_mul_left g _

section

variable {g : Nat} (hg : 0 < g)

include hg

theorem le_ceilTo (n : Nat) : n ≤ ceilTo g n := by
  have hmod := Nat.mod_lt (n + (g - 1)) hg
  have hdiv := Nat.div_add_mod' (n + (g - 1)) g
  unfold ceilTo
  omega

theorem ceilTo_lt (n : Nat) : ceilTo g n < n + g := by
  have hdiv := Nat.div_add_mod' (n + (g - 1)) g
  unfold ceilTo
  omega

theorem ceilTo_le {n m : Nat} (h : n ≤ m) (hm : g ∣ m) : ceilTo g n ≤ m := by
  obtain ⟨c, rfl⟩ := hm
  have hlt : (n + (g - 1)) / g < c + 1 := by
    rw [Nat.div_lt_iff_lt_mul hg, Nat.add_mul, Nat.one_mul, Nat.mul_comm c g]
    omega
  unfold ceilTo
  rw [Nat.mul_comm g c]
  exact Nat.mul_le_mul_right g (Nat.lt_succ_iff.1 hlt)

end

/-! ## Words -/

variable {w k : Nat}

/-- Clearing the low bits. -/
theorem toNat_and_not_mask (y m : BitVec w) (hm : m.toNat = 2 ^ k - 1) : (y &&& ~~~m).toNat = y.toNat / 2 ^ k * 2 ^ k := by
  have hzero : (y &&& ~~~m) &&& (y &&& m) = 0#w := by
    ext i hi
    simp only [BitVec.getElem_and, BitVec.getElem_not, BitVec.getElem_zero]
    cases y[i] <;> cases m[i] <;> rfl
  have hor : (y &&& ~~~m) ||| (y &&& m) = y := by
    ext i hi
    simp only [BitVec.getElem_or, BitVec.getElem_and, BitVec.getElem_not]
    cases y[i] <;> cases m[i] <;> rfl
  have hsum := BitVec.toNat_add_of_and_eq_zero hzero
  rw [BitVec.add_eq_or_of_and_eq_zero _ _ hzero, hor] at hsum
  have hlow : (y &&& m).toNat = y.toNat % 2 ^ k := by
    rw [BitVec.toNat_and, hm, Nat.and_two_pow_sub_one_eq_mod]
  have hdiv := Nat.div_add_mod' y.toNat (2 ^ k)
  omega

/-- `(x + m) & ~m`, as long as the sum does not wrap. -/
theorem toNat_roundUp (x m : BitVec w) (hm : m.toNat = 2 ^ k - 1) (h : x.toNat + m.toNat < 2 ^ w) :
    ((x + m) &&& ~~~m).toNat = ceilTo (2 ^ k) x.toNat := by
  rw [toNat_and_not_mask _ _ hm, BitVec.toNat_add_of_lt h, hm]
  rfl

end Bits

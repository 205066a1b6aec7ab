/-
Bit fields of a 64-bit word. A packed record is the `|||` of its fields, each put in its place; a
field is read back by extracting its bits, and fields elsewhere do not disturb it.
-/
import Mathlib.Tactic

namespace Bits

variable {w v : Nat}

/-- The word with `x` in the bits from `lo` on. -/
def put (lo : Nat) (x : BitVec w) : BitVec 64 := x.setWidth 64 <<< lo

/-- The `w` bits from `lo` on. -/
def field (lo w : Nat) (d : BitVec 64) : BitVec w := d.extractLsb' lo w

theorem getLsbD_put (lo : Nat) (x : BitVec w) (i : Nat) :
    (put lo x).getLsbD i = (decide (i < 64) && decide (lo ≤ i) && x.getLsbD (i - lo)) := by
  unfold put
  rw [BitVec.getLsbD_shiftLeft, BitVec.getLsbD_setWidth]
  by_cases h1 : i < 64
  · by_cases h2 : lo ≤ i
    · simp [h1, h2, Nat.not_lt.2 h2, show i - lo < 64 by omega]
    · simp [h1, h2, Nat.lt_of_not_le h2]
  · simp [h1]

@[simp] theorem field_or (lo : Nat) (d e : BitVec 64) : field lo w (d ||| e) = field lo w d ||| field lo w e := by
  unfold field
  ext i hi
  simp

theorem field_put_self {lo : Nat} (x : BitVec w) (h : lo + w ≤ 64) : field lo w (put lo x) = x := by
  unfold field
  ext i hi
  rw [BitVec.getElem_extractLsb', getLsbD_put]
  simp [show lo + i < 64 by omega, hi]

/-- A field that ends below another one, or starts above it, is not seen there. -/
theorem field_put_apart {lo lo' : Nat} (x : BitVec v) (h : lo + w ≤ lo' ∨ lo' + v ≤ lo) :
    field lo w (put lo' x) = 0 := by
  unfold field
  ext i hi
  rw [BitVec.getElem_extractLsb', getLsbD_put]
  rcases h with h | h
  · simp [show ¬ lo' ≤ lo + i by omega]
  · simp [BitVec.getLsbD_of_ge x (lo + i - lo') (by omega)]

@[simp] theorem field_zero (lo : Nat) : field lo w (0 : BitVec 64) = 0 := by
  unfold field; simp

@[simp] theorem put_zero (lo : Nat) : put lo (0 : BitVec w) = 0 := by
  unfold put; simp

end Bits

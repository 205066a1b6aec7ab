/-
The bytes of a word, the lowest first, and the words of a memory of bytes. Two words are equal if and only if their bytes are, and what
is left of them after a shift by whole bytes is equal if and only if the lower bytes are.
-/
import Mathlib.Tactic

namespace Bits

variable {w : Nat} {mem : Nat → BitVec 8}

/-- Byte `i` of a word. -/
def byte (x : BitVec w) (i : Nat) : BitVec 8 := x.extractLsb' (8 * i) 8

/-- The word of four bytes at an offset. -/
def word32 (mem : Nat → BitVec 8) (o : Nat) : BitVec 32 := mem (o + 3) ++ mem (o + 2) ++ mem (o + 1) ++ mem o

theorem getLsbD_byte (x : BitVec w) {i : Nat} (j : Nat) (hj : j < 8) : (byte x i).getLsbD j = x.getLsbD (8 * i + j) := by
  rw [byte, BitVec.getLsbD_extractLsb', decide_eq_true hj, Bool.true_and]

/-- A bit is that of its byte. -/
theorem getLsbD_eq_byte (x : BitVec w) (j : Nat) : x.getLsbD j = (byte x (j / 8)).getLsbD (j % 8) := by
  rw [getLsbD_byte _ _ (Nat.mod_lt _ (by decide)), Nat.div_add_mod]

/-- With all but the bits of whole bytes shifted out, the bytes that are left decide. -/
theorem shiftLeft_eq_iff {x y : BitVec w} {k : Nat} (hw : 8 ∣ w) :
    x <<< (8 * k) = y <<< (8 * k) ↔ ∀ i, 8 * (i + k) < w → byte x i = byte y i := by
  constructor
  · intro h i hi
    apply BitVec.eq_of_getLsbD_eq
    intro j hj
    -- The bit comes to stand `8 * k` higher, where there is room for it since `w` is a number of whole bytes.
    have hbit := congrArg (fun z => z.getLsbD (8 * k + (8 * i + j))) h
    have hroom : 8 * k + (8 * i + j) < w := by omega
    simp only [BitVec.getLsbD_shiftLeft, decide_eq_true hroom, Nat.add_sub_cancel_left, Nat.not_lt.2 (Nat.le_add_right ..),
      decide_false, Bool.not_false, Bool.true_and] at hbit
    rw [getLsbD_byte _ _ hj, getLsbD_byte _ _ hj]
    exact hbit
  · intro h
    apply BitVec.eq_of_getLsbD_eq
    intro j hj
    rw [BitVec.getLsbD_shiftLeft, BitVec.getLsbD_shiftLeft]
    by_cases hlow : j < 8 * k
    · simp [hlow]
    · rw [getLsbD_eq_byte x, getLsbD_eq_byte y, h ((j - 8 * k) / 8) (by omega)]

theorem eq_iff_bytes {x y : BitVec w} (hw : 8 ∣ w) : x = y ↔ ∀ i, 8 * i < w → byte x i = byte y i := by
  have h := @shiftLeft_eq_iff w x y 0 hw
  rwa [Nat.mul_zero, BitVec.shiftLeft_zero, BitVec.shiftLeft_zero] at h

theorem byte_word32 (mem : Nat → BitVec 8) (o : Nat) {i : Nat} (hi : i < 4) : byte (word32 mem o) i = mem (o + i) := by
  have hcase : i = 0 ∨ i = 1 ∨ i = 2 ∨ i = 3 := by omega
  rcases hcase with rfl | rfl | rfl | rfl
  all_goals
    unfold byte word32
    ext j hj
    simp only [BitVec.getElem_extractLsb', BitVec.getLsbD_append]
    grind

/-- A word of the memory is another word if the four bytes are. -/
theorem word32_eq_iff {o : Nat} {x : BitVec 32} : word32 mem o = x ↔ ∀ i < 4, mem (o + i) = byte x i := by
  rw [eq_iff_bytes (by decide)]
  constructor
  · intro h i hi
    rw [← h i (by omega), byte_word32 _ _ hi]
  · intro h i hi
    rw [byte_word32 _ _ (by omega), h i (by omega)]

/-- With the upper `k` bytes shifted out, the lower ones decide. -/
theorem word32_shiftLeft_eq_iff {o k : Nat} {x : BitVec 32} :
    word32 mem o <<< (8 * k) = x <<< (8 * k) ↔ ∀ i < 4 - k, mem (o + i) = byte x i := by
  rw [shiftLeft_eq_iff (by decide)]
  constructor
  · intro h i hi
    rw [← h i (by omega), byte_word32 _ _ (by omega)]
  · intro h i hi
    rw [byte_word32 _ _ (by omega), h i (by omega)]

end Bits

/-
Packing equal buffers into equal blocks. Buffers of `B` bytes are laid one after the other from the
offset `I` of block 0 on; one that would cross the end of its block of `S` bytes goes to the next
block, where it continues at the same offset modulo `P`. A ring of `n` such buffers may fold its
last block into the unused front of block 0.
-/
import Mathlib.Tactic

namespace Ring

section Packing

variable {S B I P j b i : Nat}

/-- Block and offset of buffer `j`. -/
def place (S B I P : Nat) : Nat → Nat × Nat
  | 0 => (0, I)
  | j + 1 =>
    let (b, o) := place S B I P j
    if o + B + B > S then (b + 1, (o + B) % P) else (b, o + B)

/-- One step either stays in the block, right behind the buffer before, or opens the next block. -/
theorem place_succ (j : Nat) :
    ((place S B I P j).2 + B + B ≤ S ∧
      place S B I P (j + 1) = ((place S B I P j).1, (place S B I P j).2 + B)) ∨
    (S < (place S B I P j).2 + B + B ∧
      place S B I P (j + 1) = ((place S B I P j).1 + 1, ((place S B I P j).2 + B) % P)) := by
  by_cases h : (place S B I P j).2 + B + B > S
  · exact Or.inr ⟨h, by rw [place]; exact if_pos h⟩
  · exact Or.inl ⟨by omega, by rw [place]; exact if_neg h⟩

/-- Every buffer lies inside its block. -/
theorem place_fits (hI : I + B ≤ S) (hP : B + P ≤ S) (hpos : 0 < P) (j : Nat) : (place S B I P j).2 + B ≤ S := by
  cases j with
  | zero => exact hI
  | succ j =>
    rcases place_succ (S := S) (B := B) (I := I) (P := P) j with ⟨h, he⟩ | ⟨_, he⟩
    · rw [he]; exact h
    · rw [he]
      have := Nat.mod_lt ((place S B I P j).2 + B) hpos
      show ((place S B I P j).2 + B) % P + B ≤ S
      omega

theorem place_block_mono (h : i ≤ j) : (place S B I P i).1 ≤ (place S B I P j).1 := by
  induction j, h using Nat.le_induction with
  | base => exact le_rfl
  | succ j _ ih =>
    rcases place_succ (S := S) (B := B) (I := I) (P := P) j with ⟨_, he⟩ | ⟨_, he⟩
    · rw [he]; exact ih
    · rw [he]; exact Nat.le_succ_of_le ih

theorem place_block_le (j : Nat) : (place S B I P j).1 ≤ j := by
  induction j with
  | zero => exact le_rfl
  | succ j ih =>
    rcases place_succ (S := S) (B := B) (I := I) (P := P) j with ⟨_, he⟩ | ⟨_, he⟩
    · rw [he]; exact Nat.le_succ_of_le ih
    · rw [he]; exact Nat.succ_le_succ ih

theorem place_block_succ_le (j : Nat) : (place S B I P (j + 1)).1 ≤ (place S B I P j).1 + 1 := by
  rcases place_succ (S := S) (B := B) (I := I) (P := P) j with ⟨_, he⟩ | ⟨_, he⟩
  · rw [he]; exact Nat.le_succ _
  · rw [he]

/-- Within one block a later buffer starts behind an earlier one. -/
theorem place_behind (h : i < j) (hb : (place S B I P i).1 = (place S B I P j).1) : (place S B I P i).2 + B ≤ (place S B I P j).2 := by
  induction j, h using Nat.le_induction with
  | base =>
    rcases place_succ (S := S) (B := B) (I := I) (P := P) i with ⟨_, he⟩ | ⟨_, he⟩
    · rw [he]
    · rw [he] at hb; exact absurd hb (Nat.succ_ne_self _).symm
  | succ j hij ih =>
    have hmono := place_block_mono (S := S) (B := B) (I := I) (P := P) (Nat.le_of_succ_le hij)
    rcases place_succ (S := S) (B := B) (I := I) (P := P) j with ⟨_, he⟩ | ⟨_, he⟩
    · rw [he] at hb ⊢
      have := ih hb
      show _ ≤ (place S B I P j).2 + B
      omega
    · rw [he] at hb
      have hb' : (place S B I P i).1 = (place S B I P j).1 + 1 := hb
      omega

/-- Block 0 is filled from `I` on. -/
theorem place_first_block (h : (place S B I P j).1 = 0) : I + j * B = (place S B I P j).2 := by
  induction j with
  | zero => simp [place]
  | succ j ih =>
    rcases place_succ (S := S) (B := B) (I := I) (P := P) j with ⟨_, he⟩ | ⟨_, he⟩
    · rw [he] at h ⊢
      have := ih h
      show _ = (place S B I P j).2 + B
      rw [← this]; ring
    · rw [he] at h; exact absurd h (Nat.succ_ne_zero _)

/-! ## Block by block -/

/-- The end of the last whole buffer in a block whose first buffer starts at `o`. -/
def blockEnd (S B o : Nat) : Nat := S - (S - o) % B

/-- The offset at which block `b` is opened. -/
def blockStart (S B I P : Nat) : Nat → Nat
  | 0 => I
  | b + 1 => blockEnd S B (blockStart S B I P b) % P

/-- The buffers in front of block `b`. -/
def buffersBefore (S B I P : Nat) : Nat → Nat
  | 0 => 0
  | b + 1 => buffersBefore S B I P b + (S - blockStart S B I P b) / B

theorem buffersBefore_mono {c : Nat} (h : b ≤ c) : buffersBefore S B I P b ≤ buffersBefore S B I P c := by
  induction c, h using Nat.le_induction with
  | base => exact le_rfl
  | succ c _ ih => exact le_trans ih (Nat.le_add_right _ _)

theorem buffersBefore_lt {c n : Nat} (h : c ≤ b) (hb : buffersBefore S B I P b < n) : buffersBefore S B I P c < n :=
  lt_of_le_of_lt (buffersBefore_mono h) hb

/-- Block `b` has room for a buffer behind its start. -/
def Roomy (S B I P b : Nat) : Prop := blockStart S B I P b + B ≤ S

theorem blockEnd_eq {o : Nat} (h : o ≤ S) : blockEnd S B o = o + (S - o) / B * B := by
  have h1 := Nat.div_add_mod (S - o) B
  unfold blockEnd
  rw [Nat.mul_comm] at h1
  omega

theorem Roomy.count_pos (hB : 0 < B) (h : Roomy S B I P b) : 1 ≤ (S - blockStart S B I P b) / B := by
  unfold Roomy at h
  rw [Nat.le_div_iff_mul_le hB]
  omega

theorem Roomy.blockEnd_eq (h : Roomy S B I P b) :
    blockEnd S B (blockStart S B I P b) = blockStart S B I P b + (S - blockStart S B I P b) / B * B := by
  unfold Roomy at h
  exact Ring.blockEnd_eq (by omega)

/-- The buffers of a block with room stand one behind the other. -/
theorem place_in_block (hB : 0 < B) (hs : place S B I P (buffersBefore S B I P b) = (b, blockStart S B I P b))
    (hi : i < (S - blockStart S B I P b) / B) : place S B I P (buffersBefore S B I P b + i) = (b, blockStart S B I P b + i * B) := by
  induction i with
  | zero => rw [Nat.add_zero, hs, Nat.zero_mul, Nat.add_zero]
  | succ i ih =>
    have hp := ih (by omega)
    have hroom : (i + 1 + 1) * B ≤ S - blockStart S B I P b := (Nat.le_div_iff_mul_le hB).1 hi
    have hsum : (i + 1 + 1) * B = i * B + B + B := by ring
    rcases place_succ (S := S) (B := B) (I := I) (P := P) (buffersBefore S B I P b + i) with ⟨_, he⟩ | ⟨hgt, _⟩
    · rw [← Nat.add_assoc, he, hp]
      show (b, _) = (b, _)
      rw [Nat.add_assoc, ← Nat.succ_mul]
    · rw [hp] at hgt
      simp only at hgt
      omega

/-- A block is opened at its start, if there was room in all blocks before. -/
theorem place_blockStart (hB : 0 < B) (hr : ∀ c < b, Roomy S B I P c) :
    place S B I P (buffersBefore S B I P b) = (b, blockStart S B I P b) := by
  induction b with
  | zero => rfl
  | succ b ih =>
    have hs := ih fun c hc => hr c (by omega)
    have hb := hr b (Nat.lt_succ_self b)
    have hk := hb.count_pos hB
    obtain ⟨k, hkeq⟩ := Nat.exists_eq_add_of_le' hk
    have hp := place_in_block hB hs (i := k) (by omega)
    have hend := hb.blockEnd_eq
    rw [hkeq, Nat.succ_mul] at hend
    have hlt : S - blockStart S B I P b < (k + 1 + 1) * B := by
      exact Nat.lt_mul_of_div_lt (by omega) hB
    have hsum : (k + 1 + 1) * B = k * B + B + B := by ring
    rw [buffersBefore, hkeq, ← Nat.add_assoc, blockStart, hend]
    rcases place_succ (S := S) (B := B) (I := I) (P := P) (buffersBefore S B I P b + k) with ⟨hle, _⟩ | ⟨_, he⟩
    · rw [hp] at hle
      simp only at hle
      omega
    · rw [he, hp, Nat.add_assoc]

/-- Where the first `n` buffers stand, if there is room in every block they open. -/
theorem exists_block {n : Nat} (hB : 0 < B) (hr : ∀ b, buffersBefore S B I P b < n → Roomy S B I P b) (hj : j < n) :
    ∃ b i, j = buffersBefore S B I P b + i ∧ i < (S - blockStart S B I P b) / B ∧
      place S B I P j = (b, blockStart S B I P b + i * B) := by
  have hplace : ∀ b i, buffersBefore S B I P b + i < n → i < (S - blockStart S B I P b) / B →
      place S B I P (buffersBefore S B I P b + i) = (b, blockStart S B I P b + i * B) := by
    intro b i hlt hi
    have hb : buffersBefore S B I P b < n := by omega
    exact place_in_block hB (place_blockStart hB fun c hc => hr c (buffersBefore_lt (Nat.le_of_lt hc) hb)) hi
  suffices h : ∃ b i, j = buffersBefore S B I P b + i ∧ i < (S - blockStart S B I P b) / B by
    obtain ⟨b, i, rfl, hi⟩ := h
    exact ⟨b, i, rfl, hi, hplace b i hj hi⟩
  induction j with
  | zero => exact ⟨0, 0, rfl, (hr 0 hj).count_pos hB⟩
  | succ j ih =>
    obtain ⟨b, i, he, hi⟩ := ih (by omega)
    by_cases hk : i + 1 < (S - blockStart S B I P b) / B
    · exact ⟨b, i + 1, by omega, hk⟩
    · have hbefore : buffersBefore S B I P (b + 1) = j + 1 := by
        rw [buffersBefore]; omega
      exact ⟨b + 1, 0, hbefore.symm, (hr (b + 1) (by omega)).count_pos hB⟩

/-- All of the first `n` buffers lie inside their blocks exactly if every block they open has room. -/
theorem fits_iff_roomy {n : Nat} (hB : 0 < B) :
    (∀ j < n, (place S B I P j).2 + B ≤ S) ↔ ∀ b, buffersBefore S B I P b < n → Roomy S B I P b := by
  constructor
  · intro h b
    induction b using Nat.strongRecOn with
    | ind b ih =>
      intro hb
      have hs := place_blockStart hB fun c hc => ih c hc (buffersBefore_lt (Nat.le_of_lt hc) hb)
      have := h _ hb
      rwa [hs] at this
  · intro hr j hj
    obtain ⟨b, i, _, hi, hp⟩ := exists_block hB hr hj
    have hk : (i + 1) * B ≤ S - blockStart S B I P b := (Nat.le_div_iff_mul_le hB).1 hi
    have hsum : (i + 1) * B = i * B + B := Nat.succ_mul i B
    rw [hp]
    show blockStart S B I P b + i * B + B ≤ S
    omega

/-- The test for the end of a block stays below `M` on the way to each of the first `n` buffers exactly
if it does so at the end of every block they leave. -/
theorem test_lt_iff {n M : Nat} (hB : 0 < B) (hM : S < M) (hr : ∀ b, buffersBefore S B I P b < n → Roomy S B I P b) :
    (∀ j, j + 1 < n → (place S B I P j).2 + B + B < M) ↔
      ∀ b, buffersBefore S B I P (b + 1) < n → blockEnd S B (blockStart S B I P b) + B < M := by
  constructor
  · intro h b hb
    have hroom := hr b (buffersBefore_lt (Nat.le_add_right b 1) hb)
    obtain ⟨k, hk⟩ := Nat.exists_eq_add_of_le' (hroom.count_pos hB)
    have hbefore : buffersBefore S B I P b + k + 1 = buffersBefore S B I P (b + 1) := by
      rw [buffersBefore, hk, Nat.add_assoc]
    have hs := place_blockStart hB (b := b) fun c hc => hr c (buffersBefore_lt (Nat.le_succ_of_le (Nat.le_of_lt hc)) hb)
    have hp := place_in_block hB hs (i := k) (by omega)
    have := h _ (by omega : buffersBefore S B I P b + k + 1 < n)
    rw [hp] at this
    rw [hroom.blockEnd_eq, hk, Nat.succ_mul, ← Nat.add_assoc]
    exact this
  · intro h j hj
    obtain ⟨b, i, he, hi, hp⟩ := exists_block hB hr (by omega : j < n)
    rw [hp]
    show blockStart S B I P b + i * B + B + B < M
    by_cases hk : i + 1 < (S - blockStart S B I P b) / B
    · have hle : (i + 1 + 1) * B ≤ S - blockStart S B I P b := (Nat.le_div_iff_mul_le hB).1 hk
      have hsum : (i + 1 + 1) * B = i * B + B + B := by ring
      omega
    · have hk' : (S - blockStart S B I P b) / B = i + 1 := by omega
      have hbefore : buffersBefore S B I P (b + 1) = j + 1 := by
        rw [buffersBefore]; omega
      have hroom := hr b (by omega)
      have := h b (by omega)
      rw [hroom.blockEnd_eq, hk', Nat.succ_mul, ← Nat.add_assoc] at this
      exact this

/-! ## The ring of the first `n` buffers -/

/-- The blocks a ring of `n` buffers takes: the block where buffer `n` would start is not needed if
all before it in that block fits in front of `I` in block 0. -/
def ringBlocks (S B I P n : Nat) : Nat :=
  if (place S B I P n).2 ≤ I then (place S B I P n).1 else (place S B I P n).1 + 1

/-- The block in a ring of `c` blocks: block `c` is folded into block 0. -/
def foldBlock (c b : Nat) : Nat := if b = c then 0 else b

variable {n : Nat}

theorem ringBlocks_le : ringBlocks S B I P n ≤ (place S B I P n).1 + 1 := by
  unfold ringBlocks
  split
  · exact Nat.le_succ _
  · exact le_rfl

theorem ringBlocks_pos (hB : 0 < B) (hn : 0 < n) : 0 < ringBlocks S B I P n := by
  unfold ringBlocks
  split
  · rename_i hle
    by_contra h0
    have h1 := place_first_block (S := S) (B := B) (I := I) (P := P) (j := n) (by omega)
    have h2 : 0 < n * B := Nat.mul_pos hn hB
    omega
  · omega

theorem place_block_le_ringBlocks (hj : j ≤ n) : (place S B I P j).1 ≤ ringBlocks S B I P n := by
  have h := place_block_mono (S := S) (B := B) (I := I) (P := P) hj
  unfold ringBlocks
  split <;> omega

theorem foldBlock_lt (hB : 0 < B) (hn : 0 < n) (hj : j ≤ n) :
    foldBlock (ringBlocks S B I P n) (place S B I P j).1 < ringBlocks S B I P n := by
  have h := place_block_le_ringBlocks (S := S) (B := B) (I := I) (P := P) hj
  have hp := ringBlocks_pos (S := S) (I := I) (P := P) hB hn
  unfold foldBlock
  split <;> omega

/-- Only the last block is ever folded, and what stands in it ends in front of `I`. -/
theorem folded_front (hj : j < n) (hb : (place S B I P j).1 = ringBlocks S B I P n) : (place S B I P j).2 + B ≤ I := by
  have hmono := place_block_mono (S := S) (B := B) (I := I) (P := P) (Nat.le_of_lt hj)
  unfold ringBlocks at hb
  split at hb
  · rename_i hle
    exact le_trans (place_behind hj hb) hle
  · omega

theorem place_first_block_ge (h : (place S B I P j).1 = 0) : I ≤ (place S B I P j).2 := by
  have := place_first_block h
  omega

/-- Any two buffers of a ring lie in different blocks or behind each other. -/
theorem ring_disjoint (hB : 0 < B) (hij : i < j) (hj : j < n) :
    foldBlock (ringBlocks S B I P n) (place S B I P i).1 ≠ foldBlock (ringBlocks S B I P n) (place S B I P j).1 ∨
      (place S B I P i).2 + B ≤ (place S B I P j).2 ∨ (place S B I P j).2 + B ≤ (place S B I P i).2 := by
  have hpos := ringBlocks_pos (S := S) (I := I) (P := P) hB (by omega : 0 < n)
  by_cases hbb : (place S B I P i).1 = (place S B I P j).1
  · exact Or.inr (Or.inl (place_behind hij hbb))
  have hlt : (place S B I P i).1 < (place S B I P j).1 :=
    lt_of_le_of_ne (place_block_mono (Nat.le_of_lt hij)) hbb
  have hle := place_block_le_ringBlocks (S := S) (B := B) (I := I) (P := P) (Nat.le_of_lt hj)
  have hi : foldBlock (ringBlocks S B I P n) (place S B I P i).1 = (place S B I P i).1 := if_neg (by omega)
  by_cases hc : (place S B I P j).1 = ringBlocks S B I P n
  · -- `j` is folded into block 0: in front of everything that was placed there
    rw [hi, show foldBlock (ringBlocks S B I P n) (place S B I P j).1 = 0 from if_pos hc]
    by_cases h0 : (place S B I P i).1 = 0
    · exact Or.inr (Or.inr (le_trans (folded_front hj hc) (place_first_block_ge h0)))
    · exact Or.inl h0
  · rw [hi, show foldBlock (ringBlocks S B I P n) (place S B I P j).1 = (place S B I P j).1 from if_neg hc]
    exact Or.inl hbb

end Packing

end Ring

/-
Which of the accepted buffer configurations are usable. `ndp_ctrl_medusa_req_block_update` rejects
only an empty buffer and too few buffers; whether the buffers of the ring lie inside their blocks, and
whether the 16-bit length of a receive descriptor holds the buffer size, is up to the sizes.
-/
import NdkSw.Medusa.MpsLayout
import NdkSw.Medusa.Rx

namespace NdkSw.Medusa

open Ndp Ring Bits

variable {pageSize : U32} {cfg v : NdpCtrlCfg}

/-! ## Usable configurations -/

/-- The type-2 descriptor of the walk's current buffer. -/
def MpsState.rxDesc (blocks : Nat → U64) (s : MpsState) : U64 :=
  ncNdpRxDesc2 (s.addr blocks) (s.cfg.bufferSize.setWidth 16) 0

/-- Every buffer that the walk visits lies inside its block, and its descriptor tells the hardware the
requested size. -/
structure Usable (pageSize : U32) (cfg : NdpCtrlCfg) (bufferSize : U64) : Prop where
  inside : ∀ m, (mpsWalk pageSize cfg.first m).blockOffset.toNat + bufferSize.toNat ≤ cfg.blockSize.toNat
  block : ∀ m, (mpsWalk pageSize cfg.first m).blockIndex < cfg.blockCount
  len : ∀ blocks m, (field 32 16 ((mpsWalk pageSize cfg.first m).rxDesc blocks)).toNat = bufferSize.toNat

/-- The sizes that make a usable ring, with the block size and the initial offset as they are stored in
32 bits: the descriptor holds the size, every block that the ring opens has room for a buffer, the
32-bit test sees the end of every block that the ring leaves, and the blocks can be counted. -/
structure Suitable (pageSize : U32) (reqBlockSize bufferSize bufferCount initialOffset : U64) : Prop where
  len : bufferSize.toNat < 2 ^ 16
  room : ∀ b, buffersBefore (reqBlockSize.toNat % 2 ^ 32) bufferSize.toNat (initialOffset.toNat % 2 ^ 32) pageSize.toNat b
      < bufferCount.toNat →
    Roomy (reqBlockSize.toNat % 2 ^ 32) bufferSize.toNat (initialOffset.toNat % 2 ^ 32) pageSize.toNat b
  test : ∀ b, buffersBefore (reqBlockSize.toNat % 2 ^ 32) bufferSize.toNat (initialOffset.toNat % 2 ^ 32) pageSize.toNat
      (b + 1) < bufferCount.toNat →
    blockEnd (reqBlockSize.toNat % 2 ^ 32) bufferSize.toNat (blockStart (reqBlockSize.toNat % 2 ^ 32) bufferSize.toNat
      (initialOffset.toNat % 2 ^ 32) pageSize.toNat b) + bufferSize.toNat < 2 ^ 32
  blocks : ringBlocks (reqBlockSize.toNat % 2 ^ 32) bufferSize.toNat (initialOffset.toNat % 2 ^ 32) pageSize.toNat
    bufferCount.toNat < 2 ^ 32

theorem rxDesc_len (blocks : Nat → U64) (s : MpsState) :
    (field 32 16 (s.rxDesc blocks)).toNat = s.cfg.bufferSize.toNat % 2 ^ 16 := by
  unfold MpsState.rxDesc ncNdpRxDesc2
  rw [len_type2Desc, BitVec.toNat_setWidth]

/-! ## Offsets of the walk -/

theorem mpsInc_offset {s : MpsState} (hne : s.bufferIndex + 1 ≠ s.cfg.bufferCount) :
    (ndpCtrlMedusaMpsInc pageSize s).1.blockOffset =
      if s.blockOffset + s.cfg.bufferSize + s.cfg.bufferSize > s.cfg.blockSize then
        (s.blockOffset + s.cfg.bufferSize) % pageSize
      else s.blockOffset + s.cfg.bufferSize := by
  unfold ndpCtrlMedusaMpsInc
  simp only [if_neg hne]
  split
  · split
    · rfl
    · rfl
  · rfl

theorem mpsInc_wrapped {s : MpsState} (hne : s.bufferIndex + 1 ≠ s.cfg.bufferCount)
    (hfit : s.blockOffset.toNat + s.cfg.bufferSize.toNat ≤ s.cfg.blockSize.toNat)
    (hw : 2 ^ 32 ≤ s.blockOffset.toNat + s.cfg.bufferSize.toNat + s.cfg.bufferSize.toNat) :
    (ndpCtrlMedusaMpsInc pageSize s).1.blockIndex = s.blockIndex ∧
      (ndpCtrlMedusaMpsInc pageSize s).1.blockOffset.toNat = s.blockOffset.toNat + s.cfg.bufferSize.toNat := by
  have hS := s.cfg.blockSize.isLt
  have hoff : (s.blockOffset + s.cfg.bufferSize).toNat = s.blockOffset.toNat + s.cfg.bufferSize.toNat := by
    rw [BitVec.toNat_add]
    exact Nat.mod_eq_of_lt (by omega)
  have hng : ¬ s.blockOffset + s.cfg.bufferSize + s.cfg.bufferSize > s.cfg.blockSize := by
    intro hg
    have := BitVec.lt_def.1 hg
    rw [BitVec.toNat_add, hoff, Nat.mod_eq_sub_mod hw, Nat.mod_eq_of_lt (by omega)] at this
    omega
  unfold ndpCtrlMedusaMpsInc
  simp only [if_neg hne, if_neg hng]
  exact ⟨trivial, hoff⟩

/-- Two configurations with the same sizes. -/
structure SameSizes (cfg v : NdpCtrlCfg) : Prop where
  bufferSize : cfg.bufferSize = v.bufferSize
  blockSize : cfg.blockSize = v.blockSize
  initialOffset : cfg.initialOffset = v.initialOffset

theorem SameSizes.place (h : SameSizes cfg v) (j : Nat) : cfg.place pageSize j = v.place pageSize j := by
  unfold NdpCtrlCfg.place
  rw [h.bufferSize, h.blockSize, h.initialOffset]

theorem SameSizes.testAt (h : SameSizes cfg v) {j : Nat} (ht : TestAt pageSize v j) : TestAt pageSize cfg j := by
  unfold TestAt
  rw [h.place, h.bufferSize]
  exact ht

theorem mpsWalk_offset (hs : SameSizes cfg v) (hv : v.bufferCount = 0) {j : Nat} (hj : j < cfg.bufferCount.toNat) :
    (mpsWalk pageSize cfg.first j).blockOffset = (mpsWalk pageSize v.first j).blockOffset := by
  have hisLt := cfg.bufferCount.isLt
  induction j with
  | zero => exact hs.initialOffset
  | succ j ih =>
    obtain ⟨hc, hi⟩ := @mpsWalk_index pageSize cfg (by omega) j
    obtain ⟨hc', hi'⟩ := @virtual_index pageSize v hv j (by omega)
    rw [Nat.mod_eq_of_lt (by omega)] at hi
    have hne : (mpsWalk pageSize cfg.first j).bufferIndex + 1 ≠ (mpsWalk pageSize cfg.first j).cfg.bufferCount := by
      intro he
      have := index_succ hi (by omega)
      rw [he, hc] at this
      omega
    have hne' : (mpsWalk pageSize v.first j).bufferIndex + 1 ≠ (mpsWalk pageSize v.first j).cfg.bufferCount := by
      intro he
      have := index_succ hi' (by omega)
      rw [he, hc', hv] at this
      exact absurd this (Nat.succ_ne_zero j).symm
    rw [mpsWalk, mpsWalk, mpsInc_offset hne, mpsInc_offset hne', hc, hc', ih (by omega), hs.bufferSize, hs.blockSize]

/-! ## The configuration that the walk through the virtual ring gives -/

/-- The first `n` buffers of the virtual ring lie in their blocks, and no test wraps on the way to them. -/
structure Fitting (pageSize : U32) (v : NdpCtrlCfg) (n : Nat) : Prop where
  fits : ∀ j < n, (v.place pageSize j).2 + v.bufferSize.toNat ≤ v.blockSize.toNat
  test : ∀ j, j + 1 < n → TestAt pageSize v j

section Counted

variable {v : NdpCtrlCfg} {n : Nat}

theorem fitting_iff (hB : 0 < v.bufferSize.toNat) :
    Fitting pageSize v n ↔
      (∀ b, buffersBefore v.blockSize.toNat v.bufferSize.toNat v.initialOffset.toNat pageSize.toNat b < n →
        Roomy v.blockSize.toNat v.bufferSize.toNat v.initialOffset.toNat pageSize.toNat b) ∧
      ∀ b, buffersBefore v.blockSize.toNat v.bufferSize.toNat v.initialOffset.toNat pageSize.toNat (b + 1) < n →
        blockEnd v.blockSize.toNat v.bufferSize.toNat (blockStart v.blockSize.toNat v.bufferSize.toNat
          v.initialOffset.toNat pageSize.toNat b) + v.bufferSize.toNat < 2 ^ 32 := by
  constructor
  · intro hf
    have hr := (fits_iff_roomy hB).1 hf.fits
    exact ⟨hr, (test_lt_iff hB v.blockSize.isLt hr).1 hf.test⟩
  · rintro ⟨hr, ht⟩
    exact ⟨(fits_iff_roomy hB).2 hr, (test_lt_iff hB v.blockSize.isLt hr).2 ht⟩

theorem virtual_standsAt (hv : v.bufferCount = 0 ∧ v.blockCount = 0) (hn : n < 2 ^ 32)
    (ht : ∀ j < n, TestAt pageSize v j) : StandsAt pageSize v n (mpsWalk pageSize v.first n) :=
  mpsWalk_standsAt ht hn (Or.inl (by rw [hv.1]; rfl)) (Or.inl (by rw [hv.2]; rfl))

theorem virtual_ne (hv : v.bufferCount = 0 ∧ v.blockCount = 0) {j : Nat} {s : MpsState} (hst : StandsAt pageSize v j s)
    (hj : j + 1 < 2 ^ 32) : s.bufferIndex + 1 ≠ s.cfg.bufferCount := by
  intro he
  have := index_succ hst.bufferIndex hj
  rw [he, hst.cfg_eq, hv.1] at this
  exact absurd this (Nat.succ_ne_zero j).symm

theorem counted_sameSizes (hv : v.bufferCount = 0 ∧ v.blockCount = 0) (hn : n < 2 ^ 32) :
    SameSizes (mpsWalk pageSize v.first n).counted v ∧
      (mpsWalk pageSize v.first n).counted.bufferCount.toNat = n := by
  obtain ⟨hc, hi⟩ := @virtual_index pageSize v hv.1 n hn
  obtain ⟨h1, h2, h3⟩ := counted_sizes hc
  exact ⟨⟨h1, h2, h3⟩, hi⟩

/-- A walk whose buffers all lie inside their blocks follows the packing: the first test that wrapped
would leave the next buffer across the end of its block. -/
theorem fitting_of_inside (hv : v.bufferCount = 0 ∧ v.blockCount = 0) (hn : n < 2 ^ 32)
    (h : ∀ m, (mpsWalk pageSize (mpsWalk pageSize v.first n).counted.first m).blockOffset.toNat + v.bufferSize.toNat ≤
      v.blockSize.toNat) : Fitting pageSize v n := by
  obtain ⟨hs, hcount⟩ := @counted_sameSizes pageSize v n hv hn
  have hin : ∀ j < n, (mpsWalk pageSize v.first j).blockOffset.toNat + v.bufferSize.toNat ≤ v.blockSize.toNat := by
    intro j hj
    rw [← mpsWalk_offset hs hv.1 (by omega)]
    exact h j
  have htest : ∀ j, j + 1 < n → (∀ i < j, TestAt pageSize v i) → TestAt pageSize v j := by
    intro j hj ht
    have hst := virtual_standsAt hv (by omega : j < 2 ^ 32) ht
    have hj0 := hin j (by omega)
    by_contra hw
    unfold TestAt at hw
    have hne := virtual_ne hv hst (by omega)
    have hnext := (@mpsInc_wrapped pageSize _ hne (by rw [hst.cfg_eq]; exact hj0)
      (by rw [hst.cfg_eq, hst.blockOffset]; omega)).2
    have hj1 := hin (j + 1) hj
    rw [mpsWalk, hnext, hst.cfg_eq, hst.blockOffset] at hj1
    have hS := v.blockSize.isLt
    omega
  have hall : ∀ j, j + 1 < n → TestAt pageSize v j := by
    intro j
    induction j using Nat.strongRecOn with
    | ind j ih =>
      intro hj
      exact htest j hj fun i hi => ih i hi (by omega)
  refine ⟨fun j hj => ?_, hall⟩
  rw [← (virtual_standsAt hv (by omega : j < 2 ^ 32) fun i hi => hall i (by omega)).blockOffset]
  exact hin j hj

/-- The block count: that of the packing, unless the walk ends at a test that wraps. -/
theorem counted_cases (hv : v.bufferCount = 0 ∧ v.blockCount = 0) (hn : n + 2 < 2 ^ 32) (hf : Fitting pageSize v (n + 2)) :
    (mpsWalk pageSize v.first (n + 2)).counted.blockCount.toNat =
        ringBlocks v.blockSize.toNat v.bufferSize.toNat v.initialOffset.toNat pageSize.toNat (n + 2) % 2 ^ 32 ∨
      ¬TestAt pageSize v (n + 1) ∧
        (mpsWalk pageSize v.first (n + 2)).counted.blockCount.toNat = (v.place pageSize (n + 1)).1 + 1 := by
  by_cases hlast : TestAt pageSize v (n + 1)
  · left
    refine counted_blocks hv.2 (virtual_standsAt hv hn fun j hj => ?_) hn
    rcases Nat.lt_succ_iff_lt_or_eq.1 hj with h | h
    · exact hf.test j (by omega)
    · rw [h]; exact hlast
  · refine Or.inr ⟨hlast, ?_⟩
    have hst := virtual_standsAt hv (by omega : n + 1 < 2 ^ 32) fun j hj => hf.test j (by omega)
    have hfit := hf.fits (n + 1) (Nat.lt_succ_self _)
    have hfirst : v.initialOffset.toNat + v.bufferSize.toNat ≤ v.blockSize.toNat := hf.fits 0 (Nat.succ_pos _)
    have hS := v.blockSize.isLt
    have hplace : (v.place pageSize (n + 1)).1 ≤ n + 1 := place_block_le _
    unfold TestAt at hlast
    have hne := virtual_ne hv hst hn
    obtain ⟨hblk, hoff⟩ := @mpsInc_wrapped pageSize _ hne
      (by rw [hst.cfg_eq, hst.blockOffset]; exact hfit) (by rw [hst.cfg_eq, hst.blockOffset]; omega)
    have hidx : (mpsWalk pageSize v.first (n + 1)).blockIndex.toNat = (v.place pageSize (n + 1)).1 := by
      rw [hst.blockIndex, hv.2]
      exact ite_eq_right_iff.2 fun h0 => h0.symm
    have hgt : ¬ (mpsWalk pageSize v.first (n + 2)).blockOffset ≤ (mpsWalk pageSize v.first (n + 2)).cfg.initialOffset := by
      intro hle
      have := BitVec.le_def.1 hle
      rw [mpsWalk, hoff, mpsInc_cfg, hst.cfg_eq, hst.blockOffset] at this
      omega
    unfold MpsState.counted
    simp only [if_neg hgt]
    rw [mpsWalk, hblk, BitVec.toNat_add, hidx]
    exact Nat.mod_eq_of_lt (by show _ + 1 < _; omega)

theorem ringBlocks_lt_of_mod (hn : n + 2 < 2 ^ 32) {S B I P : Nat} (h0 : 0 < ringBlocks S B I P (n + 2) % 2 ^ 32) :
    ringBlocks S B I P (n + 2) < 2 ^ 32 := by
  have hle : ringBlocks S B I P (n + 2) ≤ n + 2 + 1 := le_trans ringBlocks_le (Nat.succ_le_succ (place_block_le _))
  rcases Nat.lt_or_ge (ringBlocks S B I P (n + 2)) (2 ^ 32) with hlt | hge
  · exact hlt
  · rw [show ringBlocks S B I P (n + 2) = 2 ^ 32 by omega, Nat.mod_self] at h0
    exact absurd h0 (lt_irrefl 0)

theorem ringBlocks_lt_of_counted (hv : v.bufferCount = 0 ∧ v.blockCount = 0) (hn : n + 2 < 2 ^ 32)
    (hpage : 0 < pageSize.toNat ∧ pageSize.toNat ≤ 2 ^ 31) (hB : v.bufferSize.toNat < 2 ^ 16)
    (hf : Fitting pageSize v (n + 2)) (h0 : 0 < (mpsWalk pageSize v.first (n + 2)).counted.blockCount.toNat) :
    ringBlocks v.blockSize.toNat v.bufferSize.toNat v.initialOffset.toNat pageSize.toNat (n + 2) < 2 ^ 32 := by
  rcases counted_cases hv hn hf with he | ⟨hlast, -⟩
  · exact ringBlocks_lt_of_mod hn (he ▸ h0)
  · -- the last buffer is not the first of its block: those start in the first page
    have hstay : (v.place pageSize (n + 1)).1 ≤ n := by
      rcases place_succ (S := v.blockSize.toNat) (B := v.bufferSize.toNat) (I := v.initialOffset.toNat)
        (P := pageSize.toNat) n with ⟨_, he⟩ | ⟨_, he⟩
      · unfold NdpCtrlCfg.place
        rw [he]
        exact place_block_le n
      · have hlt : (v.place pageSize (n + 1)).2 < pageSize.toNat := by
          unfold NdpCtrlCfg.place
          rw [he]
          exact Nat.mod_lt _ hpage.1
        unfold TestAt at hlast
        omega
    have hnext : (v.place pageSize (n + 2)).1 ≤ (v.place pageSize (n + 1)).1 + 1 := place_block_succ_le (n + 1)
    have hle : ringBlocks v.blockSize.toNat v.bufferSize.toNat v.initialOffset.toNat pageSize.toNat (n + 2) ≤
        (v.place pageSize (n + 2)).1 + 1 := ringBlocks_le
    omega

theorem counted_pos (hv : v.bufferCount = 0 ∧ v.blockCount = 0) (hn : n + 2 < 2 ^ 32) (hpos : 0 < v.bufferSize.toNat)
    (hf : Fitting pageSize v (n + 2))
    (hb : ringBlocks v.blockSize.toNat v.bufferSize.toNat v.initialOffset.toNat pageSize.toNat (n + 2) < 2 ^ 32) :
    0 < (mpsWalk pageSize v.first (n + 2)).counted.blockCount.toNat := by
  rcases counted_cases hv hn hf with he | ⟨-, he⟩
  · rw [he, Nat.mod_eq_of_lt hb]
    exact ringBlocks_pos hpos (Nat.succ_pos _)
  · rw [he]
    exact Nat.succ_pos _

/-- The blocks of a walk that follows the packing. -/
theorem counted_block_lt (hv : v.bufferCount = 0 ∧ v.blockCount = 0) (hn : n + 2 < 2 ^ 32) (hpos : 0 < v.bufferSize.toNat)
    (hf : Fitting pageSize v (n + 2)) (h0 : 0 < (mpsWalk pageSize v.first (n + 2)).counted.blockCount.toNat) (m : Nat) :
    (mpsWalk pageSize (mpsWalk pageSize v.first (n + 2)).counted.first m).blockIndex <
      (mpsWalk pageSize v.first (n + 2)).counted.blockCount := by
  obtain ⟨hs, hcount⟩ := @counted_sameSizes pageSize v (n + 2) hv hn
  have hcases := counted_cases hv hn hf
  generalize (mpsWalk pageSize v.first (n + 2)).counted = cfg at hs hcount hcases h0
  have hblock : ∀ j < n + 2, (v.place pageSize j).1 ≤ cfg.blockCount.toNat ∧
      foldBlock cfg.blockCount.toNat (v.place pageSize j).1 < cfg.blockCount.toNat := by
    intro j hj
    rcases hcases with he | ⟨-, he⟩
    · rw [he, Nat.mod_eq_of_lt (ringBlocks_lt_of_mod hn (he ▸ h0))]
      exact ⟨place_block_le_ringBlocks (Nat.le_of_lt hj), foldBlock_lt hpos (Nat.succ_pos _) (Nat.le_of_lt hj)⟩
    · have hle : (v.place pageSize j).1 ≤ (v.place pageSize (n + 1)).1 := place_block_mono (Nat.le_of_lt_succ hj)
      have hfold : foldBlock cfg.blockCount.toNat (v.place pageSize j).1 = (v.place pageSize j).1 := if_neg (by omega)
      omega
  have hj : m % cfg.bufferCount.toNat < n + 2 := hcount ▸ Nat.mod_lt m (by omega)
  have hst : StandsAt pageSize cfg (m % cfg.bufferCount.toNat) (mpsWalk pageSize cfg.first (m % cfg.bufferCount.toNat)) :=
    mpsWalk_standsAt (fun i hi => hs.testAt (hf.test i (by omega))) (by omega) (Or.inr (by omega))
      (Or.inr (by rw [hs.place]; exact (hblock _ hj).1))
  rw [mpsWalk_mod (by omega) m, BitVec.lt_def, hst.blockIndex, hs.place]
  exact (hblock _ hj).2

theorem counted_fits (hv : v.bufferCount = 0 ∧ v.blockCount = 0) (hn : n < 2 ^ 32) (hpos : 0 < n) (hf : Fitting pageSize v n)
    (m : Nat) : (mpsWalk pageSize (mpsWalk pageSize v.first n).counted.first m).blockOffset.toNat + v.bufferSize.toNat ≤
      v.blockSize.toNat := by
  obtain ⟨hs, hcount⟩ := @counted_sameSizes pageSize v n hv hn
  have hlt : m % (mpsWalk pageSize v.first n).counted.bufferCount.toNat < n := by
    rw [hcount]
    exact Nat.mod_lt _ hpos
  rw [mpsWalk_mod (by omega) m, mpsWalk_offset hs hv.1 (by omega),
    (virtual_standsAt hv (by omega) fun i hi => hf.test i (by omega)).blockOffset]
  exact hf.fits _ hlt

/-- The sizes whose buffers fit: every block that the ring opens has room for a buffer, and the 32-bit test sees the end of every
block that the ring leaves. -/
structure Packable (pageSize : U32) (cfg : NdpCtrlCfg) : Prop where
  room : ∀ b, buffersBefore cfg.blockSize.toNat cfg.bufferSize.toNat cfg.initialOffset.toNat pageSize.toNat b < cfg.bufferCount.toNat →
    Roomy cfg.blockSize.toNat cfg.bufferSize.toNat cfg.initialOffset.toNat pageSize.toNat b
  test : ∀ b, buffersBefore cfg.blockSize.toNat cfg.bufferSize.toNat cfg.initialOffset.toNat pageSize.toNat (b + 1) <
      cfg.bufferCount.toNat →
    blockEnd cfg.blockSize.toNat cfg.bufferSize.toNat (blockStart cfg.blockSize.toNat cfg.bufferSize.toNat
      cfg.initialOffset.toNat pageSize.toNat b) + cfg.bufferSize.toNat < 2 ^ 32

theorem counted_inside_iff (hv : v.bufferCount = 0 ∧ v.blockCount = 0) (hn : n + 2 < 2 ^ 32) (hpos : 0 < v.bufferSize.toNat)
    (hcfg : (mpsWalk pageSize v.first (n + 2)).counted = cfg) (h0 : 0 < cfg.blockCount.toNat) :
    (∀ m, (mpsWalk pageSize cfg.first m).blockIndex < cfg.blockCount ∧
      (mpsWalk pageSize cfg.first m).blockOffset.toNat + cfg.bufferSize.toNat ≤ cfg.blockSize.toNat) ↔ Packable pageSize cfg := by
  obtain ⟨hs, hcount⟩ := @counted_sameSizes pageSize v (n + 2) hv hn
  rw [hcfg] at hs hcount
  have hfits : Fitting pageSize v (n + 2) ↔ Packable pageSize cfg := by
    rw [fitting_iff hpos, ← hs.bufferSize, ← hs.blockSize, ← hs.initialOffset, ← hcount]
    exact ⟨fun h => ⟨h.1, h.2⟩, fun h => ⟨h.room, h.test⟩⟩
  rw [← hfits, hs.bufferSize, hs.blockSize]
  constructor
  · intro h
    refine fitting_of_inside hv hn fun m => ?_
    rw [hcfg]
    exact (h m).2
  · intro hf m
    have hblock := counted_block_lt hv hn hpos hf (hcfg ▸ h0) m
    have hfit := counted_fits hv hn (Nat.succ_pos _) hf m
    rw [hcfg] at hblock hfit
    exact ⟨hblock, hfit⟩

end Counted

/-! ## Accepted requests -/

/-- `PAGE_SIZE` is a power of two, and at least 4 KiB. -/
def IsPageSize (pageSize : U32) : Prop := ∃ k, 12 ≤ k ∧ pageSize.toNat = 2 ^ k

theorem IsPageSize.bounds (h : IsPageSize pageSize) : 4096 ≤ pageSize.toNat ∧ pageSize.toNat ≤ 2 ^ 31 := by
  obtain ⟨k, hk, he⟩ := h
  have hlt := pageSize.isLt
  rw [he] at hlt ⊢
  have hk' : k < 32 := (Nat.pow_lt_pow_iff_right (by norm_num)).1 hlt
  exact ⟨Nat.pow_le_pow_right (n := 2) (by norm_num) hk, Nat.pow_le_pow_right (by norm_num) (by omega)⟩

theorem reqBlockUpdate_accepted (hpage : IsPageSize pageSize) {resize : RingRequest → Int} {fuel : Nat}
    {ctrl ctrl' : RingRequest} {doResize : Bool} {bufferSize bufferCount initialOffset : U64}
    (h : ndpCtrlMedusaReqBlockUpdate pageSize resize fuel ctrl doResize bufferSize bufferCount initialOffset =
      some (ctrl', 0)) :
    0 < bufferSize.toNat ∧ 2 ≤ bufferCount.toNat ∧
      mpsRequestCfg pageSize fuel ctrl.reqBlockSize bufferSize bufferCount initialOffset = some ctrl'.cfg := by
  unfold ndpCtrlMedusaReqBlockUpdate at h
  split at h
  · cases h
  rename_i hchk
  rw [not_or] at hchk
  rcases hc : mpsRequestCfg pageSize fuel ctrl.reqBlockSize bufferSize bufferCount initialOffset with _ | cfg
  · rw [hc] at h; cases h
  rw [hc, Option.map_some, Option.some.injEq] at h
  refine ⟨?_, ?_, congrArg some (congrArg RingRequest.cfg (Prod.mk.inj h).1)⟩
  · exact Nat.pos_of_ne_zero fun h0 => hchk.1 (BitVec.eq_of_toNat_eq h0)
  · have hmin : (minBufferItems pageSize).toNat = pageSize.toNat / 4 := BitVec.toNat_udiv ..
    have := hchk.2
    rw [BitVec.lt_def, BitVec.toNat_setWidth, Nat.mod_eq_of_lt (lt_trans (minBufferItems pageSize).isLt (by norm_num)),
      hmin] at this
    have := hpage.bounds.1
    omega

theorem reqBlockUpdate_stored {resize : RingRequest → Int} {fuel : Nat} {ctrl : RingRequest} {doResize : Bool}
    {bufferSize bufferCount initialOffset : U64}
    (hchk : ¬ (bufferSize = 0 ∨ bufferCount < (minBufferItems pageSize).setWidth 64)) (hn : bufferCount.toNat < 2 ^ 32)
    (hfuel : bufferCount.toNat ≤ fuel) (hr : ∀ r, resize r = 0) :
    ∃ ctrl', ndpCtrlMedusaReqBlockUpdate pageSize resize fuel ctrl doResize bufferSize bufferCount initialOffset =
        some (ctrl', 0) ∧
      ctrl'.cfg = (mpsWalk pageSize (virtualCfg ctrl.reqBlockSize bufferSize initialOffset).first bufferCount.toNat).counted := by
  unfold ndpCtrlMedusaReqBlockUpdate
  rw [if_neg hchk, mpsRequestCfg_eq_some.2 ⟨hn, hfuel, rfl⟩, Option.map_some]
  simp only [hr, ite_self]
  exact ⟨_, rfl, rfl⟩

/-- The ring of an accepted request is usable exactly if its sizes are suitable. -/
theorem accepted_usable_iff (hpage : IsPageSize pageSize) {resize : RingRequest → Int} {fuel : Nat}
    {ctrl ctrl' : RingRequest} {doResize : Bool} {bufferSize bufferCount initialOffset : U64}
    (h : ndpCtrlMedusaReqBlockUpdate pageSize resize fuel ctrl doResize bufferSize bufferCount initialOffset =
      some (ctrl', 0)) :
    Usable pageSize ctrl'.cfg bufferSize ↔ Suitable pageSize ctrl.reqBlockSize bufferSize bufferCount initialOffset := by
  obtain ⟨hpos, hcount, hcfg⟩ := reqBlockUpdate_accepted hpage h
  obtain ⟨hn, _, hcfg⟩ := mpsRequestCfg_eq_some.1 hcfg
  obtain ⟨hp1, hp2⟩ := hpage.bounds
  let v := virtualCfg ctrl.reqBlockSize bufferSize initialOffset
  have hv : v.bufferCount = 0 ∧ v.blockCount = 0 := ⟨rfl, rfl⟩
  have hS : v.blockSize.toNat = ctrl.reqBlockSize.toNat % 2 ^ 32 := BitVec.toNat_setWidth ..
  have hI : v.initialOffset.toNat = initialOffset.toNat % 2 ^ 32 := BitVec.toNat_setWidth ..
  have hBmod : v.bufferSize.toNat = bufferSize.toNat % 2 ^ 32 := BitVec.toNat_setWidth ..
  obtain ⟨hs, hcnt⟩ := @counted_sameSizes pageSize v bufferCount.toNat hv hn
  obtain ⟨n, hn2⟩ : ∃ n, bufferCount.toNat = n + 2 := ⟨bufferCount.toNat - 2, by omega⟩
  have hlen : ∀ blocks m, (field 32 16 ((mpsWalk pageSize ctrl'.cfg.first m).rxDesc blocks)).toNat =
      bufferSize.toNat % 2 ^ 16 := by
    intro blocks m
    rw [← hcfg, rxDesc_len, (mpsWalk_index (by rw [hcnt]; omega) m).1, hs.bufferSize, hBmod]
    omega
  have hsize : ctrl'.cfg.blockSize.toNat = v.blockSize.toNat := by rw [← hcfg, hs.blockSize]
  by_cases h16 : bufferSize.toNat < 2 ^ 16
  · have hB : v.bufferSize.toNat = bufferSize.toNat := by rw [hBmod]; exact Nat.mod_eq_of_lt (by omega)
    have hfit := @fitting_iff pageSize v bufferCount.toNat (by omega)
    constructor
    · intro hu
      have hf : Fitting pageSize v bufferCount.toNat := by
        refine fitting_of_inside hv hn fun m => ?_
        rw [hcfg, hB, ← hsize]
        exact hu.inside m
      obtain ⟨hr, ht⟩ := hfit.1 hf
      refine ⟨h16, ?_, ?_, ?_⟩
      · rw [← hS, ← hI, ← hB]; exact hr
      · rw [← hS, ← hI, ← hB]; exact ht
      · rw [← hS, ← hI, ← hB, hn2]
        rw [hn2] at hf
        refine ringBlocks_lt_of_counted hv (by omega) ⟨by omega, hp2⟩ (by omega) hf ?_
        have h0 := hu.block 0
        rw [← hcfg, hn2] at h0
        exact lt_of_le_of_lt (Nat.zero_le _) (BitVec.lt_def.1 h0)
    · intro hsuit
      have hf : Fitting pageSize v bufferCount.toNat := by
        refine hfit.2 ⟨?_, ?_⟩
        · rw [hS, hI, hB]; exact hsuit.room
        · rw [hS, hI, hB]; exact hsuit.test
      refine ⟨fun m => ?_, fun m => ?_, fun blocks m => ?_⟩
      · rw [hsize, ← hB, ← hcfg]
        exact counted_fits hv hn (by omega) hf m
      · rw [← hcfg, hn2]
        rw [hn2] at hf
        refine counted_block_lt hv (by omega) (by omega) hf (counted_pos hv (by omega) (by omega) hf ?_) m
        rw [hS, hI, hB, ← hn2]
        exact hsuit.blocks
      · rw [hlen, Nat.mod_eq_of_lt h16]
  · -- the length does not fit the descriptor
    refine iff_of_false (fun hu => ?_) fun hsuit => h16 hsuit.len
    have := hu.len (fun _ => 0) 0
    rw [hlen] at this
    omega

theorem roomy_of_sizes {S B I P : Nat} (hp : 0 < P) (hfirst : I + B ≤ S) (hnext : B + P ≤ S) (b : Nat) : Roomy S B I P b := by
  unfold Roomy
  cases b with
  | zero => exact hfirst
  | succ b =>
    rw [blockStart]
    have := Nat.mod_lt (blockEnd S B (blockStart S B I P b)) hp
    omega

theorem blockEnd_le (S B n : Nat) : blockEnd S B n ≤ S := Nat.sub_le _ _

theorem Packable.of_sizes (hp : 0 < pageSize.toNat) (hS : cfg.blockSize.toNat + cfg.bufferSize.toNat < 2 ^ 32)
    (hfirst : cfg.initialOffset.toNat + cfg.bufferSize.toNat ≤ cfg.blockSize.toNat)
    (hnext : cfg.bufferSize.toNat + pageSize.toNat ≤ cfg.blockSize.toNat) : Packable pageSize cfg :=
  ⟨fun b _ => roomy_of_sizes hp hfirst hnext b, fun _ _ => lt_of_le_of_lt (Nat.add_le_add_right (blockEnd_le _ _ _) _) hS⟩

theorem Suitable.of_sizes {reqBlockSize bufferSize bufferCount initialOffset : U64} (hp : 0 < pageSize.toNat)
    (hlen : bufferSize.toNat < 2 ^ 16) (hS : reqBlockSize.toNat + bufferSize.toNat < 2 ^ 32)
    (hfirst : initialOffset.toNat + bufferSize.toNat ≤ reqBlockSize.toNat)
    (hnext : bufferSize.toNat + pageSize.toNat ≤ reqBlockSize.toNat) (hn : bufferCount.toNat + 1 < 2 ^ 32) :
    Suitable pageSize reqBlockSize bufferSize bufferCount initialOffset := by
  have hSm : reqBlockSize.toNat % 2 ^ 32 = reqBlockSize.toNat := Nat.mod_eq_of_lt (by omega)
  have hIm : initialOffset.toNat % 2 ^ 32 = initialOffset.toNat := Nat.mod_eq_of_lt (by omega)
  constructor
  case len => exact hlen
  case room =>
    rw [hSm, hIm]
    exact fun b _ => roomy_of_sizes hp hfirst hnext b
  case test =>
    rw [hSm, hIm]
    exact fun b _ => lt_of_le_of_lt (Nat.add_le_add_right (blockEnd_le _ _ _) _) hS
  case blocks => exact lt_of_le_of_lt (le_trans ringBlocks_le (Nat.succ_le_succ (place_block_le _))) hn

/-- A controller before its first request, in a channel with blocks of 4 MiB. -/
def freshRequest : RingRequest := ⟨⟨0, 0, 0, 0, 0⟩, 1, 0x400000⟩

/-- The default ring: buffers of 4 KiB from offset 64 on. -/
theorem accepted_usable_default : ∃ ctrl',
    ndpCtrlMedusaReqBlockUpdate 4096 (fun _ => 0) 1024 freshRequest false 4096 1024 64 = some (ctrl', 0) ∧
      Usable 4096 ctrl'.cfg 4096 := by
  obtain ⟨ctrl', h, _⟩ := @reqBlockUpdate_stored 4096 (fun _ => 0) 1024 freshRequest false 4096 1024 64 (by decide)
    (by decide) (by decide) fun _ => rfl
  have hsuit : Suitable 4096 freshRequest.reqBlockSize 4096 1024 64 :=
    Suitable.of_sizes (by decide) (by decide) (by decide) (by decide) (by decide) (by decide)
  exact ⟨ctrl', h, (accepted_usable_iff ⟨12, le_rfl, rfl⟩ h).2 hsuit⟩

/-- Accepted, but not usable: buffers of 64 KiB, whose descriptors carry the length 0, and buffers of
2 KiB from offset 8 MiB on in blocks of 4 MiB. -/
theorem accepted_unusable :
    (∃ ctrl', ndpCtrlMedusaReqBlockUpdate 4096 (fun _ => 0) 1024 freshRequest true 0x10000 1024 64 = some (ctrl', 0) ∧
      ¬ Usable 4096 ctrl'.cfg 0x10000) ∧
    ∃ ctrl', ndpCtrlMedusaReqBlockUpdate 4096 (fun _ => 0) 1024 freshRequest true 2048 1024 0x800000 = some (ctrl', 0) ∧
      ¬ Usable 4096 ctrl'.cfg 2048 := by
  constructor
  · obtain ⟨ctrl', h, hcfg⟩ := @reqBlockUpdate_stored 4096 (fun _ => 0) 1024 freshRequest true 0x10000 1024 64 (by decide)
      (by decide) (by decide) fun _ => rfl
    obtain ⟨hs, _⟩ := @counted_sameSizes 4096 (virtualCfg freshRequest.reqBlockSize 0x10000 64) 1024 ⟨rfl, rfl⟩ (by decide)
    refine ⟨ctrl', h, fun hu => ?_⟩
    have hlen := hu.len (fun _ => 0) 0
    rw [rxDesc_len] at hlen
    have hsize : ctrl'.cfg.bufferSize = 0x10000 := by rw [hcfg]; exact hs.bufferSize
    rw [show (mpsWalk 4096 ctrl'.cfg.first 0).cfg.bufferSize = ctrl'.cfg.bufferSize from rfl, hsize] at hlen
    exact absurd hlen (by decide)
  · obtain ⟨ctrl', h, hcfg⟩ := @reqBlockUpdate_stored 4096 (fun _ => 0) 1024 freshRequest true 2048 1024 0x800000 (by decide)
      (by decide) (by decide) fun _ => rfl
    obtain ⟨hs, _⟩ := @counted_sameSizes 4096 (virtualCfg freshRequest.reqBlockSize 2048 0x800000) 1024 ⟨rfl, rfl⟩ (by decide)
    refine ⟨ctrl', h, fun hu => ?_⟩
    have hin := hu.inside 0
    have hoff : ctrl'.cfg.initialOffset = 0x800000 := by rw [hcfg]; exact hs.initialOffset
    have hsize : ctrl'.cfg.blockSize = 0x400000 := by rw [hcfg]; exact hs.blockSize
    rw [show (mpsWalk 4096 ctrl'.cfg.first 0).blockOffset = ctrl'.cfg.initialOffset from rfl, hoff, hsize] at hin
    exact absurd hin (by decide)

end NdkSw.Medusa

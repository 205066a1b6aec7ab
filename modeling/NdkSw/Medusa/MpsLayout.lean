/-
The ring layout is sound. Both walks of the code, the virtual one that counts the blocks and the
wrapping one over the allocated ring, follow the packing of `Ring.place`; they differ only in the
block that the ring folds.
-/
import NdkSw.Medusa.Mps

namespace NdkSw.Medusa

open Ndp Ring

variable {pageSize : U32} {cfg v : NdpCtrlCfg} {s : MpsState} {bufferCount : U64} {j : Nat}

/-! ## The walk follows the packing -/

/-- Sizes for which no 32-bit expression of the walk wraps: the first buffer fits its block, and so
does one that starts anywhere in the first page. -/
structure Fits (pageSize : U32) (cfg : NdpCtrlCfg) : Prop where
  page : 0 < pageSize.toNat
  first : cfg.initialOffset.toNat + cfg.bufferSize.toNat ≤ cfg.blockSize.toNat
  next : cfg.bufferSize.toNat + pageSize.toNat ≤ cfg.blockSize.toNat
  wrap : cfg.blockSize.toNat + cfg.bufferSize.toNat < 2 ^ 32

/-- The packing of a configuration. -/
def NdpCtrlCfg.place (pageSize : U32) (cfg : NdpCtrlCfg) (j : Nat) : Nat × Nat :=
  Ring.place cfg.blockSize.toNat cfg.bufferSize.toNat cfg.initialOffset.toNat pageSize.toNat j

/-- The walk stands at buffer `j` of the packing. -/
structure StandsAt (pageSize : U32) (cfg : NdpCtrlCfg) (j : Nat) (s : MpsState) : Prop where
  cfg_eq : s.cfg = cfg
  bufferIndex : s.bufferIndex.toNat = j
  blockOffset : s.blockOffset.toNat = (cfg.place pageSize j).2
  blockIndex : s.blockIndex.toNat = foldBlock cfg.blockCount.toNat (cfg.place pageSize j).1

theorem first_standsAt (cfg : NdpCtrlCfg) : StandsAt pageSize cfg 0 cfg.first := by
  refine ⟨rfl, rfl, rfl, ?_⟩
  show 0 = foldBlock cfg.blockCount.toNat 0
  unfold foldBlock
  split <;> rfl

theorem StandsAt.eq {s' : MpsState} (h : StandsAt pageSize cfg j s) (h' : StandsAt pageSize cfg j s') : s = s' := by
  cases s with
  | mk c o b i =>
    cases s' with
    | mk c' o' b' i' =>
      have h1 : c = c' := h.cfg_eq.trans h'.cfg_eq.symm
      have h2 : o = o' := BitVec.eq_of_toNat_eq (h.blockOffset.trans h'.blockOffset.symm)
      have h3 : b = b' := BitVec.eq_of_toNat_eq (h.blockIndex.trans h'.blockIndex.symm)
      have h4 : i = i' := BitVec.eq_of_toNat_eq (h.bufferIndex.trans h'.bufferIndex.symm)
      rw [h1, h2, h3, h4]

/-- The test for the end of the block does not wrap at buffer `j`. -/
def TestAt (pageSize : U32) (cfg : NdpCtrlCfg) (j : Nat) : Prop :=
  (cfg.place pageSize j).2 + cfg.bufferSize.toNat + cfg.bufferSize.toNat < 2 ^ 32

theorem Fits.testAt (hf : Fits pageSize cfg) (j : Nat) : TestAt pageSize cfg j := by
  have hfit : (cfg.place pageSize j).2 + cfg.bufferSize.toNat ≤ cfg.blockSize.toNat :=
    place_fits hf.first hf.next hf.page j
  have hwrap := hf.wrap
  unfold TestAt
  omega

/-- One increment that does not wrap the ring. A block count of 0 stands for the virtual ring. -/
theorem StandsAt.inc (ht : TestAt pageSize cfg j) (h : StandsAt pageSize cfg j s) (hj : j + 1 < 2 ^ 32)
    (hn : j + 1 ≠ cfg.bufferCount.toNat) (hc : cfg.blockCount.toNat = 0 ∨ (cfg.place pageSize (j + 1)).1 ≤ cfg.blockCount.toNat) :
    StandsAt pageSize cfg (j + 1) (ndpCtrlMedusaMpsInc pageSize s).1 ∧ (ndpCtrlMedusaMpsInc pageSize s).2 ≠ -1 := by
  unfold TestAt at ht
  have hbl : (cfg.place pageSize j).1 ≤ j := place_block_le j
  have hidx := index_succ h.bufferIndex hj
  have hoff : (s.blockOffset + cfg.bufferSize).toNat = (cfg.place pageSize j).2 + cfg.bufferSize.toNat := by
    rw [BitVec.toNat_add, h.blockOffset]
    exact Nat.mod_eq_of_lt (by omega)
  have hend : (s.blockOffset + cfg.bufferSize + cfg.bufferSize).toNat =
      (cfg.place pageSize j).2 + cfg.bufferSize.toNat + cfg.bufferSize.toNat := by
    rw [BitVec.toNat_add, hoff]
    exact Nat.mod_eq_of_lt (by omega)
  have hne : s.bufferIndex + 1 ≠ cfg.bufferCount := fun he => hn (by rw [← he, hidx])
  unfold ndpCtrlMedusaMpsInc
  simp only [h.cfg_eq, if_neg hne]
  rcases place_succ (S := cfg.blockSize.toNat) (B := cfg.bufferSize.toNat) (I := cfg.initialOffset.toNat)
    (P := pageSize.toNat) j with ⟨hle, hp⟩ | ⟨hgt, hp⟩
  · -- the next buffer fits into the block
    have hng : ¬ s.blockOffset + cfg.bufferSize + cfg.bufferSize > cfg.blockSize := by
      intro hg
      have := BitVec.lt_def.1 hg
      rw [hend] at this
      exact absurd this (Nat.not_lt.2 hle)
    rw [if_neg hng]
    refine ⟨⟨rfl, hidx, ?_, ?_⟩, (by decide : (0 : Int) ≠ -1)⟩
    · show (s.blockOffset + cfg.bufferSize).toNat = (cfg.place pageSize (j + 1)).2
      rw [hoff]; unfold NdpCtrlCfg.place; rw [hp]
    · show s.blockIndex.toNat = foldBlock _ (cfg.place pageSize (j + 1)).1
      rw [h.blockIndex]; unfold NdpCtrlCfg.place; rw [hp]
  · have hg : s.blockOffset + cfg.bufferSize + cfg.bufferSize > cfg.blockSize :=
      BitVec.lt_def.2 (by rw [hend]; exact hgt)
    have hp1 : (cfg.place pageSize (j + 1)).1 = (cfg.place pageSize j).1 + 1 := by
      unfold NdpCtrlCfg.place; rw [hp]
    -- before the jump the block is not folded yet
    have hblk : (s.blockIndex + 1).toNat = (cfg.place pageSize j).1 + 1 := by
      have hnf : foldBlock cfg.blockCount.toNat (cfg.place pageSize j).1 = (cfg.place pageSize j).1 := by
        unfold foldBlock
        split
        · omega
        · rfl
      rw [BitVec.toNat_add, h.blockIndex, hnf, show (1 : U32).toNat = 1 from rfl]
      exact Nat.mod_eq_of_lt (by omega)
    have hoffset : ((s.blockOffset + cfg.bufferSize) % pageSize).toNat = (cfg.place pageSize (j + 1)).2 := by
      rw [BitVec.toNat_umod, hoff]; unfold NdpCtrlCfg.place; rw [hp]
    rw [if_pos hg]
    refine ⟨?_, (by decide : (1 : Int) ≠ -1)⟩
    by_cases hfold : s.blockIndex + 1 = cfg.blockCount
    · rw [if_pos hfold]
      refine ⟨rfl, hidx, hoffset, ?_⟩
      show 0 = foldBlock cfg.blockCount.toNat (cfg.place pageSize (j + 1)).1
      rw [hp1, ← hblk, hfold]
      exact (if_pos rfl).symm
    · rw [if_neg hfold]
      refine ⟨rfl, hidx, hoffset, ?_⟩
      show (s.blockIndex + 1).toNat = foldBlock cfg.blockCount.toNat (cfg.place pageSize (j + 1)).1
      rw [hp1, hblk]
      refine (if_neg fun he => hfold (BitVec.eq_of_toNat_eq ?_)).symm
      rw [hblk, he]

theorem mpsWalk_standsAt (ht : ∀ i < j, TestAt pageSize cfg i) (hj : j < 2 ^ 32)
    (hn : cfg.bufferCount.toNat = 0 ∨ j < cfg.bufferCount.toNat)
    (hc : cfg.blockCount.toNat = 0 ∨ (cfg.place pageSize j).1 ≤ cfg.blockCount.toNat) :
    StandsAt pageSize cfg j (mpsWalk pageSize cfg.first j) := by
  induction j with
  | zero => exact first_standsAt cfg
  | succ j ih =>
    have hmono : (cfg.place pageSize j).1 ≤ (cfg.place pageSize (j + 1)).1 := place_block_mono (Nat.le_succ j)
    have hs := ih (fun i hi => ht i (by omega)) (by omega) (by omega) (by omega)
    exact (hs.inc (ht j (Nat.lt_succ_self j)) hj (by omega) hc).1

theorem StandsAt.wrap (h : StandsAt pageSize cfg j s) (hn : j + 1 = cfg.bufferCount.toNat) :
    ndpCtrlMedusaMpsInc pageSize s = (cfg.first, -1) :=
  mpsInc_wrap h.cfg_eq (by rw [h.bufferIndex]; exact hn)

/-! ## Laps -/

/-- A configuration whose block count is that of its packing. -/
structure Laid (pageSize : U32) (cfg : NdpCtrlCfg) : Prop extends Fits pageSize cfg where
  size : 0 < cfg.bufferSize.toNat
  count : 0 < cfg.bufferCount.toNat
  blocks : cfg.blockCount.toNat = ringBlocks cfg.blockSize.toNat cfg.bufferSize.toNat cfg.initialOffset.toNat
    pageSize.toNat cfg.bufferCount.toNat

theorem Laid.place_le (hl : Laid pageSize cfg) (hj : j ≤ cfg.bufferCount.toNat) : (cfg.place pageSize j).1 ≤ cfg.blockCount.toNat := by
  rw [hl.blocks]; exact place_block_le_ringBlocks hj

theorem Laid.walk (hl : Laid pageSize cfg) (m : Nat) :
    StandsAt pageSize cfg (m % cfg.bufferCount.toNat) (mpsWalk pageSize cfg.first m) := by
  have hn := hl.count
  induction m with
  | zero => rw [Nat.zero_mod]; exact first_standsAt cfg
  | succ m ih =>
    have hlt := Nat.mod_lt m hn
    have hisLt := cfg.bufferCount.isLt
    by_cases hw : m % cfg.bufferCount.toNat + 1 = cfg.bufferCount.toNat
    · have h0 : (m + 1) % cfg.bufferCount.toNat = 0 := by rw [← Nat.mod_add_mod, hw, Nat.mod_self]
      rw [h0, mpsWalk, ih.wrap hw]
      exact first_standsAt cfg
    · rw [succ_mod_of_lt (by omega)]
      exact (ih.inc (hl.toFits.testAt _) (by omega) hw (Or.inr (hl.place_le (by omega)))).1

theorem Laid.walk_eq_first (hl : Laid pageSize cfg) {m : Nat} (h : m % cfg.bufferCount.toNat = 0) :
    mpsWalk pageSize cfg.first m = cfg.first :=
  StandsAt.eq (h ▸ hl.walk m) (first_standsAt cfg)

/-- The bytes of two buffers have nothing in common. -/
def MpsState.Apart (s t : MpsState) : Prop :=
  s.blockIndex ≠ t.blockIndex ∨ s.blockOffset.toNat + s.cfg.bufferSize.toNat ≤ t.blockOffset.toNat ∨
    t.blockOffset.toNat + t.cfg.bufferSize.toNat ≤ s.blockOffset.toNat

theorem MpsState.Apart.symm {t : MpsState} (h : s.Apart t) : t.Apart s := by
  rcases h with h | h | h
  · exact Or.inl (Ne.symm h)
  · exact Or.inr (Or.inr h)
  · exact Or.inr (Or.inl h)

theorem StandsAt.apart (hl : Laid pageSize cfg) {i : Nat} {t : MpsState} (hs : StandsAt pageSize cfg i s) (ht : StandsAt pageSize cfg j t)
    (hij : i < j) (hj : j < cfg.bufferCount.toNat) : s.Apart t := by
  have hd := ring_disjoint (S := cfg.blockSize.toNat) (I := cfg.initialOffset.toNat) (P := pageSize.toNat) hl.size hij hj
  unfold MpsState.Apart
  rw [hs.blockOffset, ht.blockOffset, hs.cfg_eq, ht.cfg_eq, BitVec.toNat_ne_iff_ne.symm, hs.blockIndex, ht.blockIndex, hl.blocks]
  exact hd

/-- What a sound ring layout gives to every walk: `blockIndex` stays below the block count, every
buffer inside its block, and the buffers of one lap are `bufferCount` many and apart. -/
structure Sound (pageSize : U32) (cfg : NdpCtrlCfg) : Prop where
  block : ∀ m, (mpsWalk pageSize cfg.first m).blockIndex < cfg.blockCount
  inside : ∀ m, (mpsWalk pageSize cfg.first m).blockOffset.toNat + cfg.bufferSize.toNat ≤ cfg.blockSize.toNat
  apart : ∀ m m', m % cfg.bufferCount.toNat ≠ m' % cfg.bufferCount.toNat →
    (mpsWalk pageSize cfg.first m).Apart (mpsWalk pageSize cfg.first m')
  lap : ∀ m, mpsWalk pageSize cfg.first (m + cfg.bufferCount.toNat) = mpsWalk pageSize cfg.first m
  back : ∀ m, (ndpCtrlMedusaMpsInc pageSize (mpsWalk pageSize cfg.first m)).2 = -1 ↔
    (m + 1) % cfg.bufferCount.toNat = 0
  first : ∀ l, mpsWalk pageSize cfg.first (l * cfg.bufferCount.toNat) = cfg.first

theorem Laid.sound (hl : Laid pageSize cfg) : Sound pageSize cfg where
  block m := by
    rw [BitVec.lt_def, (hl.walk m).blockIndex, hl.blocks]
    exact foldBlock_lt hl.size hl.count (Nat.le_of_lt (Nat.mod_lt _ hl.count))
  inside m := by
    rw [(hl.walk m).blockOffset]
    exact place_fits hl.first hl.next hl.page _
  apart m m' hne := by
    rcases Nat.lt_or_gt_of_ne hne with hlt | hlt
    · exact (hl.walk m).apart hl (hl.walk m') hlt (Nat.mod_lt _ hl.count)
    · exact ((hl.walk m').apart hl (hl.walk m) hlt (Nat.mod_lt _ hl.count)).symm
  lap m := by
    have h := hl.walk (m + cfg.bufferCount.toNat)
    rw [Nat.add_mod_right] at h
    exact h.eq (hl.walk m)
  back := mpsWalk_ret hl.count
  first l := hl.walk_eq_first (Nat.mul_mod_left _ _)

/-! ## The computed configuration -/

theorem virtual_index {v : NdpCtrlCfg} (hn : v.bufferCount = 0) {m : Nat} (hm : m < 2 ^ 32) :
    (mpsWalk pageSize v.first m).cfg = v ∧ (mpsWalk pageSize v.first m).bufferIndex.toNat = m := by
  induction m with
  | zero => exact ⟨rfl, rfl⟩
  | succ m ih =>
    obtain ⟨hc, hi⟩ := ih (by omega)
    have hidx := index_succ hi hm
    have hne : (mpsWalk pageSize v.first m).bufferIndex + 1 ≠ (mpsWalk pageSize v.first m).cfg.bufferCount := by
      intro he
      rw [he, hc, hn] at hidx
      exact absurd hidx (Nat.succ_ne_zero m).symm
    rw [mpsWalk, mpsInc_cfg, (mpsInc_step hne).1]
    exact ⟨hc, hidx⟩

theorem index_lt_iff (bufferCount : U64) : s.bufferIndex.setWidth 64 < bufferCount ↔ s.bufferIndex.toNat < bufferCount.toNat := by
  rw [BitVec.lt_def, BitVec.toNat_setWidth, Nat.mod_eq_of_lt (lt_trans s.bufferIndex.isLt (by norm_num))]

theorem mpsWalkUntil_eq (hn : v.bufferCount = 0) (hb : bufferCount.toNat < 2 ^ 32) (fuel j : Nat) (hj : j ≤ bufferCount.toNat) :
    mpsWalkUntil pageSize bufferCount fuel (mpsWalk pageSize v.first j) =
      if bufferCount.toNat ≤ j + fuel then some (mpsWalk pageSize v.first bufferCount.toNat) else none := by
  have hlt : ∀ i ≤ bufferCount.toNat,
      ((mpsWalk pageSize v.first i).bufferIndex.setWidth 64 < bufferCount ↔ i < bufferCount.toNat) := by
    intro i hi
    rw [index_lt_iff, (virtual_index hn (by omega)).2]
  induction fuel generalizing j with
  | zero =>
    rw [mpsWalkUntil]
    by_cases hjn : j < bufferCount.toNat
    · rw [if_pos ((hlt j hj).2 hjn), if_neg (by omega)]
    · rw [if_neg (mt (hlt j hj).1 hjn), if_pos (by omega), show j = bufferCount.toNat by omega]
  | succ fuel ih =>
    rw [mpsWalkUntil]
    by_cases hjn : j < bufferCount.toNat
    · rw [if_pos ((hlt j hj).2 hjn)]
      have hrest := ih (j + 1) hjn
      rw [mpsWalk] at hrest
      rw [hrest, show j + 1 + fuel = j + (fuel + 1) by omega]
    · rw [if_neg (mt (hlt j hj).1 hjn), if_pos (by omega), show j = bufferCount.toNat by omega]

theorem mpsWalkUntil_endless (hb : 2 ^ 32 ≤ bufferCount.toNat) (fuel : Nat) (s : MpsState) :
    mpsWalkUntil pageSize bufferCount fuel s = none := by
  have hlt : ∀ s : MpsState, s.bufferIndex.setWidth 64 < bufferCount :=
    fun s => (index_lt_iff bufferCount).2 (lt_of_lt_of_le s.bufferIndex.isLt hb)
  induction fuel generalizing s with
  | zero => rw [mpsWalkUntil, if_pos (hlt s)]
  | succ fuel ih => rw [mpsWalkUntil, if_pos (hlt s), ih]

def virtualCfg (reqBlockSize bufferSize initialOffset : U64) : NdpCtrlCfg :=
  ⟨0, bufferSize.setWidth 32, 0, reqBlockSize.setWidth 32, initialOffset.setWidth 32⟩

/-- The configuration that comes out of the walk through the virtual ring. -/
def MpsState.counted (s : MpsState) : NdpCtrlCfg :=
  { s.cfg with
    blockCount := (if s.blockOffset ≤ s.cfg.initialOffset then s.blockIndex - 1 else s.blockIndex) + 1
    bufferCount := s.bufferIndex }

theorem counted_sizes (h : s.cfg = v) :
    s.counted.bufferSize = v.bufferSize ∧ s.counted.blockSize = v.blockSize ∧ s.counted.initialOffset = v.initialOffset := by
  subst h
  exact ⟨rfl, rfl, rfl⟩

theorem mpsRequestCfg_eq_some {fuel : Nat} {reqBlockSize bufferSize initialOffset : U64} :
    mpsRequestCfg pageSize fuel reqBlockSize bufferSize bufferCount initialOffset = some cfg ↔
      bufferCount.toNat < 2 ^ 32 ∧ bufferCount.toNat ≤ fuel ∧
        (mpsWalk pageSize (virtualCfg reqBlockSize bufferSize initialOffset).first bufferCount.toNat).counted = cfg := by
  have hrfl : mpsRequestCfg pageSize fuel reqBlockSize bufferSize bufferCount initialOffset =
      (mpsWalkUntil pageSize bufferCount fuel (mpsWalk pageSize (virtualCfg reqBlockSize bufferSize initialOffset).first 0)).map
        MpsState.counted := rfl
  rw [hrfl]
  by_cases hb : bufferCount.toNat < 2 ^ 32
  · rw [mpsWalkUntil_eq rfl hb fuel 0 (Nat.zero_le _), Nat.zero_add]
    by_cases hf : bufferCount.toNat ≤ fuel
    · rw [if_pos hf, Option.map_some, Option.some.injEq]
      simp only [hb, hf, true_and]
    · rw [if_neg hf]
      simp only [Option.map_none, reduceCtorEq, hf, false_and, and_false]
  · rw [mpsWalkUntil_endless (Nat.le_of_not_lt hb)]
    simp only [Option.map_none, reduceCtorEq, hb, false_and]

theorem counted_blocks (hc : v.blockCount = 0) {n : Nat} (hs : StandsAt pageSize v n s) (hn : n < 2 ^ 32) :
    s.counted.blockCount.toNat =
      ringBlocks v.blockSize.toNat v.bufferSize.toNat v.initialOffset.toNat pageSize.toNat n % 2 ^ 32 := by
  have hbl : (v.place pageSize n).1 < 2 ^ 32 := lt_of_le_of_lt (place_block_le n) hn
  have hoff : s.blockOffset ≤ s.cfg.initialOffset ↔ (v.place pageSize n).2 ≤ v.initialOffset.toNat := by
    rw [BitVec.le_def, hs.blockOffset, hs.cfg_eq]
  have hblk : s.blockIndex.toNat = (v.place pageSize n).1 := by
    rw [hs.blockIndex, hc]
    exact ite_eq_right_iff.2 fun h0 => h0.symm
  show ((if s.blockOffset ≤ s.cfg.initialOffset then s.blockIndex - 1 else s.blockIndex) + 1).toNat = _
  unfold ringBlocks
  by_cases hle : s.blockOffset ≤ s.cfg.initialOffset
  · rw [if_pos hle, BitVec.sub_add_cancel, hblk]
    refine Eq.trans ?_ (congrArg (· % 2 ^ 32) (if_pos (hoff.1 hle)).symm)
    exact (Nat.mod_eq_of_lt hbl).symm
  · rw [if_neg hle, BitVec.toNat_add, hblk]
    exact congrArg (· % 2 ^ 32) (if_neg (mt hoff.2 hle)).symm

/-- A request for a ring: the sizes fit their blocks, and no 32-bit value of the computation wraps. -/
structure Request (pageSize : U32) (reqBlockSize bufferSize bufferCount initialOffset : U64) : Prop where
  page : 0 < pageSize.toNat
  size : 1 ≤ bufferSize.toNat
  count : 1 ≤ bufferCount.toNat
  first : initialOffset.toNat + bufferSize.toNat ≤ reqBlockSize.toNat
  next : bufferSize.toNat + pageSize.toNat ≤ reqBlockSize.toNat
  wrap : reqBlockSize.toNat + bufferSize.toNat < 2 ^ 32
  wrapCount : bufferCount.toNat < 2 ^ 32
  wrapBlocks : ringBlocks reqBlockSize.toNat bufferSize.toNat initialOffset.toNat pageSize.toNat bufferCount.toNat < 2 ^ 32

theorem mpsRequestCfg_laid {reqBlockSize bufferSize initialOffset : U64}
    (h : Request pageSize reqBlockSize bufferSize bufferCount initialOffset) {fuel : Nat} (hfuel : bufferCount.toNat ≤ fuel) :
    ∃ cfg, mpsRequestCfg pageSize fuel reqBlockSize bufferSize bufferCount initialOffset = some cfg ∧ Laid pageSize cfg ∧
      cfg.bufferCount.toNat = bufferCount.toNat ∧ cfg.bufferSize.toNat = bufferSize.toNat ∧
      cfg.blockSize.toNat = reqBlockSize.toNat ∧ cfg.initialOffset.toNat = initialOffset.toNat := by
  have hfirst := h.first
  have hwrap := h.wrap
  have hcount := h.wrapCount
  have hset : ∀ x : U64, x.toNat < 2 ^ 32 → (x.setWidth 32 : U32).toNat = x.toNat := fun x hx => by
    rw [BitVec.toNat_setWidth]; exact Nat.mod_eq_of_lt hx
  have hS := hset reqBlockSize (by omega)
  have hB := hset bufferSize (by omega)
  have hI := hset initialOffset (by omega)
  let v := virtualCfg reqBlockSize bufferSize initialOffset
  have hf : Fits pageSize v := by
    refine ⟨h.page, ?_, ?_, ?_⟩
    · show (initialOffset.setWidth 32 : U32).toNat + (bufferSize.setWidth 32 : U32).toNat ≤ _
      rw [hB, hI]; exact hfirst.trans_eq hS.symm
    · show (bufferSize.setWidth 32 : U32).toNat + _ ≤ _
      rw [hB]; exact h.next.trans_eq hS.symm
    · show (reqBlockSize.setWidth 32 : U32).toNat + (bufferSize.setWidth 32 : U32).toNat < _
      rw [hS, hB]; exact hwrap
  have hst : StandsAt pageSize v bufferCount.toNat (mpsWalk pageSize v.first bufferCount.toNat) :=
    mpsWalk_standsAt (fun i _ => hf.testAt i) hcount (Or.inl rfl) (Or.inl rfl)
  have hblocks := counted_blocks (rfl : v.blockCount = 0) hst hcount
  obtain ⟨hb, hs, hi⟩ := counted_sizes hst.cfg_eq
  have hn : (mpsWalk pageSize v.first bufferCount.toNat).counted.bufferCount.toNat = bufferCount.toNat := hst.bufferIndex
  refine ⟨_, mpsRequestCfg_eq_some.2 ⟨hcount, hfuel, rfl⟩, ⟨⟨h.page, ?_, ?_, ?_⟩, ?_, ?_, ?_⟩, hn, ?_, ?_, ?_⟩
  · rw [hb, hs, hi]; exact hf.first
  · rw [hb, hs]; exact hf.next
  · rw [hb, hs]; exact hf.wrap
  · rw [hb]; exact hB ▸ h.size
  · rw [hn]; exact h.count
  · rw [hblocks, hb, hs, hi, hn]
    refine Nat.mod_eq_of_lt ?_
    show ringBlocks (reqBlockSize.setWidth 32 : U32).toNat (bufferSize.setWidth 32 : U32).toNat
      (initialOffset.setWidth 32 : U32).toNat _ _ < _
    rw [hS, hB, hI]; exact h.wrapBlocks
  · rw [hb]; exact hB
  · rw [hs]; exact hS
  · rw [hi]; exact hI

/-- For every request that fits, the configuration that `ndp_ctrl_medusa_req_block_update` computes and
stores gives a sound ring. -/
theorem ring_layout_sound {reqBlockSize bufferSize bufferCount initialOffset : U64}
    (h : Request pageSize reqBlockSize bufferSize bufferCount initialOffset) (fuel : Nat)
    (hfuel : bufferCount.toNat ≤ fuel) :
    ∃ cfg, mpsRequestCfg pageSize fuel reqBlockSize bufferSize bufferCount initialOffset = some cfg ∧
      (∀ resize ctrl doResize, ctrl.reqBlockSize = reqBlockSize →
        (minBufferItems pageSize).setWidth 64 ≤ bufferCount →
        ∃ ret, ndpCtrlMedusaReqBlockUpdate pageSize resize fuel ctrl doResize bufferSize bufferCount initialOffset =
          some ({ ctrl with cfg, reqBlockCount := cfg.blockCount.setWidth 64 }, ret)) ∧
      cfg.bufferCount.toNat = bufferCount.toNat ∧ cfg.bufferSize.toNat = bufferSize.toNat ∧
      cfg.blockSize.toNat = reqBlockSize.toNat ∧ cfg.initialOffset.toNat = initialOffset.toNat ∧
      Sound pageSize cfg := by
  obtain ⟨cfg, hcfg, hl, h1, h2, h3, h4⟩ := mpsRequestCfg_laid h hfuel
  refine ⟨cfg, hcfg, fun resize ctrl doResize hreq hmin => ?_, h1, h2, h3, h4, hl.sound⟩
  have hne : ¬ (bufferSize = 0 ∨ bufferCount < (minBufferItems pageSize).setWidth 64) := by
    rintro (h0 | hlt)
    · have hsize := h.size
      rw [h0] at hsize
      exact absurd hsize (by decide)
    · rw [BitVec.lt_def] at hlt
      rw [BitVec.le_def] at hmin
      omega
  unfold ndpCtrlMedusaReqBlockUpdate
  rw [if_neg hne, hreq, hcfg]
  exact ⟨_, rfl⟩

/-- A ring of four buffers of 2000 bytes in two blocks of 8192: the last one is folded in front of the
first, to offset 2808 of block 0. -/
theorem ring_layout_sound_folded :
    Request 4096 8192 2000 4 5000 ∧ mpsRequestCfg 4096 4 8192 2000 4 5000 = some ⟨4, 2000, 2, 8192, 5000⟩ ∧
      Sound 4096 ⟨4, 2000, 2, 8192, 5000⟩ := by
  have hr : Request 4096 8192 2000 4 5000 := by constructor <;> decide
  have hcfg : mpsRequestCfg 4096 4 8192 2000 4 5000 = some ⟨4, 2000, 2, 8192, 5000⟩ := by decide +kernel
  obtain ⟨cfg, h, _, _, _, _, _, hs⟩ := ring_layout_sound hr 4 (by decide)
  cases Option.some.inj (hcfg.symm.trans h)
  exact ⟨hr, hcfg, hs⟩

end NdkSw.Medusa

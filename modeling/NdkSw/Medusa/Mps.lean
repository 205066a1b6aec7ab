/-
The buffer ring of a Medusa controller in packet-simple mode (`ctrl_ndp.c`): the walk over the
buffers of the ring, the computation of its block count, and the table of buffer offsets.
`PAGE_SIZE` is a parameter.
-/
import NdkSw.Ndp.Channel
import NdkSw.Ring.Packing
import NdkSw.Shared.Words

namespace NdkSw.Medusa

open Ndp Ring

/-! ## Data model -/

/-- `struct ndp_ctrl_cfg`. -/
structure NdpCtrlCfg where
  bufferCount : U32
  bufferSize : U32
  blockCount : U32
  blockSize : U32
  initialOffset : U32
  deriving DecidableEq, Repr

/-- `struct ndp_ctrl_state_mps`: where the walk over the ring stands. -/
structure MpsState where
  cfg : NdpCtrlCfg
  blockOffset : U32
  blockIndex : U32
  bufferIndex : U32
  deriving DecidableEq, Repr

/-- `ndp_ctrl_medusa_mps_meta_first`. -/
def ndpCtrlMedusaMpsMetaFirst (s : MpsState) : MpsState :=
  { s with bufferIndex := 0, blockOffset := s.cfg.initialOffset, blockIndex := 0 }

/-- `ndp_ctrl_medusa_mps_meta_init`. -/
def ndpCtrlMedusaMpsMetaInit (s : MpsState) (blockSize blockCount bufferSize : U32) (bufferCount : U64)
    (initialOffset : U32) : MpsState :=
  ndpCtrlMedusaMpsMetaFirst
    { s with cfg := { blockSize, blockCount, bufferSize, bufferCount := bufferCount.setWidth 32, initialOffset } }

section Walk

variable (pageSize : U32)

/-- `ndp_ctrl_medusa_mps_inc`: the next buffer; -1 on ring wrap, 1 on block increment, 0 otherwise. -/
def ndpCtrlMedusaMpsInc (s : MpsState) : MpsState × Int :=
  let s := { s with bufferIndex := s.bufferIndex + 1 }
  if s.bufferIndex = s.cfg.bufferCount then (ndpCtrlMedusaMpsMetaFirst s, -1)
  else
    let s := { s with blockOffset := s.blockOffset + s.cfg.bufferSize }
    if s.blockOffset + s.cfg.bufferSize > s.cfg.blockSize then
      -- this offset crosses the current block: advance to the next one with a reasonable offset
      let s := { s with blockIndex := s.blockIndex + 1, blockOffset := s.blockOffset % pageSize }
      (if s.blockIndex = s.cfg.blockCount then { s with blockIndex := 0 } else s, 1)
    else (s, 0)

/-- The walk after `m` increments. -/
def mpsWalk (s : MpsState) : Nat → MpsState
  | 0 => s
  | m + 1 => (ndpCtrlMedusaMpsInc pageSize (mpsWalk s m)).1

/-! ## Block count -/

/-- `while (s.buffer_index < buffer_count) inc`, for at most `fuel` rounds. -/
def mpsWalkUntil (bufferCount : U64) : Nat → MpsState → Option MpsState
  | 0, s => if s.bufferIndex.setWidth 64 < bufferCount then none else some s
  | fuel + 1, s =>
    if s.bufferIndex.setWidth 64 < bufferCount then mpsWalkUntil bufferCount fuel (ndpCtrlMedusaMpsInc pageSize s).1
    else some s

/-- The configuration that `ndp_ctrl_medusa_req_block_update` computes: a walk through a virtual
ring, which never wraps, gives the block count; the last buffers may fit in front of the first. -/
def mpsRequestCfg (fuel : Nat) (reqBlockSize bufferSize bufferCount initialOffset : U64) : Option NdpCtrlCfg :=
  let s : MpsState := { cfg := ⟨0, 0, 0, 0, 0⟩, blockOffset := 0, blockIndex := 0, bufferIndex := 0 }
  let s := ndpCtrlMedusaMpsMetaInit s (reqBlockSize.setWidth 32) 0 (bufferSize.setWidth 32) 0
    (initialOffset.setWidth 32)
  (mpsWalkUntil pageSize bufferCount fuel s).map fun s =>
    let blockIndex := if s.blockOffset ≤ s.cfg.initialOffset then s.blockIndex - 1 else s.blockIndex
    { s.cfg with blockCount := blockIndex + 1, bufferCount := s.bufferIndex }

/-- The requested ring of a controller: `ctrl->cfg` and the channel's request. -/
structure RingRequest where
  cfg : NdpCtrlCfg
  reqBlockCount : U64
  reqBlockSize : U64
  deriving DecidableEq, Repr

/-- `sizeof(struct nc_ndp_desc)` and `sizeof(struct nc_ndp_hdr)`. -/
def ndpCtrlRxDescSize : U32 := 8
def ndpCtrlRxNdpHdrSize : U32 := 4

/-- The shadowed mappings need at least a page of descriptors and of headers. -/
def minBufferItems : U32 := pageSize / umin ndpCtrlRxDescSize ndpCtrlRxNdpHdrSize

/-- `ndp_ctrl_medusa_req_block_update`; `resize` is the return value of `ndp_channel_ring_resize`. -/
def ndpCtrlMedusaReqBlockUpdate (resize : RingRequest → Int) (fuel : Nat) (ctrl : RingRequest) (doResize : Bool)
    (bufferSize bufferCount initialOffset : U64) : Option (RingRequest × Int) :=
  if bufferSize = 0 ∨ bufferCount < (minBufferItems pageSize).setWidth 64 then some (ctrl, eInval)
  else
    (mpsRequestCfg pageSize fuel ctrl.reqBlockSize bufferSize bufferCount initialOffset).map fun cfg =>
      let ctrl := { ctrl with cfg, reqBlockCount := cfg.blockCount.setWidth 64 }
      (ctrl, if doResize then resize ctrl else 0)

/-! ## Offset table -/

/-- The byte offset of the current buffer in the ring, as the 32-bit expression of
`ndp_ctrl_medusa_start` computes it. -/
def MpsState.offset (s : MpsState) : U64 := (s.blockIndex * s.cfg.blockSize + s.blockOffset).setWidth 64

/-- The `do … while (inc != -1)` loop of `ndp_ctrl_medusa_start` that fills the offset buffer, for at
most `fuel` rounds. -/
def mpsOffsets : Nat → MpsState → List U64 × MpsState
  | 0, s => ([], s)
  | fuel + 1, s =>
    match ndpCtrlMedusaMpsInc pageSize s with
    | (s', ret) =>
      if ret = -1 then ([s.offset], s')
      else
        match mpsOffsets fuel s' with
        | (l, s'') => (s.offset :: l, s'')

/-! ## Laps of the walk -/

variable {pageSize} {cfg : NdpCtrlCfg} {s : MpsState}

/-- The walk over `cfg` at its first buffer. -/
def NdpCtrlCfg.first (cfg : NdpCtrlCfg) : MpsState :=
  ndpCtrlMedusaMpsMetaFirst { cfg, blockOffset := 0, blockIndex := 0, bufferIndex := 0 }

theorem metaFirst_eq_first (h : s.cfg = cfg) : ndpCtrlMedusaMpsMetaFirst s = cfg.first := by
  unfold ndpCtrlMedusaMpsMetaFirst NdpCtrlCfg.first
  rw [h]; rfl

@[simp] theorem mpsInc_cfg (s : MpsState) : (ndpCtrlMedusaMpsInc pageSize s).1.cfg = s.cfg := by
  unfold ndpCtrlMedusaMpsInc
  simp only
  split
  · rfl
  · split
    · split
      · rfl
      · rfl
    · rfl

theorem mpsWalk_inc (s : MpsState) (m : Nat) :
    mpsWalk pageSize (ndpCtrlMedusaMpsInc pageSize s).1 m = mpsWalk pageSize s (m + 1) := by
  induction m with
  | zero => rfl
  | succ m ih => rw [mpsWalk, ih]; rfl

theorem mpsWalk_add (s : MpsState) (m n : Nat) :
    mpsWalk pageSize (mpsWalk pageSize s m) n = mpsWalk pageSize s (m + n) := by
  induction n with
  | zero => rfl
  | succ n ih => rw [mpsWalk, ih]; rfl

theorem mpsInc_wrap (hc : s.cfg = cfg) (hn : s.bufferIndex.toNat + 1 = cfg.bufferCount.toNat) :
    ndpCtrlMedusaMpsInc pageSize s = (cfg.first, -1) := by
  have hidx : s.bufferIndex + 1 = cfg.bufferCount := by
    apply BitVec.eq_of_toNat_eq
    rw [BitVec.toNat_add, show (1 : U32).toNat = 1 from rfl, hn]
    exact Nat.mod_eq_of_lt cfg.bufferCount.isLt
  unfold ndpCtrlMedusaMpsInc
  simp only [hc, if_pos hidx, ndpCtrlMedusaMpsMetaFirst, NdpCtrlCfg.first]

theorem mpsInc_step {s : MpsState} (hne : s.bufferIndex + 1 ≠ s.cfg.bufferCount) :
    (ndpCtrlMedusaMpsInc pageSize s).1.bufferIndex = s.bufferIndex + 1 ∧ (ndpCtrlMedusaMpsInc pageSize s).2 ≠ -1 := by
  unfold ndpCtrlMedusaMpsInc
  simp only [if_neg hne]
  split
  · split
    · exact ⟨rfl, (by decide : (1 : Int) ≠ -1)⟩
    · exact ⟨rfl, (by decide : (1 : Int) ≠ -1)⟩
  · exact ⟨rfl, (by decide : (0 : Int) ≠ -1)⟩

theorem index_succ {j : Nat} (hi : s.bufferIndex.toNat = j) (hj : j + 1 < 2 ^ 32) : (s.bufferIndex + 1).toNat = j + 1 := by
  rw [BitVec.toNat_add, hi, show (1 : U32).toNat = 1 from rfl, Nat.mod_eq_of_lt hj]

theorem mpsInc_next (hc : s.cfg = cfg) (hn : s.bufferIndex.toNat + 1 < cfg.bufferCount.toNat) :
    (ndpCtrlMedusaMpsInc pageSize s).1.cfg = cfg ∧
      (ndpCtrlMedusaMpsInc pageSize s).1.bufferIndex.toNat = s.bufferIndex.toNat + 1 ∧
      (ndpCtrlMedusaMpsInc pageSize s).2 ≠ -1 := by
  have hidx := index_succ rfl (lt_trans hn cfg.bufferCount.isLt)
  have hne : s.bufferIndex + 1 ≠ s.cfg.bufferCount := by
    intro he
    rw [hc] at he
    rw [← he, hidx] at hn
    omega
  obtain ⟨h1, h2⟩ := @mpsInc_step pageSize s hne
  exact ⟨by rw [mpsInc_cfg, hc], by rw [h1, hidx], h2⟩

theorem succ_mod_of_lt {m n : Nat} (h : m % n + 1 < n) : (m + 1) % n = m % n + 1 := by
  rw [← Nat.mod_add_mod]; exact Nat.mod_eq_of_lt h

theorem mpsWalk_index (hn : 0 < cfg.bufferCount.toNat) (m : Nat) :
    (mpsWalk pageSize cfg.first m).cfg = cfg ∧
      (mpsWalk pageSize cfg.first m).bufferIndex.toNat = m % cfg.bufferCount.toNat := by
  induction m with
  | zero => exact ⟨rfl, by rw [Nat.zero_mod]; rfl⟩
  | succ m ih =>
    obtain ⟨hc, hi⟩ := ih
    have hlt := Nat.mod_lt m hn
    rw [mpsWalk]
    by_cases hw : m % cfg.bufferCount.toNat + 1 = cfg.bufferCount.toNat
    · rw [mpsInc_wrap hc (by rw [hi]; exact hw), ← Nat.mod_add_mod, hw, Nat.mod_self]
      exact ⟨rfl, rfl⟩
    · obtain ⟨h1, h2, _⟩ := mpsInc_next hc (by omega)
      refine ⟨h1, ?_⟩
      rw [h2, hi, succ_mod_of_lt (by omega)]

theorem mpsWalk_ret (hn : 0 < cfg.bufferCount.toNat) (m : Nat) :
    (ndpCtrlMedusaMpsInc pageSize (mpsWalk pageSize cfg.first m)).2 = -1 ↔ (m + 1) % cfg.bufferCount.toNat = 0 := by
  obtain ⟨hc, hi⟩ := mpsWalk_index hn m
  have hlt := Nat.mod_lt m hn
  by_cases hw : m % cfg.bufferCount.toNat + 1 = cfg.bufferCount.toNat
  · rw [mpsInc_wrap hc (by rw [hi]; exact hw), ← Nat.mod_add_mod, hw, Nat.mod_self]
    exact iff_of_true rfl rfl
  · obtain ⟨_, _, h3⟩ := mpsInc_next hc (by omega)
    rw [succ_mod_of_lt (by omega)]
    exact iff_of_false h3 (Nat.succ_ne_zero _)

theorem mpsWalk_mod (hn : 0 < cfg.bufferCount.toNat) (m : Nat) :
    mpsWalk pageSize cfg.first m = mpsWalk pageSize cfg.first (m % cfg.bufferCount.toNat) := by
  induction m with
  | zero => rw [Nat.zero_mod]
  | succ m ih =>
    have hlt := Nat.mod_lt m hn
    by_cases hw : m % cfg.bufferCount.toNat + 1 = cfg.bufferCount.toNat
    · obtain ⟨hc, hi⟩ := mpsWalk_index hn m
      rw [mpsWalk, mpsInc_wrap hc (by rw [hi]; exact hw), ← Nat.mod_add_mod, hw, Nat.mod_self]
      rfl
    · rw [succ_mod_of_lt (by omega), mpsWalk, mpsWalk, ih]

theorem mpsOffsets_first (hn : 0 < cfg.bufferCount.toNat) :
    mpsOffsets pageSize cfg.bufferCount.toNat cfg.first =
      ((List.range cfg.bufferCount.toNat).map fun j => (mpsWalk pageSize cfg.first j).offset, cfg.first) := by
  have key : ∀ d j, j + d = cfg.bufferCount.toNat → 0 < d →
      mpsOffsets pageSize d (mpsWalk pageSize cfg.first j) =
        ((List.range' j d).map fun j => (mpsWalk pageSize cfg.first j).offset, cfg.first) := by
    intro d
    induction d with
    | zero => intro j _ h0; exact absurd h0 (lt_irrefl 0)
    | succ d ih =>
      intro j hj _
      obtain ⟨hc, hi⟩ := mpsWalk_index hn j
      rw [Nat.mod_eq_of_lt (by omega)] at hi
      rw [mpsOffsets, List.range'_succ, List.map_cons]
      by_cases hd : d = 0
      · rw [mpsInc_wrap hc (by rw [hi]; omega), hd]
        rfl
      · obtain ⟨_, _, h3⟩ := mpsInc_next hc (by omega)
        have hrest := ih (j + 1) (by omega) (by omega)
        rw [mpsWalk] at hrest
        rcases hinc : ndpCtrlMedusaMpsInc pageSize (mpsWalk pageSize cfg.first j) with ⟨s', ret⟩
        rw [hinc] at h3 hrest
        simp only [if_neg h3, hrest]
  rw [List.range_eq_range']
  exact key _ 0 (Nat.zero_add _) hn

end Walk

end NdkSw.Medusa

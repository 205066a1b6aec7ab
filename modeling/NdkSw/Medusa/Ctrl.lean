/-
The DMA controller's own state (`struct nc_ndp_ctrl`) and its start (`dma_ctrl_ndp.h`), for a Medusa
controller. What the start reads from the hardware is its argument.
-/
import NdkSw.Medusa.Mps
import NdkSw.Medusa.Desc
import NdkSw.Shared.Words

namespace NdkSw.Medusa

open Ndp

/-- The public members of `struct nc_ndp_ctrl`. -/
structure NcNdpCtrl where
  lastUpperAddr : U64
  mdp : U32
  mhp : U32
  sdp : U32
  hdp : U32
  shp : U32
  hhp : U32
  deriving DecidableEq, Repr

/-- `struct nc_ndp_hdr`. -/
structure NcNdpHdr where
  frameLen : U16
  hdrLen : U8
  metaBits : BitVec 4
  reserved : BitVec 2
  freeDesc : BitVec 2
  deriving DecidableEq, Repr

/-- What a start meets: the result of the component lock, the running bit of the status register, and
the largest masks the registers hold. -/
structure StartEnv where
  lock : Int
  running : Bool
  mdpMax : U32
  mhpMax : U32
  deriving DecidableEq, Repr

/-- `nc_ndp_ctrl_start` of a Medusa controller. -/
def ncNdpCtrlStart (dir : ChannelType) (env : StartEnv) (c : NcNdpCtrl) (nbDesc nbHdr : U32) : NcNdpCtrl × Int :=
  -- the number of descriptors must be a power of two, and that of RX headers too
  if nbDesc &&& (nbDesc - 1) ≠ 0 then (c, eInval)
  else if dir = .rx ∧ nbHdr &&& (nbHdr - 1) ≠ 0 then (c, eInval)
  else if env.lock ≠ 0 then (c, if env.lock = eBusy then eExist else env.lock)
  else
    let c : NcNdpCtrl :=
      { lastUpperAddr := noUpperAddr, mdp := nbDesc - 1, mhp := nbHdr - 1, sdp := 0, hdp := 0, shp := 0, hhp := 0 }
    if env.running then (c, eAlready)
    else if c.mdp > env.mdpMax ∨ (dir = .rx ∧ c.mhp > env.mhpMax) then (c, eNomem)
    else (c, 0)

/-- `ndp_ctrl_start`: a controller that was left running is stopped and started again. -/
def ndpCtrlStart (dir : ChannelType) (env₁ env₂ : StartEnv) (c : NcNdpCtrl) (nbDesc nbHdr : U32) : NcNdpCtrl × Int :=
  match ncNdpCtrlStart dir env₁ c nbDesc nbHdr with
  | (c, ret) =>
    if ret = eAlready then
      match ncNdpCtrlStart dir env₂ c nbDesc nbHdr with
      | (c, ret) => (c, if ret = 0 then 0 else -1)
    else (c, ret)

theorem ncNdpCtrlStart_ok {dir : ChannelType} {env : StartEnv} {c c' : NcNdpCtrl} {nbDesc nbHdr : U32}
    (h : ncNdpCtrlStart dir env c nbDesc nbHdr = (c', 0)) :
    c' = { lastUpperAddr := noUpperAddr, mdp := nbDesc - 1, mhp := nbHdr - 1, sdp := 0, hdp := 0, shp := 0, hhp := 0 } ∧
      nbDesc &&& (nbDesc - 1) = 0 := by
  unfold ncNdpCtrlStart at h
  split at h
  · cases h
  split at h
  · cases h
  split at h
  · rename_i hpow _ hlock
    have h2 := (Prod.mk.inj h).2
    split at h2
    · cases h2
    · exact absurd h2 hlock
  rename_i hpow _ _
  simp only at h
  split at h
  · cases h
  split at h
  · cases h
  · exact ⟨(Prod.mk.inj h).1.symm, not_not.1 hpow⟩

theorem ndpCtrlStart_ok {dir : ChannelType} {env₁ env₂ : StartEnv} {c c' : NcNdpCtrl} {nbDesc nbHdr : U32}
    (h : ndpCtrlStart dir env₁ env₂ c nbDesc nbHdr = (c', 0)) :
    c' = { lastUpperAddr := noUpperAddr, mdp := nbDesc - 1, mhp := nbHdr - 1, sdp := 0, hdp := 0, shp := 0, hhp := 0 } ∧
      nbDesc &&& (nbDesc - 1) = 0 := by
  unfold ndpCtrlStart at h
  rcases h1 : ncNdpCtrlStart dir env₁ c nbDesc nbHdr with ⟨c₁, ret⟩
  rw [h1] at h
  simp only at h
  split at h
  · rcases h2 : ncNdpCtrlStart dir env₂ c₁ nbDesc nbHdr with ⟨c₂, ret₂⟩
    rw [h2] at h
    obtain ⟨rfl, h0⟩ := Prod.mk.inj h
    by_cases hr : ret₂ = 0
    · subst hr; exact ncNdpCtrlStart_ok h2
    · rw [if_neg hr] at h0; cases h0
  · obtain ⟨rfl, rfl⟩ := Prod.mk.inj h
    exact ncNdpCtrlStart_ok h1

theorem eq_of_ret {α : Type} {x : α × Int} (h : x.2 = 0) : x = (x.1, 0) := Prod.ext rfl h

theorem pow2_of_start {n : U32} (hpos : 0 < n.toNat) (h : n &&& (n - 1) = 0) :
    ∃ k, n.toNat = 2 ^ k ∧ Ring.IsMask (n - 1) k := by
  have hsub : (n - 1).toNat = n.toNat - 1 :=
    BitVec.toNat_sub_of_le (BitVec.le_def.2 (by show 1 ≤ _; omega))
  obtain ⟨k, hk⟩ : ∃ k, n.toNat = 2 ^ k := by
    refine (Nat.and_sub_one_eq_zero_iff_isPowerOfTwo (by omega)).1 ?_
    have := congrArg BitVec.toNat h
    rwa [BitVec.toNat_and, hsub] at this
  refine ⟨k, hk, ?_⟩
  unfold Ring.IsMask
  rw [hsub]; omega

/-! ## The attached ring -/

/-- The DMA address of the walk's current buffer. -/
def MpsState.addr (blocks : Nat → U64) (s : MpsState) : U64 := blocks s.blockIndex.toNat + s.blockOffset.setWidth 64

/-- The ring a controller is attached to: its configuration and the addresses of its blocks. -/
structure MpsRing where
  pageSize : U32
  cfg : NdpCtrlCfg
  blocks : Nat → U64

def MpsRing.walk (R : MpsRing) (m : Nat) : MpsState := mpsWalk R.pageSize R.cfg.first m

theorem MpsRing.walk_cfg (R : MpsRing) (hn : 0 < R.cfg.bufferCount.toNat) (m : Nat) : (R.walk m).cfg = R.cfg :=
  (mpsWalk_index hn m).1

end NdkSw.Medusa

/-
A Medusa RX controller in packet-simple mode, the only one a start selects (`ctrl_ndp.c`): filling
the descriptor ring from the walk over the buffers, recycling by released headers, and the start.
Beside it the hardware, which takes descriptors in order and reports in every header how many the
packet took.
-/
import NdkSw.Medusa.Ctrl

namespace NdkSw.Medusa

open Ndp

/-- The parts of `struct ndp_ctrl` an RX controller uses. `desc_count` and `hdr_count` are
`mps.cfg.buffer_count` since the ring was attached; `desc`, `off` and `hdr` are the shadowed buffers by
slot. `regSdp` is the last flushed SDP, and `written` lists all descriptors written since the start. -/
structure RxCtrl where
  c : NcNdpCtrl
  freeDesc : U32
  mps : MpsState
  blocks : Nat → U64
  desc : Nat → U64
  off : Nat → U64
  hdr : Nat → NcNdpHdr
  regSdp : U32
  written : List U64

/-- `desc_count` and `hdr_count`. -/
def RxCtrl.count (ctrl : RxCtrl) : U32 := ctrl.mps.cfg.bufferCount

section Fill

variable (pageSize : U32)

/-- Write descriptor `d` to slot `i` behind `sdp`. -/
def RxCtrl.writeDesc (ctrl : RxCtrl) (sdp : U32) (i : Nat) (d : U64) : RxCtrl :=
  { ctrl with
    desc := Function.update ctrl.desc ((sdp.toNat + i) % ctrl.count.toNat) d
    written := ctrl.written ++ [d] }

/-- Round `i` of `ndp_ctrl_mps_fill_rx_descs`: a buffer under a new upper address takes this round for
its type-0 descriptor and the next one for itself. -/
def mpsFillRound (sdp : U32) (i : Nat) (ctrl : RxCtrl) : RxCtrl :=
  let addr := ctrl.mps.addr ctrl.blocks
  if ndpCtrlDescUpperAddr addr ≠ ctrl.c.lastUpperAddr then
    { ctrl with c := { ctrl.c with lastUpperAddr := ndpCtrlDescUpperAddr addr } }.writeDesc sdp i (ncNdpRxDesc0 addr)
  else
    { ctrl.writeDesc sdp i (ncNdpRxDesc2 addr (ctrl.mps.cfg.bufferSize.setWidth 16) 0) with
      mps := (ndpCtrlMedusaMpsInc pageSize ctrl.mps).1 }

/-- The first `n` rounds. -/
def mpsFillRounds (sdp : U32) (ctrl : RxCtrl) : Nat → RxCtrl
  | 0 => ctrl
  | n + 1 => mpsFillRound pageSize sdp n (mpsFillRounds sdp ctrl n)

/-- `ndp_ctrl_mps_fill_rx_descs`. -/
def ndpCtrlMpsFillRxDescs (ctrl : RxCtrl) (count : U64) : RxCtrl :=
  let sdp := ctrl.c.sdp
  let ctrl := mpsFillRounds pageSize sdp ctrl count.toNat
  { ctrl with c := { ctrl.c with sdp := ((sdp.setWidth 64 + count) &&& ctrl.c.mdp.setWidth 64).setWidth 32 } }

/-! ## Recycling -/

def ndpCtrlRxDescBurst : U32 := 64

/-- The counters `free_desc` and `free_desc2` of `ndp_ctrl_medusa_rx_set_swptr` after `n` headers from
`shp` on. -/
def RxCtrl.freeCounts (ctrl : RxCtrl) (shp : U32) : Nat → U32 × U32
  | 0 => (0, 0)
  | n + 1 =>
    let (free, free2) := ctrl.freeCounts shp n
    let hdr := ctrl.hdr ((shp.toNat + n) % ctrl.count.toNat)
    if hdr.freeDesc = 1 then (free + 1, free2)
    else if hdr.freeDesc = 2 then (free, free2 + 1)
    else (free, free2)

/-- The descriptors that `n` headers from `shp` on give back. -/
def RxCtrl.freed (ctrl : RxCtrl) (shp : U32) (n : Nat) : U32 :=
  (ctrl.freeCounts shp n).1 + (ctrl.freeCounts shp n).2 * 2

/-- `while (free_desc >= NDP_CTRL_RX_DESC_BURST)` of the recycling, for at most `fuel` bursts; the flag
tells if there was one. -/
def mpsRefill : Nat → RxCtrl → RxCtrl × Bool
  | 0, ctrl => (ctrl, false)
  | fuel + 1, ctrl =>
    if ctrl.freeDesc ≥ ndpCtrlRxDescBurst then
      let ctrl := ndpCtrlMpsFillRxDescs pageSize ctrl (ndpCtrlRxDescBurst.setWidth 64)
      ((mpsRefill fuel { ctrl with freeDesc := ctrl.freeDesc - ndpCtrlRxDescBurst }).1, true)
    else (ctrl, false)

/-- `ndp_ctrl_medusa_rx_set_swptr`. -/
def ndpCtrlMedusaRxSetSwptr (ctrl : RxCtrl) (ptr : U64) : RxCtrl :=
  let shp := ctrl.c.shp
  let count := (ptr - shp.setWidth 64) &&& ctrl.c.mhp.setWidth 64
  let ctrl := { ctrl with
    freeDesc := ctrl.freeDesc + ctrl.freed shp count.toNat
    c := { ctrl.c with shp := ptr.setWidth 32 } }
  match mpsRefill pageSize ctrl.freeDesc.toNat ctrl with
  | (ctrl, true) => { ctrl with regSdp := ctrl.c.sdp }
  | (ctrl, false) => ctrl

/-! ## Start -/

/-- `ndp_ctrl_medusa_start` of an RX channel. -/
def ndpCtrlMedusaRxStart (env₁ env₂ : StartEnv) (ctrl : RxCtrl) : RxCtrl × Int :=
  match ndpCtrlStart .rx env₁ env₂ ctrl.c ctrl.count ctrl.count with
  | (c, ret) =>
    if ret ≠ 0 then ({ ctrl with c }, ret)
    else
      match mpsOffsets pageSize ctrl.count.toNat (ndpCtrlMedusaMpsMetaFirst ctrl.mps) with
      | (offs, mps) =>
        let ctrl := { ctrl with c, mps, off := fun j => offs.getD j (ctrl.off j), regSdp := 0, written := [] }
        let ctrl := ndpCtrlMpsFillRxDescs pageSize ctrl ((c.mdp + 1 - ndpCtrlRxDescBurst).setWidth 64)
        ({ ctrl with regSdp := ctrl.c.sdp, freeDesc := 0 }, 0)

/-! ## The controller and the hardware -/

/-- The system, with counters since the last start: the descriptors and headers the hardware is
through with, and those that `set_swptr` has released. `took` lists how many descriptors the hardware took for each packet. -/
structure RxSys where
  ctrl : RxCtrl
  running : Bool
  hwDescs : Nat
  hwHdrs : Nat
  took : List Nat
  relHdrs : Nat
  relDescs : Nat

/-- The hardware receives a packet: it takes the next type-2 descriptor and a type-0 before it, and
writes the header with their number. It waits if they are not flushed. -/
def RxSys.receive (s : RxSys) (hdr : NcNdpHdr) : RxSys :=
  let n := s.ctrl.count.toNat
  let avail := (s.ctrl.regSdp.toNat + n - s.hwDescs % n) % n
  let need := if descType (s.ctrl.desc (s.hwDescs % n)) = 0 then 2 else 1
  if avail < need then s
  else
    { s with
      ctrl := { s.ctrl with
        hdr := Function.update s.ctrl.hdr (s.hwHdrs % n) { hdr with freeDesc := BitVec.ofNat 2 need } }
      hwDescs := s.hwDescs + need
      hwHdrs := s.hwHdrs + 1
      took := s.took ++ [need] }

/-- Release the next `n` received headers, or all if there are fewer. What is released with them is what the hardware took. -/
def RxSys.release (s : RxSys) (n : Nat) : RxSys :=
  let n := min n (s.hwHdrs - s.relHdrs)
  let ptr := ((s.ctrl.c.shp + BitVec.ofNat 32 n) &&& s.ctrl.c.mhp).setWidth 64
  { s with
    ctrl := ndpCtrlMedusaRxSetSwptr pageSize s.ctrl ptr
    relHdrs := s.relHdrs + n
    relDescs := (s.took.take (s.relHdrs + n)).sum }

inductive RxAct
  | start (env₁ env₂ : StartEnv)
  | receive (hdr : NcNdpHdr)
  | setSwptr (n : Nat)

/-- One step; a controller that is not running only starts. -/
def RxSys.step (s : RxSys) : RxAct → RxSys
  | .start env₁ env₂ =>
    match ndpCtrlMedusaRxStart pageSize env₁ env₂ s.ctrl with
    | (ctrl, ret) => { ctrl, running := ret = 0, hwDescs := 0, hwHdrs := 0, took := [], relHdrs := 0, relDescs := 0 }
  | .receive hdr => if s.running then s.receive hdr else s
  | .setSwptr n => if s.running then s.release pageSize n else s

end Fill

end NdkSw.Medusa

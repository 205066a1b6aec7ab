/-
A Medusa TX controller (`ctrl_ndp.c`): converting published headers to descriptors, waiting for free
ones under a spinlock, and counting completed headers from completed descriptors. Each look at the
hardware is a `Poll`: how many flushed descriptors are completed until then, and whether a kill
signal is pending. The polls of a call are its argument; a call they do not suffice for is still
waiting and has no result.
-/
import NdkSw.Medusa.Ctrl

namespace NdkSw.Medusa

open Ndp

/-- `NDP_CTRL_MODE_*`. -/
inductive CtrlMode
  | packetSimple
  | stream
  | user
  deriving DecidableEq, Repr

/-- A header converted to descriptors: its slot, the buffer index of the walk, and what was described. -/
structure Conversion where
  slot : Nat
  index : Nat
  buffer : DmaBuffer
  deriving DecidableEq, Repr

/-- The parts of `struct ndp_ctrl` a TX controller uses; the shadowed buffers are given by slot.
`regSdp` is the last flushed SDP; `written` lists all descriptors written since the start, and
`converted` all headers converted. -/
structure TxCtrl where
  c : NcNdpCtrl
  freeDesc : U32
  mode : CtrlMode
  mps : MpsState
  blocks : Nat → U64
  desc : Nat → U64
  off : Nat → U64
  hdr : Nat → NcNdpHdr
  regSdp : U32
  written : List U64
  converted : List Conversion

/-- `desc_count` and `hdr_count`. -/
def TxCtrl.count (ctrl : TxCtrl) : U32 := ctrl.mps.cfg.bufferCount

structure Poll where
  hw : Nat
  kill : Bool
  deriving DecidableEq, Repr

/-! ## Completed descriptors -/

/-- The type-2 descriptors among `n` from `hdp` on. -/
def TxCtrl.freeHdrs (ctrl : TxCtrl) (hdp : U32) (n : Nat) : Nat :=
  ((List.range n).filter fun i => descType (ctrl.desc ((hdp.toNat + i) % ctrl.count.toNat)) = 2).length

/-- `ndp_ctrl_medusa_tx_get_hwptr`, after the hardware completed `hw` more flushed descriptors, or all
of them if there are fewer. -/
def ndpCtrlMedusaTxGetHwptr (ctrl : TxCtrl) (hw : Nat) : TxCtrl × U64 :=
  let hdp := ctrl.c.hdp
  let done := min hw ((ctrl.regSdp - hdp) &&& ctrl.c.mdp).toNat
  let newHdp := (hdp + BitVec.ofNat 32 done) &&& ctrl.c.mdp
  let count := (newHdp - hdp) &&& ctrl.c.mdp
  let hhp := (ctrl.c.hhp + BitVec.ofNat 32 (ctrl.freeHdrs hdp count.toNat)) &&& ctrl.c.mhp
  ({ ctrl with c := { ctrl.c with hdp := newHdp, hhp }, freeDesc := ctrl.freeDesc + count }, hhp.setWidth 64)

/-- `ndp_ctrl_medusa_tx_wait_for_free_desc`: `true` if a kill signal ended the wait. -/
def ndpCtrlMedusaTxWaitForFreeDesc (count : U32) (ctrl : TxCtrl) : List Poll → Option (TxCtrl × Bool × List Poll)
  | [] => if ctrl.freeDesc < count then none else some (ctrl, false, [])
  | p :: polls =>
    if ctrl.freeDesc < count then
      let ctrl := (ndpCtrlMedusaTxGetHwptr ctrl p.hw).1
      if p.kill then some (ctrl, true, polls) else ndpCtrlMedusaTxWaitForFreeDesc count ctrl polls
    else some (ctrl, false, p :: polls)

/-! ## Publishing -/

section Convert

variable (pageSize : U32)

/-- The DMA address of the next packet. -/
def TxCtrl.addr (ctrl : TxCtrl) (slot : Nat) : U64 :=
  if ctrl.mode = .user then ctrl.off slot else ctrl.mps.addr ctrl.blocks

/-- Write descriptor `d` at `sdp`. -/
def TxCtrl.writeDesc (ctrl : TxCtrl) (sdp : U32) (d : U64) : TxCtrl :=
  { ctrl with
    desc := Function.update ctrl.desc (sdp.toNat % ctrl.count.toNat) d
    freeDesc := ctrl.freeDesc - 1
    written := ctrl.written ++ [d] }

/-- The type-0 descriptor of a packet, if its upper address is new. -/
def txWriteDesc0 (ctrl : TxCtrl) (sdp : U32) (addr : U64) : TxCtrl × U32 :=
  if ndpCtrlDescUpperAddr addr ≠ ctrl.c.lastUpperAddr then
    ({ ctrl with c := { ctrl.c with lastUpperAddr := ndpCtrlDescUpperAddr addr } }.writeDesc sdp (ncNdpTxDesc0 addr), sdp + 1)
  else (ctrl, sdp)

/-- The type-2 descriptor of the header in `slot`, and the step to the next buffer. -/
def txWriteDesc2 (ctrl : TxCtrl) (sdp : U32) (slot : Nat) (addr : U64) : TxCtrl × U32 :=
  let hdr := ctrl.hdr slot
  let buffer : DmaBuffer := { addr, len := hdr.frameLen, metaBits := hdr.metaBits.setWidth 16 }
  let index := ctrl.mps.bufferIndex.toNat
  ({ ctrl.writeDesc sdp (ncNdpTxDesc2 addr hdr.frameLen (hdr.metaBits.setWidth 16) 0) with
      mps := (ndpCtrlMedusaMpsInc pageSize ctrl.mps).1
      converted := ctrl.converted ++ [{ slot, index, buffer }] }, sdp + 1)

/-- Both descriptors of a packet. -/
def txPacket (ctrl : TxCtrl) (sdp : U32) (slot : Nat) (addr : U64) : TxCtrl × U32 :=
  match txWriteDesc0 ctrl sdp addr with
  | (ctrl, sdp) => txWriteDesc2 pageSize ctrl sdp slot addr

/-- The loop of `ndp_ctrl_medusa_tx_set_swptr` from header `i` on, with `n` headers to go and the local
`sdp`; the flag tells if a kill signal left it early. -/
def txConvert (shp : U32) : Nat → Nat → TxCtrl → U32 → List Poll → Option (TxCtrl × U32 × Bool × List Poll)
  | 0, _, ctrl, sdp, polls => some (ctrl, sdp, false, polls)
  | n + 1, i, ctrl, sdp, polls =>
    let slot := (shp.toNat + i) % ctrl.count.toNat
    let addr := ctrl.addr slot
    match ndpCtrlMedusaTxWaitForFreeDesc 2 ctrl polls with
    | none => none
    | some (ctrl, true, polls) => some (ctrl, sdp, true, polls)
    | some (ctrl, false, polls) =>
      match txPacket pageSize ctrl sdp slot addr with
      | (ctrl, sdp) => txConvert shp n (i + 1) ctrl sdp polls

/-- `ndp_ctrl_medusa_tx_set_swptr`, with the polls that are left. -/
def ndpCtrlMedusaTxSetSwptr (ctrl : TxCtrl) (ptr : U64) (polls : List Poll) : Option (TxCtrl × List Poll) :=
  let shp := ctrl.c.shp
  let count := (ptr - shp.setWidth 64) &&& ctrl.c.mhp.setWidth 64
  match txConvert pageSize shp count.toNat 0 ctrl ctrl.c.sdp polls with
  | none => none
  | some (ctrl, sdp, _, polls) =>
    let sdp := sdp &&& ctrl.c.mdp
    some ({ ctrl with c := { ctrl.c with sdp, shp := ptr.setWidth 32 }, regSdp := sdp }, polls)

/-! ## Start -/

/-- `ndp_ctrl_medusa_start` of a TX channel. -/
def ndpCtrlMedusaTxStart (env₁ env₂ : StartEnv) (ctrl : TxCtrl) : TxCtrl × Int :=
  match ndpCtrlStart .tx env₁ env₂ ctrl.c ctrl.count ctrl.count with
  | (c, ret) =>
    if ret ≠ 0 then ({ ctrl with c }, ret)
    else
      match mpsOffsets pageSize ctrl.count.toNat (ndpCtrlMedusaMpsMetaFirst ctrl.mps) with
      | (offs, mps) =>
        ({ ctrl with
            c, mode := .packetSimple, mps, off := fun j => offs.getD j (ctrl.off j), freeDesc := c.mdp, regSdp := 0
            written := [], converted := [] }, 0)

/-! ## The controller and the channel -/

structure TxSys where
  ctrl : TxCtrl
  running : Bool

/-- A call of the channel: publish up to `n` headers, whose contents are in `hdr`, or look at the
hardware. -/
inductive TxAct
  | start (env₁ env₂ : StartEnv)
  | setSwptr (hdr : Nat → NcNdpHdr) (n : Nat) (polls : List Poll)
  | getHwptr (hw : Nat)

/-- The free header slots, as `ndp_channel_txsync` grants them. -/
def TxCtrl.freeSlots (ctrl : TxCtrl) : Nat := ((ctrl.c.hhp - ctrl.c.shp - 1) &&& ctrl.c.mhp).toNat

/-- The pointer behind `n` more headers. -/
def TxCtrl.ptrAfter (ctrl : TxCtrl) (n : Nat) : U64 :=
  ((ctrl.c.shp + BitVec.ofNat 32 n) &&& ctrl.c.mhp).setWidth 64

/-- One completed call. `set_swptr` takes any pointer within the free header slots, and completes with
exactly the given polls. -/
def TxSys.step (s : TxSys) : TxAct → Option TxSys
  | .start env₁ env₂ =>
    match ndpCtrlMedusaTxStart pageSize env₁ env₂ s.ctrl with
    | (ctrl, ret) => some { ctrl, running := ret = 0 }
  | .setSwptr hdr n polls =>
    if ¬ s.running then some s
    else
      let ctrl := { s.ctrl with hdr }
      match ndpCtrlMedusaTxSetSwptr pageSize ctrl (ctrl.ptrAfter (min n ctrl.freeSlots)) polls with
      | some (ctrl, []) => some { s with ctrl }
      | _ => none
  | .getHwptr hw => if s.running then some { s with ctrl := (ndpCtrlMedusaTxGetHwptr s.ctrl hw).1 } else some s

end Convert

end NdkSw.Medusa

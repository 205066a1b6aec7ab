/-
The RX side of an XDP channel (`xdp/ctrl_xdp_pp.c`, `ctrl_xdp_xsk.c`): buffers from a pool are put into a ring and
described to the hardware, which fills them in order and writes one header for each packet. A receive takes the
buffers of a packet from the ring by the length in its header and hands them to the packet handler.
-/
import NdkSw.Xdp.Tx
import NdkSw.Ring.Run

namespace NdkSw.Xdp

open Ndp Ring Medusa

/-! ## Data model -/

/-- A page of the page pool or a buffer of the AF_XDP pool, with the DMA address of its data. -/
structure RxBuff where
  id : Nat
  dma : U64
  deriving DecidableEq, Repr

/-- How the channel was built and started: `sg` is `CONFIG_HAVE_XDP_SG` or `CONFIG_HAVE_AF_XDP_SG`, `next` the flag of
the data descriptors (`sg` with the page pool, the flag of the pool's user memory with AF_XDP), `frameSize` is
`NFB_PP_MAX_FRAME_LEN` or what `xsk_pool_get_rx_frame_size` returns. -/
structure RxConfig where
  mode : XdpMode
  sg : Bool
  next : U32
  frameSize : U32
  frameSize_pos : 0 < frameSize.toNat

/-- `struct xctrl` of an RX queue. The last five are bookkeeping of the model: the descriptors written since the start,
the buffers put into the ring, those allocated, those given back to the pool, and the packets handed to the packet
handler: the length in the header and the buffers with their lengths. -/
structure RxCtrl where
  c : NcNdpCtrl
  mbp : U32
  pbp : U32
  fbp : U32
  desc : Nat → U64
  xdpRing : Nat → RxBuff
  hdr : Nat → U16
  written : List U64
  placed : List RxBuff
  allocated : List RxBuff
  returned : List RxBuff
  handed : List (U16 × List (RxBuff × U32))

/-- `NFB_XDP_CTRL_PACKET_BURST`. -/
def nfbXdpCtrlPacketBurst : Nat := 64

/-- `nfb_xctrl_alloc_pp` or `nfb_xctrl_alloc_xsk`, and `nfb_xctrl_start`. -/
def nfbXctrlStartRx (env : StartEnv) (nbDesc : U32) : RxCtrl × Int :=
  match ncNdpCtrlStart .rx env zeroCtrl nbDesc nbDesc with
  | (c, ret) =>
    ({ c, mbp := nbDesc - 1, pbp := 0, fbp := 0, desc := fun _ => 0, xdpRing := fun _ => ⟨0, 0⟩, hdr := fun _ => 0,
       written := [], placed := [], allocated := [], returned := [], handed := [] }, ret)

/-! ## Refill -/

/-- The local variables of a fill. -/
structure RxFill where
  ctrl : RxCtrl
  sdp : U32
  fbp : U32
  freeDesc : U32

def RxFill.writeDesc (s : RxFill) (d : U64) : RxFill :=
  { s with
    ctrl := { s.ctrl with desc := Function.update s.ctrl.desc s.sdp.toNat d, written := s.ctrl.written ++ [d] }
    sdp := (s.sdp + 1) &&& s.ctrl.c.mdp
    freeDesc := s.freeDesc - 1 }

/-- The descriptor of type 0, for which a descriptor is free. -/
def RxFill.writeUpper (s : RxFill) (dma : U64) : RxFill :=
  { s with ctrl := { s.ctrl with c := { s.ctrl.c with lastUpperAddr := ndpCtrlDescUpperAddr dma } } }.writeDesc
    (ncNdpRxDesc0 dma)

/-- The data descriptor and the entry of the ring. -/
def RxFill.writeBuff (cfg : RxConfig) (s : RxFill) (b : RxBuff) : RxFill :=
  let s := s.writeDesc (ncNdpRxDesc2 b.dma (cfg.frameSize.setWidth 16) cfg.next)
  { s with
    ctrl := { s.ctrl with
      xdpRing := Function.update s.ctrl.xdpRing s.fbp.toNat b
      placed := s.ctrl.placed ++ [b] }
    fbp := (s.fbp + 1) &&& s.ctrl.mbp }

/-- The body of both fill loops; it is left with `false` when no descriptor is free. -/
def RxFill.place (cfg : RxConfig) (s : RxFill) (b : RxBuff) : RxFill × Bool :=
  if ndpCtrlDescUpperAddr b.dma ≠ s.ctrl.c.lastUpperAddr then
    if s.freeDesc = 0 then (s, false)
    else if (s.writeUpper b.dma).freeDesc = 0 then (s.writeUpper b.dma, false)
    else ((s.writeUpper b.dma).writeBuff cfg b, true)
  else if s.freeDesc = 0 then (s, false)
  else (s.writeBuff cfg b, true)

def RxFill.allocate (s : RxFill) (l : List RxBuff) : RxFill :=
  { s with ctrl := { s.ctrl with allocated := s.ctrl.allocated ++ l } }

/-- `page_pool_put_full_page` or `xsk_buff_free`. -/
def RxFill.giveBack (s : RxFill) (l : List RxBuff) : RxFill :=
  { s with ctrl := { s.ctrl with returned := s.ctrl.returned ++ l } }

/-- `n` rounds of the loop of `nfb_xctrl_rx_fill_pp`; `pages` are those the pool can give. -/
def fillPpLoop (cfg : RxConfig) : Nat → RxFill → List RxBuff → RxFill × Nat
  | 0, s, _ => (s, 0)
  | _ + 1, s, [] => (s, 0)
  | n + 1, s, page :: pages =>
    match (s.allocate [page]).place cfg page with
    | (s, false) => (s.giveBack [page], 0)
    | (s, true) =>
      match fillPpLoop cfg n s pages with
      | (s, filled) => (s, filled + 1)

/-- The loop of `nfb_xctrl_rx_fill_xsk` over the buffers of the batch, those that are left over included. -/
def fillXskLoop (cfg : RxConfig) : RxFill → List RxBuff → RxFill
  | s, [] => s
  | s, b :: l =>
    match s.place cfg b with
    | (s, false) => s.giveBack (b :: l)
    | (s, true) => fillXskLoop cfg s l

/-- What a fill meets: `hdp` in the update buffer and the buffers that the pool gives. -/
structure FillEnv where
  hdp : U32
  buffs : List RxBuff

def RxCtrl.freeBuffs (ctrl : RxCtrl) : U32 := (ctrl.pbp - ctrl.fbp - 1) &&& ctrl.mbp

def RxCtrl.freeDesc (ctrl : RxCtrl) : U32 := (ctrl.c.hdp - ctrl.c.sdp - 1) &&& ctrl.c.mdp

/-- `ctrl->rx.fbp = fbp; ctrl->c.sdp = sdp;`. -/
def RxFill.finish (s : RxFill) : RxCtrl := { s.ctrl with fbp := s.fbp, c := { s.ctrl.c with sdp := s.sdp } }

/-- `nfb_xctrl_rx_fill_pp` and `nfb_xctrl_rx_fill_xsk`; `real_count` is the number of buffers in the batch. -/
def nfbXctrlRxFill (cfg : RxConfig) (env : FillEnv) (ctrl : RxCtrl) : RxCtrl × Nat :=
  let ctrl := { ctrl with c := { ctrl.c with hdp := env.hdp } }
  if ctrl.freeBuffs.toNat < nfbXdpCtrlPacketBurst ∨ ctrl.freeDesc.toNat < nfbXdpCtrlPacketBurst then (ctrl, 0)
  else
    let s : RxFill := { ctrl, sdp := ctrl.c.sdp, fbp := ctrl.fbp, freeDesc := ctrl.freeDesc }
    match cfg.mode with
    | .pp =>
      match fillPpLoop cfg nfbXdpCtrlPacketBurst s env.buffs with
      | (s, filled) => (s.finish, filled)
    | .xsk => ((fillXskLoop cfg (s.allocate env.buffs) env.buffs).finish, env.buffs.length)

/-! ## Receive -/

/-- `while (len_remain)`: the fragments of a packet from the entry `pbp` on. -/
def rxFrags (frameSize : U32) (ctrl : RxCtrl) : Nat → U32 → U32 → List (RxBuff × U32) × U32
  | 0, _, pbp => ([], pbp)
  | fuel + 1, lenRemain, pbp =>
    if lenRemain = 0 then ([], pbp)
    else
      let len := if lenRemain > frameSize then frameSize else lenRemain
      match rxFrags frameSize ctrl fuel (lenRemain - len) ((pbp + 1) &&& ctrl.mbp) with
      | (frags, pbp') => ((ctrl.xdpRing pbp.toNat, len) :: frags, pbp')

/-- One round of the loop of `nfb_xctrl_rx_pp` and `nfb_xctrl_rx_xsk`. Without support for fragments the head gets the
whole length. -/
def rxPacket (cfg : RxConfig) (ctrl : RxCtrl) : RxCtrl :=
  let frameLen := ctrl.hdr ctrl.c.shp.toNat
  let lenRemain : U32 := frameLen.setWidth 32
  let len := if cfg.sg ∧ lenRemain > cfg.frameSize then cfg.frameSize else lenRemain
  let pbp := (ctrl.pbp + 1) &&& ctrl.mbp
  match rxFrags cfg.frameSize ctrl (lenRemain - len).toNat (lenRemain - len) pbp with
  | (frags, pbp) =>
    { ctrl with
      c := { ctrl.c with shp := (ctrl.c.shp + 1) &&& ctrl.c.mhp }
      pbp
      handed := ctrl.handed ++ [(frameLen, (ctrl.xdpRing ctrl.pbp.toNat, len) :: frags)] }

def rxLoop (cfg : RxConfig) : Nat → RxCtrl → RxCtrl
  | 0, ctrl => ctrl
  | n + 1, ctrl => rxLoop cfg n (rxPacket cfg ctrl)

/-- `nfb_xctrl_rx_pp` and `nfb_xctrl_rx_xsk` behind their fills; `hhp` is the pointer in the update buffer. -/
def nfbXctrlRx (cfg : RxConfig) (ctrl : RxCtrl) (nbPkts : U16) (hhp : U32) : RxCtrl :=
  let nbRx : U16 := ((hhp - ctrl.c.shp) &&& ctrl.c.mhp).setWidth 16
  rxLoop cfg (if nbPkts < nbRx then nbPkts else nbRx).toNat { ctrl with c := { ctrl.c with hhp } }

/-! ## The system -/

/-- The data descriptors that the hardware consumes for a packet. -/
def RxConfig.need (cfg : RxConfig) (frameLen : U16) : Nat :=
  max 1 ((frameLen.toNat + cfg.frameSize.toNat - 1) / cfg.frameSize.toNat)

/-- The controller and the packets for which the hardware has written a header. -/
structure RxWorld where
  ctrl : RxCtrl
  frames : List U16

/-- The pointer `hhp` in the update buffer. -/
def RxWorld.hhp (w : RxWorld) : U32 := BitVec.ofNat 32 w.frames.length &&& w.ctrl.c.mhp

/-- A poll calls fills until one returns 0, and then a receive. -/
inductive RxAction
  | fill (env : FillEnv)
  | receive (nbPkts : U16)
  | hardware (frameLen : U16)

def RxWorld.step (cfg : RxConfig) (w : RxWorld) : RxAction → RxWorld
  | .fill env => { w with ctrl := (nfbXctrlRxFill cfg env w.ctrl).1 }
  | .receive nbPkts => { w with ctrl := nfbXctrlRx cfg w.ctrl nbPkts w.hhp }
  | .hardware frameLen =>
    { ctrl := { w.ctrl with hdr := Function.update w.ctrl.hdr w.hhp.toNat frameLen }
      frames := w.frames ++ [frameLen] }

/-- What can happen: `hdp` is between the pointers, a batch has at most the size asked for, and the hardware fills
buffers it was given. -/
def RxWorld.Admissible (cfg : RxConfig) (w : RxWorld) : RxAction → Prop
  | .fill env =>
    env.hdp.toNat ≤ w.ctrl.c.mdp.toNat ∧
      ((env.hdp - w.ctrl.c.hdp) &&& w.ctrl.c.mdp).toNat ≤ ((w.ctrl.c.sdp - w.ctrl.c.hdp) &&& w.ctrl.c.mdp).toNat ∧
      (cfg.mode = .xsk → env.buffs.length ≤ nfbXdpCtrlPacketBurst)
  | .receive _ => True
  | .hardware frameLen => (w.frames.map cfg.need).sum + cfg.need frameLen ≤ w.ctrl.placed.length

instance (cfg : RxConfig) (w : RxWorld) : DecidablePred (w.Admissible cfg)
  | .fill _ => inferInstanceAs (Decidable (_ ∧ _ ∧ _))
  | .receive _ => inferInstanceAs (Decidable True)
  | .hardware _ => inferInstanceAs (Decidable (_ ≤ _))

end NdkSw.Xdp

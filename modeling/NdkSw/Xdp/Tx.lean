/-
The TX side of an XDP channel (`xdp/ctrl_xdp_common.h`, `ctrl_xdp_common.c`, `ctrl_xdp_xsk.c`, `ctrl_xdp_pp.c`): five
producers put packets into one ring of descriptors, with an entry of `tx.buffers` beside every descriptor, and one
consumer releases what the hardware has read. Every function runs under `tx_lock`. What the kernel returns to a call
(DMA addresses, failed mappings, the fate of `skb_padto`) comes with the packet.
-/
import NdkSw.Medusa.Ctrl
import NdkSw.Ring.Window
import NdkSw.Shared.Words

namespace NdkSw.Xdp

open Ndp Ring Medusa

/-! ## Data model -/

/-- `enum xdp_ctrl_tx_buff_type`. -/
inductive TxBuffType
  | descType0
  | framePp
  | frame
  | skb
  | xsk
  | xskRexmit
  | bug
  deriving DecidableEq, Repr

/-- What the union of `struct xctrl_tx_buffer` points to: an skb, a frame or an AF_XDP buffer, whose memory is that of
its head and of its fragments. -/
structure Packet where
  id : Nat
  nrFrags : Nat
  deriving DecidableEq, Repr

/-- `struct xctrl_tx_buffer`. -/
structure XctrlTxBuffer where
  type : TxBuffType
  ptr : Option Packet
  dma : U64
  len : U32
  deriving DecidableEq, Repr

/-- What the driver does to the outside: a mapping is made or undone, the memory of one piece of a packet is given
back, one descriptor of the AF_XDP TX ring is completed. -/
inductive TxEvent
  | map (dma : U64) (len : U32)
  | unmap (dma : U64) (len : U32)
  | free (id piece : Nat)
  | complete
  deriving DecidableEq, Repr

/-- `dev_kfree_skb`, `xdp_return_frame` and `xsk_buff_free` give back the head and all fragments. -/
def Packet.freed (p : Packet) : List TxEvent := (List.range (p.nrFrags + 1)).map (.free p.id)

/-- A slot of the ring as the submit that filled it means it: `owes` is what has to be released when the hardware has
passed it, and `inside` says that the packet goes on behind it. `desc` and `type` are its descriptor and the type of
its entry, `gives` is what the reclaim will make of that. -/
structure Owed where
  desc : U64
  type : TxBuffType
  gives : List TxEvent
  owes : List TxEvent
  inside : Bool
  deriving DecidableEq, Repr

/-- In which way the channel was started. -/
inductive XdpMode
  | pp
  | xsk
  deriving DecidableEq, Repr

/-- `struct xctrl` of a TX queue. `owed` is bookkeeping of the model: the slots between `hdp` and `sdp`. -/
structure TxCtrl where
  mode : XdpMode
  c : NcNdpCtrl
  desc : Nat → U64
  buffers : Nat → XctrlTxBuffer
  completedXskTx : Nat
  owed : List Owed

/-- `CONFIG_HAVE_XDP_SG` and `CONFIG_HAVE_AF_XDP_SG`. -/
structure SgConfig where
  xdpSg : Bool
  afXdpSg : Bool
  deriving DecidableEq, Repr

def ethZlen : U32 := 60

/-- An entry in zeroed memory. -/
def XctrlTxBuffer.zero : XctrlTxBuffer := { type := .descType0, ptr := none, dma := 0, len := 0 }

/-- `struct nc_ndp_ctrl` in zeroed memory. -/
def zeroCtrl : NcNdpCtrl := { lastUpperAddr := 0, mdp := 0, mhp := 0, sdp := 0, hdp := 0, shp := 0, hhp := 0 }

/-- `nfb_xctrl_alloc_pp` or `nfb_xctrl_alloc_xsk`, and `nfb_xctrl_start`. -/
def nfbXctrlStartTx (mode : XdpMode) (env : StartEnv) (nbDesc : U32) : TxCtrl × Int :=
  match ncNdpCtrlStart .tx env zeroCtrl nbDesc 0 with
  | (c, ret) =>
    ({ mode, c, desc := fun _ => 0, buffers := fun _ => .zero, completedXskTx := 0, owed := [] }, ret)

/-! ## A slot -/

/-- How a producer fills its entry of `tx.buffers`. A fragment of a page pool frame and a packet of the AF_XDP socket
leave the pointer of the entry as it was. -/
inductive SlotKind
  | skb (ptr : Option Packet)
  | frame (ptr : Option Packet)
  | framePp (ptr : Packet)
  | ppFrag
  | xskRexmit (ptr : Packet)
  | xsk
  deriving DecidableEq, Repr

def SlotKind.fill (dma : U64) (len : U32) (b : XctrlTxBuffer) : SlotKind → XctrlTxBuffer
  | .skb ptr => { type := .skb, ptr, dma, len }
  | .frame ptr => { type := .frame, ptr, dma, len }
  | .framePp ptr => { type := .framePp, ptr := some ptr, dma, len }
  | .ppFrag => { b with type := .descType0, dma, len }
  | .xskRexmit ptr => { type := .xskRexmit, ptr := some ptr, dma, len }
  | .xsk => { b with type := .xsk }

/-- A data descriptor with its entry. The last three are bookkeeping: what is accepted with it, if it continues a
packet and if the packet goes on behind it. -/
structure TxPiece where
  kind : SlotKind
  dma : U64
  len : U32
  next : U32
  owes : List TxEvent
  cont : Bool
  more : Bool
  deriving DecidableEq, Repr

def TxPiece.desc (p : TxPiece) : U64 := ncNdpTxDesc2 p.dma (p.len.setWidth 16) 0 p.next

/-- Writes one slot and moves on to the next one. -/
def TxCtrl.write (t : TxCtrl) (sdp : U32) (d : U64) (b : XctrlTxBuffer) : TxCtrl × U32 :=
  ({ t with
      desc := Function.update t.desc sdp.toNat d
      buffers := Function.update t.buffers sdp.toNat b },
    (sdp + 1) &&& t.c.mdp)

/-- The descriptor of type 0 in front of a piece whose upper address is not the last one. -/
def TxCtrl.putUpper (t : TxCtrl) (sdp : U32) (dma : U64) : TxCtrl × U32 :=
  if ndpCtrlDescUpperAddr dma ≠ t.c.lastUpperAddr then
    { t with c := { t.c with lastUpperAddr := ndpCtrlDescUpperAddr dma } }.write sdp (ncNdpTxDesc0 dma)
      { t.buffers sdp.toNat with type := .descType0 }
  else (t, sdp)

/-- What every producer does for every piece; `sdp` is its own copy of the pointer. -/
def TxCtrl.put (t : TxCtrl) (sdp : U32) (p : TxPiece) : TxCtrl × U32 :=
  match t.putUpper sdp p.dma with
  | (t, sdp) =>
    t.write sdp p.desc (p.kind.fill p.dma p.len (t.buffers sdp.toNat))

/-- The loop over the pieces of a packet. -/
def TxCtrl.putAll (t : TxCtrl) (sdp : U32) : List TxPiece → TxCtrl × U32
  | [] => (t, sdp)
  | p :: l => (t.put sdp p).1.putAll (t.put sdp p).2 l

def SlotKind.type : SlotKind → TxBuffType
  | .skb _ => .skb
  | .frame _ => .frame
  | .framePp _ => .framePp
  | .ppFrag => .descType0
  | .xskRexmit _ => .xskRexmit
  | .xsk => .xsk

def SlotKind.gives (dma : U64) (len : U32) : SlotKind → List TxEvent
  | .skb ptr | .frame ptr => .unmap dma len :: (ptr.elim [] Packet.freed)
  | .framePp ptr | .xskRexmit ptr => ptr.freed
  | .ppFrag | .xsk => []

/-- The slot of the descriptor of type 0, if there is one in front of the piece. -/
def TxPiece.upperSlots (last : U64) (p : TxPiece) : List Owed :=
  if ndpCtrlDescUpperAddr p.dma ≠ last then
    [{ desc := ncNdpTxDesc0 p.dma, type := .descType0, gives := [], owes := [], inside := p.cont }]
  else []

def TxPiece.slot (p : TxPiece) : Owed :=
  { desc := p.desc, type := p.kind.type, gives := p.kind.gives p.dma p.len, owes := p.owes, inside := p.more }

/-- The slots of pieces behind one with the upper address `last`. -/
def slotsOf (last : U64) : List TxPiece → List Owed
  | [] => []
  | p :: l => p.upperSlots last ++ p.slot :: slotsOf (ndpCtrlDescUpperAddr p.dma) l

/-- `ctrl->c.sdp = sdp`: from here on the pieces are the hardware's. -/
def TxCtrl.commit (t : TxCtrl) (sdp : U32) (slots : List Owed) : TxCtrl :=
  { t with c := { t.c with sdp }, owed := t.owed ++ slots }

def TxCtrl.freeDesc (t : TxCtrl) : U32 := (t.c.hdp - t.c.sdp - 1) &&& t.c.mdp

/-! ## Packets with fragments -/

/-- A fragment: the result of `skb_frag_dma_map`, the address its page has in the page pool, its size. -/
structure Frag where
  map : Option U64
  page : U64
  size : U32
  deriving DecidableEq, Repr

/-- The fragments of a packet, whose number `nr_frags` is a byte. -/
abbrev Frags := { l : List Frag // l.length < 256 }

/-- The last fragment has the flag `next` cleared. -/
def fragPiece (kind : SlotKind) (mapped : Bool) (id j : Nat) (dma : U64) (len : U32) (last : Bool) : TxPiece :=
  { kind, dma, len
    next := if last then 0 else 1
    owes := (if mapped then [.unmap dma len] else []) ++ [.free id j]
    cont := true
    more := !last }

/-- The pieces of the fragments that are mapped before the first failure; `j` is the number of the first piece. -/
def fragPieces (kind : SlotKind) (mapped : Bool) (id : Nat) : Nat → List (Option U64 × U32) → List TxPiece
  | _, [] => []
  | _, (none, _) :: _ => []
  | j, (some dma, len) :: l => fragPiece kind mapped id j dma len (l = []) :: fragPieces kind mapped id (j + 1) l

/-- The loop over the fragments: the controller, `sdp`, the number of fragments done and if a mapping failed. -/
structure FragsDone where
  ctrl : TxCtrl
  sdp : U32
  i : Nat
  failed : Bool

def TxCtrl.putFrags (kind : SlotKind) (mapped : Bool) (id : Nat) (t : TxCtrl) (sdp : U32) (i : Nat) :
    List (Option U64 × U32) → FragsDone
  | [] => { ctrl := t, sdp, i, failed := false }
  | (none, _) :: _ => { ctrl := t, sdp, i, failed := true }
  | (some dma, len) :: l =>
    match t.put sdp (fragPiece kind mapped id (i + 1) dma len (l = [])) with
    | (t, sdp) => t.putFrags kind mapped id sdp (i + 1) l

/-- The loop behind a failed mapping: it looks at `n` slots. -/
def TxCtrl.unmapSlots (type : TxBuffType) (t : TxCtrl) (sdp : U32) : Nat → List TxEvent
  | 0 => []
  | n + 1 =>
    (if (t.buffers sdp.toNat).type = type then [.unmap (t.buffers sdp.toNat).dma (t.buffers sdp.toNat).len] else []) ++
      t.unmapSlots type ((sdp + 1) &&& t.c.mdp) n

/-- The mappings made for the fragments before the first failure. -/
def mapEvents : List (Option U64 × U32) → List TxEvent
  | [] => []
  | (none, _) :: _ => []
  | (some dma, len) :: l => .map dma len :: mapEvents l

/-- `struct sk_buff`. `padto` is the result of `skb_padto`, `head` the address that `dma_map_single` returns. -/
structure Skb where
  id : Nat
  len : U32
  headlen : U32
  padto : Bool
  head : Option U64
  frags : Frags

def Skb.packet (skb : Skb) : Packet := { id := skb.id, nrFrags := skb.frags.1.length }

def Skb.mapped (skb : Skb) : List (Option U64 × U32) := skb.frags.1.map fun f => (f.map, f.size)

/-- The length that is mapped for the head. -/
def Skb.mapLen (skb : Skb) : U32 := if skb.len < ethZlen then ethZlen else skb.headlen

def Skb.headPiece (skb : Skb) (dma : U64) : TxPiece :=
  { kind := .skb (some skb.packet)
    dma
    len := skb.mapLen
    next := if skb.frags.1 = [] then 0 else 1
    owes := [.unmap dma skb.mapLen, .free skb.id 0]
    cont := false
    more := decide (skb.frags.1 ≠ []) }

/-- The pieces of an skb that was mapped as a whole. -/
def Skb.pieces (skb : Skb) (dma : U64) : List TxPiece :=
  skb.headPiece dma :: fragPieces (.skb none) true skb.id 1 skb.mapped

/-- What a submit returns; `ret = 0` says that the packet was accepted. -/
structure TxReturn where
  ctrl : TxCtrl
  events : List TxEvent
  ret : Int

/-- There is no room for a packet with these fragments. -/
def TxCtrl.busy (t : TxCtrl) (frags : Frags) : Prop := t.freeDesc < (BitVec.ofNat 32 frags.1.length + 1) * 2

instance (t : TxCtrl) (frags : Frags) : Decidable (t.busy frags) := inferInstanceAs (Decidable (_ < _))

/-- `nfb_xctrl_start_xmit`, which answers `NETDEV_TX_OK` in any case; `ret` tells a packet that was sent from one that
was dropped. -/
def nfbXctrlStartXmit (t : TxCtrl) (skb : Skb) : TxReturn :=
  if t.busy skb.frags then
    { ctrl := t, events := skb.packet.freed, ret := eBusy }
  else
    -- `skb_padto` frees the skb when it fails; its result is not looked at
    let padded := if skb.len < ethZlen ∧ ¬ skb.padto then skb.packet.freed else []
    match skb.head with
    | none => { ctrl := t, events := padded ++ skb.packet.freed, ret := eNomem }
    | some dma =>
      match t.put t.c.sdp (skb.headPiece dma) with
      | (t₁, sdp) =>
        let done := t₁.putFrags (.skb none) true skb.id sdp 0 skb.mapped
        let maps := .map dma skb.mapLen :: mapEvents skb.mapped
        if done.failed then
          { ctrl := done.ctrl
            events := padded ++ maps ++ done.ctrl.unmapSlots .skb done.ctrl.c.sdp (done.i + 1) ++ skb.packet.freed
            ret := eNomem }
        else
          { ctrl := done.ctrl.commit done.sdp (slotsOf t.c.lastUpperAddr (skb.pieces dma))
            events := padded ++ maps
            ret := 0 }

/-- `struct xdp_frame`. `page` is the address its page has in the page pool, with the headroom. -/
structure XdpFrame where
  id : Nat
  len : U32
  frameSz : U32
  headroom : U32
  head : Option U64
  page : U64
  frags : Frags

def XdpFrame.packet (f : XdpFrame) : Packet := { id := f.id, nrFrags := f.frags.1.length }

def XdpFrame.mapped (f : XdpFrame) (pp : Bool) : List (Option U64 × U32) :=
  f.frags.1.map fun g => (if pp then some g.page else g.map, g.size)

def XdpFrame.mapLen (f : XdpFrame) : U32 := if f.len < ethZlen then ethZlen else f.len

def fragKind (pp : Bool) : SlotKind := if pp then .ppFrag else .frame none

def XdpFrame.headPiece (cfg : SgConfig) (f : XdpFrame) (pp : Bool) (dma : U64) : TxPiece :=
  { kind := if pp then .framePp f.packet else .frame (some f.packet)
    dma
    len := f.mapLen
    next := if cfg.xdpSg ∧ f.frags.1 ≠ [] then 1 else 0
    owes := (if pp then [] else [.unmap dma f.mapLen]) ++ [.free f.id 0]
    cont := false
    more := decide (f.frags.1 ≠ []) }

def XdpFrame.pieces (cfg : SgConfig) (f : XdpFrame) (pp : Bool) (dma : U64) : List TxPiece :=
  f.headPiece cfg pp dma :: fragPieces (fragKind pp) (!pp) f.id 1 (f.mapped pp)

/-- A frame that is too short and has no room to be padded. -/
def XdpFrame.tooSmall (f : XdpFrame) : Prop := f.len < ethZlen ∧ f.frameSz - f.headroom < ethZlen

instance (f : XdpFrame) : Decidable f.tooSmall := inferInstanceAs (Decidable (_ ∧ _))

/-- `nfb_xctrl_tx_submit_frame_needs_lock`. -/
def nfbXctrlTxSubmitFrameNeedsLock (cfg : SgConfig) (t : TxCtrl) (f : XdpFrame) (pp : Bool) : TxReturn :=
  if t.busy f.frags then { ctrl := t, events := [], ret := eBusy }
  else if f.tooSmall then { ctrl := t, events := [], ret := eNotsupp }
  else
    match if pp then some f.page else f.head with
    | none => { ctrl := t, events := [], ret := eNomem }
    | some dma =>
      match t.put t.c.sdp (f.headPiece cfg pp dma) with
      | (t₁, sdp) =>
        let done := t₁.putFrags (fragKind pp) (!pp) f.id sdp 0 (f.mapped pp)
        let maps := if pp then [] else .map dma f.mapLen :: mapEvents (f.mapped pp)
        if done.failed then
          { ctrl := done.ctrl
            events := maps ++ if pp then [] else done.ctrl.unmapSlots .frame done.ctrl.c.sdp (done.i + 1)
            ret := eNomem }
        else
          { ctrl := done.ctrl.commit done.sdp (slotsOf t.c.lastUpperAddr (f.pieces cfg pp dma))
            events := maps
            ret := 0 }

/-- The loop of `nfb_xctrl_xdp_xmit`; the caller keeps the frames that are not sent. -/
def nfbXctrlXdpXmit (cfg : SgConfig) (t : TxCtrl) : List XdpFrame → TxCtrl × List TxEvent × Nat
  | [] => (t, [], 0)
  | f :: l =>
    let r := nfbXctrlTxSubmitFrameNeedsLock cfg t f false
    if r.ret ≠ 0 then (r.ctrl, r.events, 0)
    else
      match nfbXctrlXdpXmit cfg r.ctrl l with
      | (t, events, cnt) => (t, r.events ++ events, cnt + 1)

/-- `nfb_xctrl_rexmit_pp` for a frame of the page pool. -/
def nfbXctrlRexmitPp (cfg : SgConfig) (t : TxCtrl) (f : XdpFrame) : TxReturn :=
  let r := nfbXctrlTxSubmitFrameNeedsLock cfg t f true
  if r.ret ≠ 0 then { r with events := r.events ++ f.packet.freed } else r

/-! ## AF_XDP -/

/-- An AF_XDP buffer that goes back: the buffer, its DMA address and its length. -/
structure XskFrag where
  id : Nat
  dma : U64
  len : U32
  deriving DecidableEq, Repr

/-- A buffer with its fragments. A frame has at most 65535 bytes, and a fragment at least one. -/
abbrev XskFrags := { l : List XskFrag // l.length < 2 ^ 16 }

def XskFrag.packet (f : XskFrag) : Packet := { id := f.id, nrFrags := 0 }

def XskFrag.mapLen (f : XskFrag) : U32 := if f.len < ethZlen then ethZlen else f.len

def xskPieces : List XskFrag → List TxPiece
  | [] => []
  | f :: l =>
    { kind := .xskRexmit f.packet, dma := f.dma, len := f.mapLen, next := if l = [] then 0 else 1
      owes := [.free f.id 0], cont := false, more := false } :: xskPieces l

/-- `nfb_xctrl_rexmit_xsk`. Without support for fragments the buffer is one piece. -/
def nfbXctrlRexmitXsk (cfg : SgConfig) (t : TxCtrl) (xdp : XskFrags) : TxReturn :=
  let frags := if cfg.afXdpSg then xdp.1 else xdp.1.take 1
  if t.freeDesc < BitVec.ofNat 32 frags.length * 2 then
    { ctrl := t, events := frags.flatMap (·.packet.freed), ret := eBusy }
  else
    match t.putAll t.c.sdp (xskPieces frags) with
    | (t₁, sdp) => { ctrl := t₁.commit sdp (slotsOf t.c.lastUpperAddr (xskPieces frags)), events := [], ret := 0 }

/-- `struct xdp_desc`; `eop` is `xsk_is_eop_desc`. -/
structure XdpDesc where
  dma : U64
  len : U32
  eop : Bool
  deriving DecidableEq, Repr

def XdpDesc.piece (cfg : SgConfig) (d : XdpDesc) : TxPiece :=
  { kind := .xsk, dma := d.dma, len := if d.len < ethZlen then ethZlen else d.len
    next := if cfg.afXdpSg ∧ ¬ d.eop then 1 else 0
    owes := [.complete], cont := false, more := false }

/-- `nfb_xctrl_napi_poll_tx_xsk`: `descs` are what `xsk_tx_peek_release_desc_batch` returns. -/
def nfbXctrlNapiPollTxXsk (cfg : SgConfig) (t : TxCtrl) (budget : Nat) (descs : List XdpDesc) : TxCtrl :=
  if t.freeDesc < BitVec.ofNat 32 (budget * 2) then t
  else
    match t.putAll t.c.sdp (descs.map (·.piece cfg)) with
    | (t₁, sdp) => t₁.commit sdp (slotsOf t.c.lastUpperAddr (descs.map (·.piece cfg)))

/-! ## Reclaim -/

/-- What is released for an entry. There is none for a type that the code takes for a bug of the driver. -/
def XctrlTxBuffer.release (b : XctrlTxBuffer) : Option (List TxEvent) :=
  match b.type with
  | .framePp | .xskRexmit => b.ptr.map Packet.freed
  | .skb | .frame => some (.unmap b.dma b.len :: b.ptr.elim [] Packet.freed)
  | .xsk | .descType0 => some []
  | .bug => none

/-- The loop of `nfb_xctrl_tx_free_buffers`. A pointer that is not inside the ring is never reached. -/
def txFreeLoop (hdpNew : U32) : Nat → U32 → TxCtrl → Option (TxCtrl × List TxEvent)
  | 0, _, _ => none
  | fuel + 1, i, t =>
    if i = hdpNew then some (t, [])
    else
      match (t.buffers i.toNat).release with
      | none => none
      | some events =>
        let t' : TxCtrl :=
          { t with
            completedXskTx := if (t.buffers i.toNat).type = .xsk then t.completedXskTx + 1 else t.completedXskTx
            buffers := Function.update t.buffers i.toNat { t.buffers i.toNat with type := .bug } }
        match txFreeLoop hdpNew fuel ((i + 1) &&& t.c.mdp) t' with
        | none => none
        | some (t, rest) => some (t, events ++ rest)

/-- `nfb_xctrl_tx_free_buffers`; `hw` is the pointer in the update buffer. -/
def nfbXctrlTxFreeBuffers (t : TxCtrl) (cleanup : Bool) (hw : U32) : Option (TxCtrl × List TxEvent) :=
  let hdpOld := t.c.hdp
  let hdpNew := if cleanup then t.c.hdp else hw
  let t := { t with c := { t.c with hdp := hdpNew }, owed := t.owed.drop ((hdpNew - hdpOld) &&& t.c.mdp).toNat }
  txFreeLoop hdpNew (t.c.mdp.toNat + 1) hdpOld t

/-- The part of `nfb_xctrl_napi_poll_pp` and `nfb_xctrl_napi_poll_rx_xsk` that reclaims. -/
def reclaim (t : TxCtrl) (hw : U32) : Option (TxCtrl × List TxEvent) :=
  match nfbXctrlTxFreeBuffers t false hw with
  | none => none
  | some (t, events) =>
    match t.mode with
    | .pp => some (t, events)
    | .xsk => some ({ t with completedXskTx := 0 }, events ++ List.replicate t.completedXskTx .complete)

end NdkSw.Xdp

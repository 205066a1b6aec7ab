/-
Where a queue finds its ring (`ring.c`, `char.c`, the attach and detach of `ctrl_ndp.c`, `ndp.h`): the driver
allocates rings, registers windows of the device file for them and describes them in the device tree; a handle copies
the tree when the device is opened, and a queue takes size and window from that copy. What the allocations, the
subscription and the mappings of a call return is part of the call. This is the userspace build; an allocation has
a number that no other one gets.
-/
import NdkSw.Ndp.Handle
import NdkSw.Nfb.CharMmap

namespace NdkSw.Ndp.Geometry

open Nfb Ring

/-! ## Data model -/

/-- A channel by its `ops`. -/
inductive CtrlKind
  | medusa
  | calypteRx
  | calypteTx
  deriving DecidableEq, Repr

/-- The handlers of windows with their `priv`: `ndp_ring_mmap`, `ndp_ctrl_hdr_mmap`, `ndp_ctrl_off_mmap` and
`ndp_ctrl_upd_mmap` of a channel, and `nfb_mi_mmap`. -/
inductive Region
  | ring (c : ChannelId)
  | hdr (c : ChannelId)
  | off (c : ChannelId)
  | upd (c : ChannelId)
  | mi (n : Nat)
  deriving DecidableEq, Repr

def Region.owner : Region → Option ChannelId
  | .ring c | .hdr c | .off c | .upd c => some c
  | .mi _ => none

/-- The windows of the device file; `wrapped` says that one was registered beyond the 64-bit offsets. -/
structure Registry where
  items : List (NfbCharMmapMod Region)
  wrapped : Bool

/-- The blocks of a `struct ndp_ring`, of which `blocks` is the number of the allocation. -/
structure RingBlocks where
  blocks : Nat
  blockCount : U64
  blockSize : U64
  deriving DecidableEq, Repr

/-- `ring.size`. -/
def RingBlocks.size (r : RingBlocks) : U64 := r.blockCount * r.blockSize

/-- `struct ndp_channel` with its `struct ndp_ctrl`. `hdrBuffer` and `updateBuffer` say that these are not `NULL`,
`bufferCount` is `cfg.buffer_count`. -/
structure RingChannel where
  ring : Option RingBlocks
  mmapOffset : U64
  startCount : Nat
  bufferCount : U32
  hdrCount : U32
  hdrBuffEnRwMap : Bool
  offBufferSize : U64
  hdrBufferSize : U64
  dataBufferSize : U64
  updateBufferSize : U64
  hdrBuffer : Bool
  updateBuffer : Bool
  hdrMmapOffset : U64
  offMmapOffset : U64
  updMmapOffset : U64
  mdp : U32
  mhp : U32
  deriving DecidableEq, Repr

/-- A channel behind `ndp_ctrl_create`. -/
def RingChannel.zero : RingChannel :=
  { ring := none, mmapOffset := 0, startCount := 0, bufferCount := 0, hdrCount := 0
    hdrBuffEnRwMap := false, offBufferSize := 0, hdrBufferSize := 0, dataBufferSize := 0, updateBufferSize := 0
    hdrBuffer := false, updateBuffer := false, hdrMmapOffset := 0, offMmapOffset := 0, updMmapOffset := 0
    mdp := 0, mhp := 0 }

def RingChannel.size (s : RingChannel) : U64 := (s.ring.map RingBlocks.size).getD 0

/-- What `ndp_channel_update_fdt` writes. -/
structure RingProps where
  size : U64
  mmapSize : U64
  mmapBase : U64
  deriving DecidableEq, Repr

/-- What an attach writes and a queue is made from. -/
structure CtrlProps where
  protocol : Nat
  hdrMmapSize : U64
  dataBuffSize : U32
  hdrBuffSize : U32
  deriving DecidableEq, Repr

/-- The node of a queue in the device tree. -/
structure QueueNode where
  ring : Option RingProps
  ctrl : Option CtrlProps
  deriving DecidableEq, Repr

/-- What does not change: the controllers of the card, with the sizes of the buffers that the firmware has for a Calypte
TX channel, and the page size. -/
structure Card where
  dma : ChannelId → DmaType
  dataBuff : ChannelId → U32
  hdrBuff : ChannelId → U32
  pageSize : U64
  pageSize_pos : 0 < pageSize.toNat
  pageSize_lt : pageSize.toNat < 2 ^ 32

def Card.kind (card : Card) (c : ChannelId) : CtrlKind :=
  match card.dma c, c.type with
  | .medusa, _ => .medusa
  | .calypte, .rx => .calypteRx
  | .calypte, .tx => .calypteTx

/-- What the calls on a channel work on; `next` is the number of the next allocation. -/
structure Site where
  files : Registry
  ch : RingChannel
  node : QueueNode
  next : Nat

/-- What an attach meets: its checks, the allocations of its areas with their mappings, and the items of its windows. -/
structure AttachEnv where
  check : Bool
  update : Bool
  desc : Bool
  off : Bool
  offItem : Bool
  updItem : Bool
  hdr : Bool
  hdrItem : Bool

/-- What a creation of a ring meets. -/
structure CreateRingEnv where
  alloc : Bool
  item : Bool
  attach : AttachEnv

/-- What a resize asks for: the stored request of the channel. -/
structure Request where
  blockCount : U64
  blockSize : U64
  bufferCount : U32

/-- What a resize meets, with the new ring and with the old one. -/
structure ResizeRingEnv where
  new : CreateRingEnv
  old : CreateRingEnv

/-- `ALIGN`. -/
def align (page x : U64) : U64 := (x + (page - 1)) / page * page

/-! ## Windows -/

def Registry.register (m : Registry) (item : Bool) (size : U64) (r : Region) : Registry × Int × Option U64 :=
  match nfbCharRegisterMmap item size r m.items with
  | (items, ret, offset) => ({ items, wrapped := m.wrapped || !decide (NoWrap m.items (.register size r item)) }, ret, offset)

def Registry.unregister (m : Registry) (offset : U64) : Registry :=
  { m with items := (nfbCharUnregisterMmap offset m.items).1 }

/-! ## Attach and detach -/

/-- The size of the header area of `n` headers of `size` bytes. -/
def hdrArea (card : Card) (size : U64) (n : U32) : U64 := align card.pageSize (n.signExtend 64 * size)

/-- The registration of the header window at the end of an attach. The other windows of the attach are taken back by
`undo`. -/
def attachHdr (c : ChannelId) (item : Bool) (done : RingChannel → RingChannel) (props : RingChannel → CtrlProps)
    (undo : Registry → Registry) (s : Site) : Site × Int :=
  match s.files.register item (2 * s.ch.hdrBufferSize) (.hdr c) with
  | (files, ret, offset) =>
    let ch := { s.ch with hdrMmapOffset := offset.getD s.ch.hdrMmapOffset }
    if ret ≠ 0 then ({ s with files := undo files, ch }, ret)
    else
      let ch := done { ch with hdrBuffer := true, updateBuffer := true }
      ({ s with files, ch, node := { s.node with ctrl := some (props ch) } }, 0)

def medusaProps (ch : RingChannel) : CtrlProps :=
  { protocol := 2, hdrMmapSize := ch.hdrBufferSize * 2, dataBuffSize := 0, hdrBuffSize := 0 }

/-- `ndp_ctrl_medusa_attach_ring`. When the headers cannot be had, the result is that of the registration in front
of them. -/
def ndpCtrlMedusaAttachRing (card : Card) (c : ChannelId) (env : AttachEnv) (s : Site) : Site × Int :=
  if s.ch.size = 0 then (s, eInval)
  else if ¬ env.check then (s, eInval)
  else
    let ch := { s.ch with hdrCount := s.ch.bufferCount }
    if ¬ env.update ∨ ¬ env.desc ∨ ¬ env.off then ({ s with ch }, eNomem)
    else
      let ch := { ch with offBufferSize := hdrArea card 8 ch.hdrCount }
      match s.files.register env.offItem (2 * ch.offBufferSize) (.off c) with
      | (files, ret, offset) =>
        let ch := { ch with offMmapOffset := offset.getD ch.offMmapOffset }
        if ret ≠ 0 then ({ s with files, ch }, ret)
        else
          let ch := { ch with hdrBufferSize := hdrArea card 4 ch.hdrCount }
          if ¬ env.hdr then ({ s with files := files.unregister ch.offMmapOffset, ch }, ret)
          else attachHdr c env.hdrItem id medusaProps (·.unregister ch.offMmapOffset) { s with files, ch }

def calypteRxProps (ch : RingChannel) : CtrlProps :=
  { protocol := 3, hdrMmapSize := ch.hdrBufferSize * 2, dataBuffSize := 0, hdrBuffSize := 0 }

/-- `ndp_ctrl_rx_calypte_attach_ring`. -/
def ndpCtrlRxCalypteAttachRing (card : Card) (c : ChannelId) (env : AttachEnv) (s : Site) : Site × Int :=
  match s.ch.ring with
  | none => (s, eInval)
  | some r =>
    if r.size = 0 then (s, eInval)
    else if r.blockCount ≠ 1 then (s, eInval)
    else
      let ch := { s.ch with hdrBuffEnRwMap := true, hdrCount := (r.size / 128).setWidth 32 }
      if ch.hdrCount.signExtend 64 * 8 < card.pageSize then ({ s with ch }, eInval)
      else if ¬ env.update then ({ s with ch }, eInval)
      else
        let ch := { ch with updateBufferSize := align card.pageSize 4, hdrBufferSize := hdrArea card 8 ch.hdrCount }
        if ¬ env.hdr then ({ s with ch }, eNomem)
        else attachHdr c env.hdrItem id calypteRxProps id { s with ch }

def calypteTxProps (ch : RingChannel) : CtrlProps :=
  { protocol := 3, hdrMmapSize := ch.hdrBufferSize * 2, dataBuffSize := ch.dataBufferSize.setWidth 32
    hdrBuffSize := ch.hdrBufferSize.setWidth 32 }

/-- The masks at the end of `ndp_ctrl_tx_calypte_attach_ring`. -/
def calypteTxMasks (ch : RingChannel) : RingChannel :=
  { ch with
    mdp := ((ch.dataBufferSize / 2 - 1) &&& 0xFFFF).setWidth 32
    mhp := ((ch.hdrBufferSize / 16 - 1) &&& 0xFFFF).setWidth 32 }

/-- `ndp_ctrl_tx_calypte_attach_ring`. A failed registration of the update window takes the header window back; when
the headers cannot be had the update window stays, and the result is that of its registration. -/
def ndpCtrlTxCalypteAttachRing (card : Card) (c : ChannelId) (env : AttachEnv) (s : Site) : Site × Int :=
  if ¬ env.check then (s, eBadfd)
  else
    let ch := { s.ch with dataBufferSize := (card.dataBuff c).setWidth 64, updateBufferSize := align card.pageSize 4 }
    if ¬ env.update then ({ s with ch }, eInval)
    else
      match s.files.register env.updItem ch.updateBufferSize (.upd c) with
      | (files, ret, offset) =>
        let ch := { ch with updMmapOffset := offset.getD ch.updMmapOffset }
        if ret ≠ 0 then ({ s with files := files.unregister ch.hdrMmapOffset, ch := { ch with hdrBuffer := false } }, ret)
        else
          let ch := { ch with hdrBufferSize := (card.hdrBuff c).setWidth 64 }
          if ¬ env.hdr then ({ s with files, ch }, ret)
          else attachHdr c env.hdrItem calypteTxMasks calypteTxProps id { s with files, ch }

/-- `ops->attach_ring`. -/
def attachRing (card : Card) (c : ChannelId) (env : AttachEnv) (s : Site) : Site × Int :=
  match card.kind c with
  | .medusa => ndpCtrlMedusaAttachRing card c env s
  | .calypteRx => ndpCtrlRxCalypteAttachRing card c env s
  | .calypteTx => ndpCtrlTxCalypteAttachRing card c env s

/-- The header area goes. -/
def detachHdr (s : Site) : Site :=
  if s.ch.hdrBuffer then
    { s with files := s.files.unregister s.ch.hdrMmapOffset, ch := { s.ch with hdrBuffer := false } }
  else s

/-- `ndp_ctrl_medusa_detach_ring`. The window of the offsets stays. -/
def ndpCtrlMedusaDetachRing (s : Site) : Site :=
  let s := detachHdr s
  { s with ch := { s.ch with updateBuffer := false } }

/-- `ndp_ctrl_calypte_detach_ring`, for both directions: an RX channel has no update window, and the offset 0. -/
def ndpCtrlCalypteDetachRing (s : Site) : Site :=
  let s := detachHdr s
  if s.ch.updateBuffer then
    { s with files := s.files.unregister s.ch.updMmapOffset, ch := { s.ch with updateBuffer := false } }
  else s

/-- `ops->detach_ring`. -/
def detachRing (card : Card) (c : ChannelId) (s : Site) : Site :=
  match card.kind c with
  | .medusa => ndpCtrlMedusaDetachRing s
  | .calypteRx | .calypteTx => ndpCtrlCalypteDetachRing s

/-! ## Rings -/

/-- `ndp_channel_update_fdt`. -/
def ndpChannelUpdateFdt (s : Site) : Site :=
  { s with node := { s.node with ring := some { size := s.ch.size, mmapSize := 2 * s.ch.size, mmapBase := s.ch.mmapOffset } } }

/-- `ndp_channel_ring_free`. -/
def ndpChannelRingFree (s : Site) : Site := { s with ch := { s.ch with ring := none } }

/-- `ndp_channel_ring_create`; `ndp_block_alloc` takes a 32-bit count and fails without a block. -/
def ndpChannelRingCreate (card : Card) (c : ChannelId) (env : CreateRingEnv) (blockCount blockSize : U64) (s : Site) :
    Site × Int :=
  if blockCount = 0 then (s, 0)
  else if blockCount.setWidth 32 = (0 : U32) ∨ blockSize = 0 ∨ ¬ env.alloc then (ndpChannelRingFree s, eNomem)
  else
    let s := { s with ch := { s.ch with ring := some { blocks := s.next, blockCount, blockSize } }, next := s.next + 1 }
    match s.files.register env.item (2 * s.ch.size) (.ring c) with
    | (files, ret, offset) =>
      let s := { s with files, ch := { s.ch with mmapOffset := offset.getD s.ch.mmapOffset } }
      if ret ≠ 0 then (ndpChannelRingFree s, ret)
      else
        match attachRing card c env.attach (ndpChannelUpdateFdt s) with
        | (s, ret) =>
          if ret ≠ 0 then (ndpChannelRingFree { s with files := s.files.unregister s.ch.mmapOffset }, ret) else (s, 0)

/-- `ndp_channel_ring_destroy`. -/
def ndpChannelRingDestroy (card : Card) (c : ChannelId) (s : Site) : Site :=
  if s.ch.size = 0 then s
  else ndpChannelUpdateFdt (ndpChannelRingFree (detachRing card c { s with files := s.files.unregister s.ch.mmapOffset }))

/-- `ndp_channel_ring_resize` for the stored request. The old sizes are taken before the ring goes. -/
def ndpChannelRingResize (card : Card) (c : ChannelId) (env : ResizeRingEnv) (req : Request) (s : Site) : Site × Int :=
  let s := { s with ch := { s.ch with bufferCount := req.bufferCount } }
  if s.ch.startCount ≠ 0 then (s, eBusy)
  else
    match ndpChannelRingCreate card c env.new req.blockCount req.blockSize (ndpChannelRingDestroy card c s) with
    | (s', ret) =>
      if ret = 0 then (s', 0)
      else
        match s.ch.ring with
        | some r => if r.blockCount ≠ 0 then ((ndpChannelRingCreate card c env.old r.blockCount r.blockSize s').1, ret) else (s', ret)
        | none => (s', ret)

/-! ## Queues -/

/-- What a mapping of the device file refers to: the blocks of a ring, or another area. -/
inductive Mapped
  | blocks (n : Nat)
  | region (r : Region)
  deriving DecidableEq, Repr

/-- `struct nc_ndp_queue`; `buffer` is what is mapped with its length, `none` for `MAP_FAILED`. -/
structure RingQueue where
  channel : ChannelId
  protocol : Nat
  size : U64
  buffer : Option (Mapped × U64)
  hdrItems : U32
  hdrPtrMask : U32
  dataPtrMask : U32
  running : Bool
  deriving DecidableEq, Repr

/-- The device, with the copies of the tree that handles have and the queues that are open. -/
structure World where
  files : Registry
  ch : ChannelId → RingChannel
  tree : ChannelId → QueueNode
  next : Nat
  handles : List (ChannelId → QueueNode)
  queues : List RingQueue

/-- `ndp_ring_mmap`, and the tests of the other handlers but that of the registers of the card. -/
def World.handler (w : World) (write : Bool) (offset size : U64) : Region → Option Mapped
  | .ring c =>
    match (w.ch c).ring with
    | some r =>
      if c.type = .rx ∧ write then none
      else if offset ≠ (w.ch c).mmapOffset ∨ size ≠ 2 * r.size then none
      else some (.blocks r.blocks)
    | none => none
  | .hdr c =>
    if c.type = .rx ∧ write ∧ ¬ (w.ch c).hdrBuffEnRwMap then none
    else if offset ≠ (w.ch c).hdrMmapOffset ∨ size ≠ (w.ch c).hdrBufferSize * 2 then none
    else some (.region (.hdr c))
  | .off c =>
    if c.type = .rx ∧ write then none
    else if offset ≠ (w.ch c).offMmapOffset ∨ size ≠ (w.ch c).offBufferSize * 2 then none
    else some (.region (.off c))
  | .upd c =>
    if write then none
    else if offset ≠ (w.ch c).updMmapOffset ∨ size ≠ (w.ch c).updateBufferSize then none
    else some (.region (.upd c))
  | .mi n => some (.region (.mi n))

/-- `mmap` of the device file. -/
def World.mmap (w : World) (write : Bool) (offset size : U64) : Option Mapped :=
  (nfbCharMmap w.files.items offset size).bind (w.handler write offset size)

/-- What an open meets behind the checks that are part of the model: the subscription, and the mappings. -/
structure QueueEnv where
  subscribe : Int
  mmap : Bool
  hdrMmap : Bool
  offMmap : Bool
  updMmap : Bool
  comp : Bool

/-- `nc_ndp_v2_open_queue`. A mapping that fails leaves its result at 0. -/
def ncNdpV2OpenQueue (env : QueueEnv) (k : CtrlProps) (q : RingQueue) : RingQueue × Int :=
  if ¬ env.hdrMmap ∨ ¬ env.offMmap then (q, 0) else ({ q with hdrItems := (k.hdrMmapSize / 2 / 4).setWidth 32 }, 0)

/-- `nc_ndp_v3_open_queue`. -/
def ncNdpV3OpenQueue (env : QueueEnv) (k : CtrlProps) (q : RingQueue) : RingQueue × Int :=
  if ¬ env.hdrMmap ∨ (q.channel.type = .tx ∧ ¬ env.updMmap) then (q, eBadfd)
  else if ¬ env.comp then (q, eNodev)
  else
    match q.channel.type with
    | .rx => ({ q with hdrPtrMask := (k.hdrMmapSize / 2 / 8 - 1).setWidth 32 }, 0)
    | .tx => ({ q with
        hdrPtrMask := (k.hdrBuffSize.setWidth 64 / 16 - 1 : U64).setWidth 32
        dataPtrMask := (k.dataBuffSize.setWidth 64 / 2 - 1 : U64).setWidth 32 }, 0)

/-- `nc_ndp_queue_open_init_ext` on the copy of the tree, with the check that `ndp_subscription_create` makes of the
ring. Behind a mapping that fails the result is that of the subscribe. -/
def ncNdpQueueOpenInitExt (w : World) (fdt : ChannelId → QueueNode) (c : ChannelId) (env : QueueEnv) : Option RingQueue × Int :=
  match (fdt c).ring, (fdt c).ctrl with
  | some p, some k =>
    if p.mmapSize = 0 then (none, -eNomem)
    else if (w.ch c).size = 0 then (none, eBadfd)
    else if env.subscribe ≠ 0 then (none, env.subscribe)
    else
      let q := { channel := c, protocol := k.protocol, size := p.size, buffer := none, hdrItems := 0, hdrPtrMask := 0
                 dataPtrMask := 0, running := false }
      let buffer := if env.mmap then w.mmap (c.type = .tx) p.mmapBase (2 * p.size) else none
      match buffer with
      | none => (some q, env.subscribe)
      | some b =>
        let q := { q with buffer := some (b, 2 * p.size) }
        match (if k.protocol = 3 then ncNdpV3OpenQueue env k q
          else if k.protocol = 2 then ncNdpV2OpenQueue env k q else (q, env.subscribe)) with
        | (q, ret) => if ret ≠ 0 then (none, ret) else (some q, 0)
  | _, _ => (none, -eBadfd)

/-! ## The system -/

inductive GeoAction
  | nfbOpen
  | resize (c : ChannelId) (req : Request) (env : ResizeRingEnv)
  | open (handle : Nat) (c : ChannelId) (env : QueueEnv)
  | start (k : Nat) (ok : Bool)
  | burst (k : Nat)
  | stop (k : Nat) (ok : Bool)
  | close (k : Nat) (ok : Bool)

def World.site (w : World) (c : ChannelId) : Site := { files := w.files, ch := w.ch c, node := w.tree c, next := w.next }

def World.put (w : World) (c : ChannelId) (s : Site) : World :=
  { w with files := s.files, ch := Function.update w.ch c s.ch, tree := Function.update w.tree c s.node, next := s.next }

/-- The channel of a queue that starts or stops, and the queue. -/
def World.setRunning (w : World) (k : Nat) (q : RingQueue) (running : Bool) (count : Nat → Nat) : World :=
  { w with
    ch := Function.update w.ch q.channel { w.ch q.channel with startCount := count (w.ch q.channel).startCount }
    queues := w.queues.set k { q with running } }

/-- `ndp_queue_start`. -/
def World.start (w : World) (k : Nat) (ok : Bool) : World :=
  match w.queues[k]? with
  | some q => if q.running ∨ ¬ ok then w else w.setRunning k q true (· + 1)
  | none => w

/-- `ndp_queue_stop`. -/
def World.stop (w : World) (k : Nat) (ok : Bool) : World :=
  match w.queues[k]? with
  | some q => if ¬ q.running ∨ ¬ ok then w else w.setRunning k q false (· - 1)
  | none => w

/-- A burst moves the pointers of the queue and of its subscription, and nothing here. -/
def geoStep (card : Card) (w : World) : GeoAction → World
  | .nfbOpen => { w with handles := w.handles ++ [w.tree] }
  | .resize c req env => w.put c (ndpChannelRingResize card c env req (w.site c)).1
  | .open handle c env =>
    match w.handles[handle]? with
    | some fdt =>
      match ncNdpQueueOpenInitExt w fdt c env with
      | (some q, 0) => { w with queues := w.queues ++ [q] }
      | _ => w
    | none => w
  | .start k ok => w.start k ok
  | .burst _ => w
  | .stop k ok => w.stop k ok
  | .close k ok => { w.stop k ok with queues := (w.stop k ok).queues.eraseIdx k }

/-! ## What is right -/

/-- The queue refers to the ring that its channel has, and has the size and the counts that the driver uses. -/
structure Refers (card : Card) (w : World) (q : RingQueue) : Prop where
  ring : ∃ r, (w.ch q.channel).ring = some r ∧ q.buffer = some (.blocks r.blocks, 2 * r.size) ∧ q.size = r.size
  hdrs : match card.kind q.channel with
    | .medusa => q.hdrItems = (w.ch q.channel).hdrCount
    | .calypteRx => q.hdrPtrMask = (w.ch q.channel).hdrCount - 1
    | .calypteTx => q.hdrPtrMask = (w.ch q.channel).mhp ∧ q.dataPtrMask = (w.ch q.channel).mdp

/-- The counts that a queue derives are those of the channel: the headers fill whole pages, the masks of a Calypte TX
channel have 16 bits. -/
def Whole (card : Card) (c : ChannelId) (ch : RingChannel) : Prop :=
  (card.kind c = .medusa → hdrArea card 4 ch.hdrCount = ch.hdrCount.signExtend 64 * 4 ∧ ch.hdrCount.toNat < 2 ^ 31) ∧
    (card.kind c = .calypteRx → hdrArea card 8 ch.hdrCount = ch.hdrCount.signExtend 64 * 8 ∧ ch.hdrCount.toNat < 2 ^ 31) ∧
    (card.kind c = .calypteTx →
      (((card.dataBuff c).setWidth 64 / 2 - 1 : U64) &&& 0xFFFF) = (card.dataBuff c).setWidth 64 / 2 - 1 ∧
      (((card.hdrBuff c).setWidth 64 / 16 - 1 : U64) &&& 0xFFFF) = (card.hdrBuff c).setWidth 64 / 16 - 1)

instance (card : Card) (c : ChannelId) (ch : RingChannel) : Decidable (Whole card c ch) :=
  inferInstanceAs (Decidable (_ ∧ _))

/-- Only windows of the channel are at the offset. -/
def Own (items : List (NfbCharMmapMod Region)) (c : ChannelId) (offset : U64) : Prop :=
  ∀ x ∈ items, x.offset = offset → x.mmap.owner = some c

instance (items : List (NfbCharMmapMod Region)) (c : ChannelId) (offset : U64) : Decidable (Own items c offset) :=
  inferInstanceAs (Decidable (∀ x ∈ items, _))

/-- A resize that is carried out: no queue is open on the channel, the detach and the error path of the update window
take no window of others away, and no window wraps around. -/
def ResizeKeeps (card : Card) (w : World) (c : ChannelId) (req : Request) (env : ResizeRingEnv) : Prop :=
  (∀ q ∈ w.queues, q.channel ≠ c) ∧
    (card.kind c = .calypteRx → (w.ch c).updateBuffer → Own w.files.items c (w.ch c).updMmapOffset) ∧
    (card.kind c = .calypteTx → env.new.attach.updItem ∧ env.old.attach.updItem) ∧
    (geoStep card w (.resize c req env)).files.wrapped = false

/-- An open that the driver accepts: the copy of the tree has the channel as it is, the channel has its headers, and
no mapping fails without an error. -/
def OpenKeeps (card : Card) (w : World) (fdt : ChannelId → QueueNode) (c : ChannelId) (env : QueueEnv) : Prop :=
  fdt c = w.tree c ∧ (w.ch c).hdrBuffer ∧ env.mmap ∧ (card.kind c = .medusa → env.hdrMmap ∧ env.offMmap) ∧
    Whole card c (w.ch c)

instance (card : Card) (w : World) (fdt : ChannelId → QueueNode) (c : ChannelId) (env : QueueEnv) :
    Decidable (OpenKeeps card w fdt c env) := inferInstanceAs (Decidable (_ ∧ _))

/-- The condition. -/
def GeoKeeps (card : Card) (w : World) : GeoAction → Prop
  | .resize c req env => (w.ch c).startCount ≠ 0 ∨ ResizeKeeps card w c req env
  | .open handle c env =>
    match w.handles[handle]? with
    | some fdt => (w.ch c).size ≠ 0 → env.subscribe = 0 → OpenKeeps card w fdt c env
    | none => True
  | .nfbOpen | .start .. | .burst .. | .stop .. | .close .. => True

instance (card : Card) (w : World) : DecidablePred (GeoKeeps card w)
  | .resize c req env => inferInstanceAs (Decidable (_ ∨ _ ∧ _))
  | .open handle c env =>
    match h : w.handles[handle]? with
    | some fdt =>
      decidable_of_iff ((w.ch c).size ≠ 0 → env.subscribe = 0 → OpenKeeps card w fdt c env) (by rw [GeoKeeps, h])
    | none => isTrue (by rw [GeoKeeps, h]; trivial)
  | .nfbOpen | .start .. | .burst .. | .stop .. | .close .. => inferInstanceAs (Decidable True)

/-- The driver has registered windows for the registers of the card, and its channels have no ring yet. -/
structure Probed (w : World) : Prop where
  windows : Windows w.files.items
  files : w.files.wrapped = false
  mi : ∀ x ∈ w.files.items, x.mmap.owner = none
  ch : ∀ c, w.ch c = .zero
  handles : w.handles = []
  queues : w.queues = []

end NdkSw.Ndp.Geometry

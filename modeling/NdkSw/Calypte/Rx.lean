/-
Protocol 3 (Calypte) reception: the driver's controller, which finds the received headers by their
valid bit (`ctrl_ndp.c`), the library's queue with its two ways to sync (`ndp_rx.h`), and the system of
one channel. The hardware toggles the valid bit at every lap of the header ring.
-/
import NdkSw.Ndp.Queue
import NdkSw.Ring.Lap

namespace NdkSw.Calypte

open Ndp

def ndpRxCalypteBlockSize : Nat := 128

/-- `(hdr->valid & 0x01) == (vld_flag ^ 1)`. -/
def invalid (hdr : V3PacketHdr) (vldFlag : U8) : Bool := hdr.valid.setWidth 8 = vldFlag ^^^ 1

/-- The blocks of the data ring a packet takes. -/
def blocks (hdr : V3PacketHdr) : Nat := (hdr.frameLen.toNat + ndpRxCalypteBlockSize - 1) / ndpRxCalypteBlockSize

/-! ## The controller -/

/-- The parts of `struct ndp_ctrl` a Calypte RX controller uses; `hdr` is the shadowed header buffer by
slot, and `log` lists the headers the hardware has written since the buffer was cleared. -/
structure RxCtrl where
  mdp : U32
  mhp : U32
  sdp : U32
  shp : U32
  hhp : U32
  validFlag : U8
  ptrmask : U64
  hdrBufferSize : Nat
  hdr : Nat → V3PacketHdr
  log : List V3PacketHdr

/-- `hdr_count`. -/
def RxCtrl.hdrCount (c : RxCtrl) : Nat := c.ptrmask.toNat + 1

/-- The loop of `ndp_ctrl_rx_get_hwptr`; it counts up to `bound`, so as much fuel suffices. -/
def RxCtrl.scan (c : RxCtrl) (bound : Nat) : Nat → U32 → U8 → U32 × U8
  | 0, hwptr, flag => (hwptr, flag)
  | fuel + 1, hwptr, flag =>
    if invalid (c.hdr (hwptr.toNat % c.hdrCount)) flag then (hwptr, flag)
    else
      let hwptr := hwptr + 1
      let flag := if hwptr.setWidth 64 &&& c.ptrmask = 0 then flag ^^^ 1 else flag
      if hwptr.toNat < bound then c.scan bound fuel hwptr flag else (hwptr, flag)

/-- `ndp_ctrl_rx_get_hwptr` of a Calypte controller. -/
def ndpCtrlRxGetHwptr (c : RxCtrl) : RxCtrl × U64 :=
  let bound := c.hdrBufferSize * 2
  match c.scan bound bound c.hhp c.validFlag with
  | (hwptr, validFlag) =>
    let hhp := (hwptr.setWidth 64 &&& c.ptrmask).setWidth 32
    ({ c with hhp, validFlag }, hhp.setWidth 64)

/-- `ndp_ctrl_calypte_rx_set_swptr`. -/
def ndpCtrlCalypteRxSetSwptr (c : RxCtrl) (ptr : U64) : RxCtrl :=
  let count := ((ptr - c.shp.setWidth 64) &&& c.mhp.setWidth 64).toNat
  let newSdp := ((List.range count).map fun i => blocks (c.hdr ((c.shp.toNat + i) % c.hdrCount))).sum
  { c with shp := ptr.setWidth 32, sdp := (c.sdp + BitVec.ofNat 32 newSdp) &&& c.mdp }

/-- What the hardware shows during a start or a stop: the result of the register access, and its pointers
in the update buffer. -/
structure RxShown where
  ret : Int
  hdp : U32
  hhp : U32

/-- `ndp_ctrl_calypte_start`; `shown.ret` is what `ndp_ctrl_start` returns. -/
def ndpCtrlCalypteRxStart (c : RxCtrl) (shown : RxShown) : RxCtrl × Int × U64 :=
  let c := { c with
    hdr := fun j => if j < c.hdrCount then { c.hdr j with valid := 0 } else c.hdr j
    log := [] }
  if shown.ret ≠ 0 then (c, shown.ret, 0)
  else
    let mask := BitVec.ofNat 32 c.hdrCount - 1
    ({ c with mdp := mask, mhp := mask, sdp := 0, shp := 0, hhp := 0, validFlag := 1 }, 0, 0)

/-- `ndp_ctrl_stop`: the software takes over the hardware pointers. -/
def ndpCtrlCalypteRxStop (c : RxCtrl) (shown : RxShown) (force : Bool) : RxCtrl × Int :=
  ({ c with hhp := shown.hhp, sdp := shown.hdp, shp := shown.hhp },
    if shown.ret = eAgain ∧ ¬ force then eAgain else 0)

def rxOps : ChannelOps RxCtrl RxShown where
  start := ndpCtrlCalypteRxStart
  stop := ndpCtrlCalypteRxStop
  getHwptr c _ := ndpCtrlRxGetHwptr c
  setSwptr c _ ptr := ndpCtrlCalypteRxSetSwptr c ptr
  getFreeSpace := none

/-! ## The library -/

/-- The parts of `struct nc_ndp_queue` a protocol 3 RX queue uses. `userspace` stands for the flags
`NDP_CHANNEL_FLAG_EXCLUSIVE` and `NDP_CHANNEL_FLAG_USERSPACE`, which the library only sets together. -/
structure RxQueue where
  buffer : Int
  sync : SubscriptionSync
  pktsAvailable : U32
  sdp : U32
  shp : U32
  dataPtrMask : U32
  hdrPtrMask : U32
  validFlag : U8
  userspace : Bool
  uspaceShp : U32
  uspaceHhp : U32
  uspaceSdp : U32
  uspaceMhp : U32
  uspaceMdp : U32
  uspaceAcc : U32
  deriving DecidableEq, Repr

/-- What opening a protocol 3 RX queue leaves to its caller or does not set. -/
structure V3RxOpen where
  buffer : Int
  userspace : Bool
  dataPtrMask : U32
  uspaceMhp : U32
  uspaceMdp : U32

/-- `nc_ndp_v3_open_queue` for a ring of `hdrCount` headers. -/
def ncNdpV3RxOpenQueue (o : V3RxOpen) (hdrCount : U32) : RxQueue where
  buffer := o.buffer
  sync := { size := 0, hwptr := 0, swptr := 0 }
  pktsAvailable := 0
  sdp := 0
  shp := 0
  dataPtrMask := o.dataPtrMask
  hdrPtrMask := hdrCount - 1
  validFlag := 1
  userspace := o.userspace
  uspaceShp := 0
  uspaceHhp := 0
  uspaceSdp := 0
  uspaceMhp := o.uspaceMhp
  uspaceMdp := o.uspaceMdp
  uspaceAcc := 0

/-- The item of the header buffer in slot `x`, which is mapped twice in a row. -/
def RxQueue.slot (q : RxQueue) (x : Nat) : Nat := x % (q.hdrPtrMask.toNat + 1)

/-- The `do` loop of `_ndp_queue_rx_sync_v3_us`. It leaves at the latest at its second visit of slot 0,
where the flag is another one than before. -/
def uspaceScan (hdr : Nat → V3PacketHdr) (q : RxQueue) : Nat → U32 → U8 → U32
  | 0, hhp, _ => hhp
  | fuel + 1, hhp, vldFlag =>
    if invalid (hdr (q.slot hhp.toNat)) vldFlag then hhp
    else
      let hhp := (hhp + 1) &&& q.uspaceMhp
      uspaceScan hdr q fuel hhp (if hhp = 0 then vldFlag ^^^ 1 else vldFlag)

/-- `_ndp_queue_rx_sync_v3_us`; the pointers it gives to the hardware now and then are left out. -/
def ndpQueueRxSyncV3Us (hdr : Nat → V3PacketHdr) (q : RxQueue) : RxQueue :=
  let q := if q.sync.swptr ≠ q.uspaceShp.setWidth 64 then
      let count := ((q.sync.swptr - q.uspaceShp.setWidth 64) &&& q.uspaceMhp.setWidth 64).setWidth 32
      let blks := ((List.range count.toNat).map fun i => blocks (hdr (q.slot (q.uspaceShp.toNat + i)))).sum
      let acc := q.uspaceAcc + count
      { q with
        uspaceShp := q.sync.swptr.setWidth 32
        uspaceSdp := (q.uspaceSdp + BitVec.ofNat 32 blks) &&& q.uspaceMdp
        uspaceAcc := if acc ≥ 32 then 0 else acc }
    else q
  let uspaceHhp := uspaceScan hdr q (2 * (q.hdrPtrMask.toNat + 1)) q.uspaceHhp q.validFlag
  { q with uspaceHhp, sync := { q.sync with hwptr := uspaceHhp.setWidth 64 } }

/-- The sync of a queue, through the driver or on its own. -/
def rxSync (e : RxShown) (i : Nat) (ch : Channel RxCtrl) (q : RxQueue) : Channel RxCtrl × RxQueue × Int :=
  if q.userspace then (ch, ndpQueueRxSyncV3Us ch.ctrl.hdr q, 0)
  else
    match ndpSubscriptionSync rxOps .rx e ch i q.sync with
    | (ch, sync, ret) => (ch, { q with sync }, ret)

/-- `nc_ndp_v3_rx_lock`. -/
def ncNdpV3RxLock (e : RxShown) (i : Nat) (ch : Channel RxCtrl) (q : RxQueue) : Channel RxCtrl × RxQueue :=
  match rxSync e i ch q with
  | (ch, q, ret) =>
    if ret ≠ 0 then (ch, q)
    else
      (ch, { q with
        pktsAvailable := ((q.sync.hwptr - q.shp.setWidth 64) &&& q.hdrPtrMask.setWidth 64).setWidth 32 })

/-- `nc_ndp_v3_rx_unlock`, with its return value. -/
def ncNdpV3RxUnlock (e : RxShown) (i : Nat) (ch : Channel RxCtrl) (q : RxQueue) : Channel RxCtrl × RxQueue × Int :=
  let oldSwptr := q.sync.swptr
  match rxSync e i ch { q with sync := { q.sync with swptr := (q.shp &&& q.hdrPtrMask).setWidth 64 } } with
  | (ch, q, ret) =>
    -- when the pointer wraps around, flip the valid flag
    (ch, if q.sync.swptr < oldSwptr then { q with validFlag := q.validFlag ^^^ 1 } else q, ret)

/-- The packet a get makes of a header. -/
def v3RxPacket (buffer : Int) (hdr : V3PacketHdr) : NdpPacket :=
  let data := buffer + hdr.framePtr.toNat * ndpRxCalypteBlockSize
  { header := data
    headerLength := hdr.headerSize.setWidth 16
    flags := hdr.flags.setWidth 16
    data := data + hdr.headerSize.toNat
    dataLength := hdr.frameLen.setWidth 32 - hdr.headerSize.setWidth 32 }

/-- The loop of `nc_ndp_v3_rx_burst_get` from round `i` on, with `n` rounds to go: the packets it fills in
and the data pointer. -/
def v3RxFill (hdr : Nat → V3PacketHdr) (q : RxQueue) : Nat → Nat → U8 → U32 → List NdpPacket × U32
  | 0, _, _, sdp => ([], sdp)
  | n + 1, i, vldFlag, sdp =>
    let h := hdr (q.slot (q.shp.toNat + i))
    let vldFlag := if q.shp + BitVec.ofNat 32 i = q.hdrPtrMask + 1 then vldFlag ^^^ 1 else vldFlag
    if invalid h vldFlag then ([], sdp)
    else
      match v3RxFill hdr q n (i + 1) vldFlag (sdp + BitVec.ofNat 32 (blocks h)) with
      | (packets, sdp) => (v3RxPacket q.buffer h :: packets, sdp)

/-- `nc_ndp_v3_rx_burst_get`, with the packets it fills in and its return value. -/
def ncNdpV3RxBurstGet (e : RxShown) (i : Nat) (ch : Channel RxCtrl) (q : RxQueue) (count : U32) :
    Channel RxCtrl × RxQueue × List NdpPacket × U32 :=
  let vldFlag := q.validFlag
  let short := q.pktsAvailable < count
  match (if short then ncNdpV3RxLock e i ch q else (ch, q)) with
  | (ch, q) =>
    let count := if short then Ring.umin q.pktsAvailable count else count
    if short ∧ count = 0 then (ch, q, [], 0)
    else
      match v3RxFill ch.ctrl.hdr q count.toNat 0 vldFlag q.sdp with
      | (packets, sdp) =>
        (ch, { q with
            sdp := sdp &&& q.dataPtrMask
            shp := (q.shp + count) &&& q.hdrPtrMask
            pktsAvailable := q.pktsAvailable - count }, packets, count)

/-- `nc_ndp_queue_start` of a protocol 3 RX queue. -/
def ncNdpV3RxQueueStart (e : RxShown) (i : Nat) (ch : Channel RxCtrl) (q : RxQueue) : Channel RxCtrl × RxQueue × Int :=
  match ndpSubscriptionStart rxOps .rx e ch i q.sync with
  | (ch, sync, ret) =>
    let q := { q with sync }
    if ret ≠ 0 then (ch, q, ret)
    else if q.userspace then (ch, { q with uspaceMdp := ch.ctrl.mdp, uspaceMhp := ch.ctrl.mhp }, 0)
    else (ch, { q with shp := sync.hwptr.setWidth 32 }, 0)

/-- `nc_ndp_v3_rx_burst_put`. -/
def ncNdpV3RxBurstPut (e : RxShown) (i : Nat) (ch : Channel RxCtrl) (q : RxQueue) : Channel RxCtrl × RxQueue × Int :=
  ncNdpV3RxUnlock e i ch q

/-! ## Subscriptions of one channel -/

/-- The header received behind position `x` of the ring, the last one if several have its slot. -/
def RxCtrl.pos (c : RxCtrl) (x : U64) : Nat :=
  c.log.length - ((BitVec.ofNat 64 c.log.length - x) &&& c.ptrmask).toNat

/-- The system: the channel, one queue per subscription, and for each the position of its last start and
its gets since, as the value returned and the packets filled in. -/
structure RxV3 where
  ch : Channel RxCtrl
  q : Nat → RxQueue
  start : Nat → Nat
  gets : Nat → List (U32 × List NdpPacket)

inductive RxV3Act
  | start (i : Nat) (shown : RxShown)
  | stop (i : Nat) (shown₁ shown₂ : RxShown)
  | receive (hdr : V3PacketHdr)
  | get (i : Nat) (count : U32)
  | put (i : Nat)

namespace RxV3

/-- A channel with a ring of `2 ^ k` headers and a freshly opened queue for every subscription. A channel
that syncs in userspace has only one. -/
def opened (k hdrBufferSize : Nat) (hdr : Nat → V3PacketHdr) (userspace : Bool) (o : Nat → V3RxOpen) : RxV3 where
  ch :=
    { lockedSub := none, hwptr := 0, swptr := 0, ptrmask := BitVec.ofNat 64 (2 ^ k - 1), startCount := 0
      listSubscriptions := []
      sub := fun i => { status := if userspace ∧ i ≠ 0 then .init else .subscribed, hwptr := 0, swptr := 0 }
      ctrl :=
        { mdp := 0, mhp := 0, sdp := 0, shp := 0, hhp := 0, validFlag := 0, ptrmask := BitVec.ofNat 64 (2 ^ k - 1)
          hdrBufferSize, hdr, log := [] } }
  q i := ncNdpV3RxOpenQueue { o i with userspace } (BitVec.ofNat 32 (2 ^ k))
  start _ := 0
  gets _ := []

/-- One more header does not overrun the pointer of a running queue. -/
def HasRoom (s : RxV3) : Prop :=
  ∀ j ∈ s.ch.listSubscriptions,
    (BitVec.ofNat 64 s.ch.ctrl.log.length - (s.q j).sync.swptr) &&& s.ch.ctrl.ptrmask ≠ s.ch.ctrl.ptrmask

instance (s : RxV3) : Decidable s.HasRoom := inferInstanceAs (Decidable (∀ _ ∈ _, _))

/-- The hardware writes a header with the valid bit of its lap, if the channel runs and there is room. -/
def receive (s : RxV3) (hdr : V3PacketHdr) : RxV3 :=
  let c := s.ch.ctrl
  if s.ch.startCount = 0 ∨ ¬ s.HasRoom then s
  else
    let hdr := { hdr with valid := BitVec.ofBool (Ring.lapBit c.hdrCount c.log.length) }
    { s with ch := { s.ch with
        ctrl := { c with hdr := Function.update c.hdr (c.log.length % c.hdrCount) hdr, log := c.log ++ [hdr] } } }

/-- What no sync reads. -/
def idle : RxShown := ⟨0, 0, 0⟩

/-- One call of a subscription or one received packet. A stop is forced: one that is refused goes on. -/
def step (s : RxV3) : RxV3Act → RxV3
  | .start i shown =>
    match ncNdpV3RxQueueStart shown i s.ch (s.q i) with
    | (ch, q, ret) =>
      let s := { s with ch, q := Function.update s.q i q }
      if ret ≠ 0 then s
      else
        { s with
          start := Function.update s.start i (ch.ctrl.pos ch.hwptr)
          gets := Function.update s.gets i [] }
  | .stop i shown₁ shown₂ => { s with ch := (ndpSubscriptionStop rxOps shown₁ shown₂ s.ch i true).1 }
  | .receive hdr => s.receive hdr
  | .get i count =>
    match ncNdpV3RxBurstGet idle i s.ch (s.q i) count with
    | (ch, q, packets, ret) =>
      { s with ch, q := Function.update s.q i q, gets := Function.update s.gets i (s.gets i ++ [(ret, packets)]) }
  | .put i =>
    match ncNdpV3RxBurstPut idle i s.ch (s.q i) with
    | (ch, q, _) => { s with ch, q := Function.update s.q i q }

end RxV3

end NdkSw.Calypte

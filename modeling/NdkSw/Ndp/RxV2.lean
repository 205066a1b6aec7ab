/-
Protocol 2 reception (`ndp_rx.h`): the library's lock, unlock, get and put over the channel's RX
sync, the start and stop of a queue, and the system of any number of subscriptions of one channel.
Every running subscription is to get every packet. The controller is seen through its header
pointers only; receiving a packet is an action of its own, which waits while the ring is full.
-/
import NdkSw.Ndp.Queue

namespace NdkSw.Ndp

/-! ## Library calls -/

section Lib

variable {C E : Type} (ops : ChannelOps C E)

/-- `nc_ndp_v2_rx_lock`. -/
def ncNdpV2RxLock (e : E) (i : Nat) (ch : Channel C) (q : QueueV2) : Channel C × QueueV2 :=
  match ndpSubscriptionSync ops .rx e ch i q.sync with
  | (ch, sync, ret) =>
    let q := { q with sync }
    if ret ≠ 0 then (ch, q)
    else
      let q := { q with pktsAvailable := ((sync.hwptr - q.rhp.setWidth 64) &&& q.mask).setWidth 32 }
      (ch, if q.rhp ≥ q.hdrItems then { q with rhp := q.rhp - q.hdrItems } else q)

/-- `nc_ndp_v2_rx_unlock`, with its return value. -/
def ncNdpV2RxUnlock (e : E) (i : Nat) (ch : Channel C) (q : QueueV2) : Channel C × QueueV2 × Int :=
  let sync := { q.sync with swptr := (q.rhp &&& (q.hdrItems - 1)).setWidth 64 }
  match ndpSubscriptionSync ops .rx e ch i sync with
  | (ch, sync, ret) => (ch, { q with sync }, ret)

/-- The packet a get makes of a header and its offset. -/
def v2RxPacket (buffer : Int) (hdr : V2PacketHdr) (off : U64) : NdpPacket :=
  { header := buffer + off.toNat
    headerLength := hdr.headerSize.setWidth 16
    flags := (hdr.flags &&& 0xF).setWidth 16
    data := buffer + off.toNat + hdr.headerSize.toNat
    dataLength := hdr.packetSize.setWidth 32 - hdr.headerSize.setWidth 32 }

/-- The loop of `nc_ndp_v2_rx_burst_get`: the packets of `count` items from `rhp` on. -/
def v2RxPackets (mem : V2Mem) (q : QueueV2) (count : U32) : List NdpPacket :=
  (List.range count.toNat).map fun (i : Nat) =>
    v2RxPacket q.buffer (mem.hdr (shadowSlot q.hdrItems.toNat (q.hdr + q.rhp.toNat + (i : Int) - q.hdrBase)))
      (mem.off (shadowSlot q.hdrItems.toNat (q.off + q.rhp.toNat + (i : Int) - q.offBase)))

/-- The end of a get that hands out `count` items. -/
def QueueV2.take (q : QueueV2) (count : U32) : QueueV2 :=
  { q with rhp := q.rhp + count, pktsAvailable := q.pktsAvailable - count }

/-- `nc_ndp_v2_rx_burst_get`, with the packets it fills in; their number is the return value. -/
def ncNdpV2RxBurstGet (e : E) (i : Nat) (ch : Channel C) (mem : V2Mem) (q : QueueV2) (count : U32) :
    Channel C × QueueV2 × List NdpPacket :=
  let short := q.pktsAvailable < count
  match (if short then ncNdpV2RxLock ops e i ch q else (ch, q)) with
  | (ch, q) =>
    let count := if short then Ring.umin q.pktsAvailable count else count
    if short ∧ count = 0 then (ch, q, [])
    else (ch, q.take count, v2RxPackets mem q count)

/-- `nc_ndp_v2_rx_burst_put`. -/
def ncNdpV2RxBurstPut (e : E) (i : Nat) (ch : Channel C) (q : QueueV2) : Channel C × QueueV2 × Int :=
  ncNdpV2RxUnlock ops e i ch q

/-- `nc_ndp_queue_start` of a shared protocol 2 RX queue. -/
def ncNdpV2RxQueueStart (e : E) (i : Nat) (ch : Channel C) (q : QueueV2) : Channel C × QueueV2 × Int :=
  match ndpSubscriptionStart ops .rx e ch i q.sync with
  | (ch, sync, ret) =>
    let q := { q with sync }
    if ret ≠ 0 then (ch, q, ret) else (ch, { q with rhp := sync.hwptr.setWidth 32 }, ret)

end Lib

/-! ## The controller as the header pointers see it -/

/-- An RX controller: the pointer last given to `set_swptr`, and the headers of all packets the
hardware has received since the start. -/
structure RxHdrCtrl where
  mhp : U64
  swptr : U64
  log : List V2PacketHdr

/-- The controller calls. What the hardware shows is the result of starting or stopping it; only a stop
that is not forced may have to be tried again. -/
def rxHdrOps : ChannelOps RxHdrCtrl Int where
  start c e := if e ≠ 0 then (c, e, 0) else ({ c with swptr := 0, log := [] }, 0, 0)
  stop c e force := (c, if e = eAgain ∧ ¬ force then eAgain else 0)
  getHwptr c _ := (c, BitVec.ofNat 64 c.log.length &&& c.mhp)
  setSwptr c _ ptr := { c with swptr := ptr }
  getFreeSpace := none

/-- The received packet a ring pointer stands behind: the last one if several have its slot. -/
def RxHdrCtrl.pos (c : RxHdrCtrl) (x : U64) : Nat :=
  c.log.length - ((BitVec.ofNat 64 c.log.length - x) &&& c.mhp).toNat

/-! ## Subscriptions of one channel -/

/-- The system: the channel, the shared buffers, one queue per subscription, and its history: where
each subscription started, the packets it got, and how many received packets lie before its last put. -/
structure RxV2 where
  ch : Channel RxHdrCtrl
  mem : V2Mem
  q : Nat → QueueV2
  start : Nat → Option Nat
  got : Nat → List NdpPacket
  released : Nat → Nat

inductive RxV2Act
  | start (i : Nat) (ret : Int)
  | stop (i : Nat) (ret : Int) (force : Bool)
  | receive (hdr : V2PacketHdr)
  | get (i : Nat) (count : U32)
  | put (i : Nat)

namespace RxV2

/-- A channel with a ring of `2 ^ k` headers, and a freshly opened queue for every subscription. -/
def opened (k : Nat) (mem : V2Mem) (o : Nat → V2Open) : RxV2 where
  ch :=
    { lockedSub := none, hwptr := 0, swptr := 0, ptrmask := BitVec.ofNat 64 (2 ^ k - 1), startCount := 0
      listSubscriptions := []
      sub := fun _ => { status := .subscribed, hwptr := 0, swptr := 0 }
      ctrl := { mhp := BitVec.ofNat 64 (2 ^ k - 1), swptr := 0, log := [] } }
  mem
  q i := ncNdpV2OpenQueue (o i) (BitVec.ofNat 32 (2 ^ k))
  start _ := none
  got _ := []
  released _ := 0

/-- The hardware receives a packet, unless the controller is stopped or one more packet would fill the
ring up to `swptr`. -/
def receive (s : RxV2) (hdr : V2PacketHdr) : RxV2 :=
  let c := s.ch.ctrl
  if s.ch.startCount = 0 ∨ (BitVec.ofNat 64 c.log.length - c.swptr) &&& c.mhp = c.mhp then s
  else
    { s with
      ch := { s.ch with ctrl := { c with log := c.log ++ [hdr] } }
      mem := { s.mem with hdr := Function.update s.mem.hdr (BitVec.ofNat 64 c.log.length &&& c.mhp).toNat hdr } }

/-- One call of a subscription or one received packet. Every subscription is started once. -/
def step (s : RxV2) : RxV2Act → RxV2
  | .start i ret =>
    if s.start i ≠ none then s
    else
      match ncNdpV2RxQueueStart rxHdrOps ret i s.ch (s.q i) with
      | (ch, q, ret) =>
        let s := { s with ch, q := Function.update s.q i q }
        if ret ≠ 0 then s
        else
          { s with
            start := Function.update s.start i (some (ch.ctrl.pos ch.hwptr))
            released := Function.update s.released i (ch.ctrl.pos ch.hwptr) }
  | .stop i ret force => { s with ch := (ndpSubscriptionStop rxHdrOps ret ret s.ch i force).1 }
  | .receive hdr => s.receive hdr
  | .get i count =>
    match ncNdpV2RxBurstGet rxHdrOps 0 i s.ch s.mem (s.q i) count with
    | (ch, q, packets) =>
      { s with ch, q := Function.update s.q i q, got := Function.update s.got i (s.got i ++ packets) }
  | .put i =>
    match ncNdpV2RxBurstPut rxHdrOps 0 i s.ch (s.q i) with
    | (ch, q, ret) =>
      let s := { s with ch, q := Function.update s.q i q }
      if ret ≠ 0 then s
      else { s with released := Function.update s.released i ((s.start i).getD 0 + (s.got i).length) }

end RxV2

end NdkSw.Ndp

/-
Protocol 2 transmission (`ndp_tx.h`): the library's lock, get, put and flush over the channel's TX
sync, and the system of any number of subscriptions of one running channel, whose controller is
seen through its header pointers only.
-/
import NdkSw.Ndp.Queue
import NdkSw.Ndp.TxChan

namespace NdkSw.Ndp

open Ring

/-! ## Library calls -/

section Lib

variable {C E : Type} (ops : ChannelOps C E)

/-- `nc_ndp_v2_tx_lock`. -/
def ncNdpV2TxLock (e : E) (i : Nat) (ch : Channel C) (q : QueueV2) : Channel C × QueueV2 :=
  let lockValid := q.sync.swptr ≠ q.sync.hwptr
  match ndpSubscriptionSync ops .tx e ch i { q.sync with swptr := (q.sync.hwptr - 1) &&& q.mask } with
  | (ch, sync, ret) =>
    let q := { q with sync }
    if ret ≠ 0 then (ch, q)
    else
      let q := if lockValid then q
        else
          let offset : U32 := (sync.hwptr - q.rhp.setWidth 64).setWidth 32
          { q with rhp := q.rhp + offset, hdr := q.hdr + offset.toInt, off := q.off + offset.toInt }
      (ch, { q with pktsAvailable := ((sync.swptr - q.rhp.setWidth 64) &&& q.mask).setWidth 32 })

/-- The header loop of `nc_ndp_v2_tx_burst_get` after `n` rounds: the buffers, the packets, and
whether every packet so far fits `frame_size_max`. -/
def v2TxFill (q : QueueV2) (mem : V2Mem) (packets : Nat → NdpPacket) : Nat → V2Mem × (Nat → NdpPacket) × Bool
  | 0 => (mem, packets, true)
  | n + 1 =>
    match v2TxFill q mem packets n with
    | (mem, packets, false) => (mem, packets, false)
    | (mem, packets, true) =>
      let p := packets n
      let offset : Int := (mem.off (shadowSlot q.hdrItems.toNat (q.off - q.offBase + n))).toNat
      let headerSize : U32 := p.headerLength.setWidth 32
      let packetSize : U32 := p.dataLength + headerSize
      if ¬ packetSize < q.frameSizeMin ∧ packetSize > q.frameSizeMax then (mem, packets, false)
      else
        -- a packet below the minimum size is enlarged
        let packetSize := if packetSize < q.frameSizeMin then q.frameSizeMin else packetSize
        let hdr : V2PacketHdr :=
          { packetSize := packetSize.setWidth 16, headerSize := headerSize.setWidth 8
            flags := (p.flags &&& 0xF).setWidth 8 }
        let slot := shadowSlot q.hdrItems.toNat (q.hdr - q.hdrBase + n)
        let p := { p with header := q.buffer + offset, data := q.buffer + offset + headerSize.toNat }
        ({ mem with hdr := Function.update mem.hdr slot hdr }, Function.update packets n p, true)

/-- The end of a successful get: the queue moves behind the `count` items it handed out. -/
def QueueV2.advance (q : QueueV2) (count : U32) : QueueV2 :=
  { q with
    hdr := q.hdr + count.toNat
    off := q.off + count.toNat
    rhp := q.rhp + count
    pktsAvailable := q.pktsAvailable - count }

/-- `nc_ndp_v2_tx_burst_get`; the last component is the return value. -/
def ncNdpV2TxBurstGet (e : E) (i : Nat) (ch : Channel C) (mem : V2Mem) (q : QueueV2)
    (packets : Nat → NdpPacket) (count : U32) : Channel C × V2Mem × QueueV2 × (Nat → NdpPacket) × U32 :=
  let short := q.pktsAvailable < count
  match (if short then ncNdpV2TxLock ops e i ch q else (ch, q)) with
  | (ch, q) =>
    if short ∧ (q.pktsAvailable < count ∨ count = 0) then (ch, mem, q, packets, 0)
    else
      match v2TxFill q mem packets count.toNat with
      | (mem, packets, false) => (ch, mem, q, packets, 0)
      | (mem, packets, true) => (ch, mem, q.advance count, packets, count)

/-- The wrap of a queue's position at the start of a flush. -/
def QueueV2.wrapRhp (q : QueueV2) : QueueV2 :=
  if q.rhp ≥ q.hdrItems then
    { q with
      rhp := q.rhp - q.hdrItems
      hdr := q.hdr - q.hdrItems.toNat
      off := q.off - q.hdrItems.toNat }
  else q

/-- `nc_ndp_v2_tx_burst_flush`. -/
def ncNdpV2TxBurstFlush (e : E) (i : Nat) (ch : Channel C) (q : QueueV2) : Channel C × QueueV2 :=
  let q := q.wrapRhp
  let sync := { q.sync with hwptr := q.rhp.setWidth 64, swptr := q.rhp.setWidth 64 }
  match ndpSubscriptionSync ops .tx e ch i sync with
  | (ch, sync, _) => (ch, { q with sync, pktsAvailable := 0 })

/-- `nc_ndp_v2_tx_burst_put`: flush when more than a quarter of the ring is waiting. -/
def ncNdpV2TxBurstPut (e : E) (i : Nat) (ch : Channel C) (q : QueueV2) : Channel C × QueueV2 :=
  if (q.rhp.setWidth 64 - q.sync.hwptr) &&& q.mask > (q.hdrItems / 4).setWidth 64 then
    ncNdpV2TxBurstFlush ops e i ch q
  else (ch, q)

end Lib

/-! ## Subscriptions of one channel -/

/-- The system: the channel, the shared buffers, one queue per subscription, and its history:
`got` are the bursts handed out so far, `held` those not yet passed to `set_swptr`, `sent` the
others in the order in which they were. -/
structure TxV2 where
  ch : Channel HdrCtrl
  mem : V2Mem
  q : Nat → QueueV2
  got : List (Nat × List Nat)
  held : Nat → List (List Nat)
  sent : List (Nat × List Nat)

/-- A call of one subscription; `hw` is what the hardware does meanwhile. -/
inductive TxV2Act
  | start (i : Nat) (hw : Nat)
  | get (i : Nat) (hw : Nat) (packets : Nat → NdpPacket) (count : U32)
  | put (i : Nat) (hw : Nat)
  | flush (i : Nat) (hw : Nat)

namespace TxV2

/-- A channel with a ring of `2 ^ k` headers, and a freshly opened queue for every subscription. -/
def opened (k : Nat) (mem : V2Mem) (o : Nat → V2Open) : TxV2 where
  ch :=
    { lockedSub := none, hwptr := 0, swptr := 0, ptrmask := BitVec.ofNat 64 (2 ^ k - 1), startCount := 0
      listSubscriptions := []
      sub := fun _ => { status := .subscribed, hwptr := 0, swptr := 0 }
      ctrl := { mhp := BitVec.ofNat 64 (2 ^ k - 1), shp := 0, hhp := 0, pushed := [] } }
  mem
  q i := ncNdpV2OpenQueue (o i) (BitVec.ofNat 32 (2 ^ k))
  got := []
  held _ := []
  sent := []

/-- After a call of `i`: if it published, the bursts `i` held are sent. -/
def after (s : TxV2) (i : Nat) (ch : Channel HdrCtrl) (q : QueueV2) : TxV2 :=
  let s' := { s with ch, q := Function.update s.q i q }
  if ch.swptr ≠ s.ch.swptr then
    { s' with sent := s.sent ++ (s.held i).map (i, ·), held := Function.update s.held i [] }
  else s'

/-- After a successful get of `i`: its queue hands out the slots before its new position. -/
def hand (s : TxV2) (i n : Nat) : TxV2 :=
  let q := s.q i
  let burst := { q with hdr := q.hdr - n }.itemSlots n
  { s with got := s.got ++ [(i, burst)], held := Function.update s.held i (s.held i ++ [burst]) }

/-- One call. Only running subscriptions make data calls, so no sync returns an error. -/
def step (s : TxV2) : TxV2Act → TxV2
  | .start i hw =>
    match ndpSubscriptionStart hdrOps .tx hw s.ch i (s.q i).sync with
    | (ch, sync, _) => { s with ch, q := Function.update s.q i { s.q i with sync } }
  | .get i hw packets count =>
    if (s.ch.sub i).status ≠ .running then s
    else
      match ncNdpV2TxBurstGet hdrOps hw i s.ch s.mem (s.q i) packets count with
      | (ch, mem, q, _, ret) =>
        let s' := { s.after i ch q with mem }
        if ret = 0 then s' else s'.hand i ret.toNat
  | .put i hw =>
    if (s.ch.sub i).status ≠ .running then s
    else
      match ncNdpV2TxBurstPut hdrOps hw i s.ch (s.q i) with
      | (ch, q) => s.after i ch q
  | .flush i hw =>
    if (s.ch.sub i).status ≠ .running then s
    else
      match ncNdpV2TxBurstFlush hdrOps hw i s.ch (s.q i) with
      | (ch, q) => s.after i ch q

end TxV2

end NdkSw.Ndp

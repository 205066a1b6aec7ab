/-
Protocol 1 transmission (`ndp_tx.h`): frames of any size lie one behind the other in the ring, which is mapped twice
in a row. A get may lock again in the middle of its burst, and if there is still not enough space it takes all of it
back; a put publishes lazily. Below that, the system of any number of subscriptions of one channel.
-/
import NdkSw.Ndp.Queue
import NdkSw.Ndp.TxChan

namespace NdkSw.Ndp

open Ring

/-! ## Data model -/

/-- `struct nc_ndp_queue` of a protocol 1 queue; `data` is an address. -/
structure QueueV1 where
  buffer : Int
  size : U64
  sync : SubscriptionSync
  data : Int
  bytes : U64
  total : U64
  swptr : U64
  deriving DecidableEq, Repr

/-- `nc_ndp_v1_open_queue`. -/
def ncNdpV1OpenQueue (buffer : Int) (size : U64) : QueueV1 :=
  { buffer, size, sync := { size := 0, hwptr := 0, swptr := 0 }, data := buffer, bytes := 0, total := 0, swptr := 0 }

/-- `struct ndp_packethdr`. -/
structure V1PacketHdr where
  packetSize : U16
  headerSize : U16
  deriving DecidableEq, Repr

/-- `NDP_PACKET_HEADER_SIZE`. -/
def ndpPacketHeaderSize : Nat := 4

/-- `ALIGN(x, 8)` in 32 bits. -/
def align8 (x : U32) : U32 := (x + 7) &&& ~~~7

/-- `header_size` of a get, with the packet header in front. -/
def v1HeaderSize (p : NdpPacket) : U16 := (align8 (p.headerLength.setWidth 32 + 4)).setWidth 16

/-- `packet_size` of a get, the bytes that it reserves. -/
def v1PacketSize (p : NdpPacket) : U16 := (align8 p.dataLength + (v1HeaderSize p).setWidth 32).setWidth 16

/-- The header that a get writes. -/
def v1TxHdr (p : NdpPacket) : V1PacketHdr where
  packetSize := (p.dataLength + (v1HeaderSize p).setWidth 32).setWidth 16
  headerSize := p.headerLength

/-- What a get does for a packet: its frame is at `addr`, and the sender gets the pointers of `packet`. -/
structure V1Frame where
  addr : Int
  size : U16
  hdr : V1PacketHdr
  packet : NdpPacket
  deriving DecidableEq, Repr

def v1Frame (addr : Int) (p : NdpPacket) : V1Frame where
  addr := addr
  size := v1PacketSize p
  hdr := v1TxHdr p
  packet := { p with header := addr + ndpPacketHeaderSize, data := addr + (v1HeaderSize p).toNat }

/-! ## Library calls -/

section Lib

variable {C E : Type} (ops : ChannelOps C E)

/-- The mask `size - 1`. -/
def QueueV1.mask (q : QueueV1) : U64 := q.size - 1

/-- `nc_ndp_v1_tx_lock`. -/
def ncNdpV1TxLock (e : E) (i : Nat) (ch : Channel C) (q : QueueV1) : Channel C × QueueV1 :=
  match ndpSubscriptionSync ops .tx e ch i { q.sync with swptr := (q.sync.hwptr - 1) &&& q.mask } with
  | (ch, sync, ret) =>
    let q := { q with sync }
    if ret ≠ 0 then (ch, q)
    else
      (ch, { q with
        data := q.buffer + sync.hwptr.toNat + q.swptr.toNat
        bytes := (sync.swptr - sync.hwptr - q.swptr) &&& q.mask
        total := (sync.swptr - sync.hwptr) &&& q.mask })

/-- `nc_ndp_v1_tx_unlock`. -/
def ncNdpV1TxUnlock (e : E) (i : Nat) (ch : Channel C) (q : QueueV1) : Channel C × QueueV1 :=
  let q := { q with sync := { q.sync with swptr := q.sync.hwptr }, total := 0, bytes := 0, swptr := 0 }
  match ndpSubscriptionSync ops .tx e ch i q.sync with
  | (ch, sync, _) => (ch, { q with sync })

/-- Move the pointers behind a frame of `size` bytes. -/
def QueueV1.advance (q : QueueV1) (size : U16) : QueueV1 :=
  { q with
    data := q.data + size.toNat
    swptr := q.swptr + size.setWidth 64
    bytes := q.bytes - size.setWidth 64 }

/-- The loop of `nc_ndp_v1_tx_burst_get` from round `n` on: the frames it has written, and whether there was enough
space for all packets. Its variables `data`, `swptr` and `bytes` are kept in the queue, where every lock and the end
put them. -/
def v1TxRounds (e : Nat → E) (i : Nat) : Nat → List NdpPacket → Channel C → QueueV1 →
    Channel C × QueueV1 × List V1Frame × Bool
  | _, [], ch, q => (ch, q, [], true)
  | n, p :: packets, ch, q =>
    match (if q.bytes < (v1PacketSize p).setWidth 64 then ncNdpV1TxLock ops (e n) i ch q else (ch, q)) with
    | (ch, q) =>
      if q.bytes < (v1PacketSize p).setWidth 64 then (ch, q, [], false)
      else
        match v1TxRounds e i (n + 1) packets ch (q.advance (v1PacketSize p)) with
        | (ch, q', frames, ok) => (ch, q', v1Frame q.data p :: frames, ok)

/-- `nc_ndp_v1_tx_burst_get`, with the frames it has written and its return value. -/
def ncNdpV1TxBurstGet (e : Nat → E) (i : Nat) (ch : Channel C) (q : QueueV1) (packets : List NdpPacket) :
    Channel C × QueueV1 × List V1Frame × Nat :=
  match v1TxRounds ops e i 0 packets ch q with
  | (ch, q', frames, true) => (ch, q', frames, frames.length)
  -- rollback all
  | (ch, q', frames, false) => (ch, { q' with data := q.data, swptr := q.swptr, bytes := q.bytes }, frames, 0)

/-- `nc_ndp_v1_tx_burst_flush`. -/
def ncNdpV1TxBurstFlush (e : E) (i : Nat) (ch : Channel C) (q : QueueV1) : Channel C × QueueV1 :=
  ncNdpV1TxUnlock ops e i ch { q with sync := { q.sync with hwptr := (q.sync.hwptr + q.swptr) &&& q.mask } }

/-- `nc_ndp_v1_tx_burst_put`: publish more than a quarter of the ring. -/
def ncNdpV1TxBurstPut (e : E) (i : Nat) (ch : Channel C) (q : QueueV1) : Channel C × QueueV1 :=
  if q.swptr > q.size / 4 then ncNdpV1TxBurstFlush ops e i ch q else (ch, q)

end Lib

/-- The places of the ring that `n` bytes from the address `addr` on stand for. -/
def QueueV1.places (q : QueueV1) (addr : Int) (n : Nat) : List Nat :=
  (List.range n).map fun (j : Nat) => shadowSlot q.size.toNat (addr - q.buffer + (j : Int))

/-! ## Subscriptions of one channel -/

/-- The system: the channel, one queue per subscription, and its history: `got` are the frames of the successful gets
as places of the ring, `held` those that are not published yet, `sent` the others in the order of the channel. -/
structure TxV1 where
  ch : Channel HdrCtrl
  q : Nat → QueueV1
  got : List (Nat × List Nat)
  held : Nat → List (List Nat)
  sent : List (Nat × List Nat)

/-- A call of one subscription; `hw` is what the hardware does meanwhile, at each sync of a get. -/
inductive TxV1Act
  | start (i : Nat) (hw : Nat)
  | get (i : Nat) (hw : Nat → Nat) (packets : List NdpPacket)
  | put (i : Nat) (hw : Nat)
  | flush (i : Nat) (hw : Nat)

namespace TxV1

/-- A channel with a ring of `2 ^ k` bytes, and a freshly opened queue for every subscription. -/
def opened (k : Nat) (buffer : Nat → Int) : TxV1 where
  ch :=
    { lockedSub := none, hwptr := 0, swptr := 0, ptrmask := BitVec.ofNat 64 (2 ^ k - 1), startCount := 0
      listSubscriptions := []
      sub := fun _ => { status := .subscribed, hwptr := 0, swptr := 0 }
      ctrl := { mhp := BitVec.ofNat 64 (2 ^ k - 1), shp := 0, hhp := 0, pushed := [] } }
  q i := ncNdpV1OpenQueue (buffer i) (BitVec.ofNat 64 (2 ^ k))
  got := []
  held _ := []
  sent := []

/-- After a call of `i`: if it published, the frames `i` held are sent. -/
def after (s : TxV1) (i : Nat) (ch : Channel HdrCtrl) (q : QueueV1) : TxV1 :=
  let s' := { s with ch, q := Function.update s.q i q }
  if ch.swptr ≠ s.ch.swptr then
    { s' with sent := s.sent ++ (s.held i).map (i, ·), held := Function.update s.held i [] }
  else s'

/-- After a successful get of `i`, which hands out the frames. -/
def hand (s : TxV1) (i : Nat) (frames : List V1Frame) : TxV1 :=
  let bs := frames.map fun f => (s.q i).places f.addr f.size.toNat
  { s with got := s.got ++ bs.map (i, ·), held := Function.update s.held i (s.held i ++ bs) }

/-- One call. Only running subscriptions make data calls, so no sync returns an error. -/
def step (s : TxV1) : TxV1Act → TxV1
  | .start i hw =>
    match ndpSubscriptionStart hdrOps .tx hw s.ch i (s.q i).sync with
    | (ch, sync, _) => { s with ch, q := Function.update s.q i { s.q i with sync } }
  | .get i hw packets =>
    if (s.ch.sub i).status ≠ .running then s
    else
      match ncNdpV1TxBurstGet hdrOps hw i s.ch (s.q i) packets with
      | (ch, q, frames, ret) => if ret = 0 then s.after i ch q else (s.after i ch q).hand i frames
  | .put i hw =>
    if (s.ch.sub i).status ≠ .running then s
    else
      match ncNdpV1TxBurstPut hdrOps hw i s.ch (s.q i) with
      | (ch, q) => s.after i ch q
  | .flush i hw =>
    if (s.ch.sub i).status ≠ .running then s
    else
      match ncNdpV1TxBurstFlush hdrOps hw i s.ch (s.q i) with
      | (ch, q) => s.after i ch q

end TxV1

end NdkSw.Ndp

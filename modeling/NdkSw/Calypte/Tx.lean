/-
The library's transmit side of protocol 3 (`ndp_tx.h`): reserving headers, putting packets and
publishing them. Packets are written straight to the hardware, the headers also to a buffer in host
memory of twice the size of the header ring, from which a sync reads the frame lengths. The sync
itself is a parameter: a call of the driver or, in userspace mode, the library's own.
-/
import NdkSw.Ndp.TxCtrl

namespace NdkSw.Calypte

open Ndp

/-! ## Data model -/

/-- The members `uspace_*` of `struct nc_ndp_queue`. -/
structure Uspace where
  shp : U32
  hhp : U32
  sdp : U32
  hdp : U32
  mhp : U32
  mdp : U32
  free : U32
  acc : U32
  deriving DecidableEq, Repr

/-- `struct nc_ndp_queue` of a protocol 3 TX queue. `hdrs` is an item of the header buffer, `txPkts` the
positions in the data buffer of the packets to send. -/
structure QueueV3Tx where
  userspace : Bool
  frameSizeMin : U32
  frameSizeMax : U32
  sync : SubscriptionSync
  pktsAvailable : U32
  pktsToSend : U32
  bytesAvailable : U64
  sdp : U32
  shp : U32
  dataPtrMask : U32
  hdrPtrMask : U32
  hdrs : Int
  txPkts : Nat → U32
  txPktsCnt : U64
  us : Uspace

/-- The header buffer of the channel, by item, and what was written to the hardware: the place of each
header in its ring, and the header. `w` is the rest of the world. -/
structure TxWorld (W : Type) where
  items : Nat
  mem : Nat → V3PacketHdr
  sent : List (U32 × V3PacketHdr)
  w : W

def TxWorld.hdr {W : Type} (t : TxWorld W) (x : Int) : V3PacketHdr := t.mem (shadowSlot t.items x)

/-- Where the library syncs: in a lock, with its `lock_valid`, for more space, or in a flush. -/
inductive SyncKind where
  | lock (lockValid : Bool)
  | space
  | flush
  deriving DecidableEq, Repr

/-- A sync of the queue. -/
abbrev SyncCall (W : Type) := SyncKind → TxWorld W → QueueV3Tx → TxWorld W × QueueV3Tx × Int

section Lib

variable {W : Type} (call : SyncCall W)

/-! ## Lock -/

/-- `nc_ndp_v3_tx_lock` behind its sync. -/
def lockTail (lockValid : Bool) (q : QueueV3Tx) : QueueV3Tx :=
  let q := if lockValid then q else
    let offset : U32 := (q.sync.hwptr - q.shp.setWidth 64).setWidth 32
    { q with shp := q.shp + offset, hdrs := q.hdrs + offset.toInt }
  { q with
    pktsAvailable := ((q.sync.swptr - q.shp.setWidth 64) &&& q.hdrPtrMask.setWidth 64).setWidth 32
    bytesAvailable := q.sync.size }

/-- `nc_ndp_v3_tx_lock`. -/
def ncNdpV3TxLock (t : TxWorld W) (q : QueueV3Tx) : TxWorld W × QueueV3Tx :=
  let lockValid : Bool := q.sync.swptr ≠ q.sync.hwptr
  let q := { q with sync := { q.sync with swptr := (q.sync.hwptr - 1) &&& q.hdrPtrMask.setWidth 64 } }
  match call (.lock lockValid) t q with
  | (t, q, ret) => if ret ≠ 0 then (t, q) else (t, lockTail lockValid q)

/-- `nc_ndp_v3_tx_request_space` behind its sync. -/
def spaceTail (q : QueueV3Tx) : QueueV3Tx := { q with bytesAvailable := q.sync.size }

/-- `nc_ndp_v3_tx_request_space`. -/
def ncNdpV3TxRequestSpace (t : TxWorld W) (q : QueueV3Tx) (shp : U32) : TxWorld W × QueueV3Tx × Int :=
  match call .space t { q with sync := { q.sync with hwptr := shp.setWidth 64 } } with
  | (t, q, ret) => if ret ≠ 0 then (t, q, -1) else (t, spaceTail q, 0)

/-! ## Get -/

/-- A round of the loop of `nc_ndp_v3_tx_burst_get`, for packet `i` at position `sdp`: the packet's header is
written unless it is refused. -/
def getRound (q : QueueV3Tx) (p : NdpPacket) (i : Nat) (t : TxWorld W) (sdp : U32) : TxWorld W × Option U32 :=
  if p.headerLength > 0xff then (t, none)
  else
    let headerSize : U32 := p.headerLength.setWidth 32 &&& 0xff
    let packetSize := p.dataLength + headerSize
    let packetSize := if packetSize < q.frameSizeMin then some q.frameSizeMin
      else if packetSize > q.frameSizeMax then none
      else some packetSize
    match packetSize with
    | none => (t, none)
    | some packetSize =>
      let hdr : V3PacketHdr :=
        { t.hdr (q.hdrs + i) with
          headerSize := headerSize.setWidth 8
          frameLen := packetSize.setWidth 16
          framePtr := (sdp &&& q.dataPtrMask).setWidth 16
          flags := p.flags.setWidth 4 }
      ({ t with mem := Function.update t.mem (shadowSlot t.items (q.hdrs + i)) hdr },
        some (frameLenCeil (sdp + packetSize)))

/-- The first `n` rounds, with the positions of their packets. -/
def getRounds (q : QueueV3Tx) (packets : Nat → NdpPacket) (t : TxWorld W) :
    Nat → TxWorld W × (Nat → U32) × Option U32
  | 0 => (t, q.txPkts, some q.sdp)
  | n + 1 =>
    match getRounds q packets t n with
    | (t, pkts, none) => (t, pkts, none)
    | (t, pkts, some sdp) =>
      match getRound q (packets n) n t sdp with
      | (t, none) => (t, pkts, none)
      | (t, some sdp') => (t, Function.update pkts n sdp, some sdp')

theorem getRound_world (q : QueueV3Tx) (p : NdpPacket) (i : Nat) (t : TxWorld W) (sdp : U32) :
    ∃ mem, (getRound q p i t sdp).1 = { t with mem } := by
  unfold getRound
  split
  · exact ⟨t.mem, rfl⟩
  · simp only
    split
    · exact ⟨t.mem, rfl⟩
    · exact ⟨_, rfl⟩

theorem getRounds_world (q : QueueV3Tx) (packets : Nat → NdpPacket) (t : TxWorld W) (n : Nat) :
    ∃ mem, (getRounds q packets t n).1 = { t with mem } := by
  induction n with
  | zero => exact ⟨t.mem, rfl⟩
  | succ n ih =>
    obtain ⟨mem, hmem⟩ := ih
    rw [getRounds]
    generalize getRounds q packets t n = x at hmem
    obtain ⟨t₁, pkts, sdp⟩ := x
    simp only at hmem
    subst hmem
    cases sdp with
    | none => exact ⟨mem, rfl⟩
    | some sdp =>
      obtain ⟨mem₁, h₁⟩ := getRound_world q (packets n) n { t with mem } sdp
      simp only
      generalize getRound q (packets n) n { t with mem } sdp = y at h₁
      obtain ⟨t₁, sdp'⟩ := y
      cases sdp' <;> exact ⟨mem₁, h₁⟩

/-- `nc_ndp_v3_tx_burst_get` behind its check for available headers. -/
def burstReserve (t : TxWorld W) (q : QueueV3Tx) (packets : Nat → NdpPacket) (count : U32) : TxWorld W × QueueV3Tx × U32 :=
  match getRounds q packets t count.toNat with
  | (t, txPkts, none) => (t, { q with txPkts }, 0)
  | (t, txPkts, some sdp) =>
    (t, { q with
      txPkts
      hdrs := q.hdrs + count.toNat
      sdp := sdp &&& q.dataPtrMask
      shp := q.shp + count
      pktsAvailable := q.pktsAvailable - count
      pktsToSend := q.pktsToSend + count }, count)

/-- `nc_ndp_v3_tx_burst_get`. -/
def ncNdpV3TxBurstGet (t : TxWorld W) (q : QueueV3Tx) (packets : Nat → NdpPacket) (count : U32) :
    TxWorld W × QueueV3Tx × U32 :=
  if q.pktsToSend ≠ 0 ∨ q.txPktsCnt < count.setWidth 64 then (t, q, 0)
  else if q.pktsAvailable < count then
    match ncNdpV3TxLock call t q with
    | (t, q) =>
      if q.pktsAvailable < count ∨ count = 0 then (t, q, 0) else burstReserve t q packets count
  else burstReserve t q packets count

/-! ## Put and flush -/

/-- `nc_ndp_v3_tx_burst_flush` behind its sync in userspace mode. -/
def flushTail (q : QueueV3Tx) : QueueV3Tx :=
  { q with
    pktsAvailable := ((q.sync.swptr - q.sync.hwptr) &&& q.hdrPtrMask.setWidth 64).setWidth 32
    bytesAvailable := q.sync.size }

/-- `nc_ndp_v3_tx_burst_flush` with nothing to send. -/
def flushPut (t : TxWorld W) (q : QueueV3Tx) : TxWorld W × QueueV3Tx × Int :=
  let q := if q.shp ≥ q.hdrPtrMask + 1 then
      { q with shp := q.shp - (q.hdrPtrMask + 1), hdrs := q.hdrs - (q.hdrPtrMask + 1).toNat }
    else q
  if q.userspace then
    if q.sync.hwptr = q.shp.setWidth 64 then (t, q, 0)
    else
      let sync := { q.sync with hwptr := q.shp.setWidth 64, swptr := ((q.shp + 64) &&& q.hdrPtrMask).setWidth 64 }
      match call .flush t { q with sync } with
      | (t, q, _) => (t, flushTail q, 0)
  else
    let sync := { q.sync with hwptr := q.shp.setWidth 64, swptr := q.shp.setWidth 64 }
    match call .flush t { q with sync, pktsAvailable := 0 } with
    | (t, q, ret) => (t, q, if ret ≠ 0 then -1 else 0)

/-- `while (bytes_available < frame_len_ceil) request_space`, for at most `fuel` rounds, of which are left over
as many as are returned; `none` stands for a loop that does not end. -/
def waitSpace (shp : U32) (need : U64) : Nat → TxWorld W → QueueV3Tx → Option (Nat × TxWorld W × QueueV3Tx × Int)
  | fuel, t, q =>
    if q.bytesAvailable < need then
      match fuel with
      | 0 => none
      | fuel + 1 =>
        match ncNdpV3TxRequestSpace call t q shp with
        | (t, q, ret) => if ret ≠ 0 then some (fuel, t, q, -1) else waitSpace shp need fuel t q
    else some (fuel, t, q, 0)

/-- The loop of `nc_ndp_v3_tx_burst_put` over the packets from `i` on, with `n` to go and the first at `shp`. -/
def putRounds (hdr : Int) : Nat → Nat → U32 → Nat → TxWorld W → QueueV3Tx → Option (TxWorld W × QueueV3Tx × Int)
  | 0, _, _, _, t, q => some (t, q, 0)
  | n + 1, i, shp, fuel, t, q =>
    let need : U64 := (frameLenCeil ((t.hdr (hdr + i)).frameLen.setWidth 32)).setWidth 64
    (waitSpace call shp need fuel t q).bind fun (fuel, t, q, ret) =>
      if ret ≠ 0 then some (t, q, ret)
      else
        let q := { q with bytesAvailable := q.bytesAvailable - need }
        let t := { t with sent := t.sent ++ [(shp, t.hdr (hdr + i))] }
        putRounds hdr n (i + 1) ((shp + 1) &&& q.hdrPtrMask) fuel t q

/-- `nc_ndp_v3_tx_burst_put`, asking for space at most `fuel` times. -/
def ncNdpV3TxBurstPut (fuel : Nat) (t : TxWorld W) (q : QueueV3Tx) : Option (TxWorld W × QueueV3Tx × Int) :=
  (putRounds call (q.hdrs - q.pktsToSend.toNat) q.pktsToSend.toNat 0 (q.shp - q.pktsToSend) fuel t q).map
    fun (t, q, ret) =>
      if ret ≠ 0 then (t, q, ret)
      else
        match flushPut call t { q with pktsToSend := 0 } with
        | (t, q, _) => (t, q, 0)

/-- `nc_ndp_v3_tx_burst_flush`. -/
def ncNdpV3TxBurstFlush (fuel : Nat) (t : TxWorld W) (q : QueueV3Tx) : Option (TxWorld W × QueueV3Tx × Int) :=
  if q.pktsToSend > 0 then ncNdpV3TxBurstPut call fuel t q else some (flushPut call t q)

end Lib

end NdkSw.Calypte

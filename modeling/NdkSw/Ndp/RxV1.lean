/-
Protocol 1 reception (`ndp_rx.h`): the library's lock, unlock, get and put over the channel's RX sync, and the system of
any number of subscriptions of one channel. The hardware writes whole padded frames into the ring, which every
subscription has mapped twice in a row; a get walks over the frame headers, locks again whenever it runs out of bytes,
and a put releases lazily.
-/
import NdkSw.Ndp.TxV1
import NdkSw.Ring.Store

namespace NdkSw.Ndp

open Ring

/-! ## Frame headers in memory -/

/-- The bytes of `struct ndp_packethdr`, both fields in little endian. -/
def V1PacketHdr.bytes (hdr : V1PacketHdr) : List U8 :=
  [hdr.packetSize.extractLsb' 0 8, hdr.packetSize.extractLsb' 8 8, hdr.headerSize.extractLsb' 0 8,
    hdr.headerSize.extractLsb' 8 8]

/-- The header that is read at an address. -/
def v1HdrAt (rd : Int → U8) (addr : Int) : V1PacketHdr where
  packetSize := rd (addr + 1) ++ rd addr
  headerSize := rd (addr + 3) ++ rd (addr + 2)

theorem append_extract (x : U16) : x.extractLsb' 8 8 ++ x.extractLsb' 0 8 = x := by
  ext j hj
  simp only [BitVec.getElem_append, BitVec.getElem_extractLsb']
  split
  · simp [BitVec.getLsbD_eq_getElem hj]
  · rw [show 8 + (j - 8) = j by omega, BitVec.getLsbD_eq_getElem hj]

theorem v1HdrAt_bytes {rd : Int → U8} {addr : Int} {hdr : V1PacketHdr}
    (h : ∀ (j : Nat) b, hdr.bytes[j]? = some b → rd (addr + (j : Int)) = b) : v1HdrAt rd addr = hdr := by
  have h0 := h 0 _ rfl
  have h1 := h 1 _ rfl
  have h2 := h 2 _ rfl
  have h3 := h 3 _ rfl
  simp only [Nat.cast_zero, add_zero] at h0
  simp only [Nat.cast_one, Nat.cast_ofNat] at h1 h2 h3
  unfold v1HdrAt
  rw [h0, h1, h2, h3, append_extract, append_extract]

/-! ## Library calls -/

/-- Why a get ends before its burst is complete; after the last two the queue is stopped and closed. -/
inductive V1RxError
  | sync
  | malformed
  | locked
  deriving DecidableEq, Repr

section Lib

variable {C E : Type} (ops : ChannelOps C E)

/-- `nc_ndp_v1_rx_lock`, with its return value. -/
def ncNdpV1RxLock (e : E) (i : Nat) (ch : Channel C) (q : QueueV1) : Channel C × QueueV1 × Int :=
  match ndpSubscriptionSync ops .rx e ch i q.sync with
  | (ch, sync, ret) =>
    let q := { q with sync }
    if ret ≠ 0 then (ch, q, ret)
    else
      (ch, { q with
        data := q.buffer + sync.swptr.toNat + q.swptr.toNat
        bytes := (sync.hwptr - sync.swptr - q.swptr) &&& q.mask
        total := (sync.hwptr - sync.swptr) &&& q.mask }, 0)

/-- `nc_ndp_v1_rx_unlock`. -/
def ncNdpV1RxUnlock (e : E) (i : Nat) (ch : Channel C) (q : QueueV1) : Channel C × QueueV1 :=
  let unlockBytes := q.total - q.bytes
  let q := { q with
    sync := { q.sync with swptr := (q.sync.swptr + unlockBytes) &&& q.mask }
    total := q.total - unlockBytes
    swptr := 0 }
  match ndpSubscriptionSync ops .rx e ch i q.sync with
  | (ch, sync, _) => (ch, { q with sync })

/-- What a get makes of the frame header at `data`: the packet, and the bytes that it takes. -/
def v1RxPacket (hdr : V1PacketHdr) (data : Int) (bytes : U64) : Except V1RxError (NdpPacket × U16) :=
  -- the difference is an `int`
  if hdr.packetSize = 0 ∨ (hdr.headerSize.toNat : Int) > hdr.packetSize.toNat - ndpPacketHeaderSize then .error .malformed
  else if hdr.packetSize.setWidth 64 > bytes then .error .locked
  else
    let headerSize : U16 := (align8 (hdr.headerSize.setWidth 32 + 4)).setWidth 16
    .ok ({ header := data + ndpPacketHeaderSize
           headerLength := hdr.headerSize
           data := data + headerSize.toNat
           dataLength := hdr.packetSize.setWidth 32 - headerSize.setWidth 32
           flags := 0 },
      (align8 (hdr.packetSize.setWidth 32)).setWidth 16)

/-- The loop of `nc_ndp_v1_rx_burst_get` from round `n` on, for at most `count` packets: those it has filled in, and the
error that has ended it. Its variables `data`, `swptr` and `bytes` are kept in the queue. -/
def v1RxRounds (rd : C → Int → U8) (e : Nat → E) (i : Nat) : Nat → Nat → Channel C → QueueV1 →
    Channel C × QueueV1 × List NdpPacket × Option V1RxError
  | _, 0, ch, q => (ch, q, [], none)
  | n, count + 1, ch, q =>
    match (if q.bytes = 0 then ncNdpV1RxLock ops (e n) i ch q else (ch, q, 0)) with
    | (ch, q, ret) =>
      if ret ≠ 0 then (ch, q, [], some .sync)
      else if q.bytes = 0 then (ch, q, [], none)
      else
        match v1RxPacket (v1HdrAt (rd ch.ctrl) q.data) q.data q.bytes with
        | .error err => (ch, q, [], some err)
        | .ok (packet, size) =>
          match v1RxRounds rd e i (n + 1) count ch (q.advance size) with
          | (ch, q, packets, err) => (ch, q, packet :: packets, err)

/-- `nc_ndp_v1_rx_burst_get`: it returns the number of packets, or 0 after an error. -/
def ncNdpV1RxBurstGet (rd : C → Int → U8) (e : Nat → E) (i : Nat) (ch : Channel C) (q : QueueV1) (count : Nat) :
    Channel C × QueueV1 × List NdpPacket × Option V1RxError :=
  v1RxRounds ops rd e i 0 count ch q

/-- `nc_ndp_v1_rx_burst_put`: release more than half of the ring. -/
def ncNdpV1RxBurstPut (e : E) (i : Nat) (ch : Channel C) (q : QueueV1) : Channel C × QueueV1 :=
  if q.total - q.bytes > q.size / 2 then ncNdpV1RxUnlock ops e i ch q else (ch, q)

end Lib

/-! ## The hardware -/

/-- A well-formed frame: the data begin behind the aligned header area, and the padded size fits 16 bits. `body` is what
follows the frame header, with the padding. -/
structure V1RxFrame where
  packetSize : U16
  headerSize : U16
  body : List U8
  header_le : (headerSize.toNat + 11) / 8 * 8 ≤ packetSize.toNat
  padded_lt : (packetSize.toNat + 7) / 8 * 8 < 2 ^ 16
  length_body : body.length + 4 = (packetSize.toNat + 7) / 8 * 8

/-- The bytes of a frame in the ring. -/
def V1RxFrame.image (f : V1RxFrame) : List U8 := V1PacketHdr.bytes ⟨f.packetSize, f.headerSize⟩ ++ f.body

/-- An RX controller: the pointer last given to `set_swptr`, the ring, and what the hardware has received since the start,
as frames and as bytes. -/
structure RxByteCtrl where
  mhp : U64
  swptr : U64
  mem : Nat → U8
  frames : List V1RxFrame
  log : List U8

/-- The hardware writes a frame, unless that would overrun `swptr`. -/
def RxByteCtrl.receive (c : RxByteCtrl) (f : V1RxFrame) : RxByteCtrl :=
  if f.image.length ≤ ((c.swptr - BitVec.ofNat 64 c.log.length - 1) &&& c.mhp).toNat then
    { c with
      mem := writeFrom (c.mhp.toNat + 1) c.mem c.log.length f.image
      frames := c.frames ++ [f]
      log := c.log ++ f.image }
  else c

/-- What the hardware shows to a call: the result of starting it, and the frames that arrive until its pointer is read. -/
structure RxByteEnv where
  ret : Int
  frames : List V1RxFrame

def rxByteOps : ChannelOps RxByteCtrl RxByteEnv where
  start c e := if e.ret ≠ 0 then (c, e.ret, 0) else ({ c with swptr := 0, frames := [], log := [] }, 0, 0)
  stop c e force := (c, if e.ret = eAgain ∧ ¬ force then eAgain else 0)
  getHwptr c e :=
    let c := e.frames.foldl RxByteCtrl.receive c
    (c, BitVec.ofNat 64 c.log.length &&& c.mhp)
  setSwptr c _ ptr := { c with swptr := ptr }
  getFreeSpace := none

/-- The received byte a ring pointer stands behind: the last one if several have its place. -/
def RxByteCtrl.pos (c : RxByteCtrl) (x : U64) : Nat :=
  c.log.length - ((BitVec.ofNat 64 c.log.length - x) &&& c.mhp).toNat

/-- The ring as the subscription of `q` has it mapped. -/
def QueueV1.read (q : QueueV1) (c : RxByteCtrl) (addr : Int) : U8 := c.mem (shadowSlot q.size.toNat (addr - q.buffer))

/-! ## Subscriptions of one channel -/

/-- The system: the channel, one queue per subscription, and its history: the position where each subscription started,
the packets it got, and the errors that its gets have ended with. -/
structure RxV1 where
  ch : Channel RxByteCtrl
  q : Nat → QueueV1
  start : Nat → Option Nat
  got : Nat → List NdpPacket
  errors : Nat → List V1RxError

inductive RxV1Act
  | start (i : Nat) (e : RxByteEnv)
  | receive (f : V1RxFrame)
  | get (i : Nat) (e : Nat → RxByteEnv) (count : Nat)
  | put (i : Nat) (e : RxByteEnv)

namespace RxV1

/-- A channel with a ring of `2 ^ k` bytes, and a freshly opened queue for every subscription. -/
def opened (k : Nat) (mem : Nat → U8) (buffer : Nat → Int) : RxV1 where
  ch :=
    { lockedSub := none, hwptr := 0, swptr := 0, ptrmask := BitVec.ofNat 64 (2 ^ k - 1), startCount := 0
      listSubscriptions := []
      sub := fun _ => { status := .subscribed, hwptr := 0, swptr := 0 }
      ctrl := { mhp := BitVec.ofNat 64 (2 ^ k - 1), swptr := 0, mem, frames := [], log := [] } }
  q i := ncNdpV1OpenQueue (buffer i) (BitVec.ofNat 64 (2 ^ k))
  start _ := none
  got _ := []
  errors _ := []

/-- One call of a subscription or one received frame. Every subscription is started once, and only running ones make data
calls. -/
def step (s : RxV1) : RxV1Act → RxV1
  | .start i e =>
    if s.start i ≠ none then s
    else
      match ndpSubscriptionStart rxByteOps .rx e s.ch i (s.q i).sync with
      | (ch, sync, ret) =>
        let s := { s with ch, q := Function.update s.q i { s.q i with sync } }
        if ret ≠ 0 then s else { s with start := Function.update s.start i (some (ch.ctrl.pos ch.hwptr)) }
  | .receive f => if s.ch.startCount = 0 then s else { s with ch := { s.ch with ctrl := s.ch.ctrl.receive f } }
  | .get i e count =>
    if (s.ch.sub i).status ≠ .running then s
    else
      match ncNdpV1RxBurstGet rxByteOps (s.q i).read e i s.ch (s.q i) count with
      | (ch, q, packets, err) =>
        { s with
          ch, q := Function.update s.q i q, got := Function.update s.got i (s.got i ++ packets)
          errors := Function.update s.errors i (s.errors i ++ err.toList) }
  | .put i e =>
    if (s.ch.sub i).status ≠ .running then s
    else
      match ncNdpV1RxBurstPut rxByteOps e i s.ch (s.q i) with
      | (ch, q) => { s with ch, q := Function.update s.q i q }

end RxV1

end NdkSw.Ndp

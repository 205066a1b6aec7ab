/-
The library's data model (`nfb/ndp.h`, `ndp_priv.h`): packets, the packet headers of protocols 2 and 3,
and the protocol 2 part of `struct nc_ndp_queue` with its opening. Pointers are integers: byte
addresses for packet data, item numbers for the header and offset arrays, which the driver maps
twice in a row so that item `x` and item `x + hdr_items` are the same slot.
-/
import NdkSw.Ndp.Channel

namespace NdkSw.Ndp

/-- `struct ndp_packet`. -/
structure NdpPacket where
  data : Int
  header : Int
  dataLength : U32
  headerLength : U16
  flags : U16
  deriving DecidableEq, Repr

/-- `struct ndp_v2_packethdr`. -/
structure V2PacketHdr where
  packetSize : U16
  headerSize : U8
  flags : U8
  deriving DecidableEq, Repr

/-- `struct ndp_v3_packethdr`, less its reserved bits. -/
structure V3PacketHdr where
  frameLen : U16
  framePtr : U16
  valid : BitVec 1
  headerSize : U8
  flags : BitVec 4
  deriving DecidableEq, Repr

/-- The header and offset buffers of a protocol 2 channel, by slot. -/
structure V2Mem where
  hdr : Nat → V2PacketHdr
  off : Nat → U64

/-- `struct nc_ndp_queue` of a protocol 2 queue. `hdrBase` and `offBase` are where the header and
offset buffers were mapped. -/
structure QueueV2 where
  buffer : Int
  frameSizeMin : U32
  frameSizeMax : U32
  sync : SubscriptionSync
  pktsAvailable : U32
  rhp : U32
  hdrItems : U32
  hdr : Int
  off : Int
  hdrBase : Int
  offBase : Int
  deriving DecidableEq, Repr

/-- What opening a queue reads from the device tree and gets from `mmap`. -/
structure V2Open where
  buffer : Int
  hdrBase : Int
  offBase : Int
  /-- `frame_size_min` and `frame_size_max` of the controller parameters, 0 if absent. -/
  frameSizeMin : U32
  frameSizeMax : U32
  /-- The property `buffer_size`, 4096 if absent. -/
  bufferSize : U32

/-- `nc_ndp_queue_open_init_ext` with `nc_ndp_v2_open_queue` for a ring of `hdrItems` headers. -/
def ncNdpV2OpenQueue (o : V2Open) (hdrItems : U32) : QueueV2 :=
  let frameSizeMin := if o.frameSizeMin = 0 then 60 else o.frameSizeMin
  let frameSizeMax := if o.frameSizeMax = 0 then 0x3FFF else o.frameSizeMax
  { buffer := o.buffer
    frameSizeMin
    frameSizeMax := if o.bufferSize < frameSizeMax then o.bufferSize else frameSizeMax
    sync := { size := 0, hwptr := 0, swptr := 0 }
    pktsAvailable := 0
    rhp := 0
    hdrItems
    hdr := o.hdrBase
    off := o.offBase
    hdrBase := o.hdrBase
    offBase := o.offBase }

/-- The slot of item `x` of a twice mapped array of `n` items. -/
def shadowSlot (n : Nat) (x : Int) : Nat := (x % n).toNat

/-- The header and offset slots of `count` items from the queue's current position on. -/
def QueueV2.itemSlots (q : QueueV2) (count : Nat) : List Nat :=
  (List.range count).map fun (i : Nat) => shadowSlot q.hdrItems.toNat (q.hdr - q.hdrBase + (i : Int))

/-- The mask of the header ring, `hdr_items - 1`, as the sync pointers use it. -/
def QueueV2.mask (q : QueueV2) : U64 := (q.hdrItems - 1).setWidth 64

end NdkSw.Ndp

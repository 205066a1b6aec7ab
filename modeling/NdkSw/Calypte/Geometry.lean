/-
The masks of a Calypte TX ring: the driver derives them from the sizes of the hardware buffers when it attaches the
ring, the library once more when it opens a queue, in userspace from the properties that the driver left in the
device tree and in the kernel through `ndp_ctrl_v3_get_vmaps`, whose two buffer sizes the caller takes in the other
order.
-/
import NdkSw.Ndp.Channel

namespace NdkSw.Calypte

open Ndp

/-- The sizes in the `reg` properties of `data_buff` and `hdr_buff`. -/
structure TxBuffers where
  dataBuff : U32
  hdrBuff : U32
  deriving DecidableEq, Repr

/-- The size of `struct nc_calypte_hdr`, which is that of `struct ndp_v3_packethdr`. -/
def ndpCtrlRxCalypteHdrSize : U64 := 8

/-! ## The driver -/

/-- What `ndp_ctrl_tx_calypte_attach_ring` leaves in `struct ndp_ctrl` and in the channel. -/
structure TxAttached where
  dataBufferSize : U64
  hdrBufferSize : U64
  mdp : U32
  mhp : U32
  ptrmask : U64
  deriving DecidableEq, Repr

/-- `ndp_ctrl_tx_calypte_attach_ring`. -/
def ndpCtrlTxCalypteAttachRing (b : TxBuffers) : TxAttached :=
  let dataBufferSize : U64 := b.dataBuff.setWidth 64
  let hdrBufferSize : U64 := b.hdrBuff.setWidth 64
  let mhp : U32 := ((hdrBufferSize / (2 * ndpCtrlRxCalypteHdrSize) - 1) &&& 0xFFFF).setWidth 32
  { dataBufferSize
    hdrBufferSize
    mdp := ((dataBufferSize / 2 - 1) &&& 0xFFFF).setWidth 32
    mhp
    ptrmask := mhp.setWidth 64 }

/-- The properties `hdr_mmap_size`, `data_buff_size` and `hdr_buff_size` of the queue. -/
def TxAttached.properties (c : TxAttached) : U64 × U32 × U32 :=
  (c.hdrBufferSize * 2, c.dataBufferSize.setWidth 32, c.hdrBufferSize.setWidth 32)

/-- `ndp_ctrl_v3_get_vmaps`: its out-parameters `hdr_mmap_size`, `data_buf_size` and `hdr_buf_size`. -/
def ndpCtrlV3GetVmaps (c : TxAttached) : U64 × U64 × U64 := (c.hdrBufferSize * 2, c.dataBufferSize, c.hdrBufferSize)

/-! ## The library -/

/-- Where `nc_ndp_v3_open_queue` is compiled for. -/
inductive Build
  | kernel
  | userspace
  deriving DecidableEq, Repr

/-- The masks of `struct nc_ndp_queue`. -/
structure TxMasks where
  hdrPtrMask : U32
  dataPtrMask : U32
  deriving DecidableEq, Repr

/-- The variables `hdr_buff_size` and `data_buff_size` of `nc_ndp_v3_open_queue`. The call in the kernel passes them in
this order. -/
def openSizes (build : Build) (c : TxAttached) : U64 × U64 :=
  match build with
  | .kernel => (ndpCtrlV3GetVmaps c).2
  | .userspace => (c.properties.2.2.setWidth 64, c.properties.2.1.setWidth 64)

/-- `nc_ndp_v3_open_queue` of a TX queue. -/
def ncNdpV3OpenQueueTx (build : Build) (c : TxAttached) : TxMasks :=
  match openSizes build c with
  | (hdrBuffSize, dataBuffSize) =>
    { hdrPtrMask := (hdrBuffSize / (2 * 8) - 1).setWidth 32
      dataPtrMask := (dataBuffSize / 2 - 1).setWidth 32 }

/-! ## Agreement -/

/-- The library's masks are the driver's. -/
def GeometryAgrees (build : Build) (b : TxBuffers) : Prop :=
  (ncNdpV3OpenQueueTx build (ndpCtrlTxCalypteAttachRing b)).hdrPtrMask = (ndpCtrlTxCalypteAttachRing b).mhp ∧
    (ncNdpV3OpenQueueTx build (ndpCtrlTxCalypteAttachRing b)).hdrPtrMask.setWidth 64 = (ndpCtrlTxCalypteAttachRing b).ptrmask ∧
    (ncNdpV3OpenQueueTx build (ndpCtrlTxCalypteAttachRing b)).dataPtrMask = (ndpCtrlTxCalypteAttachRing b).mdp

instance (build : Build) (b : TxBuffers) : Decidable (GeometryAgrees build b) := inferInstanceAs (Decidable (_ ∧ _ ∧ _))

/-- The condition: pointers of at most 16 bits, at least one header and two bytes, and in the kernel buffers of the
same size. -/
def GoodSizes (build : Build) (b : TxBuffers) : Prop :=
  2 ≤ b.dataBuff.toNat ∧ b.dataBuff.toNat ≤ 2 ^ 17 ∧ 16 ≤ b.hdrBuff.toNat ∧ b.hdrBuff.toNat ≤ 2 ^ 20 ∧
    (build = .kernel → b.dataBuff = b.hdrBuff)

instance (build : Build) (b : TxBuffers) : Decidable (GoodSizes build b) := inferInstanceAs (Decidable (_ ∧ _ ∧ _ ∧ _ ∧ _))

theorem geometry_exponents (build : Build) (x y : Fin 32) :
    GeometryAgrees build ⟨BitVec.ofNat 32 (2 ^ x.val), BitVec.ofNat 32 (2 ^ y.val)⟩ ↔
      GoodSizes build ⟨BitVec.ofNat 32 (2 ^ x.val), BitVec.ofNat 32 (2 ^ y.val)⟩ := by
  cases build with
  | kernel => revert x y; decide +kernel
  | userspace => revert x y; decide +kernel

theorem exists_exponent {n : U32} (h : ∃ a, n.toNat = 2 ^ a) : ∃ x : Fin 32, n = BitVec.ofNat 32 (2 ^ x.val) := by
  obtain ⟨a, ha⟩ := h
  have hlt : 2 ^ a < 2 ^ 32 := by rw [← ha]; exact n.isLt
  refine ⟨⟨a, (Nat.pow_lt_pow_iff_right (by norm_num)).1 hlt⟩, BitVec.eq_of_toNat_eq ?_⟩
  rw [BitVec.toNat_ofNat, Nat.mod_eq_of_lt hlt, ha]

/-- For buffers whose sizes are powers of two, library and driver agree exactly under the condition. -/
theorem geometry_agrees_iff (build : Build) {b : TxBuffers} (hd : ∃ a, b.dataBuff.toNat = 2 ^ a) (hh : ∃ a, b.hdrBuff.toNat = 2 ^ a) :
    GeometryAgrees build b ↔ GoodSizes build b := by
  obtain ⟨dataBuff, hdrBuff⟩ := b
  obtain ⟨x, rfl⟩ := exists_exponent hd
  obtain ⟨y, rfl⟩ := exists_exponent hh
  exact geometry_exponents build x y

/-- Buffers of 64 KiB and of 32 KiB agree in userspace. -/
theorem geometry_agrees_64k : GeometryAgrees .userspace ⟨65536, 32768⟩ :=
  (geometry_agrees_iff .userspace ⟨16, by decide⟩ ⟨15, by decide⟩).2 (by decide)

/-- The same buffers do not in the kernel: both masks are wrong there. -/
theorem geometry_swapped :
    ¬ GeometryAgrees .kernel ⟨65536, 32768⟩ ∧
      ncNdpV3OpenQueueTx .kernel (ndpCtrlTxCalypteAttachRing ⟨65536, 32768⟩) = { hdrPtrMask := 4095, dataPtrMask := 16383 } ∧
      (ndpCtrlTxCalypteAttachRing ⟨65536, 32768⟩).mhp = 2047 ∧ (ndpCtrlTxCalypteAttachRing ⟨65536, 32768⟩).mdp = 32767 := by
  decide

end NdkSw.Calypte

/-
DMA descriptors (`dma_ctrl_ndp.h`): their bit layout, the stream a driver writes for a list of
buffers, and its meaning. A type-0 descriptor sets the upper address bits of the following type-2
descriptors, each of which gives one buffer to the hardware.
-/
import NdkSw.Ndp.Channel
import NdkSw.Bits.Field

namespace NdkSw.Medusa

open Ndp Bits

/-! ## Layout -/

/-- `struct nc_ndp_desc` as a type-0 descriptor. -/
def ncNdpRxDesc0 (phys : U64) : U64 :=
  put 0 ((phys >>> 30).setWidth 32 : U32) ||| put 32 ((phys >>> (30 + 32)).setWidth 2 : BitVec 2) |||
    put 34 (0 : BitVec 28) ||| put 62 (0 : BitVec 2)

/-- `struct nc_ndp_desc` as a type-2 descriptor. -/
def type2Desc (phys : U64) (len metaBits : U16) (next : U32) : U64 :=
  put 0 (phys.setWidth 30 : BitVec 30) ||| put 30 (0 : BitVec 1) ||| put 31 (0 : BitVec 1) ||| put 32 len |||
    put 48 (metaBits.setWidth 12 : BitVec 12) ||| put 60 (0 : BitVec 1) ||| put 61 (next.setWidth 1 : BitVec 1) |||
    put 62 (2 : BitVec 2)

def ncNdpRxDesc2 (phys : U64) (len : U16) (next : U32) : U64 := type2Desc phys len 0 next

def ncNdpTxDesc0 (phys : U64) : U64 := ncNdpRxDesc0 phys

def ncNdpTxDesc2 (phys : U64) (len metaBits : U16) (next : U32) : U64 := type2Desc phys len metaBits next

/-- `NDP_CTRL_DESC_UPPER_ADDR`. -/
def ndpCtrlDescUpperAddr (addr : U64) : U64 := addr &&& 0xFFFFFFFFc0000000#64

/-- `d.type2.type`, at the same place in all types. -/
def descType (d : U64) : BitVec 2 := field 62 2 d

@[simp] theorem descType_desc0 (phys : U64) : descType (ncNdpRxDesc0 phys) = 0 := by
  unfold descType ncNdpRxDesc0
  simp (disch := omega) [field_put_apart, field_put_self]

@[simp] theorem descType_type2Desc (phys : U64) (len metaBits : U16) (next : U32) :
    descType (type2Desc phys len metaBits next) = 2 := by
  unfold descType type2Desc
  simp (disch := omega) [field_put_apart, field_put_self]

theorem len_type2Desc (phys : U64) (len metaBits : U16) (next : U32) :
    field 32 16 (type2Desc phys len metaBits next) = len := by
  unfold type2Desc
  simp (disch := omega) [field_put_apart, field_put_self]

theorem phys_type2Desc (phys : U64) (len metaBits : U16) (next : U32) :
    field 0 30 (type2Desc phys len metaBits next) = phys.setWidth 30 := by
  unfold type2Desc
  simp (disch := omega) [field_put_apart, field_put_self]

/-! ## What the hardware reads -/

/-- The upper address a type-0 descriptor sets: bits 63..30. -/
def descUpper (d : U64) : U64 := put 30 (field 0 32 d) ||| put 62 (field 32 2 d)

/-- The buffers a descriptor stream gives to hardware whose upper address register holds `up`. -/
def decode (up : U64) : List U64 → List (U64 × U16)
  | [] => []
  | d :: l =>
    if descType d = 0 then decode (descUpper d) l
    else if descType d = 2 then (up ||| put 0 (field 0 30 d), field 32 16 d) :: decode up l
    else decode up l

theorem getLsbD_upperAddr (addr : U64) (i : Nat) :
    (ndpCtrlDescUpperAddr addr).getLsbD i = (decide (30 ≤ i) && addr.getLsbD i) := by
  have hmask : (0xFFFFFFFFc0000000#64 : U64) = BitVec.allOnes 64 <<< 30 := by decide
  unfold ndpCtrlDescUpperAddr
  rw [BitVec.getLsbD_and, hmask, BitVec.getLsbD_shiftLeft, BitVec.getLsbD_allOnes]
  by_cases h1 : 30 ≤ i
  · by_cases h2 : i < 64
    · simp [h1, h2, Nat.not_lt.2 h1, show i - 30 < 64 by omega]
    · simp [BitVec.getLsbD_of_ge addr i (by omega)]
  · simp [h1, Nat.lt_of_not_le h1]

theorem descUpper_desc0 (phys : U64) : descUpper (ncNdpRxDesc0 phys) = ndpCtrlDescUpperAddr phys := by
  have hlo : field 0 32 (ncNdpRxDesc0 phys) = (phys >>> 30).setWidth 32 := by
    unfold ncNdpRxDesc0
    simp (disch := omega) [field_put_apart, field_put_self]
  have hhi : field 32 2 (ncNdpRxDesc0 phys) = (phys >>> (30 + 32)).setWidth 2 := by
    unfold ncNdpRxDesc0
    simp (disch := omega) [field_put_apart, field_put_self]
  apply BitVec.eq_of_getLsbD_eq
  intro i hi
  unfold descUpper
  rw [hlo, hhi, getLsbD_upperAddr, BitVec.getLsbD_or, getLsbD_put, getLsbD_put, BitVec.getLsbD_setWidth,
    BitVec.getLsbD_setWidth, BitVec.getLsbD_ushiftRight, BitVec.getLsbD_ushiftRight]
  by_cases h1 : 30 ≤ i
  · by_cases h2 : 62 ≤ i
    · simp [hi, h1, h2, show ¬ i - 30 < 32 by omega, show i - 62 < 2 by omega, show 62 + (i - 62) = i by omega]
    · simp [hi, h1, h2, show i - 30 < 32 by omega, show 30 + (i - 30) = i by omega]
  · simp [h1, show ¬ 62 ≤ i by omega]

theorem upperAddr_or_phys (addr : U64) : ndpCtrlDescUpperAddr addr ||| put 0 (addr.setWidth 30 : BitVec 30) = addr := by
  apply BitVec.eq_of_getLsbD_eq
  intro i hi
  rw [BitVec.getLsbD_or, getLsbD_upperAddr, getLsbD_put, BitVec.getLsbD_setWidth]
  by_cases h1 : 30 ≤ i
  · simp [h1, show ¬ i < 30 by omega]
  · simp [h1, hi, show i < 30 by omega]

/-- `last_upper_addr` after a start: no address has this upper part. -/
def noUpperAddr : U64 := 0xFFFFFFFFFFFFFFFF#64

theorem upperAddr_ne_noUpperAddr (addr : U64) : ndpCtrlDescUpperAddr addr ≠ noUpperAddr := by
  intro h
  have h0 := getLsbD_upperAddr addr 0
  rw [h] at h0
  simp [noUpperAddr] at h0

/-! ## The stream for a list of buffers -/

/-- A buffer to describe: its DMA address, its length and its metadata. -/
structure DmaBuffer where
  addr : U64
  len : U16
  metaBits : U16
  deriving DecidableEq, Repr

/-- The descriptors of a buffer after one with the upper address `last`. -/
def DmaBuffer.descs (last : U64) (b : DmaBuffer) : List U64 :=
  if ndpCtrlDescUpperAddr b.addr ≠ last then [ncNdpRxDesc0 b.addr, type2Desc b.addr b.len b.metaBits 0]
  else [type2Desc b.addr b.len b.metaBits 0]

/-- The descriptors of a list of buffers. -/
def encode (last : U64) : List DmaBuffer → List U64
  | [] => []
  | b :: l => b.descs last ++ encode (ndpCtrlDescUpperAddr b.addr) l

/-- The upper address behind a list of buffers. -/
def upperAfter (last : U64) : List DmaBuffer → U64
  | [] => last
  | b :: l => upperAfter (ndpCtrlDescUpperAddr b.addr) l

theorem upperAfter_append (last : U64) (l m : List DmaBuffer) :
    upperAfter last (l ++ m) = upperAfter (upperAfter last l) m := by
  induction l generalizing last with
  | nil => rfl
  | cons b l ih => exact ih _

theorem encode_append (last : U64) (l m : List DmaBuffer) :
    encode last (l ++ m) = encode last l ++ encode (upperAfter last l) m := by
  induction l generalizing last with
  | nil => rfl
  | cons b l ih => rw [List.cons_append, encode, encode, ih, upperAfter, List.append_assoc]

theorem encode_concat (last : U64) (l : List DmaBuffer) (b : DmaBuffer) :
    encode last (l ++ [b]) = encode last l ++ b.descs (upperAfter last l) := by
  rw [encode_append, encode, encode, List.append_nil]

/-- The type-2 descriptors of a stream. -/
def type2Descs (l : List U64) : List U64 := l.filter (descType · = 2)

theorem type2Descs_append (l m : List U64) : type2Descs (l ++ m) = type2Descs l ++ type2Descs m :=
  List.filter_append ..

theorem type2Descs_encode (last : U64) (l : List DmaBuffer) :
    type2Descs (encode last l) = l.map fun b => type2Desc b.addr b.len b.metaBits 0 := by
  unfold type2Descs
  induction l generalizing last with
  | nil => rfl
  | cons b l ih =>
    rw [encode, List.filter_append, ih, List.map_cons]
    unfold DmaBuffer.descs
    split <;> simp

/-- Decoding gives back the buffers, from any register as long as `last` is its value or the upper
part of no address; `tail` stands for what follows. -/
theorem decode_encode (l : List DmaBuffer) (tail : List U64) (last up : U64)
    (h : last = up ∨ ∀ a, ndpCtrlDescUpperAddr a ≠ last) :
    decode up (encode last l ++ tail) =
      l.map (fun b => (b.addr, b.len)) ++ decode (if l = [] then up else upperAfter last l) tail := by
  induction l generalizing last up with
  | nil => rfl
  | cons b l ih =>
    have hstep : ∀ u, u = ndpCtrlDescUpperAddr b.addr → ∀ rest,
        decode u (type2Desc b.addr b.len b.metaBits 0 :: rest) = (b.addr, b.len) :: decode u rest := by
      intro u hu rest
      rw [decode, if_neg (by simp), if_pos (by simp), phys_type2Desc, len_type2Desc, hu, upperAddr_or_phys]
    have hrest := ih (ndpCtrlDescUpperAddr b.addr) (ndpCtrlDescUpperAddr b.addr) (Or.inl rfl)
    have hup : (if l = [] then ndpCtrlDescUpperAddr b.addr else upperAfter (ndpCtrlDescUpperAddr b.addr) l) =
        upperAfter last (b :: l) := by
      rw [upperAfter]
      split
      · rename_i hl; rw [hl]; rfl
      · rfl
    rw [hup] at hrest
    rw [encode, if_neg (List.cons_ne_nil b l), List.map_cons, List.cons_append]
    unfold DmaBuffer.descs
    by_cases hne : ndpCtrlDescUpperAddr b.addr ≠ last
    · rw [if_pos hne]
      simp only [List.cons_append, List.nil_append]
      rw [decode, if_pos (by simp), descUpper_desc0, hstep _ rfl, hrest]
    · have heq := not_not.1 hne
      have hlast : up = ndpCtrlDescUpperAddr b.addr := by
        rcases h with h | h
        · rw [← h, heq]
        · exact absurd heq (h b.addr)
      rw [if_neg hne]
      simp only [List.cons_append, List.nil_append]
      rw [hstep _ hlast, hlast, hrest]

theorem head_encode (l : List DmaBuffer) {tail : List U64} (ht : ∀ d, tail.head? = some d → descType d = 0) {d : U64}
    (h : (encode noUpperAddr l ++ tail).head? = some d) : descType d = 0 := by
  cases l with
  | nil => exact ht d h
  | cons b l =>
    rw [encode] at h
    unfold DmaBuffer.descs at h
    rw [if_pos (upperAddr_ne_noUpperAddr _)] at h
    cases h
    exact descType_desc0 _

/-- Two type-0 descriptors in a row. -/
def BothType0 (d e : U64) : Prop := descType d = 0 ∧ descType e = 0

theorem encode_chain (l : List DmaBuffer) (tail : List U64) (last : U64)
    (h : tail.IsChain fun d e => ¬ BothType0 d e) : (encode last l ++ tail).IsChain fun d e => ¬ BothType0 d e := by
  induction l generalizing last with
  | nil => exact h
  | cons b l ih =>
    have h2 : (type2Desc b.addr b.len b.metaBits 0 :: (encode (ndpCtrlDescUpperAddr b.addr) l ++ tail)).IsChain
        fun d e => ¬ BothType0 d e := by
      rw [List.isChain_cons]
      refine ⟨fun e _ hb => ?_, ih _⟩
      exact absurd hb.1 (by simp)
    rw [encode]
    unfold DmaBuffer.descs
    split
    · simp only [List.cons_append, List.nil_append]
      rw [List.isChain_cons_cons]
      exact ⟨fun hb => absurd hb.2 (by simp), h2⟩
    · simpa using h2

end NdkSw.Medusa

/-
The frame format of protocol 1, from the sender's get to the receiver's walk. Both sides compute the padded sizes in 16
bits, the sender for header and data apart and the receiver for the whole; they agree, and every frame holds its packet,
as long as no packet takes 2^16 bytes or more.
-/
import NdkSw.Ndp.TxV1Inv
import NdkSw.Ndp.RxV1

namespace NdkSw.Ndp

open Ring

/-! ## What is written -/

/-- What the sender puts into a packet. -/
structure V1Content where
  header : List U8
  data : List U8

/-- The content has the lengths of the packet. -/
structure V1Content.Of (x : NdpPacket) (c : V1Content) : Prop where
  header : c.header.length = x.headerLength.toNat
  data : c.data.length = x.dataLength.toNat

/-- The place of an address in the mapping of a queue. -/
def QueueV1.place (q : QueueV1) (addr : Int) : Nat := (addr - q.buffer).toNat

/-- The writes into the frames of a get: first the get itself writes all frame headers, then the sender writes header and
data of packet after packet, at the pointers that it was given. -/
def v1Writes (q : QueueV1) (frames : List V1Frame) (contents : List V1Content) : List (Nat × List U8) :=
  frames.map (fun f => (q.place f.addr, f.hdr.bytes)) ++
    (frames.zip contents).flatMap fun fc =>
      [(q.place fc.1.packet.header, fc.2.header), (q.place fc.1.packet.data, fc.2.data)]

/-- The ring after these writes. -/
def v1Written (q : QueueV1) (mem : Nat → U8) (frames : List V1Frame) (contents : List V1Content) : Nat → U8 :=
  writeAll q.size.toNat 0 mem (v1Writes q frames contents)

/-- The bytes that the frames take. -/
def v1Reserved (frames : List V1Frame) : Nat := (frames.map fun f => f.size.toNat).sum

/-! ## The property -/

/-- The region of a frame holds the header and the data of its packet, one behind the other. -/
structure V1Frame.Holds (f : V1Frame) : Prop where
  header : f.addr + ndpPacketHeaderSize ≤ f.packet.header
  data : f.packet.header + f.packet.headerLength.toNat ≤ f.packet.data
  last : f.packet.data + f.packet.dataLength.toNat ≤ f.addr + f.size.toNat

/-- The `n` bytes that are read from an address on. -/
def readBytes (rd : Int → U8) (addr : Int) (n : Nat) : List U8 := (List.range n).map fun (j : Nat) => rd (addr + (j : Int))

/-- The packet `y` that a receiver got is the packet `x` with its content. -/
structure Received (rd : Int → U8) (xc : NdpPacket × V1Content) (y : NdpPacket) : Prop where
  headerLength : y.headerLength = xc.1.headerLength
  dataLength : y.dataLength = xc.1.dataLength
  header : readBytes rd y.header y.headerLength.toNat = xc.2.header
  data : readBytes rd y.data y.dataLength.toNat = xc.2.data

/-- The queue `r` of a receiver is in front of the bytes of the frames that were written through `q`. -/
structure InFront (q : QueueV1) (mem : Nat → U8) (frames : List V1Frame) (contents : List V1Content) (rd : Int → U8)
    (r : QueueV1) : Prop where
  bytes : r.bytes.toNat = v1Reserved frames
  copy : ∀ f, frames.head? = some f → ∀ j : Nat, j < v1Reserved frames →
    rd (r.data + j) = v1Written q mem frames contents (shadowSlot q.size.toNat (f.addr + (j : Int) - q.buffer))

/-- The round trip of the packets through the frames that a get has written: every frame holds its packet and ends where
the next one begins, and a receiver in front of these bytes gets the packets with their contents and has then consumed
exactly what was reserved. -/
structure V1RoundTrip (q : QueueV1) (packets : List NdpPacket) (frames : List V1Frame) : Prop where
  holds : ∀ f ∈ frames, f.Holds
  next : List.IsChain (fun f g : V1Frame => f.addr + (f.size.toNat : Int) = g.addr) frames
  walk : ∀ (mem : Nat → U8) (contents : List V1Content), List.Forall₂ V1Content.Of packets contents →
    ∀ (C E : Type) (ops : ChannelOps C E) (rd : C → Int → U8) (e : Nat → E) (i : Nat) (ch : Channel C) (r : QueueV1),
      InFront q mem frames contents (rd ch.ctrl) r →
      ∃ r' ys, ncNdpV1RxBurstGet ops rd e i ch r packets.length = (ch, r', ys, none) ∧
        List.Forall₂ (Received (rd ch.ctrl)) (packets.zip contents) ys ∧
        r'.bytes = 0 ∧ r'.data = r.data + (v1Reserved frames : Int) ∧ r'.swptr = r.swptr + BitVec.ofNat 64 (v1Reserved frames)

/-! ## Sizes -/

/-- The aligned header area, without any bound. -/
def v1HeaderArea (x : NdpPacket) : Nat := (x.headerLength.toNat + 11) / 8 * 8

section Sizes

variable {x : NdpPacket}

theorem v1HeaderArea_fits (hfit : v1PaddedSize x < 2 ^ 16) : (v1HeaderSize x).toNat = v1HeaderArea x := by
  rw [toNat_v1HeaderSize]
  unfold v1PaddedSize at hfit
  unfold v1HeaderArea
  exact Nat.mod_eq_of_lt (by omega)

theorem v1PacketSize_fits (hfit : v1PaddedSize x < 2 ^ 16) : (v1PacketSize x).toNat = v1PaddedSize x := by
  rw [toNat_v1PacketSize, Nat.mod_eq_of_lt hfit]

theorem v1HeaderArea_bounds (x : NdpPacket) : x.headerLength.toNat + 4 ≤ v1HeaderArea x ∧
    v1HeaderArea x + x.dataLength.toNat ≤ v1PaddedSize x ∧ 8 ≤ v1HeaderArea x := by
  unfold v1HeaderArea v1PaddedSize
  omega

theorem v1Frame_holds_iff (addr : Int) (x : NdpPacket) : (v1Frame addr x).Holds ↔ v1PaddedSize x < 2 ^ 16 := by
  have hsize := toNat_v1PacketSize x
  have hhdr := toNat_v1HeaderSize x
  have hhl := x.headerLength.isLt
  constructor
  · rintro ⟨-, hdata, hlast⟩
    simp only [v1Frame, ndpPacketHeaderSize] at hdata hlast
    unfold v1PaddedSize at hsize ⊢
    omega
  · intro hfit
    unfold v1PaddedSize at hfit hsize
    constructor
    all_goals simp only [v1Frame, ndpPacketHeaderSize]
    all_goals omega

/-- The receiver's view of the header that a get writes. -/
theorem v1RxPacket_txHdr (hfit : v1PaddedSize x < 2 ^ 16) (data : Int) {bytes : U64} (hb : v1PaddedSize x ≤ bytes.toNat) :
    v1RxPacket (v1TxHdr x) data bytes =
      .ok ({ header := data + ndpPacketHeaderSize, headerLength := x.headerLength, data := data + v1HeaderArea x
             dataLength := x.dataLength, flags := 0 }, v1PacketSize x) := by
  have hh := v1HeaderArea_fits hfit
  have hp := v1PacketSize_fits hfit
  obtain ⟨h1, h2, h3⟩ := v1HeaderArea_bounds x
  have hdl := x.dataLength.isLt
  -- the size that the get has written
  have hsize : (v1TxHdr x).packetSize.toNat = x.dataLength.toNat + v1HeaderArea x := by
    simp only [v1TxHdr]
    rw [BitVec.toNat_setWidth, BitVec.toNat_add, BitVec.toNat_setWidth, hh]
    omega
  have hne : ¬ ((v1TxHdr x).packetSize = 0 ∨
      ((v1TxHdr x).headerSize.toNat : Int) > (v1TxHdr x).packetSize.toNat - ndpPacketHeaderSize) := by
    rintro (h0 | hlt)
    · have hzero : (v1TxHdr x).packetSize.toNat = 0 := congrArg BitVec.toNat h0
      omega
    · simp only [v1TxHdr, ndpPacketHeaderSize] at hlt hsize
      omega
  have hin : ¬ (v1TxHdr x).packetSize.setWidth 64 > bytes := by
    rw [gt_iff_lt, BitVec.lt_def, BitVec.toNat_setWidth, hsize]
    omega
  unfold v1RxPacket
  rw [if_neg hne, if_neg hin]
  have harea : ((align8 ((v1TxHdr x).headerSize.setWidth 32 + 4)).setWidth 16 : U16) = v1HeaderSize x := rfl
  have hdata : (v1TxHdr x).packetSize.setWidth 32 - (v1HeaderSize x).setWidth 32 = x.dataLength := by
    apply BitVec.eq_of_toNat_eq
    rw [BitVec.toNat_sub, BitVec.toNat_setWidth, BitVec.toNat_setWidth, hsize, hh]
    omega
  have hpad : ((align8 ((v1TxHdr x).packetSize.setWidth 32)).setWidth 16 : U16) = v1PacketSize x := by
    apply BitVec.eq_of_toNat_eq
    rw [BitVec.toNat_setWidth, toNat_align8, BitVec.toNat_setWidth, hsize, hp]
    unfold v1HeaderArea v1PaddedSize at *
    omega
  simp only [harea, hdata, hpad, hh]
  rfl

end Sizes

/-! ## The layout -/

/-- Packets with their contents, to lie one behind the other. -/
abbrev Laid := List (NdpPacket × V1Content)

/-- The writes of the frame headers, from the place `o` on. -/
def hdrWrites : Nat → Laid → List (Nat × List U8)
  | _, [] => []
  | o, (x, _) :: l => (o, (v1TxHdr x).bytes) :: hdrWrites (o + v1PaddedSize x) l

/-- The writes of the headers and data. -/
def bodyWrites : Nat → Laid → List (Nat × List U8)
  | _, [] => []
  | o, (x, c) :: l => (o + 4, c.header) :: (o + v1HeaderArea x, c.data) :: bodyWrites (o + v1PaddedSize x) l

/-- Consecutive places from `o` on read as the list. -/
def Reads (rd : Nat → U8) (o : Nat) (bs : List U8) : Prop := ∀ j b, bs[j]? = some b → rd (o + j) = b

/-- Places from `o` on read as the frames. -/
def ReadsFrames (rd : Nat → U8) : Nat → Laid → Prop
  | _, [] => True
  | o, (x, c) :: l => Reads rd o (v1TxHdr x).bytes ∧ Reads rd (o + 4) c.header ∧ Reads rd (o + v1HeaderArea x) c.data ∧
      ReadsFrames rd (o + v1PaddedSize x) l

def laidSize (l : Laid) : Nat := (l.map fun xc => v1PaddedSize xc.1).sum

/-- Every packet fits, and its content has its lengths. -/
def FitsAll (l : Laid) : Prop := ∀ xc ∈ l, v1PaddedSize xc.1 < 2 ^ 16 ∧ V1Content.Of xc.1 xc.2

theorem writes_ge {w : Nat × List U8} : ∀ {l : Laid} {o : Nat}, w ∈ hdrWrites o l ++ bodyWrites o l → o ≤ w.1
  | [], _, hw => by simp [hdrWrites, bodyWrites] at hw
  | (x, c) :: l, o, hw => by
    have ih := @writes_ge w l (o + v1PaddedSize x)
    simp only [hdrWrites, bodyWrites, List.cons_append, List.mem_cons, List.mem_append] at hw ih
    rcases hw with rfl | hw | rfl | rfl | hw
    · exact le_rfl
    · have := ih (Or.inl hw)
      omega
    · exact Nat.le_add_right o 4
    · exact Nat.le_add_right _ _
    · have := ih (Or.inr hw)
      omega

theorem writes_first {w : Nat × List U8} {x : NdpPacket} {c : V1Content} {l : Laid} {o o' : Nat} {b : U8}
    (hw : w ∈ hdrWrites o ((x, c) :: l) ++ bodyWrites o ((x, c) :: l)) (hput : Puts w o' b)
    (ho' : o' < o + v1PaddedSize x) :
    w = (o, (v1TxHdr x).bytes) ∨ w = (o + 4, c.header) ∨ w = (o + v1HeaderArea x, c.data) := by
  simp only [hdrWrites, bodyWrites, List.cons_append, List.mem_cons, List.mem_append] at hw
  have hle := hput.1
  rcases hw with rfl | hw | rfl | rfl | hw
  · exact Or.inl rfl
  · have := writes_ge (List.mem_append_left (bodyWrites _ l) hw)
    omega
  · exact Or.inr (Or.inl rfl)
  · exact Or.inr (Or.inr rfl)
  · have := writes_ge (List.mem_append_right (hdrWrites _ l) hw)
    omega

theorem length_hdr_bytes (hdr : V1PacketHdr) : hdr.bytes.length = 4 := rfl

theorem writes_agree {x : NdpPacket} {c : V1Content} (hc : c.Of x) {o o' : Nat} {b b' : U8} {w w' : Nat × List U8}
    (hw : w = (o, (v1TxHdr x).bytes) ∨ w = (o + 4, c.header) ∨ w = (o + v1HeaderArea x, c.data))
    (hw' : w' = (o, (v1TxHdr x).bytes) ∨ w' = (o + 4, c.header) ∨ w' = (o + v1HeaderArea x, c.data))
    (hput : Puts w o' b) (hput' : Puts w' o' b') : b' = b := by
  obtain ⟨h1, -, h3⟩ := v1HeaderArea_bounds x
  have hh := hc.header
  obtain ⟨hle, hget⟩ := hput
  obtain ⟨hle', hget'⟩ := hput'
  have hlen := (List.getElem?_eq_some_iff.1 hget).1
  have hlen' := (List.getElem?_eq_some_iff.1 hget').1
  have hb := length_hdr_bytes (v1TxHdr x)
  have hsame : w = w' := by
    rcases hw with rfl | rfl | rfl <;> rcases hw' with rfl | rfl | rfl <;> first | rfl | (simp only at hle hle' hlen hlen'; omega)
  subst hsame
  exact Option.some.inj (hget'.symm.trans hget)

/-- The frames can be read back after all writes: the writes into the frames from `o` on are among them, and no other one
reaches a place behind `o`. -/
theorem readsFrames_writeAll {n P : Nat} {mem : Nat → U8} {ws : List (Nat × List U8)} (hlen : ∀ w ∈ ws, w.1 + w.2.length ≤ n) :
    ∀ (l : Laid) (o : Nat), FitsAll l → (∀ w ∈ hdrWrites o l ++ bodyWrites o l, w ∈ ws) →
      (∀ w ∈ ws, ∀ o' b, o ≤ o' → Puts w o' b → w ∈ hdrWrites o l ++ bodyWrites o l) →
      ReadsFrames (fun o' => writeAll n P mem ws ((P + o') % n)) o l
  | [], _, _, _, _ => trivial
  | (x, c) :: l, o, hfit, hsub, honly => by
    obtain ⟨hx, hc⟩ := hfit (x, c) List.mem_cons_self
    obtain ⟨h1, h2, h3⟩ := v1HeaderArea_bounds x
    have hhl : c.header.length = x.headerLength.toNat := hc.header
    have hdl : c.data.length = x.dataLength.toNat := hc.data
    have hb := length_hdr_bytes (v1TxHdr x)
    have hmem : ∀ w, w = (o, (v1TxHdr x).bytes) ∨ w = (o + 4, c.header) ∨ w = (o + v1HeaderArea x, c.data) → w ∈ ws := by
      intro w hw
      refine hsub w ?_
      simp only [hdrWrites, bodyWrites, List.cons_append, List.mem_cons, List.mem_append]
      rcases hw with rfl | rfl | rfl <;> simp
    -- each of the three is read back
    have hread : ∀ w, w = (o, (v1TxHdr x).bytes) ∨ w = (o + 4, c.header) ∨ w = (o + v1HeaderArea x, c.data) →
        Reads (fun o' => writeAll n P mem ws ((P + o') % n)) w.1 w.2 := by
      intro w hw j b hget
      have hj := (List.getElem?_eq_some_iff.1 hget).1
      have hwn := hlen w (hmem w hw)
      have hput : Puts w (w.1 + j) b := ⟨Nat.le_add_right _ _, by rwa [Nat.add_sub_cancel_left]⟩
      have hreach : o ≤ w.1 + j ∧ w.1 + j < o + v1PaddedSize x := by
        rcases hw with rfl | rfl | rfl <;> simp only at hj ⊢ <;> omega
      refine writeAll_eq (by omega) ws mem hlen (fun v hv b' hput' => ?_) (Or.inl ⟨w, hmem w hw, hput⟩)
      exact writes_agree hc hw (writes_first (honly v hv _ _ hreach.1 hput') hput' hreach.2) hput hput'
    refine ⟨hread _ (Or.inl rfl), hread _ (Or.inr (Or.inl rfl)), hread _ (Or.inr (Or.inr rfl)), ?_⟩
    refine readsFrames_writeAll hlen l (o + v1PaddedSize x) (fun xc hxc => hfit xc (List.mem_cons_of_mem _ hxc))
      (fun w hw => hsub w ?_) (fun w hw o' b ho' hput => ?_)
    · simp only [hdrWrites, bodyWrites, List.cons_append, List.mem_cons, List.mem_append] at hw ⊢
      tauto
    · -- the writes of the first frame end before the next one
      have hin := honly w hw o' b (by omega) hput
      have hlast := (List.getElem?_eq_some_iff.1 hput.2).1
      have hle := hput.1
      simp only [hdrWrites, bodyWrites, List.cons_append, List.mem_cons, List.mem_append] at hin ⊢
      rcases hin with rfl | hin | rfl | rfl | hin
      · simp only at hlast hle
        omega
      · exact Or.inl hin
      · simp only at hlast hle
        omega
      · simp only at hlast hle
        omega
      · exact Or.inr hin

/-! ## The walk -/

theorem readBytes_eq {rd : Int → U8} {addr : Int} {bs : List U8} {n : Nat} (hn : bs.length = n)
    (h : ∀ (j : Nat) b, bs[j]? = some b → rd (addr + (j : Int)) = b) : readBytes rd addr n = bs := by
  unfold readBytes
  refine List.ext_getElem? fun j => ?_
  rcases Nat.lt_or_ge j n with hj | hj
  · have hlt : j < bs.length := by omega
    have hget : bs[j]? = some bs[j] := List.getElem?_eq_getElem hlt
    rw [List.getElem?_map, List.getElem?_range hj, Option.map_some, hget, h j _ hget]
  · rw [List.getElem?_eq_none (by simpa using hj), List.getElem?_eq_none (by omega)]

section Walk

variable {C E : Type} (ops : ChannelOps C E) {rd : C → Int → U8} (e : Nat → E) (i : Nat) {ch : Channel C} {rdw : Nat → U8}

/-- The rounds of a receiver that reads the frames yield their packets and consume exactly their bytes, without a sync. -/
theorem v1RxRounds_walk : ∀ (l : Laid) (n o : Nat) (r : QueueV1), FitsAll l → ReadsFrames rdw o l →
    (∀ j : Nat, j < laidSize l → rd ch.ctrl (r.data + (j : Int)) = rdw (o + j)) → r.bytes.toNat = laidSize l →
    ∃ r' ys, v1RxRounds ops rd e i n l.length ch r = (ch, r', ys, none) ∧ List.Forall₂ (Received (rd ch.ctrl)) l ys ∧
      r'.bytes = 0 ∧ r'.data = r.data + (laidSize l : Int) ∧ r'.swptr = r.swptr + BitVec.ofNat 64 (laidSize l)
  | [], n, o, r, _, _, _, hbytes => by
    refine ⟨r, [], rfl, .nil, BitVec.eq_of_toNat_eq hbytes, ?_, ?_⟩
    · simp [laidSize]
    · simp [laidSize]
  | (x, c) :: l, n, o, r, hfit, hread, hcopy, hbytes => by
    obtain ⟨hx, hc⟩ := hfit (x, c) List.mem_cons_self
    obtain ⟨hhdr, hheader, hdata, hrest⟩ := hread
    obtain ⟨h1, h2, h3⟩ := v1HeaderArea_bounds x
    have hhl : c.header.length = x.headerLength.toNat := hc.header
    have hdl : c.data.length = x.dataLength.toNat := hc.data
    have hx' : v1PaddedSize x < 2 ^ 16 := hx
    have hsum : laidSize ((x, c) :: l) = v1PaddedSize x + laidSize l := List.sum_cons
    rw [hsum] at hcopy hbytes ⊢
    -- what is read at a place of the frame
    have hat : ∀ (m : Nat) (bs : List U8), Reads rdw (o + m) bs → m + bs.length ≤ v1PaddedSize x →
        ∀ (j : Nat) b, bs[j]? = some b → rd ch.ctrl (r.data + (m : Int) + (j : Int)) = b := by
      intro m bs hbs hm j b hget
      have hj := (List.getElem?_eq_some_iff.1 hget).1
      have hcell := hcopy (m + j) (by omega)
      rw [← hbs j b hget, Nat.add_assoc, ← hcell]
      congr 1
      push_cast
      ring
    have hpkt : v1HdrAt (rd ch.ctrl) r.data = v1TxHdr x := by
      refine v1HdrAt_bytes fun j b hget => ?_
      have hz := hat 0 _ hhdr (by rw [length_hdr_bytes]; omega) j b hget
      rwa [Nat.cast_zero, add_zero] at hz
    have hne : r.bytes ≠ 0 := by
      intro h0
      have hz : r.bytes.toNat = 0 := congrArg BitVec.toNat h0
      omega
    have hsize := v1PacketSize_fits hx'
    have hsize64 : ((v1PacketSize x).setWidth 64 : U64).toNat = v1PaddedSize x := by
      rw [BitVec.toNat_setWidth, hsize]
      omega
    obtain ⟨r', ys, hrun, hys, hb', hd', hs'⟩ := v1RxRounds_walk l (n + 1) (o + v1PaddedSize x) (r.advance (v1PacketSize x))
      (fun xc hxc => hfit xc (List.mem_cons_of_mem _ hxc)) hrest
      (fun j hj => by
        have hcell := hcopy (v1PaddedSize x + j) (by omega)
        rw [Nat.add_assoc, ← hcell]
        show rd ch.ctrl (r.data + ((v1PacketSize x).toNat : Int) + (j : Int)) = _
        rw [hsize]
        congr 1
        push_cast
        ring)
      (by
        show (r.bytes - (v1PacketSize x).setWidth 64).toNat = _
        rw [BitVec.toNat_sub_of_le (BitVec.le_def.2 (by omega))]
        omega)
    rw [List.length_cons, v1RxRounds]
    simp only [if_neg hne, ne_eq, not_true_eq_false, if_false, hpkt, v1RxPacket_txHdr hx' r.data (by omega : v1PaddedSize x ≤ r.bytes.toNat),
      hrun]
    refine ⟨r', _, rfl, .cons ⟨rfl, rfl, ?_, ?_⟩ hys, hb', ?_, ?_⟩
    · exact readBytes_eq hhl (hat 4 c.header hheader (by omega))
    · exact readBytes_eq hdl (hat (v1HeaderArea x) c.data hdata (by omega))
    · rw [hd']
      show r.data + ((v1PacketSize x).toNat : Int) + _ = _
      rw [hsize]
      push_cast
      ring
    · rw [hs']
      show r.swptr + (v1PacketSize x).setWidth 64 + _ = _
      have hw : ((v1PacketSize x).setWidth 64 : U64) = BitVec.ofNat 64 (v1PaddedSize x) :=
        BitVec.eq_of_toNat_eq (by rw [hsize64, BitVec.toNat_ofNat]; omega)
      rw [hw, BitVec.add_assoc, ← BitVec.ofNat_add]

end Walk

/-! ## The frames of a get -/

section Frames

variable {k P : Nat} {q : QueueV1} {packets : List NdpPacket} {frames : List V1Frame}

theorem laidSize_cons (xc : NdpPacket × V1Content) (l : Laid) : laidSize (xc :: l) = v1PaddedSize xc.1 + laidSize l :=
  List.sum_cons

/-- The writes into frames that lie one behind the other, seen from the base of the first window place. -/
theorem v1Writes_eq (hframes : List.Forall₂ (fun x f => f = v1Frame f.addr x) packets frames) :
    ∀ {contents : List V1Content} {o : Nat}, List.Forall₂ V1Content.Of packets contents →
      (∀ x ∈ packets, v1PaddedSize x < 2 ^ 16) → Placed k (q.buffer + (P : Int)) o frames →
      frames.map (fun f => (q.place f.addr, f.hdr.bytes)) =
          (hdrWrites o (packets.zip contents)).map (fun w => (P + w.1, w.2)) ∧
        ((frames.zip contents).flatMap fun fc =>
            [(q.place fc.1.packet.header, fc.2.header), (q.place fc.1.packet.data, fc.2.data)]) =
          (bodyWrites o (packets.zip contents)).map (fun w => (P + w.1, w.2)) := by
  induction hframes with
  | nil => exact fun _ _ _ => ⟨rfl, rfl⟩
  | @cons x f packets frames hf hframes ih =>
    intro contents o hcontents hfit hplaced
    cases hcontents with
    | @cons _ c _ contents hc hcontents =>
      have hx := hfit x List.mem_cons_self
      have hsize : f.size.toNat = v1PaddedSize x := by
        rw [hf]
        exact v1PacketSize_fits hx
      obtain ⟨haddr, hrest⟩ := hplaced
      obtain ⟨haddr, -⟩ := haddr (by rw [hsize]; exact v1PaddedSize_pos x)
      rw [hsize] at hrest
      obtain ⟨ih1, ih2⟩ := ih hcontents (fun y hy => hfit y (List.mem_cons_of_mem x hy)) hrest
      have hplace : ∀ m : Nat, q.place (f.addr + (m : Int)) = P + (o + m) := by
        intro m
        unfold QueueV1.place
        rw [haddr]
        omega
      have h0 := hplace 0
      rw [Nat.cast_zero, add_zero, add_zero] at h0
      have hhdr : f.hdr = v1TxHdr x := by rw [hf]; rfl
      have hheader : f.packet.header = f.addr + ((4 : Nat) : Int) := by rw [hf]; rfl
      have hdata : f.packet.data = f.addr + ((v1HeaderArea x : Nat) : Int) := by
        rw [← v1HeaderArea_fits hx, hf]
        rfl
      constructor
      · simp only [List.map_cons, List.zip_cons_cons, hdrWrites, ih1, h0, hhdr]
      · simp only [List.zip_cons_cons, List.flatMap_cons, bodyWrites, List.map_cons, ih2, hheader, hdata, hplace,
          List.cons_append, List.nil_append]

theorem v1Reserved_eq (hframes : List.Forall₂ (fun x f => f = v1Frame f.addr x) packets frames) :
    ∀ {contents : List V1Content}, List.Forall₂ V1Content.Of packets contents →
      (∀ x ∈ packets, v1PaddedSize x < 2 ^ 16) → v1Reserved frames = laidSize (packets.zip contents) := by
  induction hframes with
  | nil => exact fun _ _ => rfl
  | @cons x f packets frames hf hframes ih =>
    intro contents hcontents hfit
    cases hcontents with
    | @cons _ c _ contents hc hcontents =>
      have hsize : f.size.toNat = v1PaddedSize x := by
        rw [hf]
        exact v1PacketSize_fits (hfit x List.mem_cons_self)
      rw [List.zip_cons_cons, laidSize_cons, ← ih hcontents fun y hy => hfit y (List.mem_cons_of_mem x hy), ← hsize]
      rfl

theorem fitsAll_zip {contents : List V1Content} (hcontents : List.Forall₂ V1Content.Of packets contents)
    (hfit : ∀ x ∈ packets, v1PaddedSize x < 2 ^ 16) : FitsAll (packets.zip contents) := by
  rintro ⟨x, c⟩ hxc
  exact ⟨hfit x (List.of_mem_zip hxc).1, (List.forall₂_iff_zip.1 hcontents).2 hxc⟩

theorem writes_le {w : Nat × List U8} : ∀ {l : Laid} {o : Nat}, FitsAll l → w ∈ hdrWrites o l ++ bodyWrites o l →
    w.1 + w.2.length ≤ o + laidSize l
  | [], _, _, hw => by simp [hdrWrites, bodyWrites] at hw
  | (x, c) :: l, o, hfit, hw => by
    obtain ⟨hx, hc⟩ := hfit (x, c) List.mem_cons_self
    have hhl : c.header.length = x.headerLength.toNat := hc.header
    have hdl : c.data.length = x.dataLength.toNat := hc.data
    obtain ⟨h1, h2, h3⟩ := v1HeaderArea_bounds x
    have hb := length_hdr_bytes (v1TxHdr x)
    have ih := @writes_le w l (o + v1PaddedSize x) fun xc hxc => hfit xc (List.mem_cons_of_mem _ hxc)
    rw [laidSize_cons]
    simp only [hdrWrites, bodyWrites, List.cons_append, List.mem_cons, List.mem_append] at hw ih ⊢
    rcases hw with rfl | hw | rfl | rfl | hw
    · simp only
      omega
    · have := ih (Or.inl hw)
      omega
    · simp only
      omega
    · simp only
      omega
    · have := ih (Or.inr hw)
      omega

theorem Placed.reserved {base : Int} : ∀ {frames : List V1Frame} {o : Nat}, Placed k base o frames →
    (∀ f ∈ frames, 0 < f.size.toNat) → frames ≠ [] → o + v1Reserved frames < 2 ^ k
  | [f], o, hp, hpos, _ => by
    have := (hp.1 (hpos f List.mem_cons_self)).2
    simpa [v1Reserved] using this
  | f :: g :: frames, o, hp, hpos, _ => by
    have ih := Placed.reserved hp.2 (fun f' hf' => hpos f' (List.mem_cons_of_mem f hf')) (List.cons_ne_nil _ _)
    have hsum : v1Reserved (f :: g :: frames) = f.size.toNat + v1Reserved (g :: frames) := List.sum_cons
    omega

theorem Placed.isChain {base : Int} : ∀ {frames : List V1Frame} {o : Nat}, Placed k base o frames →
    (∀ f ∈ frames, 0 < f.size.toNat) → List.IsChain (fun f g : V1Frame => f.addr + (f.size.toNat : Int) = g.addr) frames
  | [], _, _, _ => .nil
  | [_], _, _, _ => .singleton _
  | f :: g :: frames, o, hp, hpos => by
    have hf := (hp.1 (hpos f List.mem_cons_self)).1
    have hg := (hp.2.1 (hpos g (List.mem_cons_of_mem f List.mem_cons_self))).1
    refine .cons_cons ?_ (Placed.isChain hp.2 fun f' hf' => hpos f' (List.mem_cons_of_mem f hf'))
    rw [hf, hg]
    push_cast
    ring

/-- Frames that lie one behind the other in a window of the ring make the round trip, if their packets fit. -/
theorem v1RoundTrip_of_fits (hsize : q.size.toNat = 2 ^ k) {u : Nat}
    (hframes : List.Forall₂ (fun x f => f = v1Frame f.addr x) packets frames) (hplaced : Placed k (q.buffer + (P : Int)) u frames)
    (hfit : ∀ x ∈ packets, v1PaddedSize x < 2 ^ 16) : V1RoundTrip q packets frames := by
  have hof : ∀ f ∈ frames, ∃ x ∈ packets, f = v1Frame f.addr x := by
    intro f hf
    obtain ⟨j, hj, hjf⟩ := List.mem_iff_getElem.1 hf
    have hlen := hframes.length_eq
    refine ⟨packets[j], List.getElem_mem _, ?_⟩
    rw [← hjf]
    exact List.Forall₂.get hframes (by omega) hj
  have hpos : ∀ f ∈ frames, 0 < f.size.toNat := by
    intro f hf
    obtain ⟨x, hx, hfx⟩ := hof f hf
    rw [hfx]
    exact (v1PacketSize_fits (hfit x hx)).symm ▸ v1PaddedSize_pos x
  refine ⟨fun f hf => ?_, hplaced.isChain hpos, ?_⟩
  · obtain ⟨x, hx, hfx⟩ := hof f hf
    rw [hfx]
    exact (v1Frame_holds_iff f.addr x).2 (hfit x hx)
  intro mem contents hcontents C E ops rd e i ch r hfront
  have hlaid := fitsAll_zip hcontents hfit
  have hreserved := v1Reserved_eq hframes hcontents hfit
  have hlen : packets.length = (packets.zip contents).length := by
    rw [List.length_zip, ← hcontents.length_eq, Nat.min_self]
  obtain ⟨hw1, hw2⟩ := v1Writes_eq (q := q) hframes hcontents hfit hplaced
  -- the ring after all writes, as the window of the frames
  have hwritten : v1Written q mem frames contents =
      writeAll (2 ^ k) P mem (hdrWrites u (packets.zip contents) ++ bodyWrites u (packets.zip contents)) := by
    unfold v1Written v1Writes
    rw [hw1, hw2, ← List.map_append, hsize, writeAll_shift]
  have hread : frames ≠ [] → ReadsFrames (fun o' => v1Written q mem frames contents ((P + o') % 2 ^ k)) u (packets.zip contents) := by
    intro hne
    have hend := hplaced.reserved hpos hne
    rw [hwritten]
    refine readsFrames_writeAll (fun w hw => ?_) _ u hlaid (fun w hw => hw) fun w hw _ _ _ _ => hw
    have := writes_le hlaid hw
    omega
  have hread' : ReadsFrames (fun o' => v1Written q mem frames contents ((P + o') % 2 ^ k)) u (packets.zip contents) := by
    cases hframes with
    | nil => exact trivial
    | cons => exact hread (List.cons_ne_nil _ _)
  unfold ncNdpV1RxBurstGet
  rw [hlen, hreserved]
  refine v1RxRounds_walk ops e i _ 0 u r hlaid hread' (fun j hj => ?_) (hfront.bytes.trans hreserved)
  -- the first frame is at `u`
  rw [← hreserved] at hj
  cases hhead : frames with
  | nil =>
    rw [hhead] at hj
    exact absurd hj (Nat.not_lt_zero j)
  | cons f rest =>
    rw [hhead] at hplaced hpos
    have haddr := (hplaced.1 (hpos f List.mem_cons_self)).1
    rw [hfront.copy f (by rw [hhead]; rfl) j hj, hhead]
    congr 1
    have hx : f.addr + (j : Int) - q.buffer = ((P + (u + j) : Nat) : Int) := by
      rw [haddr]
      push_cast
      ring
    unfold shadowSlot
    rw [hx, hsize, ← Int.natCast_emod, Int.toNat_natCast]

end Frames

/-! ## The round trip -/

namespace TxV1

variable {k : Nat}

/-- A get that succeeds in a state which calls of any subscriptions reach: its packets make the round trip exactly if
each of them takes less than 2^16 bytes. -/
theorem round_trip_iff (hk : k ≤ 63) (buffer : Nat → Int) (acts : List TxV1Act) (i : Nat) (hw : Nat → Nat)
    (packets : List NdpPacket) {ch' : Channel HdrCtrl} {q' : QueueV1} {frames : List V1Frame}
    (hr : ((run step (opened k buffer) acts).ch.sub i).status = .running)
    (hg : ncNdpV1TxBurstGet hdrOps hw i (run step (opened k buffer) acts).ch ((run step (opened k buffer) acts).q i) packets =
      (ch', q', frames, packets.length)) :
    V1RoundTrip ((run step (opened k buffer) acts).q i) packets frames ↔ ∀ x ∈ packets, v1PaddedSize x < 2 ^ 16 := by
  obtain ⟨p, h, hI⟩ := reachable_inv hk buffer acts
  generalize run step (opened k buffer) acts = s at hr hg hI ⊢
  obtain ⟨h', hd⟩ := v1Get_done hI.chan (hI.queue i) hr hw hg
  have hframes := hd.all rfl
  constructor
  · intro hrt x hx
    obtain ⟨j, hj, rfl⟩ := List.mem_iff_getElem.1 hx
    have hj' : j < frames.length := by
      rw [← hframes.length_eq]
      exact hj
    have hf := List.Forall₂.get hframes hj hj'
    have hholds := hrt.holds _ (List.getElem_mem hj')
    rw [show frames[j] = v1Frame frames[j].addr packets[j] from hf, v1Frame_holds_iff] at hholds
    exact hholds
  · exact v1RoundTrip_of_fits (hI.queue i).size hframes hd.placed

def twoPackets : List NdpPacket := [⟨0, 0, 60, 0, 0⟩, ⟨0, 0, 61, 13, 0⟩]

theorem round_trip_two_packets :
    V1RoundTrip ((run step (opened 10 fun _ => 4096) [.start 0 0]).q 0) twoPackets
      (ncNdpV1TxBurstGet hdrOps (fun _ => 0) 0 (run step (opened 10 fun _ => 4096) [.start 0 0]).ch
        ((run step (opened 10 fun _ => 4096) [.start 0 0]).q 0) twoPackets).2.2.1 := by
  have hlen : (ncNdpV1TxBurstGet hdrOps (fun _ => 0) 0 (run step (opened 10 fun _ => 4096) [.start 0 0]).ch
      ((run step (opened 10 fun _ => 4096) [.start 0 0]).q 0) twoPackets).2.2.2 = twoPackets.length := by decide +kernel
  have hret : ∀ x : Channel HdrCtrl × QueueV1 × List V1Frame × Nat, x.2.2.2 = twoPackets.length →
      x = (x.1, x.2.1, x.2.2.1, twoPackets.length) := by
    rintro ⟨_, _, _, _⟩ rfl
    rfl
  exact (round_trip_iff (by decide) (fun _ => 4096) [.start 0 0] 0 (fun _ => 0) twoPackets (by decide +kernel)
    (hret _ hlen)).2 (by decide +kernel)

def longPacket : NdpPacket := ⟨0, 0, 65536, 0, 0⟩

/-- A get of it succeeds and reserves 8 bytes. -/
theorem long_packet_no_round_trip :
    (ncNdpV1TxBurstGet hdrOps (fun _ => 0) 0 (run step (opened 17 fun _ => 4096) [.start 0 0]).ch
        ((run step (opened 17 fun _ => 4096) [.start 0 0]).q 0) [longPacket]).2.2 = ([⟨4096, 8, ⟨8, 0⟩, ⟨4104, 4100, 65536, 0, 0⟩⟩], 1) ∧
      ¬ V1RoundTrip ((run step (opened 17 fun _ => 4096) [.start 0 0]).q 0) [longPacket]
        [⟨4096, 8, ⟨8, 0⟩, ⟨4104, 4100, 65536, 0, 0⟩⟩] := by
  refine ⟨by decide +kernel, fun hrt => ?_⟩
  have hlast := (hrt.holds _ List.mem_cons_self).last
  exact absurd hlast (by decide)

end TxV1

end NdkSw.Ndp

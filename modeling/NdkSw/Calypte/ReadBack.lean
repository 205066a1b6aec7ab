/-
The packet headers of protocols 2 and 3, written and read back. The sender's get writes the lengths of a packet into
fields of 8 and 16 bits; what the receiver's get makes of such a header is compared with what the sender asked for.
-/
import NdkSw.Ndp.TxV2
import NdkSw.Ndp.RxV2
import NdkSw.Calypte.TxUspace
import NdkSw.Calypte.Rx

namespace NdkSw.Calypte

open Ndp Ring

/-! ## What should come back -/

/-- The length of the frame: both parts of the packet, raised to the minimum. -/
def totalLength (frameSizeMin : U32) (p : NdpPacket) : Nat :=
  max (p.dataLength.toNat + p.headerLength.toNat) frameSizeMin.toNat

/-- `r` is read from the header of the packet `p`, which the sender was told to put at `header` and `data`. -/
structure ReadBack (frameSizeMin : U32) (p : NdpPacket) (header data : Int) (r : NdpPacket) : Prop where
  headerLength : r.headerLength = p.headerLength
  flags : r.flags.toNat = p.flags.toNat % 16
  total : (r.dataLength + r.headerLength.setWidth 32).toNat = totalLength frameSizeMin p
  header : r.header = header
  data : r.data = data

/-- The `packet_size` that both gets compute in 32 bits. -/
def packetSize (frameSizeMin : U32) (p : NdpPacket) : U32 :=
  let size : U32 := p.dataLength + p.headerLength.setWidth 32
  if size < frameSizeMin then frameSizeMin else size

theorem packetSize_iff (frameSizeMin : U32) (p : NdpPacket) :
    (packetSize frameSizeMin p).toNat % 2 ^ 16 = totalLength frameSizeMin p ↔ totalLength frameSizeMin p < 2 ^ 16 := by
  have hsum : (p.dataLength + p.headerLength.setWidth 32 : U32).toNat =
      (p.dataLength.toNat + p.headerLength.toNat) % 2 ^ 32 := by
    rw [BitVec.toNat_add, toNat_widen32]
  constructor
  · intro h
    rw [← h]
    exact Nat.mod_lt _ (by decide)
  · intro h
    unfold totalLength at h ⊢
    have hsmall : (p.dataLength + p.headerLength.setWidth 32 : U32).toNat = p.dataLength.toNat + p.headerLength.toNat := by
      rw [hsum]; omega
    unfold packetSize
    dsimp only
    split
    case isTrue hlt =>
      rw [BitVec.lt_def, hsmall] at hlt
      omega
    case isFalse hge =>
      rw [BitVec.lt_def, hsmall] at hge
      omega

variable {n : Nat}

theorem shadowSlot_inj {i j : Nat} (x : Int) (hi : i < n) (hj : j < n) (h : shadowSlot n (x + i) = shadowSlot n (x + j)) : i = j := by
  have hn : (0 : Int) < n := by omega
  have hmod : (x + i) % (n : Int) = (x + j) % n := by
    have h1 := Int.emod_nonneg (x + i) hn.ne'
    have h2 := Int.emod_nonneg (x + j) hn.ne'
    unfold shadowSlot at h
    omega
  have hij : (i : Int) ≡ j [ZMOD n] := Int.ModEq.add_left_cancel' x hmod
  exact Nat.ModEq.eq_of_lt_of_lt (Int.natCast_modEq_iff.1 hij) hi hj

/-! ## Protocol 2 -/

/-- The header that `nc_ndp_v2_tx_burst_get` writes for a packet. -/
def v2TxHdr (q : QueueV2) (p : NdpPacket) : V2PacketHdr :=
  { packetSize := (packetSize q.frameSizeMin p).setWidth 16
    headerSize := (p.headerLength.setWidth 32 : U32).setWidth 8
    flags := (p.flags &&& 0xF).setWidth 8 }

/-- The offset of the `j`-th packet from the queue's position on. -/
def v2Offset (q : QueueV2) (mem : V2Mem) (j : Nat) : U64 :=
  mem.off (shadowSlot q.hdrItems.toNat (q.off - q.offBase + j))

/-- Where the loop of a get has placed its packets. -/
structure V2Placed (q : QueueV2) (mem : V2Mem) (packets : Nat → NdpPacket) (n : Nat) (mem' : V2Mem)
    (packets' : Nat → NdpPacket) : Prop where
  off : mem'.off = mem.off
  header : ∀ j < n, (packets' j).header = q.buffer + (v2Offset q mem j).toNat
  data : ∀ j < n, (packets' j).data = q.buffer + (v2Offset q mem j).toNat + (packets j).headerLength.toNat
  rest : ∀ j, n ≤ j → packets' j = packets j

variable {packets' packets : Nat → NdpPacket} {pkts : Nat → U32} {mem' : V2Mem} {sdp : U32}

theorem v2TxFill_placed (q : QueueV2) (mem : V2Mem) (packets : Nat → NdpPacket) (h : v2TxFill q mem packets n = (mem', packets', true)) :
    V2Placed q mem packets n mem' packets' := by
  induction n generalizing mem' packets' with
  | zero =>
    cases h
    exact ⟨rfl, fun j hj => absurd hj (Nat.not_lt_zero j), fun j hj => absurd hj (Nat.not_lt_zero j), fun _ _ => rfl⟩
  | succ n ih =>
    rw [v2TxFill] at h
    rcases hr : v2TxFill q mem packets n with ⟨mem₁, packets₁, _ | _⟩
    · rw [hr] at h; cases h
    rw [hr] at h
    have hf := ih hr
    dsimp only at h
    split at h
    · cases h
    cases h
    have hp : packets₁ n = packets n := hf.rest n le_rfl
    constructor
    case off => exact hf.off
    case header =>
      intro j hj
      by_cases hjn : j = n
      · subst hjn
        rw [Function.update_self, hf.off]
        rfl
      · rw [Function.update_of_ne hjn]
        exact hf.header j (by omega)
    case data =>
      intro j hj
      by_cases hjn : j = n
      · subst hjn
        rw [Function.update_self, hf.off]
        dsimp only
        rw [hp, toNat_widen32]
        rfl
      · rw [Function.update_of_ne hjn]
        exact hf.data j (by omega)
    case rest =>
      intro j hj
      rw [Function.update_of_ne (by omega)]
      exact hf.rest j (by omega)

/-- What the loop of a get has done when it has not refused a packet. -/
structure V2Filled (q : QueueV2) (mem : V2Mem) (packets : Nat → NdpPacket) (n : Nat) (mem' : V2Mem)
    (packets' : Nat → NdpPacket) : Prop where
  off : mem'.off = mem.off
  hdr : ∀ j < n, mem'.hdr (shadowSlot q.hdrItems.toNat (q.hdr - q.hdrBase + j)) = v2TxHdr q (packets j)
  header : ∀ j < n, (packets' j).header = q.buffer + (v2Offset q mem j).toNat
  data : ∀ j < n, (packets' j).data = q.buffer + (v2Offset q mem j).toNat + (packets j).headerLength.toNat
  rest : ∀ j, n ≤ j → packets' j = packets j

theorem v2TxFill_hdr (q : QueueV2) (mem : V2Mem) (packets : Nat → NdpPacket) (hn : n ≤ q.hdrItems.toNat)
    (h : v2TxFill q mem packets n = (mem', packets', true)) :
    ∀ j < n, mem'.hdr (shadowSlot q.hdrItems.toNat (q.hdr - q.hdrBase + j)) = v2TxHdr q (packets j) := by
  induction n generalizing mem' packets' with
  | zero => exact fun j hj => absurd hj (Nat.not_lt_zero j)
  | succ n ih =>
    rw [v2TxFill] at h
    rcases hr : v2TxFill q mem packets n with ⟨mem₁, packets₁, _ | _⟩
    · rw [hr] at h; cases h
    rw [hr] at h
    have hp : packets₁ n = packets n := (v2TxFill_placed q mem packets hr).rest n le_rfl
    dsimp only at h
    split at h
    · cases h
    cases h
    intro j hj
    dsimp only
    by_cases hjn : j = n
    · subst hjn
      rw [Function.update_self, hp]
      rfl
    · rw [Function.update_of_ne fun heq => hjn (shadowSlot_inj _ (by omega) (by omega) heq)]
      exact ih (by omega) hr j (by omega)

theorem v2TxFill_filled (q : QueueV2) (mem : V2Mem) (packets : Nat → NdpPacket) (hn : n ≤ q.hdrItems.toNat)
    (h : v2TxFill q mem packets n = (mem', packets', true)) : V2Filled q mem packets n mem' packets' := by
  have hp := v2TxFill_placed q mem packets h
  exact ⟨hp.off, v2TxFill_hdr q mem packets hn h, hp.header, hp.data, hp.rest⟩

/-- The header of a packet gives it back if and only if its header fits 8 bits and the frame 16 bits. -/
theorem v2RxPacket_iff (q : QueueV2) (p : NdpPacket) (off : U64) :
    ReadBack q.frameSizeMin p (q.buffer + off.toNat) (q.buffer + off.toNat + p.headerLength.toNat)
        (v2RxPacket q.buffer (v2TxHdr q p) off) ↔
      p.headerLength.toNat < 2 ^ 8 ∧ totalLength q.frameSizeMin p < 2 ^ 16 := by
  have hheader : ((v2TxHdr q p).headerSize.setWidth 16 : U16).toNat = p.headerLength.toNat % 2 ^ 8 := by
    simp only [v2TxHdr, BitVec.toNat_setWidth]
    omega
  have htotal : ((v2RxPacket q.buffer (v2TxHdr q p) off).dataLength +
      (v2RxPacket q.buffer (v2TxHdr q p) off).headerLength.setWidth 32 : U32).toNat =
        (packetSize q.frameSizeMin p).toNat % 2 ^ 16 := by
    have hsame : (((v2TxHdr q p).headerSize.setWidth 16 : U16).setWidth 32 : U32) = (v2TxHdr q p).headerSize.setWidth 32 := by
      apply BitVec.eq_of_toNat_eq
      simp only [BitVec.toNat_setWidth]
      omega
    simp only [v2RxPacket, hsame, BitVec.sub_add_cancel]
    simp only [v2TxHdr, BitVec.toNat_setWidth]
    omega
  constructor
  · intro h
    have hl := congrArg BitVec.toNat h.headerLength
    have ht := h.total
    rw [htotal] at ht
    refine ⟨?_, (packetSize_iff _ _).1 ht⟩
    rw [← hl, show (v2RxPacket q.buffer (v2TxHdr q p) off).headerLength.toNat = _ from hheader]
    exact Nat.mod_lt _ (by decide)
  · rintro ⟨h8, h16⟩
    have hl : (v2RxPacket q.buffer (v2TxHdr q p) off).headerLength = p.headerLength :=
      BitVec.eq_of_toNat_eq (hheader.trans (Nat.mod_eq_of_lt h8))
    constructor
    case headerLength => exact hl
    case flags =>
      have hand8 : ∀ x : U8, (x &&& 0xF).toNat = x.toNat % 16 := fun x => Nat.and_two_pow_sub_one_eq_mod _ 4
      have hand16 : (p.flags &&& 0xF).toNat = p.flags.toNat % 16 := Nat.and_two_pow_sub_one_eq_mod _ 4
      simp only [v2RxPacket, v2TxHdr, BitVec.toNat_setWidth, hand8, hand16]
      omega
    case total => rw [htotal]; exact (packetSize_iff _ _).2 h16
    case header => rfl
    case data =>
      have hsize : (v2TxHdr q p).headerSize.toNat = p.headerLength.toNat := by
        simp only [v2TxHdr, BitVec.toNat_setWidth]
        omega
      simp only [v2RxPacket, hsize]

/-- What a get with protocol 2 does to its queue before the loop. -/
def v2Ready {C E : Type} (ops : ChannelOps C E) (e : E) (i : Nat) (ch : Channel C) (q : QueueV2) (count : U32) : QueueV2 :=
  if q.pktsAvailable < count then (ncNdpV2TxLock ops e i ch q).2 else q

/-- The packets available are fewer than the header items. -/
structure Counts (q : QueueV2) : Prop where
  items : 0 < q.hdrItems.toNat
  available : q.pktsAvailable.toNat < q.hdrItems.toNat

section Counts

variable {C E : Type} {ops : ChannelOps C E} {e : E} {i : Nat} {ch : Channel C} {q : QueueV2}

theorem Counts.lock (h : Counts q) : Counts (ncNdpV2TxLock ops e i ch q).2 := by
  have hmask : ∀ x : U64, ((x &&& q.mask).setWidth 32 : U32).toNat < q.hdrItems.toNat := by
    intro x
    have hone : (q.hdrItems - 1 : U32).toNat = q.hdrItems.toNat - 1 :=
      BitVec.toNat_sub_of_le (BitVec.le_def.2 (show (1 : U32).toNat ≤ q.hdrItems.toNat from h.items))
    have hle : (x &&& q.mask).toNat ≤ q.hdrItems.toNat - 1 := by
      rw [BitVec.toNat_and, QueueV2.mask, toNat_setWidth64, hone]
      exact Nat.and_le_right
    have hpos := h.items
    rw [BitVec.toNat_setWidth]
    exact (Nat.mod_le _ _).trans_lt (by omega)
  unfold ncNdpV2TxLock
  dsimp only
  split
  case isTrue => exact ⟨h.items, h.available⟩
  case isFalse =>
    split
    · exact ⟨h.items, hmask _⟩
    · exact ⟨h.items, hmask _⟩

theorem Counts.ready (h : Counts q) (count : U32) : Counts (v2Ready ops e i ch q count) := by
  unfold v2Ready
  split
  · exact h.lock
  · exact h

theorem Counts.flush (h : Counts q) : Counts (ncNdpV2TxBurstFlush ops e i ch q).2 := by
  have hitems : q.wrapRhp.hdrItems = q.hdrItems := by
    unfold QueueV2.wrapRhp
    split
    · rfl
    · rfl
  unfold ncNdpV2TxBurstFlush
  dsimp only
  constructor
  · rw [hitems]; exact h.items
  · rw [hitems]; exact h.items

theorem Counts.put (h : Counts q) : Counts (ncNdpV2TxBurstPut ops e i ch q).2 := by
  unfold ncNdpV2TxBurstPut
  split
  · exact h.flush
  · exact h

/-- A get that succeeds has filled its headers in from the position of the queue on. -/
theorem v2BurstGet_filled (hq : Counts q) {mem : V2Mem} {count ret : U32} {ch' : Channel C} {q' : QueueV2} (hret : ret ≠ 0)
    (h : ncNdpV2TxBurstGet ops e i ch mem q packets count = (ch', mem', q', packets', ret)) :
    ret = count ∧ Counts q' ∧ q' = (v2Ready ops e i ch q count).advance count ∧
      V2Filled (v2Ready ops e i ch q count) mem packets count.toNat mem' packets' := by
  have hc : Counts (v2Ready ops e i ch q count) := hq.ready count
  have hready : (if q.pktsAvailable < count then ncNdpV2TxLock ops e i ch q else (ch, q)).2 = v2Ready ops e i ch q count := by
    unfold v2Ready
    split
    · rfl
    · rfl
  have hshort : ¬q.pktsAvailable < count → v2Ready ops e i ch q count = q := fun hn => if_neg hn
  unfold ncNdpV2TxBurstGet at h
  dsimp only at h
  generalize (if q.pktsAvailable < count then ncNdpV2TxLock ops e i ch q else (ch, q)) = x at h hready
  obtain ⟨ch₁, q₁⟩ := x
  dsimp only at h hready
  subst hready
  generalize v2Ready ops e i ch q count = q₁ at h hc hshort
  split at h
  · cases h; exact absurd rfl hret
  rename_i hok
  have henough : ¬q₁.pktsAvailable < count := by
    by_cases hsh : q.pktsAvailable < count
    · exact fun hlt => hok ⟨hsh, .inl hlt⟩
    · rw [hshort hsh]; exact hsh
  have hle : count.toNat ≤ q₁.pktsAvailable.toNat := by
    rw [BitVec.lt_def] at henough
    omega
  split at h
  · cases h; exact absurd rfl hret
  · rename_i hfill
    cases h
    have havail := hc.available
    refine ⟨rfl, ⟨hc.items, ?_⟩, rfl, v2TxFill_filled q₁ mem packets (by omega) hfill⟩
    have hsub : (q₁.pktsAvailable - count).toNat = q₁.pktsAvailable.toNat - count.toNat :=
      BitVec.toNat_sub_of_le (BitVec.le_def.2 hle)
    simp only [QueueV2.advance, hsub]
    omega

theorem v2Ready_fields (ops : ChannelOps C E) (e : E) (i : Nat) (ch : Channel C) (q : QueueV2) (count : U32) :
    (v2Ready ops e i ch q count).buffer = q.buffer ∧ (v2Ready ops e i ch q count).frameSizeMin = q.frameSizeMin := by
  unfold v2Ready ncNdpV2TxLock
  dsimp only
  split
  case isTrue =>
    split
    · exact ⟨rfl, rfl⟩
    · split
      · exact ⟨rfl, rfl⟩
      · exact ⟨rfl, rfl⟩
  case isFalse => exact ⟨rfl, rfl⟩

end Counts

/-! ## Protocol 3 -/

/-- The positions of the packets of a get, computed in 32 bits and not masked. -/
def v3Pos (q : QueueV3Tx) (packets : Nat → NdpPacket) : Nat → U32
  | 0 => q.sdp
  | n + 1 => frameLenCeil (v3Pos q packets n + packetSize q.frameSizeMin (packets n))

/-- The fields that `nc_ndp_v3_tx_burst_get` sets in the header of a packet at `pos`; the other ones stay. -/
structure V3Written (q : QueueV3Tx) (p : NdpPacket) (pos : U32) (hdr : V3PacketHdr) : Prop where
  headerSize : hdr.headerSize = (p.headerLength.setWidth 32 &&& 0xff : U32).setWidth 8
  frameLen : hdr.frameLen = (packetSize q.frameSizeMin p).setWidth 16
  framePtr : hdr.framePtr = (pos &&& q.dataPtrMask).setWidth 16
  flags : hdr.flags = p.flags.setWidth 4

/-- The packet that the sender gets back, with its data behind its header at `pos`. -/
def v3TxPacket (buffer : Int) (p : NdpPacket) (pos : U32) : NdpPacket :=
  { p with
    header := buffer + pos.toNat
    data := buffer + pos.toNat + (p.headerLength.setWidth 32 &&& 0xff : U32).toNat }

/-- A reader that counts the position of a frame in units of `unit` bytes. -/
def v3ReadPacket (unit : Nat) (buffer : Int) (hdr : V3PacketHdr) : NdpPacket :=
  let data := buffer + hdr.framePtr.toNat * unit
  { header := data
    headerLength := hdr.headerSize.setWidth 16
    flags := hdr.flags.setWidth 16
    data := data + hdr.headerSize.toNat
    dataLength := hdr.frameLen.setWidth 32 - hdr.headerSize.setWidth 32 }

theorem v3ReadPacket_rx (buffer : Int) (hdr : V3PacketHdr) :
    v3ReadPacket ndpRxCalypteBlockSize buffer hdr = v3RxPacket buffer hdr := rfl

theorem headerLength_and {x : U16} (h : x.toNat ≤ 255) : (x.setWidth 32 &&& 0xff : U32).toNat = x.toNat := by
  have hand : ((x.setWidth 32 : U32) &&& 0xff).toNat = (x.setWidth 32 : U32).toNat % 256 :=
    Nat.and_two_pow_sub_one_eq_mod _ 8
  rw [hand, toNat_widen32, Nat.mod_eq_of_lt (by omega)]

theorem getRound_some {W : Type} {q : QueueV3Tx} {p : NdpPacket} {i : Nat} {t t' : TxWorld W} {sdp' : U32}
    (h : getRound q p i t sdp = (t', some sdp')) :
    p.headerLength.toNat ≤ 255 ∧ sdp' = frameLenCeil (sdp + packetSize q.frameSizeMin p) ∧
      ∃ hdr, V3Written q p sdp hdr ∧
        t' = { t with mem := Function.update t.mem (shadowSlot t.items (q.hdrs + i)) hdr } := by
  unfold getRound at h
  split at h
  · cases h
  rename_i hsize
  have h255 : p.headerLength.toNat ≤ 255 := by
    have : ¬(0xff : U16).toNat < p.headerLength.toNat := hsize
    simpa using this
  have hand : (p.headerLength.setWidth 32 &&& 0xff : U32) = p.headerLength.setWidth 32 :=
    BitVec.eq_of_toNat_eq (by rw [headerLength_and h255, toNat_widen32])
  dsimp only at h
  rw [hand] at h
  have hpacket : ∀ size, (if p.dataLength + p.headerLength.setWidth 32 < q.frameSizeMin then some q.frameSizeMin
      else if p.dataLength + p.headerLength.setWidth 32 > q.frameSizeMax then none
      else some (p.dataLength + p.headerLength.setWidth 32)) = some size → size = packetSize q.frameSizeMin p := by
    intro size hs
    unfold packetSize
    dsimp only
    split at hs
    case isTrue hlt => rw [if_pos hlt]; exact (Option.some.inj hs).symm
    case isFalse hge =>
      rw [if_neg hge]
      split at hs
      · cases hs
      · exact (Option.some.inj hs).symm
  split at h
  · cases h
  · rename_i size hs
    rw [hpacket size hs] at h
    cases h
    exact ⟨h255, rfl, _, ⟨by rw [hand], rfl, rfl, rfl⟩, rfl⟩

theorem getRounds_placed {W : Type} (q : QueueV3Tx) (packets : Nat → NdpPacket) (t : TxWorld W) {t' : TxWorld W}
    (h : getRounds q packets t n = (t', pkts, some sdp)) :
    sdp = v3Pos q packets n ∧ (∀ j < n, (packets j).headerLength.toNat ≤ 255) ∧ ∀ j < n, pkts j = v3Pos q packets j := by
  induction n generalizing t' pkts sdp with
  | zero =>
    cases h
    exact ⟨rfl, fun j hj => absurd hj (Nat.not_lt_zero j), fun j hj => absurd hj (Nat.not_lt_zero j)⟩
  | succ n ih =>
    rw [getRounds] at h
    rcases hr : getRounds q packets t n with ⟨t₁, pkts₁, _ | sdp₁⟩
    · rw [hr] at h; cases h
    rw [hr] at h
    obtain ⟨hpos, hheader, hpkts⟩ := ih hr
    dsimp only at h
    rcases hround : getRound q (packets n) n t₁ sdp₁ with ⟨t₂, _ | sdp₂⟩
    · rw [hround] at h; cases h
    rw [hround] at h
    cases h
    obtain ⟨h255, hnext, -⟩ := getRound_some hround
    refine ⟨by rw [hnext, hpos]; rfl, ?_, ?_⟩
    · intro j hj
      by_cases hjn : j = n
      · rw [hjn]; exact h255
      · exact hheader j (by omega)
    · intro j hj
      by_cases hjn : j = n
      · subst hjn
        rw [Function.update_self, hpos]
      · rw [Function.update_of_ne hjn]
        exact hpkts j (by omega)

/-- What the rounds of a get have done when none has refused its packet. -/
structure V3Filled {W : Type} (q : QueueV3Tx) (packets : Nat → NdpPacket) (n : Nat) (t : TxWorld W) (pkts : Nat → U32) :
    Prop where
  header : ∀ j < n, (packets j).headerLength.toNat ≤ 255
  hdr : ∀ j < n, V3Written q (packets j) (v3Pos q packets j) (t.hdr (q.hdrs + j))
  pos : ∀ j < n, pkts j = v3Pos q packets j

theorem getRounds_hdr {W : Type} (q : QueueV3Tx) (packets : Nat → NdpPacket) (t : TxWorld W) (hn : n ≤ t.items) {t' : TxWorld W}
    (h : getRounds q packets t n = (t', pkts, some sdp)) :
    t'.items = t.items ∧ ∀ j < n, V3Written q (packets j) (v3Pos q packets j) (t'.hdr (q.hdrs + j)) := by
  induction n generalizing t' pkts sdp with
  | zero =>
    cases h
    exact ⟨rfl, fun j hj => absurd hj (Nat.not_lt_zero j)⟩
  | succ n ih =>
    rw [getRounds] at h
    rcases hr : getRounds q packets t n with ⟨t₁, pkts₁, _ | sdp₁⟩
    · rw [hr] at h; cases h
    rw [hr] at h
    have hpos := (getRounds_placed q packets t hr).1
    obtain ⟨hitems, hhdr⟩ := ih (by omega) hr
    dsimp only at h
    rcases hround : getRound q (packets n) n t₁ sdp₁ with ⟨t₂, _ | sdp₂⟩
    · rw [hround] at h; cases h
    rw [hround] at h
    cases h
    obtain ⟨-, -, hdr, hw, rfl⟩ := getRound_some hround
    refine ⟨hitems, fun j hj => ?_⟩
    unfold TxWorld.hdr
    dsimp only
    by_cases hjn : j = n
    · subst hjn
      rw [Function.update_self, ← hpos]
      exact hw
    · rw [hitems, Function.update_of_ne fun heq => hjn (shadowSlot_inj _ (by omega) (by omega) heq), ← hitems]
      exact hhdr j (by omega)

theorem getRounds_filled {W : Type} (q : QueueV3Tx) (packets : Nat → NdpPacket) (t : TxWorld W) (hn : n ≤ t.items) {t' : TxWorld W}
    (h : getRounds q packets t n = (t', pkts, some sdp)) :
    t'.items = t.items ∧ sdp = v3Pos q packets n ∧ V3Filled q packets n t' pkts := by
  obtain ⟨hpos, hheader, hpkts⟩ := getRounds_placed q packets t h
  obtain ⟨hitems, hhdr⟩ := getRounds_hdr q packets t hn h
  exact ⟨hitems, hpos, hheader, hhdr, hpkts⟩

/-- A packet of protocol 3 is read back if and only if the frame fits 16 bits and its pointer, in the unit of the
reader, is the position of the frame. -/
theorem v3ReadPacket_iff {q : QueueV3Tx} {p : NdpPacket} {pos : U32} {hdr : V3PacketHdr} (buffer : Int) (unit : Nat)
    (h255 : p.headerLength.toNat ≤ 255) (hw : V3Written q p pos hdr) :
    ReadBack q.frameSizeMin p (v3TxPacket buffer p pos).header (v3TxPacket buffer p pos).data (v3ReadPacket unit buffer hdr) ↔
      totalLength q.frameSizeMin p < 2 ^ 16 ∧ (pos &&& q.dataPtrMask).toNat % 2 ^ 16 * unit = pos.toNat := by
  have hsize : hdr.headerSize.toNat = p.headerLength.toNat := by
    rw [hw.headerSize, BitVec.toNat_setWidth, headerLength_and h255]
    omega
  have hptr : hdr.framePtr.toNat = (pos &&& q.dataPtrMask).toNat % 2 ^ 16 := by
    rw [hw.framePtr, BitVec.toNat_setWidth]
  have hlength : (v3ReadPacket unit buffer hdr).headerLength = p.headerLength := by
    apply BitVec.eq_of_toNat_eq
    simp only [v3ReadPacket, BitVec.toNat_setWidth, hsize]
    omega
  have htotal : ((v3ReadPacket unit buffer hdr).dataLength + (v3ReadPacket unit buffer hdr).headerLength.setWidth 32 : U32).toNat =
      (packetSize q.frameSizeMin p).toNat % 2 ^ 16 := by
    have hsame : (p.headerLength.setWidth 32 : U32) = hdr.headerSize.setWidth 32 := by
      apply BitVec.eq_of_toNat_eq
      simp only [BitVec.toNat_setWidth, hsize]
    rw [hlength, hsame]
    simp only [v3ReadPacket, BitVec.sub_add_cancel, hw.frameLen, BitVec.toNat_setWidth]
    omega
  constructor
  · intro h
    have ht := h.total
    rw [htotal] at ht
    have hh : buffer + (hdr.framePtr.toNat * unit : Nat) = buffer + pos.toNat := by
      have := h.header
      simp only [v3ReadPacket, v3TxPacket] at this
      exact_mod_cast this
    exact ⟨(packetSize_iff _ _).1 ht, by rw [← hptr]; omega⟩
  · rintro ⟨h16, hpos⟩
    have hpos' : buffer + (hdr.framePtr.toNat * unit : Int) = buffer + pos.toNat := by
      rw [hptr]
      exact_mod_cast congrArg (fun n : Nat => buffer + (n : Int)) hpos
    constructor
    case headerLength => exact hlength
    case flags =>
      simp only [v3ReadPacket, hw.flags, BitVec.toNat_setWidth]
      omega
    case total => rw [htotal]; exact (packetSize_iff _ _).2 h16
    case header => exact hpos'
    case data =>
      simp only [v3ReadPacket, v3TxPacket, hpos', hsize, headerLength_and h255]

theorem bytePos_iff (pos mask : U32) :
    (pos &&& mask).toNat % 2 ^ 16 * 1 = pos.toNat ↔ pos.toNat < 2 ^ 16 ∧ pos &&& mask = pos := by
  have hle : (pos &&& mask).toNat ≤ pos.toNat := by
    rw [BitVec.toNat_and]
    exact Nat.and_le_left
  constructor
  · intro h
    have heq : (pos &&& mask).toNat = pos.toNat := by omega
    exact ⟨by omega, BitVec.eq_of_toNat_eq heq⟩
  · rintro ⟨hlt, heq⟩
    rw [heq]
    omega

/-- In blocks the pointer is right for the first frame only: a bit of it would also have to stand seven places
higher. -/
theorem blockPos_iff (pos mask : U32) :
    (pos &&& mask).toNat % 2 ^ 16 * ndpRxCalypteBlockSize = pos.toNat ↔ pos = 0 := by
  constructor
  · intro h
    have hshift : ndpRxCalypteBlockSize = 2 ^ 7 := rfl
    rw [hshift] at h
    -- no bit is the lowest one
    have hbit : ∀ i, ((pos &&& mask).toNat % 2 ^ 16).testBit i = false := by
      intro i
      induction i using Nat.strong_induction_on with
      | _ i ih =>
        by_contra hset
        rw [Bool.not_eq_false] at hset
        have hpos : pos.toNat.testBit i = true := by
          rw [Nat.testBit_mod_two_pow, BitVec.toNat_and, Nat.testBit_and] at hset
          simp only [Bool.and_eq_true] at hset
          exact hset.2.1
        rw [← h, Nat.testBit_mul_two_pow] at hpos
        simp only [Bool.and_eq_true, decide_eq_true_eq] at hpos
        rw [ih (i - 7) (by omega)] at hpos
        exact Bool.false_ne_true hpos.2
    have hzero : (pos &&& mask).toNat % 2 ^ 16 = 0 := Nat.eq_of_testBit_eq fun i => by rw [hbit i, Nat.zero_testBit]
    rw [hzero, Nat.zero_mul] at h
    exact BitVec.eq_of_toNat_eq h.symm
  · rintro rfl
    simp

/-- A sync writes the pointers of the queue and its userspace part, and leaves the header buffer. -/
structure KeepsQueue {W : Type} (call : SyncCall W) : Prop where
  items : ∀ kind t q, (call kind t q).1.items = t.items
  queue : ∀ kind t q, ∃ sync us, (call kind t q).2.1 = { q with sync, us }

/-- The packets available are fewer than the items of the header ring, which the header buffer holds. -/
structure CountsV3 {W : Type} (t : TxWorld W) (q : QueueV3Tx) : Prop where
  ring : q.hdrPtrMask.toNat < t.items
  available : q.pktsAvailable.toNat ≤ q.hdrPtrMask.toNat

section GetV3

variable {W : Type} {call : SyncCall W} {t : TxWorld W} {q : QueueV3Tx}

/-- What a lock keeps. -/
structure LockedV3 (t : TxWorld W) (q : QueueV3Tx) (t' : TxWorld W) (q' : QueueV3Tx) : Prop where
  counts : CountsV3 t' q'
  sdp : q'.sdp = q.sdp
  frameSizeMin : q'.frameSizeMin = q.frameSizeMin
  dataPtrMask : q'.dataPtrMask = q.dataPtrMask

theorem lock_lockedV3 (hcall : KeepsQueue call) (h : CountsV3 t q) :
    LockedV3 t q (ncNdpV3TxLock call t q).1 (ncNdpV3TxLock call t q).2 := by
  have hmask : ∀ x : U64, ((x &&& q.hdrPtrMask.setWidth 64).setWidth 32 : U32).toNat ≤ q.hdrPtrMask.toNat := by
    intro x
    have hle : (x &&& q.hdrPtrMask.setWidth 64).toNat ≤ q.hdrPtrMask.toNat := by
      rw [BitVec.toNat_and, toNat_setWidth64]
      exact Nat.and_le_right
    rw [BitVec.toNat_setWidth]
    exact (Nat.mod_le _ _).trans hle
  unfold ncNdpV3TxLock
  dsimp only
  have hi := hcall.items (.lock (q.sync.swptr ≠ q.sync.hwptr)) t
    { q with sync := { q.sync with swptr := (q.sync.hwptr - 1) &&& q.hdrPtrMask.setWidth 64 } }
  obtain ⟨sync, us, hq⟩ := hcall.queue (.lock (q.sync.swptr ≠ q.sync.hwptr)) t
    { q with sync := { q.sync with swptr := (q.sync.hwptr - 1) &&& q.hdrPtrMask.setWidth 64 } }
  split
  case isTrue => exact ⟨⟨by rw [hi, hq]; exact h.ring, by rw [hq]; exact h.available⟩, by rw [hq], by rw [hq], by rw [hq]⟩
  case isFalse =>
    unfold lockTail
    dsimp only
    rw [hq]
    split
    · exact ⟨⟨by rw [hi]; exact h.ring, hmask _⟩, rfl, rfl, rfl⟩
    · exact ⟨⟨by rw [hi]; exact h.ring, hmask _⟩, rfl, rfl, rfl⟩

theorem v3Pos_congr {q' : QueueV3Tx} (hs : q'.sdp = q.sdp) (hm : q'.frameSizeMin = q.frameSizeMin) (packets : Nat → NdpPacket) (n : Nat) :
    v3Pos q' packets n = v3Pos q packets n := by
  induction n with
  | zero => exact hs
  | succ n ih => rw [v3Pos, v3Pos, ih, hm]

theorem v3BurstGet_filled (hcall : KeepsQueue call) (h : CountsV3 t q) {count ret : U32} {t' : TxWorld W} {q' : QueueV3Tx}
    (hret : ret ≠ 0) (hg : ncNdpV3TxBurstGet call t q packets count = (t', q', ret)) :
    ret = count ∧ ∃ t₁ q₁, LockedV3 t q t₁ q₁ ∧ q'.hdrs = q₁.hdrs + count.toNat ∧
      V3Filled q₁ packets count.toNat t' q'.txPkts := by
  have hreserve : ∀ t₁ q₁, LockedV3 t q t₁ q₁ → ¬q₁.pktsAvailable < count →
      burstReserve t₁ q₁ packets count = (t', q', ret) →
      ret = count ∧ ∃ t₁ q₁, LockedV3 t q t₁ q₁ ∧ q'.hdrs = q₁.hdrs + count.toNat ∧
        V3Filled q₁ packets count.toNat t' q'.txPkts := by
    intro t₁ q₁ hl henough hb
    have hring := hl.counts.ring
    have havail := hl.counts.available
    rw [BitVec.lt_def] at henough
    unfold burstReserve at hb
    rcases hr : getRounds q₁ packets t₁ count.toNat with ⟨t₂, pkts, _ | sdp⟩
    · rw [hr] at hb; cases hb; exact absurd rfl hret
    · rw [hr] at hb
      cases hb
      exact ⟨rfl, t₁, q₁, hl, rfl, (getRounds_filled q₁ packets t₁ (by omega) hr).2.2⟩
  unfold ncNdpV3TxBurstGet at hg
  split at hg
  · cases hg; exact absurd rfl hret
  split at hg
  · have hl := lock_lockedV3 hcall h
    dsimp only at hg
    split at hg
    · cases hg; exact absurd rfl hret
    · rename_i hok
      exact hreserve _ _ hl (fun hlt => hok (.inl hlt)) hg
  · rename_i henough
    exact hreserve t q ⟨h, rfl, rfl, rfl⟩ henough hg

end GetV3

theorem usCall_keepsQueue : KeepsQueue usCall :=
  ⟨fun _ _ _ => rfl, fun _ _ _ => ⟨_, _, rfl⟩⟩

/-! ## Every accepted packet -/

/-- For every packet of a get that succeeds: with protocol 2 the header gives it back if and only if its header has
less than 256 bytes and the frame less than 64 KiB. With protocol 3 only the frame and its position count: the
receiver's get, which counts in blocks, finds the frame at position 0 only, a reader that counts in bytes finds it
below 64 KiB and before the wrap. -/
theorem headers_read_back_iff (packets : Nat → NdpPacket) (count ret : U32) :
    (∀ {C E : Type} (ops : ChannelOps C E) (e : E) (i : Nat) (ch ch' : Channel C) (mem mem' : V2Mem) (q q' : QueueV2)
      (packets' : Nat → NdpPacket), Counts q →
      ncNdpV2TxBurstGet ops e i ch mem q packets count = (ch', mem', q', packets', ret) →
      ∀ j < ret.toNat,
        (ReadBack q.frameSizeMin (packets j) (packets' j).header (packets' j).data
            (v2RxPacket q.buffer (mem'.hdr (shadowSlot q'.hdrItems.toNat (q'.hdr - ret.toNat - q'.hdrBase + j)))
              (mem'.off (shadowSlot q'.hdrItems.toNat (q'.off - ret.toNat - q'.offBase + j)))) ↔
          (packets j).headerLength.toNat < 2 ^ 8 ∧ totalLength q.frameSizeMin (packets j) < 2 ^ 16)) ∧
    (∀ {W : Type} (call : SyncCall W) (t t' : TxWorld W) (q q' : QueueV3Tx) (buffer : Int), KeepsQueue call → CountsV3 t q →
      ncNdpV3TxBurstGet call t q packets count = (t', q', ret) →
      ∀ j < ret.toNat,
        let p := v3TxPacket buffer (packets j) (q'.txPkts j)
        let hdr := t'.hdr (q'.hdrs - ret.toNat + j)
        (ReadBack q.frameSizeMin (packets j) p.header p.data (v3RxPacket buffer hdr) ↔
            totalLength q.frameSizeMin (packets j) < 2 ^ 16 ∧ v3Pos q packets j = 0) ∧
          (ReadBack q.frameSizeMin (packets j) p.header p.data (v3ReadPacket 1 buffer hdr) ↔
            totalLength q.frameSizeMin (packets j) < 2 ^ 16 ∧ (v3Pos q packets j).toNat < 2 ^ 16 ∧
              v3Pos q packets j &&& q.dataPtrMask = v3Pos q packets j)) := by
  constructor
  · intro C E ops e i ch ch' mem mem' q q' packets' hq h j hj
    have hret : ret ≠ 0 := by rintro rfl; exact absurd hj (Nat.not_lt_zero j)
    obtain ⟨rfl, -, rfl, hf⟩ := v2BurstGet_filled hq hret h
    obtain ⟨hbuffer, hmin⟩ := v2Ready_fields ops e i ch q ret
    generalize v2Ready ops e i ch q ret = q₁ at hf hbuffer hmin
    rw [hf.header j hj, hf.data j hj, hf.off, ← hbuffer, ← hmin, ← v2RxPacket_iff q₁ (packets j) (v2Offset q₁ mem j)]
    simp only [QueueV2.advance, add_sub_cancel_right, hf.hdr j hj]
    rfl
  · intro W call t t' q q' buffer hcall hq h j hj p hdr
    have hret : ret ≠ 0 := by rintro rfl; exact absurd hj (Nat.not_lt_zero j)
    obtain ⟨rfl, t₁, q₁, hl, hhdrs, hf⟩ := v3BurstGet_filled hcall hq hret h
    have hpos : q'.txPkts j = v3Pos q packets j :=
      (hf.pos j hj).trans (v3Pos_congr hl.sdp hl.frameSizeMin packets j)
    have hw : V3Written q₁ (packets j) (v3Pos q packets j) hdr := by
      have := hf.hdr j hj
      rw [v3Pos_congr hl.sdp hl.frameSizeMin] at this
      rwa [show hdr = t'.hdr (q₁.hdrs + j) from congrArg t'.hdr (by rw [hhdrs]; omega)]
    have hiff := fun unit => v3ReadPacket_iff buffer unit (hf.header j hj) hw
    rw [← hpos, hl.frameSizeMin, hl.dataPtrMask] at hiff
    constructor
    · rw [← v3ReadPacket_rx, ← hpos, ← blockPos_iff (q'.txPkts j) q.dataPtrMask]
      exact hiff ndpRxCalypteBlockSize
    · rw [← hpos, ← bytePos_iff (q'.txPkts j) q.dataPtrMask]
      exact hiff 1

/-- A protocol 2 queue of four items as it is opened without controller parameters, with one item available. -/
def oneItemQueue : QueueV2 := { ncNdpV2OpenQueue ⟨0, 0, 0, 0, 0, 4096⟩ 4 with pktsAvailable := 1 }

/-- A packet of nothing but a header of `n` bytes. -/
def headerOnly (n : U16) : NdpPacket := { data := 0, header := 0, dataLength := 0, headerLength := n, flags := 0 }

/-- A protocol 3 queue with room for one packet at position 0, with a header buffer of eight items. -/
def oneItemQueueV3 : QueueV3Tx :=
  { userspace := true, frameSizeMin := 60, frameSizeMax := 0x3FFF, sync := ⟨0, 0, 0⟩, pktsAvailable := 1,
    pktsToSend := 0, bytesAvailable := 0, sdp := 0, shp := 0, dataPtrMask := 0xFFF, hdrPtrMask := 3, hdrs := 0,
    txPkts := fun _ => 0, txPktsCnt := 1, us := ⟨0, 0, 0, 0, 3, 0xFFF, 0, 0⟩ }

/-- An empty channel and empty buffers. -/
def emptyChannel : Channel HdrCtrl :=
  { lockedSub := none, hwptr := 0, swptr := 0, ptrmask := 3, startCount := 0, listSubscriptions := [],
    sub := fun _ => ⟨.init, 0, 0⟩, ctrl := ⟨3, 0, 0, []⟩ }

def emptyMem : V2Mem := ⟨fun _ => ⟨0, 0, 0⟩, fun _ => 0⟩

def emptyWorld : TxWorld Unit := { items := 8, mem := fun _ => ⟨0, 0, 0, 0, 0⟩, sent := [], w := () }

/-- A short packet with both protocols. -/
theorem headers_read_back_short :
    ReadBack 60 (headerOnly 16) 0 16
        (v2RxPacket 0 ((ncNdpV2TxBurstGet hdrOps 0 0 emptyChannel emptyMem oneItemQueue (fun _ => headerOnly 16) 1).2.1.hdr 0) 0) ∧
      ReadBack 60 (headerOnly 16) 0 16
        (v3RxPacket 0 ((ncNdpV3TxBurstGet (fun _ t q => (t, q, 0)) emptyWorld oneItemQueueV3
          (fun _ => headerOnly 16) 1).1.hdr 0)) := by
  have hkeeps : KeepsQueue (fun _ t q => (t, q, 0) : SyncCall Unit) := ⟨fun _ _ _ => rfl, fun _ _ _ => ⟨_, _, rfl⟩⟩
  exact ⟨((headers_read_back_iff (fun _ => headerOnly 16) 1 1).1 hdrOps 0 0 emptyChannel _ emptyMem _ oneItemQueue _ _
      ⟨by decide, by decide⟩ rfl 0 (by decide)).2 ⟨by decide, by decide⟩,
    ((headers_read_back_iff (fun _ => headerOnly 16) 1 1).2 (fun _ t q => (t, q, 0)) emptyWorld _ oneItemQueueV3 _ 0
      hkeeps ⟨by decide, by decide⟩ rfl 0 (by decide)).1.2 ⟨by decide, by decide⟩⟩

/-- A packet with a header of 256 bytes is accepted with protocol 2 and read back without its header. -/
theorem long_header_not_read_back :
    (ncNdpV2TxBurstGet hdrOps 0 0 emptyChannel emptyMem oneItemQueue (fun _ => headerOnly 256) 1).2.2.2.2 = 1 ∧
      ¬ReadBack 60 (headerOnly 256) 0 256
        (v2RxPacket 0 ((ncNdpV2TxBurstGet hdrOps 0 0 emptyChannel emptyMem oneItemQueue (fun _ => headerOnly 256) 1).2.1.hdr 0)
          0) := by
  refine ⟨by decide, fun h => ?_⟩
  exact absurd h.headerLength (by decide)

end NdkSw.Calypte

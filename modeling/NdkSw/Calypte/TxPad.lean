/-
The data buffer in the gets of protocols 2 and 3 (`ndp_tx.h`): a packet below the minimum frame size is enlarged, and the rest
of its frame cleared. The gets themselves are followed as they are; here is what their `memset` does beside.
-/
import NdkSw.Bits.Fill
import NdkSw.Calypte.ReadBack

namespace NdkSw.Calypte

open Ndp Bits

/-! ## Protocol 2 -/

/-- The `memset` in round `n` of `nc_ndp_v2_tx_burst_get`, if there is one. -/
def v2Pad (q : QueueV2) (mem : V2Mem) (p : NdpPacket) (n : Nat) : Option (Int × Nat) :=
  let offset : Int := (mem.off (shadowSlot q.hdrItems.toNat (q.off - q.offBase + n))).toNat
  let headerSize : U32 := p.headerLength.setWidth 32
  let packetSize : U32 := p.dataLength + headerSize
  if packetSize < q.frameSizeMin then
    some (q.buffer + offset + headerSize.toNat + packetSize.toNat, (q.frameSizeMin - packetSize).toNat)
  else none

/-- The data buffer beside the first `n` rounds of the loop. A round behind a refused packet is not run. -/
def v2TxFillData (q : QueueV2) (mem : V2Mem) (packets : Nat → NdpPacket) (m : PadMem Nat) : Nat → PadMem Nat
  | 0 => m
  | n + 1 =>
    match v2TxFill q mem packets n with
    | (_, _, false) => v2TxFillData q mem packets m n
    | (mem', packets', true) => (v2TxFillData q mem packets m n).pad n (v2Pad q mem' (packets' n) n)

/-- The data buffer after `nc_ndp_v2_tx_burst_get`. -/
def v2TxBurstGetData {C E : Type} (ops : ChannelOps C E) (e : E) (i : Nat) (ch : Channel C) (mem : V2Mem) (q : QueueV2)
    (packets : Nat → NdpPacket) (count : U32) (m : PadMem Nat) : PadMem Nat :=
  let short := q.pktsAvailable < count
  match (if short then ncNdpV2TxLock ops e i ch q else (ch, q)) with
  | (_, q) =>
    if short ∧ (q.pktsAvailable < count ∨ count = 0) then m
    else v2TxFillData q mem packets m count.toNat

theorem v2TxFillData_eq {q : QueueV2} {mem : V2Mem} {packets : Nat → NdpPacket} (m : PadMem Nat) {n : Nat} {mem' : V2Mem}
    {packets' : Nat → NdpPacket} (h : v2TxFill q mem packets n = (mem', packets', true)) :
    v2TxFillData q mem packets m n = m.padAll (fun j => v2Pad q mem (packets j) j) n := by
  induction n generalizing mem' packets' with
  | zero => rfl
  | succ n ih =>
    rcases hr : v2TxFill q mem packets n with ⟨mem₁, packets₁, _ | _⟩
    · rw [v2TxFill, hr] at h
      cases h
    · have hp := v2TxFill_placed q mem packets hr
      have hpad : v2Pad q mem₁ (packets₁ n) n = v2Pad q mem (packets n) n := by
        unfold v2Pad
        rw [hp.off, hp.rest n le_rfl]
      rw [v2TxFillData, hr, PadMem.padAll, ← ih hr, ← hpad]

theorem v2TxBurstGetData_eq {C E : Type} {ops : ChannelOps C E} {e : E} {i : Nat} {ch ch' : Channel C} {mem mem' : V2Mem}
    {q q' : QueueV2} {packets packets' : Nat → NdpPacket} {count ret : U32} (m : PadMem Nat) (hret : ret ≠ 0)
    (h : ncNdpV2TxBurstGet ops e i ch mem q packets count = (ch', mem', q', packets', ret)) :
    ret = count ∧ V2Placed (v2Ready ops e i ch q count) mem packets count.toNat mem' packets' ∧
      v2TxBurstGetData ops e i ch mem q packets count m =
        m.padAll (fun j => v2Pad (v2Ready ops e i ch q count) mem (packets j) j) count.toNat := by
  have hready : (if q.pktsAvailable < count then ncNdpV2TxLock ops e i ch q else (ch, q)).2 = v2Ready ops e i ch q count := by
    unfold v2Ready
    split
    · rfl
    · rfl
  unfold ncNdpV2TxBurstGet at h
  unfold v2TxBurstGetData
  dsimp only at h ⊢
  generalize (if q.pktsAvailable < count then ncNdpV2TxLock ops e i ch q else (ch, q)) = x at h hready
  obtain ⟨ch₁, q₁⟩ := x
  dsimp only at h hready ⊢
  subst hready
  split at h
  · cases h
    exact absurd rfl hret
  rename_i hok
  rw [if_neg hok]
  split at h
  · cases h
    exact absurd rfl hret
  · rename_i hfill
    cases h
    exact ⟨rfl, v2TxFill_placed _ mem packets hfill, v2TxFillData_eq m hfill⟩

/-! ## Protocol 3 -/

/-- The `memset` in a round of `nc_ndp_v3_tx_burst_get` for a packet at `sdp`, if there is one. -/
def v3Pad (q : QueueV3Tx) (p : NdpPacket) (sdp : U32) : Option (Int × Nat) :=
  if p.headerLength > 0xff then none
  else
    let headerSize : U32 := p.headerLength.setWidth 32 &&& 0xff
    let packetSize := p.dataLength + headerSize
    if packetSize < q.frameSizeMin then
      some ((sdp.toNat : Int) + headerSize.toNat + packetSize.toNat, (q.frameSizeMin - packetSize).toNat)
    else none

/-- The data buffer beside the first `n` rounds. -/
def getRoundsData {W : Type} (q : QueueV3Tx) (packets : Nat → NdpPacket) (t : TxWorld W) (m : PadMem Nat) : Nat → PadMem Nat
  | 0 => m
  | n + 1 =>
    match getRounds q packets t n with
    | (_, _, none) => getRoundsData q packets t m n
    | (_, _, some sdp) => (getRoundsData q packets t m n).pad n (v3Pad q (packets n) sdp)

/-- The data buffer after `nc_ndp_v3_tx_burst_get`, by position. -/
def v3TxBurstGetData {W : Type} (call : SyncCall W) (t : TxWorld W) (q : QueueV3Tx) (packets : Nat → NdpPacket) (count : U32)
    (m : PadMem Nat) : PadMem Nat :=
  if q.pktsToSend ≠ 0 ∨ q.txPktsCnt < count.setWidth 64 then m
  else if q.pktsAvailable < count then
    match ncNdpV3TxLock call t q with
    | (t, q) => if q.pktsAvailable < count ∨ count = 0 then m else getRoundsData q packets t m count.toNat
  else getRoundsData q packets t m count.toNat

section

variable {W : Type} {q : QueueV3Tx} {packets : Nat → NdpPacket} {t : TxWorld W}

theorem getRoundsData_eq (m : PadMem Nat) {n : Nat} {t' : TxWorld W} {pkts : Nat → U32} {sdp : U32}
    (h : getRounds q packets t n = (t', pkts, some sdp)) :
    getRoundsData q packets t m n = m.padAll (fun j => v3Pad q (packets j) (v3Pos q packets j)) n := by
  induction n generalizing t' pkts sdp with
  | zero => rfl
  | succ n ih =>
    rcases hr : getRounds q packets t n with ⟨t₁, pkts₁, _ | sdp₁⟩
    · rw [getRounds, hr] at h
      cases h
    · have hpos : sdp₁ = v3Pos q packets n := (getRounds_placed q packets t hr).1
      rw [getRoundsData, hr, PadMem.padAll, ← ih hr, ← hpos]

theorem lock_stage {call : SyncCall W} (hcall : KeepsQueue call) (t : TxWorld W) (q : QueueV3Tx) :
    (ncNdpV3TxLock call t q).2.sdp = q.sdp ∧ (ncNdpV3TxLock call t q).2.frameSizeMin = q.frameSizeMin := by
  unfold ncNdpV3TxLock
  dsimp only
  obtain ⟨sync, us, hq⟩ := hcall.queue (.lock (q.sync.swptr ≠ q.sync.hwptr)) t
    { q with sync := { q.sync with swptr := (q.sync.hwptr - 1) &&& q.hdrPtrMask.setWidth 64 } }
  split
  · rw [hq]
    exact ⟨rfl, rfl⟩
  · unfold lockTail
    dsimp only
    rw [hq]
    split
    · exact ⟨rfl, rfl⟩
    · exact ⟨rfl, rfl⟩

/-- What is left of a get that succeeds: the queue after the lock, the positions of its packets and the data buffer. -/
structure V3Got (q : QueueV3Tx) (packets : Nat → NdpPacket) (m : PadMem Nat) (n : Nat) (txPkts : Nat → U32) (m' : PadMem Nat)
    (q₁ : QueueV3Tx) : Prop where
  frameSizeMin : q₁.frameSizeMin = q.frameSizeMin
  header : ∀ j < n, (packets j).headerLength.toNat ≤ 255
  pos : ∀ j < n, txPkts j = v3Pos q₁ packets j
  data : m' = m.padAll (fun j => v3Pad q₁ (packets j) (v3Pos q₁ packets j)) n

theorem v3TxBurstGetData_eq {call : SyncCall W} (hcall : KeepsQueue call) (m : PadMem Nat) {count ret : U32} {t' : TxWorld W}
    {q' : QueueV3Tx} (hret : ret ≠ 0) (h : ncNdpV3TxBurstGet call t q packets count = (t', q', ret)) :
    ret = count ∧ ∃ q₁, V3Got q packets m count.toNat q'.txPkts (v3TxBurstGetData call t q packets count m) q₁ := by
  have hreserve : ∀ t₁ q₁, q₁.frameSizeMin = q.frameSizeMin → burstReserve t₁ q₁ packets count = (t', q', ret) →
      ret = count ∧ V3Got q packets m count.toNat q'.txPkts (getRoundsData q₁ packets t₁ m count.toNat) q₁ := by
    intro t₁ q₁ hq hb
    unfold burstReserve at hb
    rcases hr : getRounds q₁ packets t₁ count.toNat with ⟨t₂, pkts, _ | sdp⟩
    · rw [hr] at hb
      cases hb
      exact absurd rfl hret
    · rw [hr] at hb
      cases hb
      obtain ⟨-, hheader, hpos⟩ := getRounds_placed q₁ packets t₁ hr
      exact ⟨rfl, hq, hheader, hpos, getRoundsData_eq m hr⟩
  unfold ncNdpV3TxBurstGet at h
  unfold v3TxBurstGetData
  by_cases hsend : q.pktsToSend ≠ 0 ∨ q.txPktsCnt < count.setWidth 64
  · rw [if_pos hsend] at h
    cases h
    exact absurd rfl hret
  rw [if_neg hsend] at h ⊢
  by_cases hshort : q.pktsAvailable < count
  · rw [if_pos hshort] at h ⊢
    dsimp only at h ⊢
    split at h
    case isTrue =>
      cases h
      exact absurd rfl hret
    case isFalse hok =>
      rw [if_neg hok]
      obtain ⟨hcount, hgot⟩ := hreserve _ _ (lock_stage hcall t q).2 h
      exact ⟨hcount, _, hgot⟩
  · rw [if_neg hshort] at h ⊢
    obtain ⟨hcount, hgot⟩ := hreserve t q rfl h
    exact ⟨hcount, q, hgot⟩

end

/-! ## Every accepted packet -/

/-- The bytes of a packet that its sender writes. -/
def usedBytes (p : NdpPacket) : Nat := p.headerLength.toNat + p.dataLength.toNat

/-- The packet is below the minimum size. -/
def Short (frameSizeMin : U32) (p : NdpPacket) : Prop := p.dataLength + p.headerLength.setWidth 32 < frameSizeMin

instance (frameSizeMin : U32) (p : NdpPacket) : Decidable (Short frameSizeMin p) := inferInstanceAs (Decidable (_ < _))

theorem toNat_sum_of_used_lt {frameSizeMin : U32} {p : NdpPacket} (h : usedBytes p < frameSizeMin.toNat) :
    (p.dataLength + p.headerLength.setWidth 32 : U32).toNat = usedBytes p := by
  have hmin := frameSizeMin.isLt
  unfold usedBytes at h ⊢
  rw [BitVec.toNat_add, toNat_widen32, Nat.mod_eq_of_lt (by omega), Nat.add_comm]

/-- Every byte behind a packet up to the minimum frame size is zero, and nothing is written beside its frame, if and only if
the packets below the minimum have no header. -/
theorem padding_iff (packets : Nat → NdpPacket) (count ret : U32) (cell : Int → Nat) (byte : Nat → U8) :
    (∀ {C E : Type} (ops : ChannelOps C E) (e : E) (i : Nat) (ch ch' : Channel C) (mem mem' : V2Mem) (q q' : QueueV2)
      (packets' : Nat → NdpPacket), ret ≠ 0 →
      ncNdpV2TxBurstGet ops e i ch mem q packets count = (ch', mem', q', packets', ret) →
      (Padded (v2TxBurstGetData ops e i ch mem q packets count ⟨cell, byte, []⟩) (fun j => (packets' j).header)
          (fun j => usedBytes (packets j)) q.frameSizeMin.toNat ret.toNat ↔
        ∀ j < ret.toNat, Short q.frameSizeMin (packets j) → (packets j).headerLength = 0)) ∧
    (∀ {W : Type} (call : SyncCall W) (t t' : TxWorld W) (q q' : QueueV3Tx), KeepsQueue call → ret ≠ 0 →
      ncNdpV3TxBurstGet call t q packets count = (t', q', ret) →
      (Padded (v3TxBurstGetData call t q packets count ⟨cell, byte, []⟩) (fun j => (q'.txPkts j).toNat)
          (fun j => usedBytes (packets j)) q.frameSizeMin.toNat ret.toNat ↔
        ∀ j < ret.toNat, Short q.frameSizeMin (packets j) → (packets j).headerLength = 0)) := by
  have hlate : ∀ p : NdpPacket, p.headerLength.toNat = 0 ↔ p.headerLength = 0 := fun p => by
    exact (BitVec.toNat_eq (y := 0)).symm
  have hsize : ∀ {size fsm : U32}, size < fsm → (fsm - size).toNat = fsm.toNat - size.toNat := fun h =>
    BitVec.toNat_sub_of_le (BitVec.le_def.2 (BitVec.lt_def.1 h).le)
  constructor
  · intro C E ops e i ch ch' mem mem' q q' packets' hret h
    obtain ⟨rfl, hp, hdata⟩ := v2TxBurstGetData_eq ⟨cell, byte, []⟩ hret h
    obtain ⟨-, hmin⟩ := v2Ready_fields ops e i ch q ret
    generalize v2Ready ops e i ch q ret = q₁ at hp hdata hmin
    rw [hdata, padded_iff (fun j => ((packets j).dataLength + (packets j).headerLength.setWidth 32 : U32).toNat)
      (fun j => (packets j).headerLength.toNat) rfl (fun j _ hu => toNat_sum_of_used_lt hu)]
    · simp only [hlate]
      rfl
    · intro j hj
      unfold v2Pad
      dsimp only
      rw [hp.header j hj, hmin, toNat_widen32]
      by_cases hs : (packets j).dataLength + (packets j).headerLength.setWidth 32 < q.frameSizeMin
      · rw [if_pos hs, if_pos (BitVec.lt_def.1 hs), hsize hs]
        rfl
      · rw [if_neg hs, if_neg fun hlt => hs (BitVec.lt_def.2 hlt)]
  · intro W call t t' q q' hcall hret h
    obtain ⟨rfl, q₁, hg⟩ := v3TxBurstGetData_eq hcall ⟨cell, byte, []⟩ hret h
    rw [hg.data, padded_iff (fun j => ((packets j).dataLength + (packets j).headerLength.setWidth 32 : U32).toNat)
      (fun j => (packets j).headerLength.toNat) rfl (fun j _ hu => toNat_sum_of_used_lt hu)]
    · simp only [hlate]
      rfl
    · intro j hj
      have h255 := hg.header j hj
      have hand : ((packets j).headerLength.setWidth 32 &&& 0xff : U32) = (packets j).headerLength.setWidth 32 :=
        BitVec.eq_of_toNat_eq (by rw [headerLength_and h255, toNat_widen32])
      have hfit : ¬(packets j).headerLength > 0xff := fun hlt => absurd (BitVec.lt_def.1 hlt) (by simpa using h255)
      unfold v3Pad
      dsimp only
      rw [if_neg hfit, hand, hg.frameSizeMin, toNat_widen32, hg.pos j hj]
      by_cases hs : (packets j).dataLength + (packets j).headerLength.setWidth 32 < q.frameSizeMin
      · rw [if_pos hs, if_pos (BitVec.lt_def.1 hs), hsize hs]
      · rw [if_neg hs, if_neg fun hlt => hs (BitVec.lt_def.2 hlt)]

def staleBuffer : PadMem Nat := ⟨Int.toNat, fun _ => 0xAA, []⟩

/-- A packet of nothing but a header of 16 bytes is enlarged to 60 bytes: the bytes from 16 to 31 keep what was there, and those
from 60 to 75 are written instead. -/
theorem stale_bytes_left :
    (ncNdpV2TxBurstGet hdrOps 0 0 emptyChannel emptyMem oneItemQueue (fun _ => headerOnly 16) 1).2.2.2.2 = 1 ∧
      ¬Padded (v2TxBurstGetData hdrOps 0 0 emptyChannel emptyMem oneItemQueue (fun _ => headerOnly 16) 1 staleBuffer)
        (fun j => ((ncNdpV2TxBurstGet hdrOps 0 0 emptyChannel emptyMem oneItemQueue
          (fun _ => headerOnly 16) 1).2.2.2.1 j).header)
        (fun _ => usedBytes (headerOnly 16)) 60 1 := by
  refine ⟨by decide, fun h => ?_⟩
  exact absurd (h.zero 0 (by decide) 16 (by decide) (by decide)) (by decide)

/-- A userspace queue with rings of 4 headers and 4 KiB. -/
def tinyQueue : UsState := usStart ⟨3, 0xFFF, 60, 0x3FFF, fun _ => ⟨0, 0, 0, 0, 0⟩⟩

/-- Packets without a header, with both protocols. -/
theorem padding_without_header :
    Padded (v2TxBurstGetData hdrOps 0 0 emptyChannel emptyMem oneItemQueue (fun _ => headerOnly 0) 1 staleBuffer)
        (fun j => ((ncNdpV2TxBurstGet hdrOps 0 0 emptyChannel emptyMem oneItemQueue
          (fun _ => headerOnly 0) 1).2.2.2.1 j).header)
        (fun _ => usedBytes (headerOnly 0)) 60 1 ∧
      Padded (v3TxBurstGetData usCall tinyQueue.t tinyQueue.q (fun _ => headerOnly 0) 1 staleBuffer)
        (fun j => ((ncNdpV3TxBurstGet usCall tinyQueue.t tinyQueue.q (fun _ => headerOnly 0) 1).2.1.txPkts j).toNat)
        (fun _ => usedBytes (headerOnly 0)) 60 1 :=
  ⟨((padding_iff (fun _ => headerOnly 0) 1 1 Int.toNat fun _ => 0xAA).1 hdrOps 0 0 emptyChannel _ emptyMem _ oneItemQueue _ _
      (by decide) rfl).2 fun _ _ _ => rfl,
    ((padding_iff (fun _ => headerOnly 0) 1 1 Int.toNat fun _ => 0xAA).2 usCall tinyQueue.t _ tinyQueue.q _ usCall_keepsQueue
      (by decide) rfl).2 fun _ _ _ => rfl⟩

end NdkSw.Calypte

/-
The staging area of protocol 3 (`ndp_tx.h`): the packets of a get lie in `q->buffer`, a mapping of twice the ring, from the position
that the queue has in the data buffer of the hardware. The ring has a size of its own.
-/
import NdkSw.Bits.Align
import NdkSw.Calypte.TxPad
import NdkSw.Medusa.Reconf
import NdkSw.Shared.Segments

namespace NdkSw.Calypte

open Ndp Bits Shared

/-! ## Where the packets lie -/

/-- The bytes of the buffer that the user is given for the header and for the data of a packet at `pos`. -/
def givenSegs (p : NdpPacket) (pos : U32) : List Seg :=
  let p := v3TxPacket 0 p pos
  [⟨p.header.toNat, p.headerLength.toNat⟩, ⟨p.data.toNat, p.dataLength.toNat⟩]

/-- The packets of a get lie inside the mapping of a ring of `size` bytes, and apart. -/
structure Staged (size n : Nat) (packets : Nat → NdpPacket) (txPkts : Nat → U32) : Prop where
  inside : ∀ j < n, ∀ s ∈ givenSegs (packets j) (txPkts j), s.Below (2 * size)
  apart : ∀ i < n, ∀ j < n, i ≠ j → ∀ a ∈ givenSegs (packets i) (txPkts i), ∀ b ∈ givenSegs (packets j) (txPkts j), a.Apart b

/-- The start of packet `j` of a burst, from the lengths of those before it. -/
def stageStart (q : QueueV3Tx) (packets : Nat → NdpPacket) : Nat → Nat
  | 0 => q.sdp.toNat
  | j + 1 => ceilTo 32 (stageStart q packets j + max (usedBytes (packets j)) q.frameSizeMin.toNat)

/-- The condition: the packets that are not empty end within the mapping. -/
def StageFits (size n : Nat) (q : QueueV3Tx) (packets : Nat → NdpPacket) : Prop :=
  ∀ j < n, 0 < usedBytes (packets j) → stageStart q packets j + usedBytes (packets j) ≤ 2 * size

instance (size n : Nat) (q : QueueV3Tx) (packets : Nat → NdpPacket) : Decidable (StageFits size n q packets) :=
  inferInstanceAs (Decidable (∀ j < n, _ → _))

/-- What `nc_ndp_v3_open_queue` and the gets leave: 256 packets at most, a position within the mask, which is half of a 32-bit size
less one, and limits of the frame size that fit `frame_len`. -/
structure OpenedV3 (q : QueueV3Tx) : Prop where
  count : q.txPktsCnt.toNat ≤ 256
  pos : q.sdp.toNat ≤ q.dataPtrMask.toNat
  mask : q.dataPtrMask.toNat < 2 ^ 31
  min : q.frameSizeMin.toNat < 2 ^ 16
  max : q.frameSizeMax.toNat < 2 ^ 16

section

variable {W : Type} {call : SyncCall W} {t t' : TxWorld W} {q q' : QueueV3Tx} {packets : Nat → NdpPacket} {count ret : U32}

/-- A get that succeeds grants all packets, at the positions from that of the queue on. -/
theorem v3BurstGet_staged (hcall : KeepsQueue call) (hret : ret ≠ 0)
    (h : ncNdpV3TxBurstGet call t q packets count = (t', q', ret)) :
    ret = count ∧ count.toNat ≤ q.txPktsCnt.toNat ∧
      ∀ j < count.toNat, (packets j).headerLength.toNat ≤ 255 ∧ q'.txPkts j = v3Pos q packets j := by
  have hreserve : ∀ t₁ q₁, q₁.sdp = q.sdp → q₁.frameSizeMin = q.frameSizeMin → burstReserve t₁ q₁ packets count = (t', q', ret) →
      ret = count ∧ ∀ j < count.toNat, (packets j).headerLength.toNat ≤ 255 ∧ q'.txPkts j = v3Pos q packets j := by
    intro t₁ q₁ hsdp hmin hb
    unfold burstReserve at hb
    rcases hr : getRounds q₁ packets t₁ count.toNat with ⟨t₂, pkts, _ | sdp⟩
    · rw [hr] at hb
      cases hb
      exact absurd rfl hret
    · rw [hr] at hb
      cases hb
      obtain ⟨-, hheader, hpos⟩ := getRounds_placed q₁ packets t₁ hr
      exact ⟨rfl, fun j hj => ⟨hheader j hj, (hpos j hj).trans (v3Pos_congr hsdp hmin packets j)⟩⟩
  unfold ncNdpV3TxBurstGet at h
  split at h
  · cases h
    exact absurd rfl hret
  rename_i hfree
  have hcount : count.toNat ≤ q.txPktsCnt.toNat := by
    have hle : ¬q.txPktsCnt < count.setWidth 64 := fun hlt => hfree (.inr hlt)
    rw [BitVec.lt_def, toNat_setWidth64] at hle
    omega
  split at h
  · dsimp only at h
    split at h
    · cases h
      exact absurd rfl hret
    · obtain ⟨hsdp, hmin⟩ := lock_stage hcall t q
      obtain ⟨hall, hpkts⟩ := hreserve _ _ hsdp hmin h
      exact ⟨hall, hcount, hpkts⟩
  · obtain ⟨hall, hpkts⟩ := hreserve t q rfl rfl h
    exact ⟨hall, hcount, hpkts⟩

/-! ## Positions as numbers -/

theorem toNat_frameLenCeil {x : U32} (h : x.toNat + 31 < 2 ^ 32) : (frameLenCeil x).toNat = ceilTo 32 x.toNat :=
  toNat_roundUp (k := 5) x 31 rfl h

theorem toNat_packetSize (frameSizeMin : U32) {p : NdpPacket} (h : usedBytes p < 2 ^ 32) :
    (packetSize frameSizeMin p).toNat = max (usedBytes p) frameSizeMin.toNat := by
  have hsum : (p.dataLength + p.headerLength.setWidth 32 : U32).toNat = usedBytes p := by
    unfold usedBytes at h ⊢
    rw [BitVec.toNat_add, toNat_widen32, Nat.mod_eq_of_lt (by omega), Nat.add_comm]
  unfold packetSize
  dsimp only
  split
  · rename_i hlt
    rw [BitVec.lt_def, hsum] at hlt
    omega
  · rename_i hge
    rw [BitVec.lt_def, hsum] at hge
    omega

theorem toNat_v3Pos {n : Nat} (hq : OpenedV3 q) (hn : n ≤ 256) (hused : ∀ j < n, usedBytes (packets j) ≤ q.frameSizeMax.toNat) :
    ∀ j ≤ n, (v3Pos q packets j).toNat = stageStart q packets j ∧ stageStart q packets j ≤ q.sdp.toNat + j * (2 ^ 16 + 32) := by
  have hmin := hq.min
  have hmax := hq.max
  have hsdp := hq.pos
  have hmask := hq.mask
  intro j
  induction j with
  | zero => exact fun _ => ⟨rfl, by rw [stageStart]; omega⟩
  | succ j ih =>
    intro hj
    obtain ⟨hpos, hbound⟩ := ih (by omega)
    have hu := hused j (by omega)
    have hsize := toNat_packetSize q.frameSizeMin (show usedBytes (packets j) < 2 ^ 32 by omega)
    have hfit : (v3Pos q packets j).toNat + (packetSize q.frameSizeMin (packets j)).toNat + 31 < 2 ^ 32 := by omega
    have hadd : (v3Pos q packets j + packetSize q.frameSizeMin (packets j)).toNat =
        stageStart q packets j + max (usedBytes (packets j)) q.frameSizeMin.toNat := by
      rw [BitVec.toNat_add, Nat.mod_eq_of_lt (by omega), hpos, hsize]
    constructor
    · rw [v3Pos, toNat_frameLenCeil (by rw [hadd]; omega), hadd, stageStart]
    · have hceil := ceilTo_lt (g := 32) (by norm_num) (stageStart q packets j + max (usedBytes (packets j)) q.frameSizeMin.toNat)
      rw [stageStart]
      omega

theorem mem_givenSegs {p : NdpPacket} {pos : U32} (h255 : p.headerLength.toNat ≤ 255) {x : Nat} :
    (∃ s ∈ givenSegs p pos, x ∈ s) ↔ x ∈ (⟨pos.toNat, usedBytes p⟩ : Seg) := by
  have hand := headerLength_and h255
  simp only [givenSegs, v3TxPacket, List.mem_cons, List.not_mem_nil, or_false, exists_eq_or_imp, exists_eq_left, Seg.mem_iff,
    Seg.stop, hand, usedBytes]
  omega

theorem staged_iff {size n : Nat} {txPkts : Nat → U32} (h255 : ∀ j < n, (packets j).headerLength.toNat ≤ 255) :
    Staged size n packets txPkts ↔
      (∀ j < n, (⟨(txPkts j).toNat, usedBytes (packets j)⟩ : Seg).Below (2 * size)) ∧
        ∀ i < n, ∀ j < n, i ≠ j →
          (⟨(txPkts i).toNat, usedBytes (packets i)⟩ : Seg).Apart ⟨(txPkts j).toNat, usedBytes (packets j)⟩ := by
  constructor
  · rintro ⟨hin, hap⟩
    refine ⟨fun j hj x hx => ?_, fun i hi j hj hij x hx hx' => ?_⟩
    · obtain ⟨s, hs, hxs⟩ := (mem_givenSegs (h255 j hj)).2 hx
      exact hin j hj s hs x hxs
    · obtain ⟨a, ha, hxa⟩ := (mem_givenSegs (h255 i hi)).2 hx
      obtain ⟨b, hb, hxb⟩ := (mem_givenSegs (h255 j hj)).2 hx'
      exact hap i hi j hj hij a ha b hb x hxa hxb
  · rintro ⟨hin, hap⟩
    refine ⟨fun j hj s hs x hx => ?_, fun i hi j hj hij a ha b hb x hx hx' => ?_⟩
    · exact hin j hj x ((mem_givenSegs (h255 j hj)).1 ⟨s, hs, hx⟩)
    · exact hap i hi j hj hij x ((mem_givenSegs (h255 i hi)).1 ⟨a, ha, hx⟩) ((mem_givenSegs (h255 j hj)).1 ⟨b, hb, hx'⟩)

theorem staged_iff_fits {size n : Nat} {txPkts : Nat → U32} (h255 : ∀ j < n, (packets j).headerLength.toNat ≤ 255)
    (hpos : ∀ j < n, (txPkts j).toNat = stageStart q packets j) : Staged size n packets txPkts ↔ StageFits size n q packets := by
  rw [staged_iff h255]
  have hrow : ∀ {i j}, i < j → j < n →
      (⟨(txPkts i).toNat, usedBytes (packets i)⟩ : Seg).Apart ⟨(txPkts j).toNat, usedBytes (packets j)⟩ := by
    intro i j hij hj
    refine Seg.apart_of_le (Seg.row_stop_le (fun j => ⟨(txPkts j).toNat, usedBytes (packets j)⟩) (fun j hj => ?_) hij hj)
    show (txPkts j).toNat + usedBytes (packets j) ≤ (txPkts (j + 1)).toNat
    rw [hpos j (by omega), hpos (j + 1) hj, stageStart]
    have hceil := le_ceilTo (g := 32) (by norm_num) (stageStart q packets j + max (usedBytes (packets j)) q.frameSizeMin.toNat)
    omega
  constructor
  · rintro ⟨hin, -⟩ j hj hused
    have hstop := Seg.below_iff.1 (hin j hj) hused
    rw [← hpos j hj]
    exact hstop
  · intro hfits
    refine ⟨fun j hj => Seg.below_iff.2 fun hused => ?_, fun i hi j hj hij => ?_⟩
    · have hstop := hfits j hj hused
      rw [← hpos j hj] at hstop
      exact hstop
    · rcases Nat.lt_or_gt_of_ne hij with hlt | hgt
      · exact hrow hlt hj
      · exact (hrow hgt hi).symm

end

/-- A queue with 512 headers and 32 KiB of data in the hardware. -/
def stageQueue : UsState := usStart ⟨511, 0x7FFF, 60, 0x3FFF, fun _ => ⟨0, 0, 0, 0, 0⟩⟩

end NdkSw.Calypte

/-
The time stamp that `pcap_write_packet` takes from the header of a packet (`pcap.c`), with the bytes of the header that are loaded for it.
The members hold the right bits whenever all of them lie inside the header; the load for the seconds goes four bytes beyond them.
-/
import NdkSw.Tools.PcapCapture

namespace NdkSw.Pcap

open Ndp Shared

/-! ## The loads -/

/-- `*((uint64_t*)(pkt->header + o))`, with the bytes it reads. -/
def NdpPacket.load64 (pkt : NdpPacket) (o : Nat) : U64 × List Nat := (pkt.word64 o, List.range' o 8)

/-- `timestamp`, with the bytes of the header that it reads. -/
def timestampLoads (pkt : NdpPacket) (tsMode : Int) (ts : Timespec) : (U32 × U32) × List Nat :=
  if tsMode = tsModeSystem then ((ts.tvSec.setWidth 32, ts.tvNsec.setWidth 32), [])
  else if 0 ≤ tsMode then
    if pkt.headerLength.toNat * 8 < tsMode.toNat + 64 then ((0, 0), [])
    else
      let sec := pkt.load64 (tsMode.toNat / 8 + 4)
      let nsec := pkt.load64 (tsMode.toNat / 8 + 0)
      (((sec.1 >>> (tsMode.toNat % 8)).setWidth 32, (nsec.1 >>> (tsMode.toNat % 8)).setWidth 32), sec.2 ++ nsec.2)
  else ((0, 0), [])

/-! ## What is to hold -/

/-- A bit of the header, the lowest of each byte first. -/
def NdpPacket.headerBit (pkt : NdpPacket) (i : Nat) : Bool := (pkt.header (i / 8)).getLsbD (i % 8)

/-- The seconds and nanoseconds that belong to the header: its bits where there are 64 of them, else zero. -/
structure HeaderTime (pkt : NdpPacket) (tsMode : Nat) (time : U32 × U32) : Prop where
  nsec : tsMode + 64 ≤ pkt.headerLength.toNat * 8 → ∀ j < 32, time.2.getLsbD j = pkt.headerBit (tsMode + j)
  sec : tsMode + 64 ≤ pkt.headerLength.toNat * 8 → ∀ j < 32, time.1.getLsbD j = pkt.headerBit (tsMode + 32 + j)
  short : pkt.headerLength.toNat * 8 < tsMode + 64 → time = (0, 0)

/-- The record header that is written carries the time of the packet header, and nothing behind the packet header is read. -/
structure TimeExtracted (pkt : NdpPacket) (ts : Timespec) (file : List U8) (tsMode : Nat) (trim : U32) : Prop where
  stored : ∃ time rest, (pcapWritePacket pkt ts file tsMode trim).2 = file ++ (le32 time.1 ++ le32 time.2 ++ rest) ∧ HeaderTime pkt tsMode time
  reads : ∀ o ∈ (timestampLoads pkt tsMode ts).2, o < pkt.headerLength.toNat

/-! ## The bits -/

section

variable (pkt : NdpPacket) (ts : Timespec) {tsMode : Nat}

theorem getLsbD_word64 (o : Nat) {i : Nat} (hi : i < 64) : (pkt.word64 o).getLsbD i = pkt.headerBit (8 * o + i) := by
  have hbyte : (8 * o + i) / 8 = o + i / 8 := by omega
  have hbit : (8 * o + i) % 8 = i % 8 := by omega
  rw [NdpPacket.headerBit, hbyte, hbit]
  simp only [NdpPacket.word64, BitVec.getLsbD_append]
  grind

theorem getLsbD_load64 (o : Nat) {s j : Nat} (hs : s < 8) (hj : j < 32) :
    ((pkt.load64 o).1 >>> s |>.setWidth 32).getLsbD j = pkt.headerBit (8 * o + s + j) := by
  have hword : s + j < 64 := by omega
  rw [BitVec.getLsbD_setWidth, BitVec.getLsbD_ushiftRight, decide_eq_true hj, Bool.true_and, Nat.add_assoc]
  exact getLsbD_word64 pkt o hword

theorem mem_load64 (o k : Nat) : k ∈ (pkt.load64 o).2 ↔ o ≤ k ∧ k < o + 8 := List.mem_range'_1

/-! ## The time stamp -/

theorem timestampLoads_fst (tsMode : Int) : (timestampLoads pkt tsMode ts).1 = timestamp pkt tsMode ts := by
  unfold timestampLoads timestamp
  split
  · rfl
  split
  · split
    · rfl
    · rfl
  · rfl

theorem timestampLoads_short (h : pkt.headerLength.toNat * 8 < tsMode + 64) : timestampLoads pkt tsMode ts = ((0, 0), []) := by
  have hsystem : (tsMode : Int) ≠ tsModeSystem := by
    unfold tsModeSystem
    omega
  rw [timestampLoads, if_neg hsystem, if_pos (Int.natCast_nonneg _), Int.toNat_natCast, if_pos h]

theorem timestampLoads_long (h : tsMode + 64 ≤ pkt.headerLength.toNat * 8) :
    timestampLoads pkt tsMode ts =
      ((((pkt.load64 (tsMode / 8 + 4)).1 >>> (tsMode % 8)).setWidth 32, ((pkt.load64 (tsMode / 8)).1 >>> (tsMode % 8)).setWidth 32),
        (pkt.load64 (tsMode / 8 + 4)).2 ++ (pkt.load64 (tsMode / 8)).2) := by
  have hsystem : (tsMode : Int) ≠ tsModeSystem := by
    unfold tsModeSystem
    omega
  rw [timestampLoads, if_neg hsystem, if_pos (Int.natCast_nonneg _), Int.toNat_natCast, if_neg (Nat.not_lt.2 h)]
  rfl

theorem headerTime_timestamp (tsMode : Nat) : HeaderTime pkt tsMode (timestamp pkt tsMode ts) := by
  rw [← timestampLoads_fst]
  have hshift : tsMode % 8 < 8 := Nat.mod_lt _ (by decide)
  constructor
  · intro h j hj
    have hbit : 8 * (tsMode / 8) + tsMode % 8 + j = tsMode + j := by omega
    rw [timestampLoads_long pkt ts h, getLsbD_load64 _ _ hshift hj, hbit]
  · intro h j hj
    have hbit : 8 * (tsMode / 8 + 4) + tsMode % 8 + j = tsMode + 32 + j := by omega
    rw [timestampLoads_long pkt ts h, getLsbD_load64 _ _ hshift hj, hbit]
  · intro h
    rw [timestampLoads_short pkt ts h]

theorem reads_inside_iff (h : tsMode + 64 ≤ pkt.headerLength.toNat * 8) :
    (∀ o ∈ (timestampLoads pkt tsMode ts).2, o < pkt.headerLength.toNat) ↔ tsMode / 8 + 12 ≤ pkt.headerLength.toNat := by
  rw [timestampLoads_long pkt ts h]
  constructor
  · intro hreads
    have hlast := hreads (tsMode / 8 + 11) (List.mem_append_left _ ((mem_load64 pkt _ _).2 ⟨by omega, by omega⟩))
    omega
  · intro hroom o ho
    rcases List.mem_append.1 ho with hsec | hnsec
    · have := (mem_load64 pkt _ _).1 hsec
      omega
    · have := (mem_load64 pkt _ _).1 hnsec
      omega

/-! ## The record -/

theorem snd_fwrite (file bytes : List U8) : (fwrite file bytes).2 = file ++ bytes := by
  unfold fwrite
  split
  case isTrue hnil => rw [hnil, List.append_nil]
  case isFalse => rfl

theorem pcapWritePacket_time (file : List U8) (tsMode : Int) (trim : U32) :
    ∃ rest, (pcapWritePacket pkt ts file tsMode trim).2 =
      file ++ (le32 (timestamp pkt tsMode ts).1 ++ le32 (timestamp pkt tsMode ts).2 ++ rest) := by
  unfold pcapWritePacket
  simp only [fwrite_bytes]
  generalize hwritten : fwrite (file ++ _) _ = written
  obtain ⟨ok, after⟩ := written
  have hafter : after = _ := (congrArg Prod.snd hwritten).symm.trans (snd_fwrite _ _)
  have htime : after = file ++ (le32 (timestamp pkt tsMode ts).1 ++ le32 (timestamp pkt tsMode ts).2 ++ (le32 (min32 pkt.dataLength trim) ++
      le32 pkt.dataLength ++ pkt.data.take (min32 pkt.dataLength trim).toNat)) := by
    rw [hafter]
    simp only [PcaprecHdr.bytes, List.append_assoc]
  cases ok with
  | false => exact ⟨_, htime⟩
  | true => exact ⟨_, htime⟩

/-- The time stamp is taken as it should be if and only if the header is too short for it or goes on for another four bytes: for a header
that ends less than four bytes behind the time stamp, the second load reads what lies behind the header. -/
theorem pcapWritePacket_extracts_iff (file : List U8) (tsMode : Nat) (trim : U32) :
    TimeExtracted pkt ts file tsMode trim ↔
      pkt.headerLength.toNat * 8 < tsMode + 64 ∨ tsMode / 8 + 12 ≤ pkt.headerLength.toNat := by
  obtain ⟨rest, hrest⟩ := pcapWritePacket_time pkt ts file tsMode trim
  constructor
  · intro h
    rcases Nat.lt_or_ge (pkt.headerLength.toNat * 8) (tsMode + 64) with hshort | hlong
    · exact .inl hshort
    · exact .inr ((reads_inside_iff pkt ts hlong).1 h.reads)
  · intro h
    refine ⟨⟨_, rest, hrest, headerTime_timestamp pkt ts tsMode⟩, ?_⟩
    rcases Nat.lt_or_ge (pkt.headerLength.toNat * 8) (tsMode + 64) with hshort | hlong
    · rw [timestampLoads_short pkt ts hshort]
      exact fun _ ho => absurd ho List.not_mem_nil
    · exact (reads_inside_iff pkt ts hlong).2 (h.resolve_left (Nat.not_lt.2 hlong))

end

def stampedPacket : NdpPacket := ⟨1, [0], 8, fun _ => 0, rfl⟩

/-- With the time stamp as the whole header, four bytes behind it are read. -/
theorem pcapWritePacket_reads_behind : ¬ TimeExtracted stampedPacket ⟨0, 0⟩ [] 0 65535 := by
  intro h
  exact absurd (h.reads 11 (by decide)) (by decide)

end NdkSw.Pcap

/-
Writing of PCAP files in the receive mode of `ndptool` (`pcap.c`), and reading them back by the packet sources of the transmit mode. A file
can always be created, and writing to it fails only where there is nothing to write.
-/
import NdkSw.Tools.PcapReplay

namespace NdkSw.Pcap

open Ndp Shared

/-! ## Records -/

/-- The bytes of a 32-bit member. -/
def le32 (x : U32) : List U8 := [x.extractLsb' 0 8, x.extractLsb' 8 8, x.extractLsb' 16 8, x.extractLsb' 24 8]

/-- The bytes of a 16-bit member. -/
def le16 (x : U16) : List U8 := [x.extractLsb' 0 8, x.extractLsb' 8 8]

/-- `struct pcap_hdr_s` as `pcap_write_begin` fills it. -/
def pcapHdr : List U8 := le32 0xa1b23c4d ++ le16 2 ++ le16 4 ++ le32 0 ++ le32 0 ++ le32 65535 ++ le32 1

/-- `struct pcaprec_hdr_s`. -/
structure PcaprecHdr where
  tsSec : U32
  tsNsec : U32
  inclLen : U32
  origLen : U32

def PcaprecHdr.bytes (hdr : PcaprecHdr) : List U8 := le32 hdr.tsSec ++ le32 hdr.tsNsec ++ le32 hdr.inclLen ++ le32 hdr.origLen

/-- `struct ndp_packet` of a received packet; `header` is the memory from the pointer of this name on. -/
structure NdpPacket where
  dataLength : U32
  data : List U8
  headerLength : U16
  header : Nat → U8
  length_data : data.length = dataLength.toNat

/-- `struct timespec` as `clock_gettime` fills it. -/
structure Timespec where
  tvSec : U64
  tvNsec : U64

def tsModeSystem : Int := -2

/-- The 64-bit word at an offset of the header. -/
def NdpPacket.word64 (pkt : NdpPacket) (o : Nat) : U64 :=
  pkt.header (o + 7) ++ pkt.header (o + 6) ++ pkt.header (o + 5) ++ pkt.header (o + 4) ++ pkt.header (o + 3) ++ pkt.header (o + 2) ++
    pkt.header (o + 1) ++ pkt.header o

/-- The two members of the time stamp in `pcap_write_packet`, where the clock shows `ts`. -/
def timestamp (pkt : NdpPacket) (tsMode : Int) (ts : Timespec) : U32 × U32 :=
  if tsMode = tsModeSystem then (ts.tvSec.setWidth 32, ts.tvNsec.setWidth 32)
  else if 0 ≤ tsMode then
    if pkt.headerLength.toNat * 8 < tsMode.toNat + 64 then (0, 0)
    else
      ((pkt.word64 (tsMode.toNat / 8 + 4) >>> (tsMode.toNat % 8)).setWidth 32,
        (pkt.word64 (tsMode.toNat / 8) >>> (tsMode.toNat % 8)).setWidth 32)
  else (0, 0)

/-- `min`. -/
def min32 (a b : U32) : U32 := if a < b then a else b

/-- `fwrite(.., n, 1, file)` of these bytes, which fails where there are none; the file behind it. -/
def fwrite (file bytes : List U8) : Bool × List U8 := if bytes = [] then (false, file) else (true, file ++ bytes)

/-- `pcap_write_begin`. -/
def pcapWriteBegin : Option (List U8) :=
  match fwrite [] pcapHdr with
  | (true, file) => some file
  | (false, _) => none

/-- `pcap_write_packet`. -/
def pcapWritePacket (pkt : NdpPacket) (ts : Timespec) (file : List U8) (tsMode : Int) (trim : U32) : Int × List U8 :=
  let time := timestamp pkt tsMode ts
  let hdr : PcaprecHdr := ⟨time.1, time.2, min32 pkt.dataLength trim, pkt.dataLength⟩
  match fwrite file hdr.bytes with
  | (false, file) => (-1, file)
  | (true, file) =>
    match fwrite file (pkt.data.take hdr.inclLen.toNat) with
    | (false, file) => (-1, file)
    | (true, file) => (0, file)

/-- `pcap_write_packet_burst`; with each packet, what the clock shows as it is written. -/
def pcapWritePacketBurst (tsMode : Int) (trim : U32) : List (NdpPacket × Timespec) → List U8 → Int × List U8
  | [], file => (0, file)
  | (pkt, ts) :: pkts, file =>
    match pcapWritePacket pkt ts file tsMode trim with
    | (ret, file) => if ret ≠ 0 then (ret, file) else pcapWritePacketBurst tsMode trim pkts file

/-- The bursts that `ndp_mode_receive_loop` writes one after the other, until one fails. -/
def writeBursts (tsMode : Int) (trim : U32) : List (List (NdpPacket × Timespec)) → List U8 → Int × List U8
  | [], file => (0, file)
  | burst :: bursts, file =>
    match pcapWritePacketBurst tsMode trim burst file with
    | (ret, file) => if ret ≠ 0 then (ret, file) else writeBursts tsMode trim bursts file

/-- The file of a capture. -/
def capture (tsMode : Int) (trim : U32) (bursts : List (List (NdpPacket × Timespec))) : Int × List U8 :=
  match pcapWriteBegin with
  | none => (-1, [])
  | some file => writeBursts tsMode trim bursts file

/-! ## What is to hold -/

/-- The member `orig_len` of a record header. -/
def origLen (phdr : List U8) : U32 := phdr.getD 15 0 ++ phdr.getD 14 0 ++ phdr.getD 13 0 ++ phdr.getD 12 0

/-- What is kept of a packet. -/
def NdpPacket.kept (pkt : NdpPacket) (trim : U32) : List U8 := pkt.data.take (min pkt.dataLength.toNat trim.toNat)

/-- The capture succeeds, its records carry the lengths of the packets, and both sources deliver what is kept of the packets, all of it as
soon as there are more rounds than packets. -/
structure RoundTrip (tsMode : Int) (trim : U32) (bursts : List (List (NdpPacket × Timespec))) (fuel : Nat) : Prop where
  written : ∃ f : PcapFile, capture tsMode trim bursts = (0, f.bytes) ∧
    f.records.map (fun r => origLen r.phdr) = bursts.flatten.map (·.1.dataLength) ∧
    f.records.map (fun r => (inclLen r.phdr).toNat) = bursts.flatten.map (fun p => min p.1.dataLength.toNat trim.toNat)
  delivered : ∀ doCache rounds, ∃ out, transmit fuel (capture tsMode trim bursts).2 1 doCache rounds = some out ∧
    out.items <+: bursts.flatten.map (·.1.kept trim) ∧
    (bursts.flatten.length < rounds.length → out = ⟨bursts.flatten.map (·.1.kept trim), true⟩)

/-! ## The bytes -/

theorem append_extract (x : U32) : x.extractLsb' 24 8 ++ x.extractLsb' 16 8 ++ x.extractLsb' 8 8 ++ x.extractLsb' 0 8 = x := by
  ext i hi
  simp only [BitVec.getElem_append, BitVec.getElem_extractLsb']
  grind

theorem length_bytes (hdr : PcaprecHdr) : hdr.bytes.length = pcaprecHdrSize := rfl

theorem fwrite_bytes (file : List U8) (hdr : PcaprecHdr) : fwrite file hdr.bytes = (true, file ++ hdr.bytes) :=
  if_neg (List.ne_nil_of_length_pos (by rw [length_bytes]; decide))

theorem inclLen_bytes (hdr : PcaprecHdr) : inclLen hdr.bytes = hdr.inclLen := append_extract hdr.inclLen

theorem origLen_bytes (hdr : PcaprecHdr) : origLen hdr.bytes = hdr.origLen := append_extract hdr.origLen

theorem toNat_min32 (a b : U32) : (min32 a b).toNat = min a.toNat b.toNat := by
  unfold min32
  split
  case isTrue h => exact (Nat.min_eq_left (Nat.le_of_lt (BitVec.lt_def.1 h))).symm
  case isFalse h => exact (Nat.min_eq_right (Nat.le_of_not_lt (mt BitVec.lt_def.2 h))).symm

section

variable (tsMode : Int) {trim : U32}

theorem length_kept (pkt : NdpPacket) : (pkt.kept trim).length = min pkt.dataLength.toNat trim.toNat := by
  rw [NdpPacket.kept, List.length_take, pkt.length_data]
  omega

/-! ## Writing -/

/-- The records of these packets. -/
structure Written (trim : U32) (pkts : List (NdpPacket × Timespec)) (records : List Record) : Prop where
  data : records.map Record.data = pkts.map (·.1.kept trim)
  orig : records.map (fun r => origLen r.phdr) = pkts.map (·.1.dataLength)
  incl : records.map (fun r => (inclLen r.phdr).toNat) = pkts.map (fun p => min p.1.dataLength.toNat trim.toNat)

theorem Written.append {pkts pkts' : List (NdpPacket × Timespec)} {records records' : List Record} (h : Written trim pkts records)
    (h' : Written trim pkts' records') : Written trim (pkts ++ pkts') (records ++ records') := by
  refine ⟨?_, ?_, ?_⟩
  · rw [List.map_append, List.map_append, h.data, h'.data]
  · rw [List.map_append, List.map_append, h.orig, h'.orig]
  · rw [List.map_append, List.map_append, h.incl, h'.incl]

/-- A packet is written as one record. -/
theorem pcapWritePacket_spec (pkt : NdpPacket) (ts : Timespec) (file : List U8) (hpkt : 1 ≤ pkt.dataLength.toNat)
    (htrim : 1 ≤ trim.toNat) : ∃ r : Record, pcapWritePacket pkt ts file tsMode trim = (0, file ++ r.bytes) ∧ Written trim [(pkt, ts)] [r] := by
  let hdr : PcaprecHdr :=
    ⟨(timestamp pkt tsMode ts).1, (timestamp pkt tsMode ts).2, min32 pkt.dataLength trim, pkt.dataLength⟩
  have hincl : (inclLen hdr.bytes).toNat = min pkt.dataLength.toNat trim.toNat := by
    rw [inclLen_bytes, toNat_min32]
  have hlen : (pkt.kept trim).length = min pkt.dataLength.toNat trim.toNat := length_kept pkt
  have hpos : 0 < (pkt.kept trim).length := by
    rw [hlen]
    omega
  have hdata : pkt.data.take hdr.inclLen.toNat = pkt.kept trim := by
    rw [← inclLen_bytes hdr, hincl, NdpPacket.kept]
  have hne : pkt.kept trim ≠ [] := List.ne_nil_of_length_pos hpos
  refine ⟨⟨hdr.bytes, pkt.kept trim, length_bytes hdr, hincl.trans hlen.symm, hpos⟩, ?_, rfl, ?_, ?_⟩
  · have hrest : fwrite (file ++ hdr.bytes) (pkt.kept trim) = (true, file ++ hdr.bytes ++ pkt.kept trim) := if_neg hne
    show (match fwrite file hdr.bytes with
      | (false, file) => (-1, file)
      | (true, file) =>
        match fwrite file (pkt.data.take hdr.inclLen.toNat) with
        | (false, file) => (-1, file)
        | (true, file) => (0, file)) = _
    rw [hdata, fwrite_bytes]
    dsimp only
    rw [hrest, List.append_assoc]
    rfl
  · exact congrArg (fun len => [len]) (origLen_bytes hdr)
  · exact congrArg (fun len => [len]) hincl

theorem pcapWritePacketBurst_spec (htrim : 1 ≤ trim.toNat) : ∀ (pkts : List (NdpPacket × Timespec)) (file : List U8),
    (∀ p ∈ pkts, 1 ≤ p.1.dataLength.toNat) → ∃ records,
      pcapWritePacketBurst tsMode trim pkts file = (0, file ++ (records.map Record.bytes).flatten) ∧ Written trim pkts records := by
  intro pkts
  induction pkts with
  | nil => exact fun file _ => ⟨[], by rw [List.map_nil, List.flatten_nil, List.append_nil]; rfl, rfl, rfl, rfl⟩
  | cons p pkts ih =>
    intro file hpkts
    obtain ⟨pkt, ts⟩ := p
    obtain ⟨r, hwrite, hr⟩ := pcapWritePacket_spec tsMode pkt ts file (hpkts _ List.mem_cons_self) htrim
    obtain ⟨records, hrest, hrecords⟩ := ih (file ++ r.bytes) fun q hq => hpkts q (List.mem_cons_of_mem _ hq)
    refine ⟨r :: records, ?_, hr.append hrecords⟩
    rw [pcapWritePacketBurst, hwrite]
    dsimp only
    rw [if_neg (fun h => h rfl), hrest, List.map_cons, List.flatten_cons, List.append_assoc]

theorem writeBursts_spec (htrim : 1 ≤ trim.toNat) : ∀ (bursts : List (List (NdpPacket × Timespec))) (file : List U8),
    (∀ burst ∈ bursts, ∀ p ∈ burst, 1 ≤ p.1.dataLength.toNat) → ∃ records,
      writeBursts tsMode trim bursts file = (0, file ++ (records.map Record.bytes).flatten) ∧ Written trim bursts.flatten records := by
  intro bursts
  induction bursts with
  | nil => exact fun file _ => ⟨[], by rw [List.map_nil, List.flatten_nil, List.append_nil]; rfl, rfl, rfl, rfl⟩
  | cons burst bursts ih =>
    intro file hpkts
    obtain ⟨first, hwrite, hfirst⟩ := pcapWritePacketBurst_spec tsMode htrim burst file (hpkts _ List.mem_cons_self)
    obtain ⟨records, hrest, hrecords⟩ := ih (file ++ (first.map Record.bytes).flatten) fun b hb => hpkts b (List.mem_cons_of_mem _ hb)
    refine ⟨first ++ records, ?_, hfirst.append hrecords⟩
    rw [writeBursts, hwrite]
    dsimp only
    rw [if_neg (fun h => h rfl), hrest, List.map_append, List.flatten_append, List.append_assoc]

theorem capture_spec (htrim : 1 ≤ trim.toNat) (bursts : List (List (NdpPacket × Timespec)))
    (hpkts : ∀ burst ∈ bursts, ∀ p ∈ burst, 1 ≤ p.1.dataLength.toNat) :
    ∃ f : PcapFile, capture tsMode trim bursts = (0, f.bytes) ∧ Written trim bursts.flatten f.records := by
  obtain ⟨records, hwrite, hrecords⟩ := writeBursts_spec tsMode htrim bursts pcapHdr hpkts
  exact ⟨⟨pcapHdr, records, rfl⟩, hwrite, hrecords⟩

/-! ## Reading back -/

theorem repeated_one {α : Type} (l : List α) (n : Nat) : repeated l 1 n = l[n]? := by
  unfold repeated
  by_cases hn : n < l.length
  · rw [if_pos (.inr (by omega)), Nat.mod_eq_of_lt hn]
  · rw [if_neg (by omega), List.getElem?_eq_none (Nat.le_of_not_lt hn)]

theorem replays_once {α : Type} {l : List α} {rounds : Nat} {out : Delivery α} (h : Replays (repeated l 1) rounds out) :
    out.items <+: l ∧ (l.length < rounds → out = ⟨l, true⟩) := by
  have hitems : ∀ n < out.items.length, l[n]? = out.items[n]? := fun n hn => (repeated_one l n).symm.trans (h.items n hn)
  have hle : out.items.length ≤ l.length := by
    by_contra hlong
    have hlast := hitems l.length (by omega)
    rw [List.getElem?_eq_none (Nat.le_refl _), List.getElem?_eq_getElem (by omega)] at hlast
    cases hlast
  have hstart : out.items <+: l := by
    rw [List.prefix_iff_getElem?]
    intro n hn
    rw [hitems n hn, List.getElem?_eq_getElem hn]
  refine ⟨hstart, fun hlong => ?_⟩
  have hend : out.ended = true := by
    by_contra hnot
    have hprogress := h.progress (Bool.not_eq_true _ ▸ hnot)
    omega
  have hall : l.length ≤ out.items.length := List.getElem?_eq_none_iff.1 ((repeated_one l _).symm.trans (h.complete hend))
  have hsame : out.items = l := hstart.eq_of_length (by omega)
  cases out
  subst hsame
  exact congrArg _ hend

/-- What is captured is what is replayed. -/
theorem capture_round_trip (tsMode : Int) (trim : U32) (bursts : List (List (NdpPacket × Timespec))) (fuel : Nat)
    (htrim : 1 ≤ trim.toNat) (hpkts : ∀ burst ∈ bursts, ∀ p ∈ burst, 1 ≤ p.1.dataLength.toNat) (hfuel : bursts.flatten.length < fuel) :
    RoundTrip tsMode trim bursts fuel := by
  obtain ⟨f, hfile, hf⟩ := capture_spec tsMode htrim bursts hpkts
  have hcount : f.records.length = bursts.flatten.length := by
    have := congrArg List.length hf.data
    rwa [List.length_map, List.length_map] at this
  refine ⟨⟨f, hfile, hf.orig, hf.incl⟩, fun doCache rounds => ?_⟩
  obtain ⟨out, hrun, hout⟩ := transmit_replays f 1 (hcount.trans_lt hfuel) doCache rounds
  obtain ⟨hstart, hall⟩ := replays_once hout
  rw [hfile]
  refine ⟨out, hrun, ?_, fun hrounds => ?_⟩
  · rw [← hf.data]
    exact hstart
  · rw [← hf.data]
    exact hall (by rwa [length_packets, hcount])

end

def threeBytes : NdpPacket := ⟨3, [1, 2, 3], 0, fun _ => 0, rfl⟩

def oneByte : NdpPacket := ⟨1, [4], 0, fun _ => 0, rfl⟩

theorem three_bytes_round_trip : RoundTrip (-1) 2 [[(threeBytes, ⟨0, 0⟩)], [], [(oneByte, ⟨1, 5⟩)]] 3 :=
  capture_round_trip (-1) 2 [[(threeBytes, ⟨0, 0⟩)], [], [(oneByte, ⟨1, 5⟩)]] 3 (by decide) (by simp [threeBytes, oneByte]) (by decide)

end NdkSw.Pcap

/-
The structured packets of `ndptool` (`ndptool/structured_packet.h`): the record, the packet generated from it on a little-endian host, the
record made again from a data block, and the check. The check accepts the bytes that were generated and no others, but for the timestamp.
-/
import NdkSw.Bits.Bytes
import NdkSw.Tools.LoopbackHw

namespace NdkSw.Tools.Sp

open Ndp Bits

/-! ## The record -/

/-- `structured_packet_t`. -/
structure StructuredPacket where
  queueId : U16
  size : U16
  size32 : U16
  sizeHash : U8
  burstId : U16
  packetId : U8
  utime : U64
  dataBlock : U32
  deriving DecidableEq, Repr

/-- `htobe64`. -/
def swap64 (x : U64) : U64 := swap32 (x.extractLsb' 0 32) ++ swap32 (x.extractLsb' 32 32)

/-- `sp_init`. -/
def spInit (queueId size burstId : U16) (packetId : U8) (utime : U64) : StructuredPacket :=
  let sizeHash := getSizeHash size
  let block : U32 := 0
  let block := block ||| sizeHash.setWidth 32
  let block := block <<< 16
  let block := block ||| burstId.setWidth 32
  let block := block <<< 8
  let block := block ||| packetId.setWidth 32
  { queueId, size, size32 := getSize32 size, sizeHash, burstId, packetId, utime := swap64 utime, dataBlock := swap32 block }

/-- `sp_reconstruct`. -/
def spReconstruct (dataBlock : U32) (queueId size : U16) (utimeBlock : U64) : StructuredPacket :=
  let conv := swap32 dataBlock
  let packetId := conv.setWidth 8
  let conv := conv >>> 8
  let burstId := conv.setWidth 16
  let conv := conv >>> 16
  let sizeHash := conv.setWidth 8
  { queueId, size, size32 := getSize32 size, sizeHash, burstId, packetId, utime := utimeBlock, dataBlock }

/-! ## The packet -/

/-- The memory from the packet's data on. -/
abbrev Data := Nat → U8

/-- `wmemset`: some words that are all the same. -/
def wmemset (data : Data) (c : U32) (n : Nat) : Data := fun o => if o < 4 * n then byte c (o % 4) else data o

/-- A store of 64 bits to the start. -/
def store64 (data : Data) (x : U64) : Data := fun o => if o < 8 then byte x o else data o

/-- `sp_generate_data_fast`. -/
def spGenerateDataFast (latency : Bool) (sp : StructuredPacket) (data : Data) : Data :=
  let data := wmemset data sp.dataBlock sp.size32.toNat
  if latency then store64 data sp.utime else data

/-- The loop over the whole words: where the read pointer stands behind it; none if a word differs. The index starts where the pointer
does. -/
def checkWords (sp : StructuredPacket) (data : Data) : Nat → Nat → Option Nat
  | 0, rdptr => some rdptr
  | left + 1, rdptr => if word32 data (4 * rdptr) ≠ sp.dataBlock then none else checkWords sp data left (rdptr + 1)

/-- `sp_check_data_fast`. -/
def spCheckDataFast (latency : Bool) (sp : StructuredPacket) (data : Data) : Int :=
  let size32Down := sp.size.toNat / 4
  let invalidBytesCnt : U8 := BitVec.ofInt 8 (4 * sp.size32.toNat - sp.size.toNat)
  if sp.size = 0 then -1
  else if sp.sizeHash ≠ getSizeHash sp.size then -1
  else
    match checkWords sp data (size32Down - firstWord latency) (firstWord latency) with
    | none => -1
    | some rdptr =>
      if invalidBytesCnt ≠ 0 then
        if word32 data (4 * rdptr) <<< (8 * invalidBytesCnt.toNat) ≠ sp.dataBlock <<< (8 * invalidBytesCnt.toNat) then -1 else 0
      else 0

/-! ## What the packets are for -/

/-- The byte is one of the packet and not of the timestamp. -/
def Checked (latency : Bool) (size : U16) (o : Nat) : Prop := o < size.toNat ∧ (latency = true → 8 ≤ o)

/-- The record has the hash of the size, the ids and the size that were asked for. -/
structure StructuredPacket.Is (sp : StructuredPacket) (size burstId : U16) (packetId : U8) : Prop where
  sizeHash : sp.sizeHash = getSizeHash size
  ids : sp.burstId = burstId ∧ sp.packetId = packetId
  size : sp.size = size

/-- What was generated as `sp` into `data` can be told from its data block and its size, whatever queue and time the record that is made
again is given: the block stands in every word behind the timestamp, both records are those that were asked for, the packet is accepted,
and no other one is. -/
structure Recognised (latency : Bool) (size burstId : U16) (packetId : U8) (sp : StructuredPacket) (data : Data) : Prop where
  asked : sp.Is size burstId packetId
  block : ∀ i < sp.size32.toNat, (latency = true → 2 ≤ i) → word32 data (4 * i) = sp.dataBlock
  again : ∀ queueId utime, (spReconstruct sp.dataBlock queueId size utime).Is size burstId packetId
  accepted : ∀ queueId utime, spCheckDataFast latency (spReconstruct sp.dataBlock queueId size utime) data = 0
  rejected : ∀ queueId utime received, (∃ o, Checked latency size o ∧ received o ≠ data o) →
    spCheckDataFast latency (spReconstruct sp.dataBlock queueId size utime) received ≠ 0

/-! ## The fields of a data block -/

theorem swap32_swap32 (x : U32) : swap32 (swap32 x) = x := by
  unfold swap32
  ext i hi
  simp only [BitVec.getElem_append, BitVec.getLsbD_append, BitVec.getElem_extractLsb', BitVec.getLsbD_extractLsb']
  grind

/-- `sp_init` packs the fields side by side. -/
theorem spInit_dataBlock (queueId size burstId : U16) (packetId : U8) (utime : U64) :
    (spInit queueId size burstId packetId utime).dataBlock = dataBlock size burstId packetId := by
  refine congrArg swap32 ?_
  ext i hi
  simp only [BitVec.getElem_or, BitVec.getElem_shiftLeft, BitVec.getElem_setWidth]
  grind

theorem reconstruct_dataBlock (queueId size burstId : U16) (packetId : U8) (utime : U64) :
    spReconstruct (dataBlock size burstId packetId) queueId size utime =
      { queueId, size, size32 := getSize32 size, sizeHash := getSizeHash size, burstId, packetId, utime,
        dataBlock := dataBlock size burstId packetId } := by
  unfold spReconstruct dataBlock
  rw [swap32_swap32]
  have hpacket : (getSizeHash size ++ burstId ++ packetId).setWidth 8 = packetId := by
    ext i hi
    simp only [BitVec.getElem_setWidth, BitVec.getLsbD_append]
    grind
  have hburst : ((getSizeHash size ++ burstId ++ packetId) >>> 8).setWidth 16 = burstId := by
    ext i hi
    simp only [BitVec.getElem_setWidth, BitVec.getLsbD_ushiftRight, BitVec.getLsbD_append]
    grind
  have hhash : ((getSizeHash size ++ burstId ++ packetId) >>> 8 >>> 16).setWidth 8 = getSizeHash size := by
    ext i hi
    simp only [BitVec.getElem_setWidth, BitVec.getLsbD_ushiftRight, BitVec.getLsbD_append]
    grind
  dsimp only
  rw [hpacket, hburst, hhash]

/-! ## The check -/

section

variable {latency : Bool} {sp : StructuredPacket} {data : Data}

theorem checkWords_eq_some {left rdptr p : Nat} : checkWords sp data left rdptr = some p ↔
    p = rdptr + left ∧ ∀ i, rdptr ≤ i → i < rdptr + left → word32 data (4 * i) = sp.dataBlock := by
  induction left generalizing rdptr with
  | zero =>
    rw [checkWords, Option.some_inj]
    constructor
    · rintro rfl
      exact ⟨rfl, fun i hle hlt => by omega⟩
    · rintro ⟨rfl, _⟩
      rfl
  | succ left ih =>
    rw [checkWords]
    by_cases hword : word32 data (4 * rdptr) = sp.dataBlock
    · rw [if_neg fun h => h hword, ih]
      constructor
      · rintro ⟨rfl, hwords⟩
        refine ⟨by omega, fun i hle hlt => ?_⟩
        rcases Nat.eq_or_lt_of_le hle with rfl | hle
        · exact hword
        · exact hwords i hle (by omega)
      · rintro ⟨rfl, hwords⟩
        exact ⟨by omega, fun i hle hlt => hwords i (by omega) (by omega)⟩
    · rw [if_pos hword]
      constructor
      · exact nofun
      · rintro ⟨_, hwords⟩
        exact absurd (hwords rdptr (Nat.le_refl _) (by omega)) hword

/-- `invalid_bytes_cnt` is what the last word has too many. -/
theorem invalidBytes_toNat (h : sp.size32 = getSize32 sp.size) :
    (BitVec.ofInt 8 (4 * sp.size32.toNat - sp.size.toNat)).toNat = 4 * ((sp.size.toNat + 3) / 4) - sp.size.toNat := by
  have hlt := sp.size.isLt
  rw [h, getSize32, BitVec.toNat_ofNat, Nat.mod_eq_of_lt (by omega), BitVec.toNat_ofInt]
  omega

/-- The check passes if the size is that of the hash, the whole words are right and the lower bytes of the last word are. -/
theorem check_iff_words (hsize : sp.size32 = getSize32 sp.size) :
    spCheckDataFast latency sp data = 0 ↔
      sp.size ≠ 0 ∧ sp.sizeHash = getSizeHash sp.size ∧
        (∀ i < sp.size.toNat / 4, firstWord latency ≤ i → word32 data (4 * i) = sp.dataBlock) ∧
        (4 * ((sp.size.toNat + 3) / 4) - sp.size.toNat ≠ 0 →
          word32 data (4 * max (firstWord latency) (sp.size.toNat / 4)) <<< (8 * (4 * ((sp.size.toNat + 3) / 4) - sp.size.toNat)) =
            sp.dataBlock <<< (8 * (4 * ((sp.size.toNat + 3) / 4) - sp.size.toNat))) := by
  unfold spCheckDataFast
  dsimp only
  by_cases hzero : sp.size = 0
  · rw [if_pos hzero]
    exact ⟨nofun, fun h => absurd hzero h.1⟩
  rw [if_neg hzero]
  by_cases hhash : sp.sizeHash = getSizeHash sp.size
  swap
  · rw [if_pos hhash]
    exact ⟨nofun, fun h => absurd h.2.1 hhash⟩
  rw [if_neg fun h => h hhash]
  have hinvalid := invalidBytes_toNat hsize
  cases hwords : checkWords sp data (sp.size.toNat / 4 - firstWord latency) (firstWord latency) with
  | none =>
    -- Some whole word is wrong.
    refine ⟨nofun, fun h => ?_⟩
    have hsome := (@checkWords_eq_some sp data (sp.size.toNat / 4 - firstWord latency) (firstWord latency) _).2
      ⟨rfl, fun i hle hlt => h.2.2.1 i (by omega) hle⟩
    rw [hwords] at hsome
    exact nomatch hsome
  | some rdptr =>
    obtain ⟨hptr, hwhole⟩ := checkWords_eq_some.1 hwords
    have hmax : rdptr = max (firstWord latency) (sp.size.toNat / 4) := by omega
    have hright : ∀ i < sp.size.toNat / 4, firstWord latency ≤ i → word32 data (4 * i) = sp.dataBlock :=
      fun i hi hle => hwhole i hle (by omega)
    dsimp only
    by_cases hlast : BitVec.ofInt 8 (4 * sp.size32.toNat - sp.size.toNat) = 0
    · rw [if_neg fun h => h hlast]
      refine ⟨fun _ => ⟨hzero, hhash, hright, fun h => absurd ?_ h⟩, fun _ => rfl⟩
      rw [← hinvalid, hlast]
      rfl
    · rw [if_pos hlast, hinvalid, ← hmax]
      have hne : 4 * ((sp.size.toNat + 3) / 4) - sp.size.toNat ≠ 0 := by
        rw [← hinvalid]
        exact fun h => hlast (BitVec.eq_of_toNat_eq h)
      constructor
      · intro h
        refine ⟨hzero, hhash, hright, fun _ => ?_⟩
        by_contra hword
        rw [if_pos hword] at h
        exact nomatch h
      · exact fun h => if_neg fun hword => hword (h.2.2.2 hne)

/-- In bytes: those of the packet behind the timestamp are the bytes of the data block, over and over. -/
theorem check_iff_bytes (hsize : sp.size32 = getSize32 sp.size) (hlatency : latency = true → 8 ≤ sp.size.toNat) :
    spCheckDataFast latency sp data = 0 ↔
      sp.size ≠ 0 ∧ sp.sizeHash = getSizeHash sp.size ∧ ∀ o, Checked latency sp.size o → data o = byte sp.dataBlock (o % 4) := by
  rw [check_iff_words hsize]
  refine and_congr_right fun _ => and_congr_right fun _ => ?_
  have hfirst : firstWord latency ≤ sp.size.toNat / 4 := by
    cases latency with
    | false => exact Nat.zero_le _
    | true =>
      have h8 := hlatency rfl
      show 2 ≤ sp.size.toNat / 4
      omega
  have hword : ∀ o, (latency = true → 8 ≤ o) ↔ firstWord latency ≤ o / 4 := by
    intro o
    cases latency with
    | false => exact ⟨fun _ => Nat.zero_le _, nofun⟩
    | true =>
      show (true = true → 8 ≤ o) ↔ 2 ≤ o / 4
      simp only [forall_const]
      omega
  rw [max_eq_right hfirst, word32_shiftLeft_eq_iff]
  constructor
  · rintro ⟨hwhole, hlast⟩ o ⟨ho, hbehind⟩
    have hdiv : 4 * (o / 4) + o % 4 = o := Nat.div_add_mod o 4
    by_cases hlt : o / 4 < sp.size.toNat / 4
    · have hbyte := word32_eq_iff.1 (hwhole (o / 4) hlt ((hword o).1 hbehind)) (o % 4) (Nat.mod_lt _ (by decide))
      rwa [hdiv] at hbyte
    · -- The byte stands in the last word, below those that are shifted out.
      have heq : sp.size.toNat / 4 = o / 4 := by omega
      have hbyte := hlast (by omega) (o % 4) (by omega)
      rwa [heq, hdiv] at hbyte
  · intro h
    refine ⟨fun i hi hle => word32_eq_iff.2 fun j hj => ?_, fun hne j hj => ?_⟩
    · rw [h (4 * i + j) ⟨by omega, (hword _).2 (by omega)⟩, Nat.mul_add_mod, Nat.mod_eq_of_lt hj]
    · rw [h (4 * (sp.size.toNat / 4) + j) ⟨by omega, (hword _).2 (by omega)⟩, Nat.mul_add_mod, Nat.mod_eq_of_lt (by omega)]

end

theorem loopback_check (latency : Bool) (p : RxPacket) (queueId : U16) (utime : U64) :
    (NdkSw.Tools.spCheckDataFast latency p).2 = true ↔
      spCheckDataFast latency (spReconstruct (p.word 2) queueId p.size utime) p.mem = 0 := by
  have hhash : (swap32 (p.word 2)).extractLsb' 24 8 = (spReconstruct (p.word 2) queueId p.size utime).sizeHash := by
    show _ = ((swap32 (p.word 2)) >>> 8 >>> 16).setWidth 8
    ext i hi
    simp only [BitVec.getElem_extractLsb', BitVec.getElem_setWidth, BitVec.getLsbD_ushiftRight]
    grind
  rw [(spCheck_spec latency p).1, check_iff_words rfl, RxPacket.Genuine, RxPacket.HeadGenuine, hhash, invalidBytes_eq, and_assoc, and_assoc]
  rfl

/-! ## Generated packets -/

section

variable (latency : Bool) (sp : StructuredPacket) (before : Data)

theorem generated_byte {o : Nat} (ho : o < 4 * sp.size32.toNat) (hbehind : latency = true → 8 ≤ o) :
    spGenerateDataFast latency sp before o = byte sp.dataBlock (o % 4) := by
  have hset : wmemset before sp.dataBlock sp.size32.toNat o = byte sp.dataBlock (o % 4) := if_pos ho
  cases latency with
  | false => exact hset
  | true =>
    show store64 _ sp.utime o = _
    rw [store64, if_neg (Nat.not_lt.2 (hbehind rfl)), hset]

theorem generated_word {i : Nat} (hi : i < sp.size32.toNat) (hbehind : latency = true → 2 ≤ i) :
    word32 (spGenerateDataFast latency sp before) (4 * i) = sp.dataBlock := by
  refine word32_eq_iff.2 fun j hj => ?_
  have hbehind' : latency = true → 8 ≤ 4 * i + j := fun h => by
    have h2 := hbehind h
    omega
  rw [generated_byte latency sp before (by omega) hbehind', Nat.mul_add_mod, Nat.mod_eq_of_lt hj]

end

/-- A packet of at least one byte, with the latency flag of at least eight, is recognised. -/
theorem generated_recognised (latency : Bool) (queueId size burstId : U16) (packetId : U8) (utime : U64) (before : Data)
    (hsize : 1 ≤ size.toNat) (hlatency : latency = true → 8 ≤ size.toNat) :
    Recognised latency size burstId packetId (spInit queueId size burstId packetId utime)
      (spGenerateDataFast latency (spInit queueId size burstId packetId utime) before) := by
  have hnonzero : size ≠ 0 := by
    rintro rfl
    exact absurd hsize (by decide)
  have hsize32 : size.toNat ≤ 4 * (getSize32 size).toNat := by
    have hlt := size.isLt
    rw [getSize32, BitVec.toNat_ofNat, Nat.mod_eq_of_lt (by omega)]
    omega
  have hagain : ∀ q t, spReconstruct (spInit queueId size burstId packetId utime).dataBlock q size t =
      { queueId := q, size, size32 := getSize32 size, sizeHash := getSizeHash size, burstId, packetId, utime := t,
        dataBlock := (spInit queueId size burstId packetId utime).dataBlock } := by
    intro q t
    rw [spInit_dataBlock]
    exact reconstruct_dataBlock q size burstId packetId t
  have hbytes : ∀ o, Checked latency size o → spGenerateDataFast latency (spInit queueId size burstId packetId utime) before o =
      byte (spInit queueId size burstId packetId utime).dataBlock (o % 4) :=
    fun o ho => generated_byte latency _ before (Nat.lt_of_lt_of_le ho.1 hsize32) ho.2
  exact
    { asked := ⟨rfl, ⟨rfl, rfl⟩, rfl⟩
      block := fun i hi hbehind => generated_word latency _ before hi hbehind
      again := fun q t => by
        rw [hagain]
        exact ⟨rfl, ⟨rfl, rfl⟩, rfl⟩
      accepted := fun q t => by
        rw [hagain]
        exact (check_iff_bytes rfl hlatency).2 ⟨hnonzero, rfl, hbytes⟩
      rejected := fun q t received hdiffers => by
        obtain ⟨o, ho, hne⟩ := hdiffers
        rw [hagain]
        intro hpasses
        have hsame := ((check_iff_bytes rfl hlatency).1 hpasses).2.2 o ho
        exact hne (hsame.trans (hbytes o ho).symm) }

theorem generated_recognised_sixty :
    Recognised true 60 7 2 (spInit 3 60 7 2 1000) (spGenerateDataFast true (spInit 3 60 7 2 1000) fun _ => 0) :=
  generated_recognised true 3 60 7 2 1000 (fun _ => 0) (by decide) fun _ => by decide

end NdkSw.Tools.Sp

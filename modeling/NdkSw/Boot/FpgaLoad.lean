/-
Loading an image into the flash through the BMC (`nc_bw_bmc_fpga_load_ext`): the image is cut into chunks, and each goes out in a
message with a flag that says whether it is the first, the last or one between them.
-/
import NdkSw.Boot.BmcSpi

namespace NdkSw.Boot

open Ndp Shared

/-! ## The loop -/

/-- `nc_bw_bmc_min`, whose arguments are signed. -/
def bmcMin (a b : U32) : U32 := if a.toInt < b.toInt then a else b

/-- What a transfer leaves: its result, the messages and the offsets that the callback gets. -/
structure LoadRun where
  ret : Int
  sent : List (List U8)
  progress : List U32
  deriving DecidableEq, Repr

/-- The fields of a message. -/
def loadFields (flag : U8) (flashOffset dataLength : U32) (payload : List U8) : List (List U8) :=
  [pldmVndr 0x17, [flag], le32 flashOffset, le16 (dataLength.setWidth 16), payload]

section

variable (data : Nat → U8) (len flashOffset : U32) (replies : Nat → Reply)

/-- The loop, from message `k` on; no run if it needs more rounds. -/
def loadLoop : Nat → Nat → BwBmc → U32 → U32 → Option LoadRun
  | 0, _, _, _, _ => none
  | fuel + 1, k, spi, offset, dataLength =>
    let dataLength := bmcMin (len - offset) dataLength
    let flag : U8 :=
      if offset = 0 then if len = dataLength + offset then 0x05 else 0x00
      else if len = dataLength + offset then 0x04 else 0x01
    let spi := putMessage spi (loadFields flag flashOffset dataLength (slice data offset.toNat dataLength.toNat))
    let r := exchange spi (replies k)
    if r.1 ≠ 0 then some ⟨r.1, [spi.message], []⟩
    else
      let offset := offset + dataLength
      if offset = len then some ⟨0, [spi.message], [offset]⟩
      else
        (loadLoop fuel (k + 1) r.2 offset dataLength).map fun run =>
          { run with sent := spi.message :: run.sent, progress := offset :: run.progress }

/-- `nc_bw_bmc_fpga_load_ext`. -/
def fpgaLoadExt (fuel : Nat) (spi : BwBmc) : Option LoadRun :=
  (loadLoop data len flashOffset replies fuel 0 spi 0 512).map fun run => { run with progress := 0 :: run.progress }

end

/-! ## Frames -/

/-- A message as the BMC takes it apart. -/
structure LoadFrame where
  flag : U8
  flashOffset : U32
  length : BitVec 16
  payload : List U8
  deriving DecidableEq, Repr

def LoadFrame.encode (f : LoadFrame) : List U8 :=
  mctpHeader ++ pldmVndr 0x17 ++ [f.flag] ++ le32 f.flashOffset ++ le16 f.length ++ f.payload

/-- The frames carry an image: chunks of at most 512 bytes with their lengths, and the flags of a transfer. -/
structure Framed (flashOffset : U32) (frames : List LoadFrame) (image : List U8) : Prop where
  payload : (frames.map LoadFrame.payload).flatten = image
  length : ∀ f ∈ frames, f.payload.length ≤ 512 ∧ f.length.toNat = f.payload.length ∧ f.flashOffset = flashOffset
  flags : frames.map LoadFrame.flag = [0x05] ∨ ∃ k, frames.map LoadFrame.flag = 0x00 :: (List.replicate k 0x01 ++ [0x04])

/-- The flag of chunk `i` of `n`. -/
def flagOf (n i : Nat) : U8 := if n = 1 then 0x05 else if i = 0 then 0x00 else if i + 1 = n then 0x04 else 0x01

/-- The frame of chunk `i`. -/
def chunkFrame (data : Nat → U8) (len : Nat) (flashOffset : U32) (i : Nat) : LoadFrame where
  flag := flagOf (chunkCount 512 len) i
  flashOffset := flashOffset
  length := BitVec.ofNat 16 (chunkLen 512 len i)
  payload := slice data (512 * i) (chunkLen 512 len i)

/-- The frames of an image. -/
def loadFrames (data : Nat → U8) (len : Nat) (flashOffset : U32) : List LoadFrame :=
  (List.range (chunkCount 512 len)).map (chunkFrame data len flashOffset)

/-- The flags of `n` frames. -/
theorem map_flagOf (n : Nat) : ∃ k, (List.range (n + 2)).map (flagOf (n + 2)) = 0x00 :: (List.replicate k 0x01 ++ [0x04]) := by
  refine ⟨n, ?_⟩
  have hmid : (List.range n).map (fun i => flagOf (n + 2) (i + 1)) = List.replicate n 0x01 := by
    rw [List.eq_replicate_iff]
    constructor
    · simp
    · intro b hb
      obtain ⟨i, hi, rfl⟩ := List.mem_map.1 hb
      have hi := List.mem_range.1 hi
      rw [flagOf, if_neg (by omega), if_neg (by omega), if_neg (by omega)]
  have hlast : flagOf (n + 2) (n + 1) = 0x04 := by
    rw [flagOf, if_neg (by omega), if_neg (by omega), if_pos rfl]
  have hfirst : flagOf (n + 2) 0 = 0x00 := by
    rw [flagOf, if_neg (by omega), if_pos rfl]
  rw [List.range_succ, List.map_append, List.range_succ_eq_map, List.map_cons, List.map_map, hfirst]
  show 0x00 :: (List.range n).map (fun i => flagOf (n + 2) (i + 1)) ++ [flagOf (n + 2) (n + 1)] = _
  rw [hmid, hlast]
  rfl

theorem loadFrames_framed (data : Nat → U8) (len : Nat) (flashOffset : U32) :
    Framed flashOffset (loadFrames data len flashOffset) (slice data 0 len) := by
  have hc : 0 < 512 := by norm_num
  constructor
  · rw [loadFrames, List.map_map]
    have h := flatten_chunks hc data len (le_refl _)
    rwa [Nat.min_eq_right (chunkCount_mul hc len)] at h
  · intro f hf
    obtain ⟨i, -, rfl⟩ := List.mem_map.1 hf
    have hle : chunkLen 512 len i ≤ 512 := min_le_left _ _
    refine ⟨?_, ?_, rfl⟩
    · show (slice data (512 * i) (chunkLen 512 len i)).length ≤ 512
      rwa [length_slice]
    · show (BitVec.ofNat 16 (chunkLen 512 len i)).toNat = (slice data (512 * i) (chunkLen 512 len i)).length
      rw [length_slice, BitVec.toNat_ofNat, Nat.mod_eq_of_lt (by omega)]
  · rw [loadFrames, List.map_map]
    show (List.range _).map (flagOf _) = _ ∨ ∃ k, (List.range _).map (flagOf _) = _
    have hpos : 0 < chunkCount 512 len := Nat.succ_pos _
    generalize chunkCount 512 len = n at *
    obtain ⟨n, rfl⟩ := Nat.exists_eq_add_one_of_ne_zero (show n ≠ 0 by omega)
    cases n with
    | zero => exact .inl rfl
    | succ n => exact .inr (map_flagOf n)

/-! ## One round -/

theorem toInt_of_small {x : U32} (h : x.toNat < 2 ^ 31) : x.toInt = x.toNat := BitVec.toInt_eq_toNat_of_lt (by omega)

theorem toNat_bmcMin {a b : U32} (ha : a.toNat < 2 ^ 31) (hb : b.toNat < 2 ^ 31) : (bmcMin a b).toNat = min a.toNat b.toNat := by
  unfold bmcMin
  rw [toInt_of_small ha, toInt_of_small hb]
  split
  · omega
  · omega

section

variable {data : Nat → U8} {len flashOffset offset : U32} {replies : Nat → Reply} {spi : BwBmc} {i : Nat}

/-- The length of chunk `i`, as the loop computes it. -/
theorem toNat_dataLength (hlen : len.toNat < 2 ^ 31) (hi : i < chunkCount 512 len.toNat) (hoffset : offset.toNat = 512 * i) :
    (bmcMin (len - offset) 512).toNat = chunkLen 512 len.toNat i := by
  have hle := start_le_of_lt (c := 512) (by norm_num) hi
  have hsub : (len - offset).toNat = len.toNat - 512 * i := by
    rw [BitVec.toNat_sub_of_le (BitVec.le_def.2 (by omega)), hoffset]
  rw [toNat_bmcMin (by omega) (by decide), hsub, Nat.min_comm]
  rfl

theorem toNat_next_offset (hlen : len.toNat < 2 ^ 31) (hi : i < chunkCount 512 len.toNat) (hoffset : offset.toNat = 512 * i) :
    (offset + bmcMin (len - offset) 512).toNat = 512 * i + chunkLen 512 len.toNat i := by
  have hend := start_add_chunkLen (c := 512) (by norm_num) hi
  rw [BitVec.toNat_add, toNat_dataLength hlen hi hoffset, hoffset, Nat.mod_eq_of_lt (by omega)]

theorem next_offset_eq_iff (hlen : len.toNat < 2 ^ 31) (hi : i < chunkCount 512 len.toNat) (hoffset : offset.toNat = 512 * i) :
    offset + bmcMin (len - offset) 512 = len ↔ i + 1 = chunkCount 512 len.toNat := by
  rw [← end_of_chunk (by norm_num) hi, ← toNat_next_offset hlen hi hoffset]
  exact BitVec.toNat_inj.symm

/-- The flag of chunk `i`, as the loop computes it. -/
theorem flag_eq (hlen : len.toNat < 2 ^ 31) (hi : i < chunkCount 512 len.toNat) (hoffset : offset.toNat = 512 * i) :
    (if offset = 0 then if len = bmcMin (len - offset) 512 + offset then 0x05 else 0x00
      else if len = bmcMin (len - offset) 512 + offset then 0x04 else 0x01) = flagOf (chunkCount 512 len.toNat) i := by
  have hlast : len = bmcMin (len - offset) 512 + offset ↔ i + 1 = chunkCount 512 len.toNat := by
    rw [BitVec.add_comm, eq_comm, next_offset_eq_iff hlen hi hoffset]
  have hzero : offset = 0 ↔ i = 0 := by
    rw [← BitVec.toNat_inj, hoffset]
    show 512 * i = 0 ↔ i = 0
    omega
  simp only [hlast, hzero]
  unfold flagOf
  by_cases hi₀ : i = 0
  · subst hi₀
    rw [if_pos rfl, if_pos rfl]
    exact if_congr ⟨fun h => by omega, fun h => by omega⟩ rfl rfl
  · rw [if_neg hi₀, if_neg (show chunkCount 512 len.toNat ≠ 1 by omega), if_neg hi₀]

/-- The message of chunk `i`. -/
theorem message_eq (hbuf : 527 ≤ spi.buffer.length) (hlt : spi.buffer.length < 2 ^ 32) (flag : U8) (flashOffset dataLength : U32)
    (payload : List U8) (hpay : payload.length ≤ 512) :
    (putMessage spi (loadFields flag flashOffset dataLength payload)).message =
      (LoadFrame.mk flag flashOffset (dataLength.setWidth 16) payload).encode := by
  have hflat : (loadFields flag flashOffset dataLength payload).flatten =
      pldmVndr 0x17 ++ [flag] ++ le32 flashOffset ++ le16 (dataLength.setWidth 16) ++ payload := by
    simp [loadFields]
  have hsize : (loadFields flag flashOffset dataLength payload).flatten.length = 11 + payload.length := by
    rw [hflat]
    simp [pldmVndr, le32, le16]
    omega
  rw [(putMessage_holds (by omega) hlt).bytes, hflat, LoadFrame.encode]
  simp only [List.append_assoc]

/-- The run after one message more. -/
def LoadRun.cons (msg : List U8) (offset : U32) (run : LoadRun) : LoadRun :=
  { run with sent := msg :: run.sent, progress := offset :: run.progress }

/-- A round sends the frame of its chunk. If it is refused the loop ends with an error, and else it goes on behind the chunk unless
that was the last one. -/
theorem loadLoop_step (data : Nat → U8) (flashOffset : U32) (replies : Nat → Reply) (hlen : len.toNat < 2 ^ 31) (hbuf : 527 ≤ spi.buffer.length) (hlt : spi.buffer.length < 2 ^ 32)
    (hi : i < chunkCount 512 len.toNat) (hoffset : offset.toNat = 512 * i) (fuel k : Nat) :
    ∃ spi' : BwBmc, ∃ next : U32, spi'.buffer.length = spi.buffer.length ∧
      (¬ReplyOk spi.buffer.length (replies k) → ∃ ret ≠ 0, loadLoop data len flashOffset replies (fuel + 1) k spi offset 512 =
        some ⟨ret, [(chunkFrame data len.toNat flashOffset i).encode], []⟩) ∧
      (ReplyOk spi.buffer.length (replies k) → i + 1 = chunkCount 512 len.toNat →
        loadLoop data len flashOffset replies (fuel + 1) k spi offset 512 =
          some ⟨0, [(chunkFrame data len.toNat flashOffset i).encode], [next]⟩) ∧
      (ReplyOk spi.buffer.length (replies k) → i + 1 < chunkCount 512 len.toNat → next.toNat = 512 * (i + 1) ∧
        loadLoop data len flashOffset replies (fuel + 1) k spi offset 512 =
          (loadLoop data len flashOffset replies fuel (k + 1) spi' next 512).map
            (LoadRun.cons (chunkFrame data len.toNat flashOffset i).encode next)) := by
  have hdl := toNat_dataLength hlen hi hoffset
  have hend := next_offset_eq_iff hlen hi hoffset
  have hnext := toNat_next_offset hlen hi hoffset
  have hle : chunkLen 512 len.toNat i ≤ 512 := min_le_left _ _
  set dataLength := bmcMin (len - offset) 512 with hdataLength
  have hframe : (LoadFrame.mk (flagOf (chunkCount 512 len.toNat) i) flashOffset (dataLength.setWidth 16)
      (slice data offset.toNat dataLength.toNat)) = chunkFrame data len.toNat flashOffset i := by
    have hwidth : dataLength.setWidth 16 = BitVec.ofNat 16 (chunkLen 512 len.toNat i) := by
      rw [← hdl, BitVec.ofNat_toNat]
    rw [hwidth, hdl, hoffset]
    rfl
  have hmsg := message_eq hbuf hlt (flagOf (chunkCount 512 len.toNat) i) flashOffset dataLength
    (slice data offset.toNat dataLength.toNat) (by rw [length_slice, hdl]; exact hle)
  rw [hframe] at hmsg
  generalize hput : putMessage spi (loadFields (flagOf (chunkCount 512 len.toNat) i) flashOffset dataLength
    (slice data offset.toNat dataLength.toNat)) = sent at hmsg
  have hsize : sent.buffer.length = spi.buffer.length := by rw [← hput, length_putMessage]
  have hret := exchange_eq_zero_iff sent (replies k)
  rw [hsize] at hret
  -- one round, with the message that it sends
  have hloop : loadLoop data len flashOffset replies (fuel + 1) k spi offset 512 =
      if (exchange sent (replies k)).1 ≠ 0 then some ⟨(exchange sent (replies k)).1, [sent.message], []⟩
      else if offset + dataLength = len then some ⟨0, [sent.message], [offset + dataLength]⟩
      else (loadLoop data len flashOffset replies fuel (k + 1) (exchange sent (replies k)).2 (offset + dataLength) dataLength).map
        (LoadRun.cons sent.message (offset + dataLength)) := by
    rw [loadLoop]
    dsimp only
    rw [flag_eq hlen hi hoffset, ← hdataLength, hput]
    rfl
  rw [hmsg] at hloop
  refine ⟨(exchange sent (replies k)).2, offset + dataLength, by rw [length_exchange, hsize], ?_, ?_, ?_⟩
  · intro hno
    have hne := mt hret.1 hno
    exact ⟨_, hne, by rw [hloop, if_pos hne]⟩
  · intro hok hlast
    rw [hloop, if_neg (not_not.2 (hret.2 hok)), if_pos (hend.2 hlast)]
  · intro hok hmore
    have hfull := chunkLen_of_succ_lt (by norm_num) hmore
    have hdl₅ : dataLength = 512 := BitVec.eq_of_toNat_eq (hdl.trans hfull)
    refine ⟨by rw [hnext, hfull]; omega, ?_⟩
    rw [hloop, if_neg (not_not.2 (hret.2 hok)), if_neg fun h => absurd (hend.1 h) (by omega), hdl₅]

/-! ## Whole transfers -/

theorem length_loadFrames : (loadFrames data len.toNat flashOffset).length = chunkCount 512 len.toNat := by
  rw [loadFrames, List.length_map, List.length_range]

/-- The frames from chunk `i` on. -/
theorem drop_loadFrames (hi : i < chunkCount 512 len.toNat) : (loadFrames data len.toNat flashOffset).drop i =
    chunkFrame data len.toNat flashOffset i :: (loadFrames data len.toNat flashOffset).drop (i + 1) := by
  have hlt : i < (loadFrames data len.toNat flashOffset).length := by rwa [length_loadFrames]
  rw [List.drop_eq_getElem_cons hlt]
  simp [loadFrames]

/-- From chunk `i` on, if all messages are accepted. -/
theorem loadLoop_accepted (data : Nat → U8) (flashOffset : U32) (replies : Nat → Reply) (hlen : len.toNat < 2 ^ 31) (m : Nat) :
    ∀ {fuel} k i {spi offset}, 527 ≤ spi.buffer.length →
    spi.buffer.length < 2 ^ 32 → offset.toNat = 512 * i → i + (m + 1) = chunkCount 512 len.toNat → m < fuel →
    (∀ j < m + 1, ReplyOk spi.buffer.length (replies (k + j))) → ∃ progress,
      loadLoop data len flashOffset replies fuel k spi offset 512 =
        some ⟨0, ((loadFrames data len.toNat flashOffset).drop i).map LoadFrame.encode, progress⟩ := by
  induction m with
  | zero =>
    intro fuel k i spi offset hbuf hlt hoffset hi hfuel hok
    obtain ⟨fuel, rfl⟩ := Nat.exists_eq_add_one_of_ne_zero (show fuel ≠ 0 by omega)
    obtain ⟨_, next, -, -, hlast, -⟩ := loadLoop_step data flashOffset replies hlen hbuf hlt
      (show i < chunkCount 512 len.toNat by omega) hoffset fuel k
    have hnil : (loadFrames data len.toNat flashOffset).drop (i + 1) = [] := by
      rw [List.drop_eq_nil_iff, length_loadFrames]
      omega
    rw [drop_loadFrames (by omega), hnil]
    exact ⟨_, hlast (hok 0 (by omega)) (by omega)⟩
  | succ m ih =>
    intro fuel k i spi offset hbuf hlt hoffset hi hfuel hok
    obtain ⟨fuel, rfl⟩ := Nat.exists_eq_add_one_of_ne_zero (show fuel ≠ 0 by omega)
    obtain ⟨spi', next, hsize, -, -, hmore⟩ := loadLoop_step data flashOffset replies hlen hbuf hlt
      (show i < chunkCount 512 len.toNat by omega) hoffset fuel k
    obtain ⟨hnext, hloop⟩ := hmore (hok 0 (by omega)) (by omega)
    obtain ⟨progress, hrest⟩ := @ih fuel (k + 1) (i + 1) spi' next (by omega) (by omega) hnext (by omega) (by omega) fun j hj => by
      rw [hsize, Nat.add_right_comm, Nat.add_assoc]
      exact hok (j + 1) (by omega)
    rw [drop_loadFrames (by omega), hloop, hrest]
    exact ⟨_, rfl⟩

/-- From chunk `i` on, if message `m` is the first that is refused. -/
theorem loadLoop_refused (data : Nat → U8) (flashOffset : U32) (replies : Nat → Reply) (hlen : len.toNat < 2 ^ 31) (m : Nat) :
    ∀ {fuel} k i {spi offset}, 527 ≤ spi.buffer.length →
    spi.buffer.length < 2 ^ 32 → offset.toNat = 512 * i → i + m < chunkCount 512 len.toNat → m < fuel →
    (∀ j < m, ReplyOk spi.buffer.length (replies (k + j))) → ¬ReplyOk spi.buffer.length (replies (k + m)) →
    ∃ ret ≠ 0, ∃ progress, loadLoop data len flashOffset replies fuel k spi offset 512 =
      some ⟨ret, (((loadFrames data len.toNat flashOffset).drop i).take (m + 1)).map LoadFrame.encode, progress⟩ := by
  induction m with
  | zero =>
    intro fuel k i spi offset hbuf hlt hoffset hi hfuel _ hno
    obtain ⟨fuel, rfl⟩ := Nat.exists_eq_add_one_of_ne_zero (show fuel ≠ 0 by omega)
    obtain ⟨_, _, -, hrefused, -, -⟩ := loadLoop_step data flashOffset replies hlen hbuf hlt
      (show i < chunkCount 512 len.toNat by omega) hoffset fuel k
    obtain ⟨ret, hne, hloop⟩ := hrefused hno
    rw [drop_loadFrames (by omega)]
    exact ⟨ret, hne, _, hloop⟩
  | succ m ih =>
    intro fuel k i spi offset hbuf hlt hoffset hi hfuel hok hno
    obtain ⟨fuel, rfl⟩ := Nat.exists_eq_add_one_of_ne_zero (show fuel ≠ 0 by omega)
    obtain ⟨spi', next, hsize, -, -, hmore⟩ := loadLoop_step data flashOffset replies hlen hbuf hlt
      (show i < chunkCount 512 len.toNat by omega) hoffset fuel k
    obtain ⟨hnext, hloop⟩ := hmore (hok 0 (by omega)) (by omega)
    have hshift : ∀ j, k + 1 + j = k + (j + 1) := fun j => by omega
    obtain ⟨ret, hne, progress, hrest⟩ := @ih fuel (k + 1) (i + 1) spi' next (by omega) (by omega) hnext (by omega) (by omega)
      (fun j hj => by rw [hsize, hshift]; exact hok (j + 1) (by omega)) (by rwa [hsize, hshift])
    rw [drop_loadFrames (by omega), hloop, hrest]
    exact ⟨ret, hne, _, rfl⟩

end

/-- For every image below 2^31 bytes, every BMC and every buffer with room for a full message: there are frames that carry the image
such that, if the BMC accepts all of them, the transfer ends without an error and has sent these frames, and if one is the first that is
refused, it ends with an error and has sent the frames up to that one. -/
theorem fpga_load_framing (data : Nat → U8) (len flashOffset : U32) (replies : Nat → Reply) (spi : BwBmc) (hlen : len.toNat < 2 ^ 31)
    (hbuf : 527 ≤ spi.buffer.length) (hlt : spi.buffer.length < 2 ^ 32) :
    ∃ frames, Framed flashOffset frames (slice data 0 len.toNat) ∧
      ((∀ k < frames.length, ReplyOk spi.buffer.length (replies k)) → ∀ fuel ≥ frames.length, ∃ run,
        fpgaLoadExt data len flashOffset replies fuel spi = some run ∧ run.ret = 0 ∧ run.sent = frames.map LoadFrame.encode) ∧
      ∀ k < frames.length, (∀ j < k, ReplyOk spi.buffer.length (replies j)) → ¬ReplyOk spi.buffer.length (replies k) →
        ∀ fuel ≥ frames.length, ∃ run, fpgaLoadExt data len flashOffset replies fuel spi = some run ∧ run.ret ≠ 0 ∧
          run.sent = (frames.take (k + 1)).map LoadFrame.encode := by
  have hpos : 0 < chunkCount 512 len.toNat := Nat.succ_pos _
  refine ⟨loadFrames data len.toNat flashOffset, loadFrames_framed data len.toNat flashOffset, ?_, ?_⟩
  · intro hok fuel hfuel
    rw [length_loadFrames] at hok hfuel
    obtain ⟨progress, hrun⟩ := loadLoop_accepted data flashOffset replies hlen (chunkCount 512 len.toNat - 1) 0 0
      hbuf hlt (show (0 : U32).toNat = 512 * 0 from rfl) (by omega) (show _ < fuel by omega)
      fun j hj => by rw [Nat.zero_add]; exact hok j (by omega)
    rw [fpgaLoadExt, hrun]
    exact ⟨_, rfl, rfl, rfl⟩
  · intro k hk hok hno fuel hfuel
    rw [length_loadFrames] at hk hfuel
    obtain ⟨ret, hne, progress, hrun⟩ := loadLoop_refused data flashOffset replies hlen k 0 0 hbuf hlt
      (show (0 : U32).toNat = 512 * 0 from rfl) (by omega) (show _ < fuel by omega)
      (fun j hj => by rw [Nat.zero_add]; exact hok j hj) (by rwa [Nat.zero_add])
    rw [fpgaLoadExt, hrun]
    exact ⟨_, rfl, hne, rfl⟩

/-- A handle as the boot driver opens it, and a BMC that accepts everything. -/
def freshBmc : BwBmc := ⟨List.replicate 2048 0, 0, 0⟩

def ackReply : Reply := ⟨0, 0, List.replicate 9 0⟩

theorem ackReply_accepted : ReplyOk freshBmc.buffer.length ackReply := by
  have hsize : freshBmc.buffer.length = 2048 := List.length_replicate
  exact ⟨rfl, rfl, le_rfl, by rw [hsize]; decide, rfl⟩

theorem image_of_513_sent : ∃ frames run, Framed 0x1000 frames (slice (fun j => BitVec.ofNat 8 j) 0 513) ∧
    fpgaLoadExt (fun j => BitVec.ofNat 8 j) 513 0x1000 (fun _ => ackReply) frames.length freshBmc = some run ∧ run.ret = 0 ∧
    run.sent = frames.map LoadFrame.encode := by
  have hsize : freshBmc.buffer.length = 2048 := List.length_replicate
  obtain ⟨frames, hframed, hrun, -⟩ := fpga_load_framing (fun j => BitVec.ofNat 8 j) 513 0x1000 (fun _ => ackReply) freshBmc
    (by decide) (by rw [hsize]; decide) (by rw [hsize]; decide)
  obtain ⟨run, h⟩ := hrun (fun _ _ => ackReply_accepted) frames.length le_rfl
  exact ⟨frames, run, hframed, h⟩

end NdkSw.Boot

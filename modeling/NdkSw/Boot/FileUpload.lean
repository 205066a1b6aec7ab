/-
Writing a file of the BMC (`nc_bw_bmc_file_upload`), and the priority table that the boot driver writes with it. The length of a
message is the least of 512 and the length of the whole file, in every round: the last one is not cut.
-/
import NdkSw.Boot.FpgaLoad
import NdkSw.Boot.Load
import NdkSw.Boot.Partition

namespace NdkSw.Boot

open Ndp Shared

/-! ## The loop -/

/-- What an upload leaves: its result, the messages and the places of the data that were read, with their lengths. -/
structure UploadRun where
  ret : Int
  sent : List (List U8)
  reads : List (Nat × Nat)
  deriving DecidableEq, Repr

/-- The fields in front of the data; the length of the path is cut to 32 bits. -/
def uploadHead (path : List U8) (offset dataLength : U32) : List (List U8) :=
  [pldmVndr 0x13, le32 (BitVec.ofNat 32 path.length), le32 offset, le32 dataLength, path.take (BitVec.ofNat 32 path.length).toNat]

/-- A message put together, with the data that are read for it. -/
def uploadMessage (path : List U8) (data : Nat → U8) (spi : BwBmc) (offset dataLength : U32) : BwBmc × List (Nat × Nat) :=
  let r := push (putMessage spi (uploadHead path offset dataLength)) (slice data offset.toNat dataLength.toNat)
  (r.2, if r.1 = 0 then [(offset.toNat, dataLength.toNat)] else [])

section

variable (path : List U8) (data : Nat → U8) (len : U32) (replies : Nat → Reply)

/-- The loop, from message `k` on; no run if it needs more rounds. -/
def uploadLoop : Nat → Nat → BwBmc → U32 → U32 → Option UploadRun
  | 0, _, _, _, _ => none
  | fuel + 1, k, spi, offset, dataLength =>
    let dataLength := bmcMin len dataLength
    let msg := uploadMessage path data spi offset dataLength
    -- the result of the message is lost here
    let r := exchange msg.1 (replies k)
    if r.1 ≠ 0 then some ⟨r.1, [msg.1.message], msg.2⟩
    else
      let offset := offset + dataLength
      if offset = len then some ⟨0, [msg.1.message], msg.2⟩
      else
        (uploadLoop fuel (k + 1) r.2 offset dataLength).map fun run =>
          { run with sent := msg.1.message :: run.sent, reads := msg.2 ++ run.reads }

/-- `nc_bw_bmc_file_upload`. -/
def fileUpload (fuel : Nat) (spi : BwBmc) : Option UploadRun := uploadLoop path data len replies fuel 0 spi 0 512

end

/-! ## The priority table -/

/-- An entry of the table. -/
def prioEntry (name : List U8) (prio : U8) : List U8 := name ++ [0, prio, 10]

/-- The bytes of a file name. -/
def nameBytes (name : List Char) : List U8 := name.map fun c => BitVec.ofNat 8 c.toNat

/-- The inner loop of `nfb_boot_bw_bmc_set_priority`: the items of the request for one slot; no table if there is no memory. -/
def prioSlot (alloc : Nat → Bool) (slot : BinarySlot) : List (U64 × U64) → List U8 → Except Int (List U8)
  | [], table => .ok table
  | (pid, val) :: items, table =>
    if pid = BitVec.ofNat 64 slot.id then
      match slot.filename with
      | none => .error eNodev
      | some name =>
        let entry := prioEntry (nameBytes name) (val.setWidth 8)
        if alloc (table.length + entry.length) = false then .error eNomem else prioSlot alloc slot items (table ++ entry)
    else prioSlot alloc slot items table

/-- The outer loop, over the slots. -/
def prioSlots (alloc : Nat → Bool) (items : List (U64 × U64)) : List BinarySlot → List U8 → Except Int (List U8)
  | [], table => .ok table
  | slot :: slots, table =>
    match prioSlot alloc slot items table with
    | .error e => .error e
    | .ok table => prioSlots alloc items slots table

/-- The table of `nfb_boot_bw_bmc_set_priority`, for a request with `rest` bytes behind its items. -/
def prioTable (alloc : Nat → Bool) (slots : List BinarySlot) (items : List (U64 × U64)) (rest : Nat) : Except Int (List U8) :=
  if rest ≠ 0 then .error eInval
  else
    match prioSlots alloc items slots [] with
    | .error e => .error e
    | .ok table =>
      let entry := prioEntry [] 255
      if alloc (table.length + entry.length) = false then .error eNomem else .ok (table ++ entry)

def prioPath : List U8 := nameBytes "/fpga/priority.txt".toList

/-- The upload of a table; behind it there is nothing to be read. -/
def uploadTable (table : List U8) (replies : Nat → Reply) (fuel : Nat) (spi : BwBmc) : Option UploadRun :=
  fileUpload prioPath (fun j => table.getD j 0) (BitVec.ofNat 32 table.length) replies fuel spi

/-! ## What is asked of an upload -/

/-- A message as the BMC takes it apart. -/
structure UploadFrame where
  offset : U32
  payload : List U8
  deriving DecidableEq, Repr

def UploadFrame.encode (path : List U8) (f : UploadFrame) : List U8 :=
  mctpHeader ++ pldmVndr 0x13 ++ le32 (BitVec.ofNat 32 path.length) ++ le32 f.offset ++ le32 (BitVec.ofNat 32 f.payload.length) ++
    path ++ f.payload

/-- The file is written: nothing else was read, and the payloads at their offsets are the data. -/
structure Uploaded (path : List U8) (data : Nat → U8) (n : Nat) (run : UploadRun) : Prop where
  ret : run.ret = 0
  reads : ∀ r ∈ run.reads, r.1 + r.2 ≤ n
  frames : ∃ frames : List UploadFrame, run.sent = frames.map (UploadFrame.encode path) ∧
    placeAll (fun _ => none) (frames.map fun f => (f.offset.toNat, f.payload)) = firstPart data n

/-- For every BMC that acknowledges all messages, with answers no longer than the buffer or than an acknowledgement has to be, the
upload ends with the file written. -/
def UploadOk (path : List U8) (data : Nat → U8) (len : U32) (spi : BwBmc) : Prop :=
  ∀ replies : Nat → Reply, (∀ k, ReplyOk (max 9 spi.buffer.length) (replies k)) →
    ∃ fuel run, fileUpload path data len replies fuel spi = some run ∧ Uploaded path data len.toNat run

/-- The condition: a message has room in the buffer, and the file is one message or a multiple of 512 bytes. -/
def UploadFits (path : List U8) (len : U32) (spi : BwBmc) : Prop :=
  20 + path.length + (bmcMin len 512).toNat ≤ spi.buffer.length ∧ (bmcMin len 512 = len ∨ 512 ∣ len.toNat)

instance (path : List U8) (len : U32) (spi : BwBmc) : Decidable (UploadFits path len spi) := inferInstanceAs (Decidable (_ ∧ _))

/-! ## One message -/

section

variable {path : List U8} {data : Nat → U8} {len offset dataLength : U32} {spi : BwBmc}

theorem bmcMin_idem (len : U32) : bmcMin len (bmcMin len 512) = bmcMin len 512 := by
  unfold bmcMin
  by_cases h : len.toInt < (512 : U32).toInt
  · rw [if_pos h, if_neg (lt_irrefl _)]
  · rw [if_neg h, if_neg h]

theorem flatten_uploadHead (offset dataLength : U32) (hpath : path.length < 2 ^ 32) : (uploadHead path offset dataLength).flatten =
    pldmVndr 0x13 ++ le32 (BitVec.ofNat 32 path.length) ++ le32 offset ++ le32 dataLength ++ path := by
  have htake : path.take (BitVec.ofNat 32 path.length).toNat = path := by
    rw [BitVec.toNat_ofNat, Nat.mod_eq_of_lt hpath, List.take_length]
  rw [uploadHead, htake]
  simp

theorem head_holds (offset dataLength : U32) (h : 20 + path.length ≤ spi.buffer.length) (hlt : spi.buffer.length < 2 ^ 32) :
    Holds (putMessage spi (uploadHead path offset dataLength)) (mctpHeader ++ (pldmVndr 0x13 ++ le32 (BitVec.ofNat 32 path.length) ++
      le32 offset ++ le32 dataLength ++ path)) := by
  have hflat := flatten_uploadHead offset dataLength (show path.length < 2 ^ 32 by omega)
  have hlen : (uploadHead path offset dataLength).flatten.length = 16 + path.length := by
    rw [hflat]
    simp [pldmVndr, le32]
    omega
  rw [← hflat]
  exact putMessage_holds (by omega) hlt

/-- With room for it, a message is the frame of its data, and these are read. -/
theorem uploadMessage_fits (data : Nat → U8) (offset : U32) (h : 20 + path.length + dataLength.toNat ≤ spi.buffer.length) (hlt : spi.buffer.length < 2 ^ 32) :
    (uploadMessage path data spi offset dataLength).1.message =
      (UploadFrame.mk offset (slice data offset.toNat dataLength.toNat)).encode path ∧
    (uploadMessage path data spi offset dataLength).2 = [(offset.toNat, dataLength.toNat)] ∧
    (uploadMessage path data spi offset dataLength).1.buffer.length = spi.buffer.length := by
  have hhead := head_holds offset dataLength (show 20 + path.length ≤ spi.buffer.length by omega) hlt
  have hsize := length_putMessage spi (uploadHead path offset dataLength)
  unfold uploadMessage
  generalize putMessage spi (uploadHead path offset dataLength) = head at hhead hsize ⊢
  have hpos : head.pos = 20 + path.length := by
    rw [hhead.pos]
    simp [mctpHeader, pldmVndr, le32]
    omega
  have hmod : (head.pos + (slice data offset.toNat dataLength.toNat).length) % 2 ^ 32 = 20 + path.length + dataLength.toNat := by
    rw [length_slice, hpos, Nat.mod_eq_of_lt (by omega)]
  have hpush := push_holds hhead (slice data offset.toNat dataLength.toNat) (by rw [← hhead.pos, length_slice, hpos]; omega) (by omega)
  have hret : (push head (slice data offset.toNat dataLength.toNat)).1 = 0 := by
    unfold push
    rw [hmod, if_neg (by omega)]
  refine ⟨?_, ?_, ?_⟩
  · rw [hpush.bytes, UploadFrame.encode, length_slice, BitVec.ofNat_toNat, BitVec.setWidth_eq]
    simp only [List.append_assoc]
  · dsimp only
    rw [hret]
    rfl
  · exact (length_push _ _).trans hsize

theorem le32_inj {a b : U32} (h : le32 a = le32 b) : a = b := by
  simp only [le32, List.cons.injEq, and_true] at h
  obtain ⟨h₀, h₁, h₂, h₃⟩ := h
  have hbyte : ∀ x : U32, x.toNat = (x.setWidth 8).toNat + 2 ^ 8 * ((x >>> 8).setWidth 8).toNat +
      2 ^ 16 * ((x >>> 16).setWidth 8).toNat + 2 ^ 24 * ((x >>> 24).setWidth 8).toNat := by
    intro x
    have hx := x.isLt
    simp only [BitVec.toNat_setWidth, BitVec.toNat_ushiftRight, Nat.shiftRight_eq_div_pow]
    omega
  apply BitVec.eq_of_toNat_eq
  rw [hbyte a, hbyte b, h₀, h₁, h₂, h₃]

/-- A message that is a frame has had room in the buffer. -/
theorem fits_of_encode {f : UploadFrame} (hlt : spi.buffer.length < 2 ^ 32)
    (h : (uploadMessage path data spi offset dataLength).1.message = f.encode path) :
    20 + path.length + dataLength.toNat ≤ spi.buffer.length := by
  have hsize := length_putMessage spi (uploadHead path offset dataLength)
  have hencode : (f.encode path).length = 20 + path.length + f.payload.length := by
    simp [UploadFrame.encode, mctpHeader, pldmVndr, le32]
    omega
  have hbuf := length_message_le (uploadMessage path data spi offset dataLength).1
  have hfinal : (uploadMessage path data spi offset dataLength).1.buffer.length = spi.buffer.length := (length_push _ _).trans hsize
  rw [h, hencode, hfinal] at hbuf
  by_contra hno
  -- the head is there, and the data either do not fit or end at a place that wraps around
  have hhead := head_holds offset dataLength (show 20 + path.length ≤ spi.buffer.length by omega) hlt
  unfold uploadMessage at h
  dsimp only at h
  generalize putMessage spi (uploadHead path offset dataLength) = head at hhead hsize h
  have hpos : head.pos = 20 + path.length := by
    rw [hhead.pos]
    simp [mctpHeader, pldmVndr, le32]
    omega
  have hdl := dataLength.isLt
  unfold push at h
  rw [length_slice, hpos] at h
  split at h
  · rw [hhead.bytes] at h
    have hlen := congrArg List.length h
    rw [hencode] at hlen
    have hnil : f.payload = [] := by
      rw [← List.length_eq_zero_iff]
      simp [mctpHeader, pldmVndr, le32] at hlen
      omega
    have hfield : le32 dataLength = le32 (BitVec.ofNat 32 f.payload.length) := by
      rw [UploadFrame.encode] at h
      simp only [List.append_assoc] at h
      have h := List.append_cancel_left (List.append_cancel_left (List.append_cancel_left h))
      exact (List.append_inj (List.append_inj h rfl).2 rfl).1
    have hzero : dataLength.toNat = 0 := by
      rw [le32_inj hfield, hnil]
      rfl
    omega
  · next hle =>
    have hwrap : 20 + path.length + dataLength.toNat - 2 ^ 32 = (20 + path.length + dataLength.toNat) % 2 ^ 32 := by omega
    have hlen := congrArg List.length h
    rw [hencode, BwBmc.message, List.length_take] at hlen
    dsimp only at hlen
    omega

end

/-! ## Rounds -/

section

variable {path : List U8} {data : Nat → U8} {len : U32} {replies : Nat → Reply} {spi : BwBmc}

/-- The run after one message more. -/
def UploadRun.cons (msg : List U8) (reads : List (Nat × Nat)) (run : UploadRun) : UploadRun :=
  { run with sent := msg :: run.sent, reads := reads ++ run.reads }

/-- The frame of a chunk and the place of its data. -/
def uploadFrame (data : Nat → U8) (offset : U32) (n : Nat) : UploadFrame := ⟨offset, slice data offset.toNat n⟩

theorem uploadLoop_step (data : Nat → U8) (fuel : Nat) {k : Nat} (offset : U32) {held : U32} (hheld : bmcMin len held = bmcMin len 512)
    (h : 20 + path.length + (bmcMin len 512).toNat ≤ spi.buffer.length) (hlt : spi.buffer.length < 2 ^ 32)
    (hok : ReplyOk spi.buffer.length (replies k)) : ∃ spi' : BwBmc, spi'.buffer.length = spi.buffer.length ∧
      uploadLoop path data len replies (fuel + 1) k spi offset held =
        if offset + bmcMin len 512 = len then
          some ⟨0, [(uploadFrame data offset (bmcMin len 512).toNat).encode path], [(offset.toNat, (bmcMin len 512).toNat)]⟩
        else (uploadLoop path data len replies fuel (k + 1) spi' (offset + bmcMin len 512) (bmcMin len 512)).map
          (UploadRun.cons ((uploadFrame data offset (bmcMin len 512).toNat).encode path) [(offset.toNat, (bmcMin len 512).toNat)]) := by
  obtain ⟨hmsg, hreads, hsize⟩ := uploadMessage_fits data offset h hlt
  have hret : (exchange (uploadMessage path data spi offset (bmcMin len 512)).1 (replies k)).1 = 0 := by
    rw [exchange_eq_zero_iff, hsize]
    exact hok
  refine ⟨(exchange (uploadMessage path data spi offset (bmcMin len 512)).1 (replies k)).2, by rw [length_exchange, hsize], ?_⟩
  rw [uploadLoop]
  dsimp only
  rw [hheld, if_neg (not_not.2 hret), hmsg, hreads]
  rfl

/-- The frames of chunks of `c` bytes. -/
def chunkFrames (data : Nat → U8) (c n : Nat) : List UploadFrame :=
  (List.range (chunkCount c n)).map fun i => ⟨BitVec.ofNat 32 (c * i), slice data (c * i) (chunkLen c n i)⟩

/-- The places that they are read from. -/
def chunkReads (c n : Nat) : List (Nat × Nat) := (List.range (chunkCount c n)).map fun i => (c * i, chunkLen c n i)

theorem drop_range_map {β : Type} (f : Nat → β) {n i : Nat} (hi : i < n) :
    ((List.range n).map f).drop i = f i :: ((List.range n).map f).drop (i + 1) := by
  have hlt : i < ((List.range n).map f).length := by rwa [List.length_map, List.length_range]
  rw [List.drop_eq_getElem_cons hlt]
  simp

theorem drop_range_map_end {β : Type} (f : Nat → β) {n i : Nat} (hi : n ≤ i) : ((List.range n).map f).drop i = [] := by
  rw [List.drop_eq_nil_iff, List.length_map, List.length_range]
  exact hi

/-- A round that takes chunk `i`. -/
theorem chunk_round (data : Nat → U8) {c i : Nat} {offset dataLength : U32} (hc : 0 < c) (hi : i < chunkCount c len.toNat)
    (hdl : chunkLen c len.toNat i = dataLength.toNat) (hoffset : offset.toNat = c * i) :
    (offset + dataLength = len ↔ i + 1 = chunkCount c len.toNat) ∧
    (i + 1 < chunkCount c len.toNat → (offset + dataLength).toNat = c * (i + 1)) ∧
    uploadFrame data offset dataLength.toNat = ⟨BitVec.ofNat 32 (c * i), slice data (c * i) (chunkLen c len.toNat i)⟩ := by
  have hend := start_add_chunkLen hc hi
  have hlen := len.isLt
  have hsum : (offset + dataLength).toNat = c * i + chunkLen c len.toNat i := by
    rw [BitVec.toNat_add, hoffset, ← hdl, Nat.mod_eq_of_lt (by omega)]
  refine ⟨?_, ?_, ?_⟩
  · rw [← end_of_chunk hc hi, ← hsum]
    exact BitVec.toNat_inj.symm
  · intro hmore
    rw [hsum, chunkLen_of_succ_lt hc hmore, Nat.mul_succ]
  · rw [uploadFrame, hdl, ← hoffset, BitVec.ofNat_toNat, BitVec.setWidth_eq]

/-- From chunk `i` on, where every round takes a whole chunk. -/
theorem uploadLoop_chunks (data : Nat → U8) {c : Nat} (hc : 0 < c)
    (hchunk : ∀ i < chunkCount c len.toNat, chunkLen c len.toNat i = (bmcMin len 512).toNat) (m : Nat) :
    ∀ {fuel : Nat} (k i : Nat) {spi : BwBmc} {offset held : U32}, bmcMin len held = bmcMin len 512 →
    20 + path.length + (bmcMin len 512).toNat ≤ spi.buffer.length → spi.buffer.length < 2 ^ 32 →
    (∀ j, ReplyOk spi.buffer.length (replies j)) → offset.toNat = c * i → i + (m + 1) = chunkCount c len.toNat → m < fuel →
    uploadLoop path data len replies fuel k spi offset held =
      some ⟨0, ((chunkFrames data c len.toNat).drop i).map (UploadFrame.encode path), (chunkReads c len.toNat).drop i⟩ := by
  induction m with
  | zero =>
    intro fuel k i spi offset held hheld h hlt hok hoffset hi hfuel
    obtain ⟨fuel, rfl⟩ := Nat.exists_eq_add_one_of_ne_zero (show fuel ≠ 0 by omega)
    have hlti : i < chunkCount c len.toNat := by omega
    obtain ⟨hend, -, hframe⟩ := chunk_round data hc hlti (hchunk i hlti) hoffset
    obtain ⟨_, -, hloop⟩ := uploadLoop_step data fuel offset hheld h hlt (hok k)
    rw [hloop, if_pos (hend.2 (by omega)), hframe, chunkFrames, chunkReads, drop_range_map _ hlti, drop_range_map _ hlti,
      drop_range_map_end _ (by omega), drop_range_map_end _ (by omega), hoffset, ← hchunk i hlti]
    rfl
  | succ m ih =>
    intro fuel k i spi offset held hheld h hlt hok hoffset hi hfuel
    obtain ⟨fuel, rfl⟩ := Nat.exists_eq_add_one_of_ne_zero (show fuel ≠ 0 by omega)
    have hlti : i < chunkCount c len.toNat := by omega
    obtain ⟨hend, hnext, hframe⟩ := chunk_round data hc hlti (hchunk i hlti) hoffset
    obtain ⟨spi', hsize, hloop⟩ := uploadLoop_step data fuel offset hheld h hlt (hok k)
    have hrest := @ih fuel (k + 1) (i + 1) spi' (offset + bmcMin len 512) (bmcMin len 512) (bmcMin_idem len) (by omega) (by omega)
      (by rwa [hsize]) (hnext (by omega)) (by omega) (by omega)
    rw [hloop, if_neg fun heq => absurd (hend.1 heq) (by omega), hrest, hframe, chunkFrames, chunkReads, drop_range_map _ hlti,
      drop_range_map _ hlti, hoffset, ← hchunk i hlti]
    rfl

theorem chunks_uploaded (path : List U8) (data : Nat → U8) {c n : Nat} (hc : 0 < c) (hn : n < 2 ^ 32) :
    Uploaded path data n ⟨0, (chunkFrames data c n).map (UploadFrame.encode path), chunkReads c n⟩ := by
  refine ⟨rfl, ?_, chunkFrames data c n, rfl, ?_⟩
  · intro r hr
    obtain ⟨i, hi, rfl⟩ := List.mem_map.1 hr
    have hend := start_add_chunkLen hc (List.mem_range.1 hi)
    show c * i + chunkLen c n i ≤ n
    omega
  · have hplaces : (chunkFrames data c n).map (fun f => (f.offset.toNat, f.payload)) =
        (List.range (chunkCount c n)).map fun i => (c * i, slice data (c * i) (chunkLen c n i)) := by
      rw [chunkFrames, List.map_map]
      refine List.map_congr_left fun i hi => ?_
      have hle := start_le_of_lt hc (List.mem_range.1 hi)
      show ((BitVec.ofNat 32 (c * i)).toNat, _) = _
      rw [BitVec.toNat_ofNat, Nat.mod_eq_of_lt (by omega)]
    rw [hplaces, placeAll_chunks hc data n le_rfl, Nat.min_eq_right (chunkCount_mul hc n)]

theorem bmcMin_of_ne (h : bmcMin len 512 ≠ len) : bmcMin len 512 = 512 := by
  unfold bmcMin at h ⊢
  split
  · next hlt => exact absurd (if_pos hlt) h
  · rfl

theorem exists_chunk (h : UploadFits path len spi) : ∃ c, 0 < c ∧
    ∀ i < chunkCount c len.toNat, chunkLen c len.toNat i = (bmcMin len 512).toNat := by
  have hlen := len.isLt
  by_cases hone : bmcMin len 512 = len
  · refine ⟨2 ^ 32, by norm_num, fun i hi => ?_⟩
    have hcount : chunkCount (2 ^ 32) len.toNat = 1 := by
      unfold chunkCount
      omega
    obtain rfl : i = 0 := by omega
    rw [hone, chunkLen]
    omega
  · have hdvd := h.2.resolve_left hone
    refine ⟨512, by norm_num, fun i hi => ?_⟩
    rw [bmcMin_of_ne hone]
    obtain ⟨q, hq⟩ := hdvd
    have hstart := start_le_of_lt (n := len.toNat) (c := 512) (by norm_num) hi
    have hpos : len ≠ 0 := by
      rintro rfl
      exact hone (by decide)
    have hnpos : 0 < len.toNat := by
      rw [Nat.pos_iff_ne_zero]
      exact fun hz => hpos (BitVec.eq_of_toNat_eq hz)
    -- a chunk starts in front of the end
    have hbefore : 512 * i < len.toNat := by
      cases i with
      | zero => exact hnpos
      | succ i => exact (succ_lt_chunkCount (by norm_num)).1 hi
    show min 512 (len.toNat - 512 * i) = 512
    omega

theorem uploadOk_of_fits (hlt : spi.buffer.length < 2 ^ 32) (h : UploadFits path len spi) : UploadOk path data len spi := by
  intro replies hok
  obtain ⟨c, hc, hchunk⟩ := exists_chunk h
  have hroom := h.1
  have hreply : ∀ j, ReplyOk spi.buffer.length (replies j) := by
    intro j
    obtain ⟨hsend, hrecv, hlong, hfits, hcode⟩ := hok j
    exact ⟨hsend, hrecv, hlong, by omega, hcode⟩
  have hpos : 0 < chunkCount c len.toNat := Nat.succ_pos _
  have hrun : fileUpload path data len replies (chunkCount c len.toNat) spi = _ :=
    uploadLoop_chunks data hc hchunk (chunkCount c len.toNat - 1) 0 0 rfl hroom hlt hreply rfl (by omega) (by omega)
  exact ⟨_, _, hrun, chunks_uploaded path data hc len.isLt⟩

theorem uploadLoop_endless (data : Nat → U8) (hone : bmcMin len 512 ≠ len) (hdvd : ¬512 ∣ len.toNat) (fuel : Nat) :
    ∀ {k : Nat} {spi : BwBmc} {offset held : U32}, bmcMin len held = bmcMin len 512 →
    20 + path.length + (bmcMin len 512).toNat ≤ spi.buffer.length → spi.buffer.length < 2 ^ 32 →
    (∀ j, ReplyOk spi.buffer.length (replies j)) → 512 ∣ offset.toNat → uploadLoop path data len replies fuel k spi offset held = none := by
  induction fuel with
  | zero => exact fun _ _ _ _ _ => rfl
  | succ fuel ih =>
    intro k spi offset held hheld h hlt hok hoffset
    have hnext : 512 ∣ (offset + bmcMin len 512).toNat := by
      rw [bmcMin_of_ne hone, BitVec.toNat_add]
      exact (Nat.dvd_mod_iff (by norm_num)).2 (Nat.dvd_add hoffset (by decide))
    obtain ⟨spi', hsize, hloop⟩ := uploadLoop_step data fuel offset hheld h hlt (hok k)
    have hgo : offset + bmcMin len 512 ≠ len := by
      intro heq
      rw [heq] at hnext
      exact hdvd hnext
    rw [hloop, if_neg hgo,
      ih (bmcMin_idem len) (by omega) (by omega) (by rwa [hsize]) hnext]
    rfl

theorem head_sent {fuel : Nat} {run : UploadRun} (h : fileUpload path data len replies fuel spi = some run) :
    ∃ rest, run.sent = (uploadMessage path data spi 0 (bmcMin len 512)).1.message :: rest := by
  cases fuel with
  | zero => cases h
  | succ fuel =>
    unfold fileUpload at h
    rw [uploadLoop] at h
    dsimp only at h
    split at h
    · cases h
      exact ⟨[], rfl⟩
    · split at h
      · cases h
        exact ⟨[], rfl⟩
      · obtain ⟨rest, -, rfl⟩ := Option.map_eq_some_iff.1 h
        exact ⟨rest.sent, rfl⟩

theorem fits_of_uploadOk (hlt : spi.buffer.length < 2 ^ 32) (h : UploadOk path data len spi) : UploadFits path len spi := by
  have hack : ∀ n, 9 ≤ n → ReplyOk n ackReply := fun n hn => ⟨rfl, rfl, le_rfl, hn, rfl⟩
  obtain ⟨fuel, run, hrun, -, -, frames, hsent, -⟩ := h (fun _ => ackReply) fun _ => hack _ (le_max_left _ _)
  obtain ⟨rest, hhead⟩ := head_sent hrun
  have hroom : 20 + path.length + (bmcMin len 512).toNat ≤ spi.buffer.length := by
    cases frames with
    | nil => exact absurd (hhead.symm.trans hsent) nofun
    | cons f frames => exact fits_of_encode hlt (List.cons.inj (hhead.symm.trans hsent)).1
  refine ⟨hroom, ?_⟩
  by_contra hno
  rw [not_or] at hno
  have hdl : (bmcMin len 512).toNat = 512 := by rw [bmcMin_of_ne hno.1]; rfl
  have hnone : fileUpload path data len (fun _ => ackReply) fuel spi = none :=
    uploadLoop_endless data hno.1 hno.2 fuel rfl hroom hlt (fun _ => hack _ (by omega)) (by decide)
  exact absurd (hrun.symm.trans hnone) nofun

theorem prioPath_fits_iff (hsize : spi.buffer.length = 2048) :
    UploadFits prioPath len spi ↔ len.toNat < 2 ^ 31 ∧ (len.toNat ≤ 512 ∨ 512 ∣ len.toNat) := by
  have hpath : prioPath.length = 18 := by decide
  have h₅ : (512 : U32).toNat = 512 := rfl
  unfold UploadFits
  rw [hsize, hpath, ← BitVec.toNat_inj (x := bmcMin len 512)]
  rcases Nat.lt_or_ge len.toNat (2 ^ 31) with hsmall | hbig
  · rw [toNat_bmcMin hsmall (by decide), h₅]
    omega
  · have hneg : bmcMin len 512 = len := by
      by_contra hne
      have hge : ¬len.toInt < (512 : U32).toInt := fun hlt => hne (if_pos hlt)
      rw [BitVec.toInt_eq_toNat_cond, if_neg (by omega)] at hge
      have hlen := len.isLt
      have h₅' : (512 : U32).toInt = 512 := rfl
      omega
    rw [hneg]
    omega

end

/-- For every path, every file and every buffer: the upload writes the file, whatever BMC acknowledges its messages, if and only if a
message has room and the file is one message or a multiple of 512 bytes. For a table of the boot driver, with its buffer of 2048 bytes,
that is: the table has at most 512 bytes or a multiple of them, and less than 2^31. -/
theorem upload_ok_iff (spi : BwBmc) (hlt : spi.buffer.length < 2 ^ 32) :
    (∀ path data len, UploadOk path data len spi ↔ UploadFits path len spi) ∧
    (spi.buffer.length = 2048 → ∀ alloc slots items rest table, prioTable alloc slots items rest = .ok table →
      (UploadOk prioPath (fun j => table.getD j 0) (BitVec.ofNat 32 table.length) spi ↔
        (BitVec.ofNat 32 table.length).toNat < 2 ^ 31 ∧
          ((BitVec.ofNat 32 table.length).toNat ≤ 512 ∨ 512 ∣ (BitVec.ofNat 32 table.length).toNat))) := by
  have hiff : ∀ path data len, UploadOk path data len spi ↔ UploadFits path len spi :=
    fun _ _ _ => ⟨fits_of_uploadOk hlt, uploadOk_of_fits hlt⟩
  refine ⟨hiff, fun hsize alloc slots items rest table _ => ?_⟩
  rw [hiff]
  exact prioPath_fits_iff hsize

def oneSlot : List BinarySlot := [⟨"image1", [], 1, 1, 0, 0, false, none, some "0x0-recovery".toList, false⟩]

/-- The table of one image with a priority has 18 bytes. -/
theorem short_table_uploaded : ∃ table, prioTable (fun _ => true) oneSlot [(1, 5)] 0 = .ok table ∧
    UploadOk prioPath (fun j => table.getD j 0) (BitVec.ofNat 32 table.length) freshBmc := by
  have hsize : freshBmc.buffer.length = 2048 := List.length_replicate
  refine ⟨_, rfl, ?_⟩
  exact ((upload_ok_iff freshBmc (by rw [hsize]; decide)).2 hsize (fun _ => true) oneSlot [(1, 5)] 0 _ rfl).2 (by decide)

/-- Sixteen images with names of 30 bytes. -/
def manySlots : List BinarySlot :=
  (List.range 16).map fun i => ⟨"image", [], i, i, 0, 0, false, none, some (List.replicate 30 'a'), false⟩

def manyItems : List (U64 × U64) := (List.range 16).map fun i => (BitVec.ofNat 64 i, 1)

/-- Their table of 531 bytes is not uploaded: no number of messages ends the loop, and the second one takes bytes behind the table. -/
theorem long_table_endless : ∃ table, prioTable (fun _ => true) manySlots manyItems 0 = .ok table ∧ table.length = 531 ∧
    (∀ fuel, uploadTable table (fun _ => ackReply) fuel freshBmc = none) ∧
    ¬UploadOk prioPath (fun j => table.getD j 0) (BitVec.ofNat 32 table.length) freshBmc := by
  have hsize : freshBmc.buffer.length = 2048 := List.length_replicate
  have hpath : prioPath.length = 18 := by decide
  obtain ⟨table, htable⟩ : ∃ table, prioTable (fun _ => true) manySlots manyItems 0 = .ok table := ⟨_, rfl⟩
  have hlength : (prioTable (fun _ => true) manySlots manyItems 0).map List.length = .ok 531 := by decide +kernel
  rw [htable] at hlength
  have hlength : table.length = 531 := Except.ok.inj hlength
  have hlen : BitVec.ofNat 32 table.length = 531 := by rw [hlength]; rfl
  refine ⟨table, htable, hlength, fun fuel => ?_, fun h => ?_⟩
  · unfold uploadTable fileUpload
    rw [hlen]
    refine uploadLoop_endless _ (by decide) (by decide) fuel rfl ?_ (by omega) (fun _ => ackReply_accepted) (by decide)
    rw [hpath, hsize]
    decide
  · have hfits := fits_of_uploadOk (by omega) h
    rw [hlen, prioPath_fits_iff hsize] at hfits
    revert hfits
    decide

end NdkSw.Boot

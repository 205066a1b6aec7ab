/-
The image of an Intel bitstream for the AVST interface (`nfb_fw_open_rbf` of `boot.c`): a header with the place of the first block,
then the file in blocks, each with its flags and its length, then padding.
-/
import NdkSw.Boot.BmcSpi
import NdkSw.Shared.Framed
import NdkSw.Shared.Words

namespace NdkSw.Boot

open Ndp Shared

/-! ## The image -/

def flagsHeader : BitVec 16 := 0xFF05

def flagsBlock : BitVec 16 := 0x0401

def startAddr : Nat := 0x20000

def blockSize : Nat := 0x1000

/-- What a call leaves: its result, the size of the buffer, and what was written to it. -/
structure RbfRun where
  ret : Int
  total : Nat
  writes : List (Nat × List U8)

/-- `data16[index] = x`. -/
def put16 (index : Nat) (x : BitVec 16) : Nat × List U8 := (2 * index, le16 x)

/-- `size_total`. -/
def sizeTotal (sizeFile : Nat) : Nat :=
  let size := startAddr + sizeFile + 4 * ((sizeFile + blockSize - 1) / blockSize)
  size + (blockSize - size % blockSize)

/-- The header: start and end address. -/
def rbfHeader (total : Nat) : List (Nat × List U8) :=
  [(0, List.replicate startAddr 0xFF),
    put16 0 (BitVec.ofNat 16 (startAddr >>> 2)), put16 1 (BitVec.ofNat 16 (startAddr >>> 2 >>> 16)),
    put16 2 (BitVec.ofNat 16 (total >>> 2)), put16 3 (BitVec.ofNat 16 (total >>> 2 >>> 16)), put16 64 flagsHeader]

/-- The loop over the file: what is written, and the index at the end or an error; no run if it needs more rounds. -/
def fillLoop (file : List U8) : Nat → Nat → Nat → BitVec 16 → Option (Int × List (Nat × List U8))
  | 0, _, _, _ => none
  | fuel + 1, i, offset, size =>
    if offset < file.length then
      let size := if file.length - offset < size.toNat then BitVec.ofNat 16 (file.length - offset) else size
      let head := [put16 (i / 2) flagsBlock, put16 (i / 2 + 1) size]
      let i := i + 4
      let bytes := (file.drop offset).take size.toNat
      let ws := head ++ [(i, bytes)]
      if bytes.length ≠ size.toNat then some (eNoBufs, ws)
      else (fillLoop file fuel (i + size.toNat) (offset + size.toNat) size).map fun r => (r.1, ws ++ r.2)
    else some (i, [])

/-- `nfb_fw_open_rbf`. -/
def nfbFwOpenRbf (alloc : Nat → Bool) (fuel : Nat) (file : List U8) : Option RbfRun :=
  let total := sizeTotal file.length
  if alloc total = false then some ⟨eNomem, total, []⟩
  else
    (fillLoop file fuel startAddr 0 (BitVec.ofNat 16 blockSize)).map fun r =>
      if r.1 < 0 then ⟨r.1, total, rbfHeader total ++ r.2⟩
      else ⟨r.1, total, rbfHeader total ++ r.2 ++ [(r.1.toNat, List.replicate (total - r.1.toNat) 0xFF)]⟩

/-! ## Reading an image -/

/-- The 16-bit number at an address. -/
def get16 (mem : Nat → Option U8) (a : Nat) : Option (BitVec 16) :=
  (mem a).bind fun lo => (mem (a + 1)).map fun hi => (hi ++ lo : BitVec (8 + 8))

/-- The start address in the header. -/
def startOf (mem : Nat → Option U8) : Option Nat :=
  (get16 mem 0).bind fun lo => (get16 mem 2).map fun hi => 4 * (lo.toNat + 2 ^ 16 * hi.toNat)

/-- The length of the block at an address; none if no block starts there. -/
def blockAt (mem : Nat → Option U8) (total a : Nat) : Option Nat :=
  if a + 4 ≤ total ∧ get16 mem a = some flagsBlock then (get16 mem (a + 2)).map BitVec.toNat else none

/-- All blocks from the start address on: the data, and the address behind them. -/
def walkImage (mem : Nat → Option U8) (total : Nat) : Option (List U8 × Nat) :=
  (startOf mem).bind fun a => walk mem (blockAt mem total) 4 total a

/-- The buffer that is left. -/
def RbfRun.image (run : RbfRun) : Nat → Option U8 := placeAll (fun _ => none) run.writes

/-- The image of a file: nothing is written outside, the blocks are the file, and padding follows to the end. The index of the code is
an `int`. -/
structure RbfOk (file : List U8) (run : RbfRun) (stop : Nat) : Prop where
  ret : run.ret = stop
  inside : ∀ w ∈ run.writes, w.1 + w.2.length ≤ run.total
  blocks : walkImage run.image run.total = some (file, stop)
  padding : ∀ i, stop ≤ i → i < run.total → run.image i = some 0xFF
  index : run.total < 2 ^ 31

/-! ## The blocks -/

/-- The header of a block. -/
def blockHeader (n : Nat) : List U8 := le16 flagsBlock ++ le16 (BitVec.ofNat 16 n)

theorem length_le16 (x : BitVec 16) : (le16 x).length = 2 := rfl

theorem length_blockHeader (n : Nat) : (blockHeader n).length = 4 := rfl

variable {w : Nat × List U8}

theorem put16_inside {index : Nat} {x : BitVec 16} (hw : w = put16 index x) (h : index ≤ 64) : w.1 + w.2.length ≤ startAddr := by
  rw [hw]
  show 2 * index + 2 ≤ 0x20000
  omega

theorem filler_inside {n : Nat} {b : U8} (hw : w = (0, List.replicate n b)) : w.1 + w.2.length ≤ n := by
  rw [hw]
  dsimp only
  rw [List.length_replicate, Nat.zero_add]

theorem rbfHeader_inside {total : Nat} (hw : w ∈ rbfHeader total) : w.1 + w.2.length ≤ startAddr := by
  unfold rbfHeader at hw
  rcases List.mem_cons.1 hw with hw | hw
  · exact filler_inside hw
  rcases List.mem_cons.1 hw with hw | hw
  · exact put16_inside hw (by decide)
  rcases List.mem_cons.1 hw with hw | hw
  · exact put16_inside hw (by decide)
  rcases List.mem_cons.1 hw with hw | hw
  · exact put16_inside hw (by decide)
  rcases List.mem_cons.1 hw with hw | hw
  · exact put16_inside hw (by decide)
  · exact put16_inside (List.mem_singleton.1 hw) (by decide)

section

variable {mem : Nat → Option U8} {a : Nat}

theorem get16_stored {x : BitVec 16} (h : Stored mem a (le16 x)) : get16 mem a = some x := by
  have h₀ : mem a = some (x.setWidth 8) := h 0 Nat.zero_lt_two
  have h₁ : mem (a + 1) = some ((x >>> 8).setWidth 8) := h 1 Nat.one_lt_two
  unfold get16
  rw [h₀, h₁, Option.bind_some, Option.map_some]
  congr 1
  apply BitVec.eq_of_getLsbD_eq
  intro j hj
  rw [BitVec.getLsbD_append, BitVec.getLsbD_setWidth, BitVec.getLsbD_setWidth, BitVec.getLsbD_ushiftRight]
  rcases Nat.lt_or_ge j 8 with hlt | hge
  · simp [hlt]
  · simp [Nat.not_lt.2 hge, Nat.add_sub_cancel' hge]
    omega

theorem blockAt_stored {total : Nat} {l : List U8} (h : Stored mem a (blockHeader l.length ++ l)) (hlen : l.length ≤ blockSize)
    (hstop : a + (4 + l.length) ≤ total) : blockAt mem total a = some l.length := by
  obtain ⟨hflags, hsize⟩ := stored_append.1 (stored_append.1 h).1
  rw [length_le16] at hsize
  have hlt : l.length < 2 ^ 16 := lt_of_le_of_lt hlen (by decide)
  unfold blockAt
  rw [if_pos ⟨by omega, get16_stored hflags⟩, get16_stored hsize, Option.map_some, BitVec.toNat_ofNat, Nat.mod_eq_of_lt hlt]

end

/-- What the loop leaves from a place of the file on. -/
structure Filled (file : List U8) (i offset : Nat) (ws : List (Nat × List U8)) (blocks : List (List U8)) (stop : Nat) : Prop where
  framed : ∀ held, Shared.Framed blockHeader (placeAll held ws) i stop blocks
  data : blocks.flatten = file.drop offset
  short : ∀ l ∈ blocks, l.length ≤ blockSize
  count : blocks.length = (file.length - offset + blockSize - 1) / blockSize
  stop_eq : stop = i + 4 * blocks.length + (file.length - offset)
  inside : ∀ w ∈ ws, i ≤ w.1 ∧ w.1 + w.2.length ≤ stop

section

variable {file : List U8} {i offset n : Nat}

/-- The writes of one block. -/
def blockWrites (file : List U8) (i offset n : Nat) : List (Nat × List U8) :=
  [put16 (i / 2) flagsBlock, put16 (i / 2 + 1) (BitVec.ofNat 16 n), (i + 4, (file.drop offset).take n)]

theorem blockWrites_stored (held : Nat → Option U8) (heven : i % 2 = 0) (hn : offset + n ≤ file.length) :
    Stored (placeAll held (blockWrites file i offset n)) i (blockHeader ((file.drop offset).take n).length ++ (file.drop offset).take n) := by
  have hlen : ((file.drop offset).take n).length = n := by
    rw [List.length_take, List.length_drop]
    omega
  have h₀ : 2 * (i / 2) = i := by omega
  have h₁ : 2 * (i / 2 + 1) = i + 2 := by omega
  rw [hlen]
  unfold blockWrites put16
  rw [h₀, h₁]
  exact ((stored_storeList held i (le16 flagsBlock)).storeList_behind (le16 (BitVec.ofNat 16 n))).storeList_behind _

/-- One block in front of the others. -/
theorem Filled.cons {ws : List (Nat × List U8)} {blocks : List (List U8)} {stop : Nat} (heven : i % 2 = 0) (hpos : 0 < n)
    (hn : offset + n ≤ file.length) (hle : n ≤ blockSize) (hlast : n = blockSize ∨ offset + n = file.length)
    (h : Filled file (i + 4 + n) (offset + n) ws blocks stop) :
    Filled file i offset (blockWrites file i offset n ++ ws) ((file.drop offset).take n :: blocks) stop := by
  have hlen : ((file.drop offset).take n).length = n := by
    rw [List.length_take, List.length_drop]
    omega
  have hhead : (blockHeader ((file.drop offset).take n).length ++ (file.drop offset).take n).length = 4 + n := by
    rw [List.length_append, length_blockHeader, hlen]
  have hstop := h.stop_eq
  constructor
  case framed =>
    intro held
    rw [placeAll_append]
    refine .cons ((blockWrites_stored held heven hn).congr fun j _ hj => ?_) ?_
    · rw [hhead] at hj
      exact placeAll_before _ fun w hw => lt_of_lt_of_le (by omega) (h.inside w hw).1
    · rw [hhead, ← Nat.add_assoc]
      exact h.framed _
  case data =>
    rw [List.flatten_cons, h.data, ← List.drop_drop, List.take_append_drop]
  case short =>
    intro l hl
    rcases List.mem_cons.1 hl with rfl | hl
    · rwa [hlen]
    · exact h.short l hl
  case count =>
    have hcount := h.count
    unfold blockSize at hcount hlast hle ⊢
    rw [List.length_cons]
    omega
  case stop_eq =>
    rw [List.length_cons]
    omega
  case inside =>
    intro w hw
    rcases List.mem_append.1 hw with hw | hw
    · unfold blockWrites put16 at hw
      simp only [List.mem_cons, List.not_mem_nil, or_false] at hw
      rcases hw with rfl | rfl | rfl
      · dsimp only
        rw [length_le16]
        omega
      · dsimp only
        rw [length_le16]
        omega
      · dsimp only
        rw [hlen]
        omega
    · have hin := h.inside w hw
      omega

/-- The loop writes all that is left of the file in blocks. -/
theorem fillLoop_spec (file : List U8) : ∀ fuel i offset, ∀ size : BitVec 16, file.length - offset < fuel → offset ≤ file.length →
    (size.toNat = blockSize ∧ i % 2 = 0 ∨ offset = file.length) →
    ∃ ws blocks stop, fillLoop file fuel i offset size = some (((stop : Nat) : Int), ws) ∧ Filled file i offset ws blocks stop := by
  intro fuel
  induction fuel with
  | zero => exact fun _ _ _ h => absurd h (Nat.not_lt_zero _)
  | succ fuel ih =>
    intro i offset size hfuel hle hsize
    unfold fillLoop
    rcases Nat.lt_or_ge offset file.length with hlt | hge
    · obtain ⟨hfull, heven⟩ : size.toNat = blockSize ∧ i % 2 = 0 := by
        rcases hsize with h | h
        · exact h
        · omega
      rw [if_pos hlt]
      -- the length of this block
      have hcut : ∃ n, (if file.length - offset < size.toNat then BitVec.ofNat 16 (file.length - offset) else size) = BitVec.ofNat 16 n ∧
          n = min blockSize (file.length - offset) := by
        refine ⟨min blockSize (file.length - offset), ?_, rfl⟩
        split_ifs with hcut
        · rw [Nat.min_eq_right (by omega)]
        · rw [Nat.min_eq_left (by omega), ← hfull, BitVec.ofNat_toNat, BitVec.setWidth_eq]
      obtain ⟨n, hcut, hn⟩ := hcut
      have hmod : (BitVec.ofNat 16 n).toNat = n := by
        rw [BitVec.toNat_ofNat]
        exact Nat.mod_eq_of_lt (lt_of_le_of_lt (hn ▸ Nat.min_le_left _ _) (by decide))
      have hlen : ((file.drop offset).take n).length = n := by
        rw [List.length_take, List.length_drop]
        omega
      have hblock : blockSize = 4096 := rfl
      obtain ⟨ws, blocks, stop, hrun, hfilled⟩ := ih (i + 4 + n) (offset + n) (BitVec.ofNat 16 n) (by omega) (by omega) (by omega)
      refine ⟨blockWrites file i offset n ++ ws, (file.drop offset).take n :: blocks, stop, ?_,
        hfilled.cons heven (by omega) (by omega) (by omega) (by omega)⟩
      dsimp only
      rw [hcut, hmod, if_neg (not_not_intro hlen), hrun]
      rfl
    · obtain rfl : offset = file.length := by omega
      rw [if_neg (lt_irrefl _)]
      refine ⟨[], [], i, rfl, fun held => .nil i, ?_, ?_, ?_, ?_, ?_⟩
      · rw [List.drop_length]
        rfl
      · exact fun l hl => absurd hl List.not_mem_nil
      · rw [Nat.sub_self]
        rfl
      · rw [Nat.sub_self]
        rfl
      · exact fun w hw => absurd hw List.not_mem_nil

end
/-! ## The whole image -/

section

variable {file : List U8} {total stop : Nat} {ws : List (Nat × List U8)} {blocks : List (List U8)}

theorem sizeTotal_bounds (h : Filled file startAddr 0 ws blocks stop) :
    stop < sizeTotal file.length ∧ sizeTotal file.length ≤ stop + blockSize := by
  have hcount := h.count
  have hstop := h.stop_eq
  rw [Nat.sub_zero] at hcount hstop
  have hsize : startAddr + file.length + 4 * ((file.length + blockSize - 1) / blockSize) = stop := by omega
  unfold sizeTotal
  dsimp only
  rw [hsize]
  have hlt : stop % blockSize < blockSize := Nat.mod_lt _ (by decide)
  omega

/-- The buffer at the end of a call. -/
def filledImage (total stop : Nat) (ws : List (Nat × List U8)) : Nat → Option U8 :=
  storeList (placeAll (placeAll (fun _ => none) (rbfHeader total)) ws) stop (List.replicate (total - stop) 0xFF)

theorem filledImage_padding {i : Nat} (hle : stop ≤ i) (hlt : i < total) : filledImage total stop ws i = some 0xFF := by
  obtain ⟨j, rfl⟩ := Nat.exists_eq_add_of_le hle
  have hj : j < total - stop := by omega
  unfold filledImage
  rw [storeList_inside (by rwa [List.length_replicate]), List.getElem?_replicate, if_pos hj]

theorem filledImage_header (h : Filled file startAddr 0 ws blocks stop) {i : Nat} (hi : i < startAddr) :
    filledImage total stop ws i = placeAll (fun _ => none) (rbfHeader total) i := by
  have hstop := h.stop_eq
  unfold filledImage
  rw [storeList_before (by omega)]
  exact placeAll_before _ fun w hw => lt_of_lt_of_le hi (h.inside w hw).1

theorem startOf_filledImage (h : Filled file startAddr 0 ws blocks stop) : startOf (filledImage total stop ws) = some startAddr := by
  have hlo : Stored (placeAll (fun _ => none) (rbfHeader total)) 0 (le16 (BitVec.ofNat 16 (startAddr >>> 2))) := by
    refine placeAll_stored _ [(0, List.replicate startAddr 0xFF)] fun w hw => ?_
    simp only [put16, List.mem_cons, List.not_mem_nil, or_false] at hw
    rcases hw with rfl | rfl | rfl | rfl <;> exact Nat.le_of_ble_eq_true rfl
  have hhi : Stored (placeAll (fun _ => none) (rbfHeader total)) 2 (le16 (BitVec.ofNat 16 (startAddr >>> 2 >>> 16))) := by
    refine placeAll_stored _ [(0, List.replicate startAddr 0xFF), put16 0 (BitVec.ofNat 16 (startAddr >>> 2))] fun w hw => ?_
    simp only [put16, List.mem_cons, List.not_mem_nil, or_false] at hw
    rcases hw with rfl | rfl | rfl <;> exact Nat.le_of_ble_eq_true rfl
  have hsmall : (4 : Nat) < startAddr := by decide
  have hkeep : ∀ {a : Nat} {l : List U8}, a + l.length ≤ 4 → Stored (placeAll (fun _ => none) (rbfHeader total)) a l →
      Stored (filledImage total stop ws) a l :=
    fun hle hl => hl.congr fun i _ hi => filledImage_header h (by omega)
  unfold startOf
  rw [get16_stored (hkeep (by rw [length_le16]; omega) hlo), Option.bind_some, get16_stored (hkeep (by rw [length_le16]) hhi)]
  rfl

theorem blockAt_stop : blockAt (filledImage total stop ws) total stop = none := by
  unfold blockAt
  rw [if_neg]
  rintro ⟨hle, hflags⟩
  unfold get16 at hflags
  rw [filledImage_padding (le_refl stop) (by omega), filledImage_padding (Nat.le_succ stop) (by omega)] at hflags
  exact absurd (Option.some.inj hflags) (by decide)

theorem walkImage_filledImage (h : Filled file startAddr 0 ws blocks stop) (htotal : total = sizeTotal file.length) :
    walkImage (filledImage total stop ws) total = some (file, stop) := by
  have hbounds := sizeTotal_bounds h
  have hstop := h.stop_eq
  have hframed : Shared.Framed blockHeader (filledImage total stop ws) startAddr stop blocks :=
    (h.framed _).congr fun i _ hlt => storeList_before hlt
  have hnone : blockAt (filledImage total stop ws) total stop = none := blockAt_stop
  have hwalk := walk_framed length_blockHeader hnone hframed
    (fun a l hl hst hle => blockAt_stored hst (h.short l hl) (by omega)) total (by omega)
  rw [h.data, List.drop_zero] at hwalk
  unfold walkImage
  rw [startOf_filledImage h, Option.bind_some, hwalk]

/-- The image of a file of less than `2 ^ 30` bytes is walked back to the file; or there is no memory for it. -/
theorem openRbf_round_trip (alloc : Nat → Bool) (file : List U8) (fuel : Nat) (hfuel : file.length < fuel) (hlt : file.length < 2 ^ 30) :
    ∃ run, nfbFwOpenRbf alloc fuel file = some run ∧
      (alloc run.total = false ∧ run.ret = eNomem ∨ ∃ stop, RbfOk file run stop) := by
  have hsize : (BitVec.ofNat 16 blockSize).toNat = blockSize := rfl
  obtain ⟨ws, blocks, stop, hrun, h⟩ :=
    fillLoop_spec file fuel startAddr 0 (BitVec.ofNat 16 blockSize) (by omega) (Nat.zero_le _) (Or.inl ⟨hsize, rfl⟩)
  unfold nfbFwOpenRbf
  dsimp only
  by_cases halloc : alloc (sizeTotal file.length) = false
  · rw [if_pos halloc]
    exact ⟨_, rfl, Or.inl ⟨halloc, rfl⟩⟩
  · obtain ⟨hstop, htotal⟩ := sizeTotal_bounds h
    have hcount := h.count
    have hend := h.stop_eq
    have hneg : ¬ ((stop : Int) < 0) := by omega
    rw [if_neg halloc, hrun, Option.map_some]
    dsimp only
    rw [if_neg hneg, Int.toNat_natCast]
    refine ⟨_, rfl, Or.inr ⟨stop, ?_⟩⟩
    have himage : RbfRun.image ⟨stop, sizeTotal file.length, rbfHeader (sizeTotal file.length) ++ ws ++
        [(stop, List.replicate (sizeTotal file.length - stop) 0xFF)]⟩ = filledImage (sizeTotal file.length) stop ws := by
      unfold RbfRun.image filledImage
      rw [placeAll_append, placeAll_append]
      rfl
    refine ⟨rfl, ?_, ?_, ?_, ?_⟩
    · intro w hw
      -- the header, the blocks, and the padding behind them
      rcases List.mem_append.1 hw with hw | hw
      · rcases List.mem_append.1 hw with hw | hw
        · have hin := rbfHeader_inside hw
          dsimp only
          omega
        · have hin := h.inside w hw
          dsimp only
          omega
      · obtain rfl := List.mem_singleton.1 hw
        dsimp only
        rw [List.length_replicate]
        omega
    · rw [himage]
      exact walkImage_filledImage h rfl
    · intro i hle hi
      rw [himage]
      exact filledImage_padding hle hi
    · unfold blockSize at hcount htotal
      unfold startAddr at hend
      dsimp only
      omega

end

/-- A file of two blocks, the second one shorter. -/
def twoBlocks : List U8 := List.replicate 4096 0x11 ++ List.replicate 904 0x22

theorem two_blocks_round_trip : ∃ run, nfbFwOpenRbf (fun _ => true) 5001 twoBlocks = some run ∧ ∃ stop, RbfOk twoBlocks run stop := by
  have hlen : twoBlocks.length = 5000 := by
    rw [twoBlocks, List.length_append, List.length_replicate, List.length_replicate]
  obtain ⟨run, hrun, ⟨hnone, -⟩ | hok⟩ := openRbf_round_trip (fun _ => true) twoBlocks 5001 (by rw [hlen]; decide) (by rw [hlen]; decide)
  · cases hnone
  · exact ⟨run, hrun, hok⟩

end NdkSw.Boot

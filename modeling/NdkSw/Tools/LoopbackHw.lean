/-
The hardware loop-back of `ndptool` (`ndptool/loopback_hw.c`, `ndptool/structured_packet.h`): the sizes it generates beforehand from the
list of the option, the packets it writes and the packets it reads back.
-/
import NdkSw.Tools.ListParse
import NdkSw.Shared.Words

namespace NdkSw.Tools

open Ndp

/-! ## Sizes -/

/-- `PREGEN_SEQ_SIZE`. -/
def pregenSeqSize : Nat := 5503

/-- `MAX_PACKET_SIZE`. -/
def maxPacketSize : Nat := 4096

/-- The size for an item, with what `rand` returns; none if the division is by zero. -/
def pregenSize (r : RangeItem) (rand : U32) : Option U16 :=
  if r.max = 0 then some (r.min.setWidth 16)
  else if r.max - r.min + 1 = 0 then none
  else some ((((rand.srem (r.max - r.min + 1)).setWidth 16).setWidth 32 + r.min).setWidth 16)

/-- The loop of `pregenerate`: sizes and ids from item `e` and call `k` of `rand` on. -/
def pregenLoop (lr : ListRange) (rnd : Nat → BitVec 31) : Nat → U16 → Nat → Option (List (U16 × U32))
  | 0, _, _ => some []
  | left + 1, e, k =>
    match lr[e.toNat]? with
    | none => none
    | some r =>
      match pregenSize r ((rnd k).setWidth 32) with
      | none => none
      | some size =>
        let k := if r.max = 0 then k else k + 1
        let e := if lr.length ≤ (e + 1).toNat then 0 else e + 1
        (pregenLoop lr rnd left e (k + 1)).map ((size, (rnd k).setWidth 32) :: ·)

/-- `pregenerate`: the arrays with their shadow. -/
def pregenerate (lr : ListRange) (rnd : Nat → BitVec 31) : Option (List (U16 × U32)) :=
  (pregenLoop lr rnd pregenSeqSize 0 0).map fun l => l ++ l

/-! ## Structured packets -/

/-- `get_size_hash`. -/
def getSizeHash (x : U16) : U8 := ((x >>> 8) + x).setWidth 8

/-- `get_size32`. -/
def getSize32 (x : U16) : U16 := BitVec.ofNat 16 ((x.toNat + 3) / 4)

/-- `htobe32` and `be32toh`. -/
def swap32 (x : U32) : U32 := x.extractLsb' 0 8 ++ x.extractLsb' 8 8 ++ x.extractLsb' 16 8 ++ x.extractLsb' 24 8

/-- The data block that `sp_init` makes. -/
def dataBlock (size burstId : U16) (packetId : U8) : U32 := swap32 (getSizeHash size ++ burstId ++ packetId)

/-! ## Generating -/

/-- What `generate_burst` writes to a buffer: words of a data block, and in latency mode a time over the first ones. -/
structure GenPacket where
  size : U16
  block : U32
  time : Option U64

/-- The byte at an offset of the buffer is written. -/
def GenPacket.Writes (p : GenPacket) (o : Nat) : Prop := o < 4 * (getSize32 p.size).toNat ∨ p.time.isSome = true ∧ o < 8

/-- A call of `generate_burst`. The time is there in latency mode. -/
structure BurstCall where
  count : Nat
  burstIndex : U16
  time : Option U64

/-- The loop of `generate_burst`; none if it reads outside of the array. -/
def generateLoop (sizes : List U16) (c : BurstCall) : Nat → U16 → U8 → Option (List GenPacket × U16)
  | 0, ptr, _ => some ([], ptr)
  | left + 1, ptr, packetId =>
    match sizes[ptr.toNat]? with
    | none => none
    | some size =>
      (generateLoop sizes c left (ptr + 1) (packetId + 1)).map fun (l, ptr) =>
        ({ size := size, block := dataBlock size c.burstIndex packetId, time := c.time } :: l, ptr)

/-- `generate_burst`: the packets and the new `pregen_ptr`. -/
def generateBurst (sizes : List U16) (ptr : U32) (c : BurstCall) : Option (List GenPacket × U32) :=
  (generateLoop sizes c c.count (ptr.setWidth 16) ((c.burstIndex + 1).setWidth 8)).map fun (l, ptr) =>
    (l, (if pregenSeqSize ≤ ptr.toNat then ptr - BitVec.ofNat 16 pregenSeqSize else ptr).setWidth 32)

/-- Bursts one after the other. -/
def generateBursts (sizes : List U16) : U32 → List BurstCall → Option (List GenPacket × U32)
  | ptr, [] => some ([], ptr)
  | ptr, c :: calls =>
    match generateBurst sizes ptr c with
    | none => none
    | some (l, ptr) => (generateBursts sizes ptr calls).map fun (l', ptr) => (l ++ l', ptr)

/-! ## Checking -/

/-- A received packet: its length, and the memory from its data on. -/
structure RxPacket where
  len : U32
  mem : Nat → U8

/-- A word of the data. -/
def RxPacket.word (p : RxPacket) (i : Nat) : U32 := p.mem (4 * i + 3) ++ p.mem (4 * i + 2) ++ p.mem (4 * i + 1) ++ p.mem (4 * i)

/-- The size that the check works with. -/
def RxPacket.size (p : RxPacket) : U16 := p.len.setWidth 16

/-- A read at an offset of a packet, of some bytes. -/
structure RxRead where
  packet : RxPacket
  offset : Nat
  bytes : Nat

/-- The read stays in the received data. -/
def RxRead.Inside (r : RxRead) : Prop := r.offset + r.bytes ≤ r.packet.len.toNat

instance (r : RxRead) : Decidable r.Inside := inferInstanceAs (Decidable (_ ≤ _))

/-- `sp_print` with the data of a packet. -/
def spPrint (p : RxPacket) : List RxRead := [{ packet := p, offset := 0, bytes := p.size.toNat }]

/-- The loop over the aligned words of `sp_check_data_fast`: the reads, and whether the words are as they should be. -/
def checkWords (p : RxPacket) : Nat → Nat → List RxRead × Bool
  | 0, _ => ([], true)
  | left + 1, i =>
    if p.word i ≠ p.word 2 then ([{ packet := p, offset := 4 * i, bytes := 4 }], false)
    else ({ packet := p, offset := 4 * i, bytes := 4 } :: (checkWords p left (i + 1)).1, (checkWords p left (i + 1)).2)

/-- The first word that is checked. -/
def firstWord (latency : Bool) : Nat := if latency then 2 else 0

/-- The words before the last one that may not be whole. -/
def RxPacket.wholeWords (p : RxPacket) : Nat := p.size.toNat / 4

/-- `invalid_bytes_cnt`. -/
def RxPacket.invalidBytes (p : RxPacket) : Nat := 4 * (getSize32 p.size).toNat - p.size.toNat

/-- `sp_check_data_fast`, on what `sp_reconstruct` takes from the third word: the reads, those of the printed data included, and whether
the packet passes. -/
def spCheckDataFast (latency : Bool) (p : RxPacket) : List RxRead × Bool :=
  if p.size = 0 then (spPrint p, false)
  else if (swap32 (p.word 2)).extractLsb' 24 8 ≠ getSizeHash p.size then (spPrint p, false)
  else
    let first := firstWord latency
    let words := checkWords p (p.wholeWords - first) first
    if words.2 = false then (words.1 ++ spPrint p, false)
    else if p.invalidBytes = 0 then words
    else
      let last := max first p.wholeWords
      let read : RxRead := { packet := p, offset := 4 * last, bytes := 4 }
      if p.word last <<< (8 * p.invalidBytes) ≠ p.word 2 <<< (8 * p.invalidBytes) then (words.1 ++ read :: spPrint p, false)
      else (words.1 ++ [read], true)

/-- The reads of a pass of `check_burst` before the check: in latency mode the time, and the third word. -/
def headReads (latency : Bool) (p : RxPacket) : List RxRead :=
  (if latency then [{ packet := p, offset := 0, bytes := 8 }] else []) ++ [{ packet := p, offset := 8, bytes := 4 }]

/-- The reads of `check_burst`, up to the first packet that fails; then the one before it is printed. No burst has so many packets that
its counter of 16 bits starts again. -/
def checkBurst (latency : Bool) : Option RxPacket → List RxPacket → List RxRead
  | _, [] => []
  | prev, p :: l =>
    headReads latency p ++ (spCheckDataFast latency p).1 ++
      if (spCheckDataFast latency p).2 then checkBurst latency (some p) l else (prev.map spPrint).getD []

/-! ## What is right -/

/-- A size is a listed number or lies in the range of its item. -/
def RangeItem.Has (r : RangeItem) (size : U16) : Prop := r.min.toInt ≤ size.toNat ∧ (size.toNat : Int) ≤ r.max.toInt

/-- The generated sizes are those of the list, in turn. -/
def SizesListed (lr : ListRange) (l : List (U16 × U32)) : Prop :=
  l.length = 2 * pregenSeqSize ∧
    ∀ i (hi : i < l.length), ∃ r, lr[i % pregenSeqSize % lr.length]? = some r ∧ r.Has l[i].1

/-- Bursts of the size that is allowed stay in the arrays and in the buffers, and the index stays in the first half. -/
def BurstsInside (txBurst : Nat) (latency : Bool) (sizes : List U16) : Prop :=
  ∀ calls : List BurstCall, (∀ c ∈ calls, c.count ≤ txBurst ∧ c.time.isSome = latency) →
    ∃ l ptr, generateBursts sizes 0 calls = some (l, ptr) ∧ ptr.toNat < pregenSeqSize ∧
      ∀ p ∈ l, ∀ o, p.Writes o → o < maxPacketSize

/-- The generator and the check stay where they should. -/
structure LoopbackRight (lr : ListRange) (txBurst : Nat) (latency : Bool) (rx : List RxPacket) : Prop where
  generated : ∀ rnd, ∃ l, pregenerate lr rnd = some l ∧ SizesListed lr l ∧ BurstsInside txBurst latency (l.map Prod.fst)
  checked : ∀ r ∈ checkBurst latency none rx, r.Inside

/-- The item has sizes that a buffer holds; or it ends at zero, and what it begins with is zero in 16 bits. -/
def RangeItem.Fits (r : RangeItem) : Prop := 0 ≤ r.min.toInt ∧ r.max.toInt ≤ maxPacketSize ∨ r.max = 0 ∧ (65536 : Int) ∣ r.min.toInt

instance (r : RangeItem) : Decidable r.Fits := inferInstanceAs (Decidable (_ ∨ _))

/-- Every item that is used fits. -/
def SizesFit (lr : ListRange) : Prop := ∀ r ∈ lr.take pregenSeqSize, r.Fits

instance (lr : ListRange) : Decidable (SizesFit lr) := inferInstanceAs (Decidable (∀ _ ∈ _, _))

/-- The content is that of a generated packet of this size up to its last whole word. -/
def RxPacket.HeadGenuine (p : RxPacket) (latency : Bool) : Prop :=
  p.size ≠ 0 ∧ (swap32 (p.word 2)).extractLsb' 24 8 = getSizeHash p.size ∧
    ∀ i < p.wholeWords, firstWord latency ≤ i → p.word i = p.word 2

/-- So is the rest. -/
def RxPacket.Genuine (p : RxPacket) (latency : Bool) : Prop :=
  p.HeadGenuine latency ∧
    (p.invalidBytes ≠ 0 →
      p.word (max (firstWord latency) p.wholeWords) <<< (8 * p.invalidBytes) = p.word 2 <<< (8 * p.invalidBytes))

/-- The packet has its third word; and it ends with a whole word or is wrong before the last one. From 2^16 bytes on only a part of it
is checked. -/
def RxPacket.Long (p : RxPacket) (latency : Bool) : Prop :=
  12 ≤ p.len.toNat ∧ (4 ∣ p.len.toNat ∨ 65536 ≤ p.len.toNat ∨ ¬p.HeadGenuine latency)

/-- Every packet that comes before the first wrong one, and this one, is long enough. -/
def RxLong (latency : Bool) : List RxPacket → Prop
  | [] => True
  | p :: l => p.Long latency ∧ (p.Genuine latency → RxLong latency l)

/-! ## The sizes of an item -/

theorem toNat_setWidth16 (x : U32) : ((x.setWidth 16).toNat : Int) = x.toInt % 65536 := by
  rw [BitVec.toNat_setWidth, BitVec.toInt_eq_toNat_cond]
  have hx := x.isLt
  split <;> omega

section

variable {r : RangeItem}

/-- The number of values of an item, where it is an `int`. -/
theorem toInt_count (hle : r.max.toInt - r.min.toInt + 1 < 2 ^ 31) :
    (r.max - r.min + 1).toInt = r.max.toInt - r.min.toInt + 1 := by
  have hord := r.ordered
  rw [BitVec.toInt_add, BitVec.toInt_sub, show (1 : U32).toInt = 1 from rfl, Int.bmod_add_bmod]
  apply Int.bmod_eq_of_le <;> omega

/-- The number of values is an `int` unless it is zero. -/
theorem RangeItem.Counted.small (hc : r.Counted) (hne : r.max - r.min + 1 ≠ 0) : r.max.toInt - r.min.toInt + 1 < 2 ^ 31 := by
  by_contra hbig
  have hord := r.ordered
  have hmax := BitVec.toInt_lt (x := r.max)
  have hmin := BitVec.le_toInt (x := r.min)
  have hmod : (r.max - r.min + 1).toInt = (r.max.toInt - r.min.toInt + 1).bmod (2 ^ 32) := by
    rw [BitVec.toInt_add, BitVec.toInt_sub, show (1 : U32).toInt = 1 from rfl, Int.bmod_add_bmod]
  rw [RangeItem.Counted, hmod] at hc
  have hzero : (r.max - r.min + 1).toInt ≠ (0 : U32).toInt := fun h => hne (BitVec.eq_of_toInt_eq h)
  rw [hmod, show (0 : U32).toInt = 0 from rfl] at hzero
  have hshift : (r.max.toInt - r.min.toInt + 1).bmod (2 ^ 32) = r.max.toInt - r.min.toInt + 1 - 2 ^ 32 := by
    rw [← Int.sub_bmod_right]
    apply Int.bmod_eq_of_le <;> omega
  rw [hshift] at hc hzero
  omega

theorem pregenSize_eq (hmax : r.max ≠ 0) (hle : r.max.toInt - r.min.toInt + 1 < 2 ^ 31) (v : BitVec 31) :
    ∃ size, pregenSize r (v.setWidth 32) = some size ∧
      (size.toNat : Int) = ((v.toNat : Int) % (r.max.toInt - r.min.toInt + 1) + r.min.toInt) % 65536 := by
  have hord := r.ordered
  have hcount := toInt_count hle
  have hne : r.max - r.min + 1 ≠ 0 := by
    intro h
    rw [h, show (0 : U32).toInt = 0 from rfl] at hcount
    omega
  have hv := v.isLt
  have hrand : (v.setWidth 32).toInt = v.toNat := by
    rw [BitVec.toInt_eq_toNat_cond, BitVec.toNat_setWidth, if_pos (by omega)]
    omega
  have hrem : ((v.setWidth 32).srem (r.max - r.min + 1)).toInt = (v.toNat : Int) % (r.max.toInt - r.min.toInt + 1) := by
    rw [BitVec.toInt_srem, hcount, hrand, Int.tmod_eq_emod_of_nonneg (Int.natCast_nonneg _)]
  refine ⟨_, by rw [pregenSize, if_neg hmax, if_neg hne], ?_⟩
  rw [toNat_setWidth16, BitVec.toInt_add, ← hrem]
  generalize (v.setWidth 32).srem (r.max - r.min + 1) = q
  have hq : ((q.setWidth 16).setWidth 32).toInt = q.toInt % 65536 := by
    rw [← toNat_setWidth16, BitVec.toInt_eq_toNat_cond, BitVec.toNat_setWidth, if_pos (by omega)]
    omega
  rw [hq, Int.bmod_def]
  split <;> omega

/-- Every value of an item is the size for some result of `rand`. -/
theorem pregenSize_attains (hmax : r.max ≠ 0) (hle : r.max.toInt - r.min.toInt + 1 < 2 ^ 31) {z : Int} (hlow : r.min.toInt ≤ z)
    (hhigh : z ≤ r.max.toInt) :
    ∃ (v : BitVec 31) (size : U16), pregenSize r (v.setWidth 32) = some size ∧ (size.toNat : Int) = z % 65536 := by
  obtain ⟨size, hsize, hval⟩ := pregenSize_eq hmax hle (BitVec.ofNat 31 (z - r.min.toInt).toNat)
  refine ⟨_, size, hsize, ?_⟩
  have hnat : (BitVec.ofNat 31 (z - r.min.toInt).toNat).toNat = (z - r.min.toInt).toNat := by
    rw [BitVec.toNat_ofNat]
    omega
  have hmod : ((z - r.min.toInt).toNat : Int) % (r.max.toInt - r.min.toInt + 1) = z - r.min.toInt := by
    rw [Int.toNat_of_nonneg (by omega)]
    exact Int.emod_eq_of_lt (by omega) (by omega)
  rw [hval, hnat, hmod]
  congr 1
  omega

theorem RangeItem.Fits.size (h : r.Fits) (v : BitVec 31) :
    ∃ size, pregenSize r (v.setWidth 32) = some size ∧ r.Has size ∧ size.toNat ≤ maxPacketSize := by
  have hord := r.ordered
  by_cases hmax : r.max = 0
  · refine ⟨r.min.setWidth 16, by rw [pregenSize, if_pos hmax], ?_⟩
    have hzero : r.max.toInt = 0 := by rw [hmax]; rfl
    have hval := toNat_setWidth16 r.min
    have hsize : (r.min.setWidth 16).toNat = 0 := by
      rcases h with ⟨h, -⟩ | ⟨-, h⟩ <;> omega
    rw [RangeItem.Has, hsize]
    refine ⟨⟨by omega, by omega⟩, Nat.zero_le _⟩
  · rcases h with ⟨hlow, hhigh⟩ | ⟨h, -⟩
    · have hbuf : (maxPacketSize : Int) = 4096 := rfl
      obtain ⟨size, hsize, hval⟩ := pregenSize_eq hmax (by omega) v
      have hpos := Int.emod_nonneg (v.toNat : Int) (show r.max.toInt - r.min.toInt + 1 ≠ 0 by omega)
      have hlt := Int.emod_lt_of_pos (v.toNat : Int) (show 0 < r.max.toInt - r.min.toInt + 1 by omega)
      rw [Int.emod_eq_of_lt (by omega) (by omega)] at hval
      refine ⟨size, hsize, ⟨by omega, by omega⟩, by omega⟩
    · exact absurd h hmax

/-- If no result of `rand` gives a size that is not of the item or that no buffer holds, then the item fits. -/
theorem RangeItem.Counted.fits (hc : r.Counted)
    (h : ∀ v : BitVec 31, ∃ size, pregenSize r (v.setWidth 32) = some size ∧ r.Has size ∧ size.toNat ≤ maxPacketSize) : r.Fits := by
  have hord := r.ordered
  have hbuf : (maxPacketSize : Int) = 4096 := rfl
  by_cases hmax : r.max = 0
  · obtain ⟨size, hsize, hhas, -⟩ := h 0
    rw [pregenSize, if_pos hmax] at hsize
    cases hsize
    have hzero : r.max.toInt = 0 := by rw [hmax]; rfl
    have hval := toNat_setWidth16 r.min
    have hhigh := hhas.2
    exact .inr ⟨hmax, Int.dvd_of_emod_eq_zero (by omega)⟩
  · have hne : r.max - r.min + 1 ≠ 0 := by
      intro hzero
      obtain ⟨size, hsize, -⟩ := h 0
      rw [pregenSize, if_neg hmax, if_pos hzero] at hsize
      cases hsize
    have hall : ∀ z : Int, r.min.toInt ≤ z → z ≤ r.max.toInt → r.min.toInt ≤ z % 65536 ∧ z % 65536 ≤ r.max.toInt ∧ z % 65536 ≤ 4096 := by
      intro z hlow hhigh
      obtain ⟨v, size, hsize, hval⟩ := pregenSize_attains hmax (hc.small hne) hlow hhigh
      obtain ⟨size', hsize', hhas, hle⟩ := h v
      obtain rfl : size = size' := Option.some.inj (hsize.symm.trans hsize')
      rw [← hval]
      exact ⟨hhas.1, hhas.2, by omega⟩
    have hmin := hall r.min.toInt (Int.le_refl _) hord
    have hlow : 0 ≤ r.min.toInt := by
      -- From below zero the range reaches -1, which is 65535 in 16 bits.
      by_contra hneg
      have hzero : r.max.toInt ≠ 0 := fun h => hmax (BitVec.eq_of_toInt_eq h)
      have hminus := hall (-1) (by omega) (by omega)
      omega
    have hhigh : r.max.toInt ≤ 4096 := by
      by_contra hbig
      have hlast := hall r.max.toInt hord (Int.le_refl _)
      have hover := hall 4097 (by omega) (by omega)
      omega
    exact .inl ⟨hlow, hhigh⟩

end

/-! ## The arrays -/

section

variable {lr : ListRange} {rnd : Nat → BitVec 31}

theorem next_item {n e j : Nat} (he : e < n) : ((if n ≤ e + 1 then 0 else e + 1) + j) % n = (e + (j + 1)) % n := by
  split
  · have hlast : e + (j + 1) = j + n := by omega
    rw [hlast, Nat.add_mod_right, Nat.zero_add]
  · congr 1
    omega

theorem toNat_next {left : Nat} {e : U16} (hleft : e.toNat + (left + 1) < 65536) :
    (if lr.length ≤ (e + 1).toNat then 0 else e + 1 : U16).toNat = if lr.length ≤ e.toNat + 1 then 0 else e.toNat + 1 := by
  have hadd : (e + 1).toNat = e.toNat + 1 := by
    rw [BitVec.toNat_add, show (1 : U16).toNat = 1 from rfl]
    omega
  rw [hadd]
  split
  · rfl
  · exact hadd

/-- The sizes are those of the items in turn, each for some result of `rand`. -/
theorem pregenLoop_spec : ∀ {left : Nat} {e : U16} {k : Nat} {l : List (U16 × U32)}, e.toNat < lr.length →
    e.toNat + left < 65536 → pregenLoop lr rnd left e k = some l →
      l.length = left ∧ ∀ j (hj : j < l.length), ∃ r, lr[(e.toNat + j) % lr.length]? = some r ∧
        ∃ k, pregenSize r ((rnd k).setWidth 32) = some l[j].1
  | 0, _, _, l, _, _, h => by
    cases h
    exact ⟨rfl, fun j hj => absurd hj (Nat.not_lt_zero j)⟩
  | left + 1, e, k, l, he, hleft, h => by
    rw [pregenLoop, List.getElem?_eq_getElem he] at h
    dsimp only at h
    cases hsize : pregenSize lr[e.toNat] ((rnd k).setWidth 32) with
    | none =>
      rw [hsize] at h
      cases h
    | some size =>
      rw [hsize] at h
      obtain ⟨l', hl', rfl⟩ := Option.map_eq_some_iff.1 h
      have hnext := @toNat_next lr left e hleft
      have he' : (if lr.length ≤ (e + 1).toNat then 0 else e + 1 : U16).toNat < lr.length := by
        rw [hnext]
        split <;> omega
      have hleft' : (if lr.length ≤ (e + 1).toNat then 0 else e + 1 : U16).toNat + left < 65536 := by
        rw [hnext]
        split <;> omega
      obtain ⟨hlen, hitems⟩ := pregenLoop_spec he' hleft' hl'
      refine ⟨congrArg (· + 1) hlen, fun j hj => ?_⟩
      cases j with
      | zero =>
        refine ⟨lr[e.toNat], ?_, k, hsize⟩
        rw [Nat.add_zero, Nat.mod_eq_of_lt he, List.getElem?_eq_getElem he]
      | succ j =>
        obtain ⟨r, hr, hk⟩ := hitems j (Nat.lt_of_succ_lt_succ hj)
        rw [hnext, next_item he] at hr
        exact ⟨r, hr, hk⟩

theorem pregenLoop_some : ∀ {left : Nat} {e : U16} {k : Nat}, e.toNat < lr.length → e.toNat + left < 65536 →
    (∀ j < left, ∀ r, lr[(e.toNat + j) % lr.length]? = some r → ∀ v : BitVec 31, ∃ size, pregenSize r (v.setWidth 32) = some size) →
      ∃ l, pregenLoop lr rnd left e k = some l
  | 0, _, _, _, _, _ => ⟨[], rfl⟩
  | left + 1, e, k, he, hleft, h => by
    have hitem : lr[(e.toNat + 0) % lr.length]? = some lr[e.toNat] := by
      rw [Nat.add_zero, Nat.mod_eq_of_lt he, List.getElem?_eq_getElem he]
    obtain ⟨size, hsize⟩ := h 0 (Nat.succ_pos left) _ hitem (rnd k)
    have hnext := @toNat_next lr left e hleft
    have htail : ∀ k, ∃ l, pregenLoop lr rnd left (if lr.length ≤ (e + 1).toNat then 0 else e + 1) k = some l := by
      intro k
      refine pregenLoop_some (by rw [hnext]; split <;> omega) (by rw [hnext]; split <;> omega) fun j hj r hr v => ?_
      rw [hnext, next_item he] at hr
      exact h (j + 1) (Nat.succ_lt_succ hj) r hr v
    rw [pregenLoop, List.getElem?_eq_getElem he]
    dsimp only
    rw [hsize]
    obtain ⟨l, hl⟩ := htail ((if lr[e.toNat].max = 0 then k else k + 1) + 1)
    exact ⟨_, Option.map_eq_some_iff.2 ⟨l, hl, rfl⟩⟩

theorem mem_used {i : Nat} {r : RangeItem} (hi : i < pregenSeqSize) (hr : lr[i % lr.length]? = some r) : r ∈ lr.take pregenSeqSize := by
  obtain ⟨hlt, rfl⟩ := List.getElem?_eq_some_iff.1 hr
  have hle := Nat.mod_le i lr.length
  exact List.mem_take_iff_getElem.2 ⟨i % lr.length, by omega, rfl⟩

theorem used_index {r : RangeItem} (hr : r ∈ lr.take pregenSeqSize) : ∃ i < pregenSeqSize, lr[i % lr.length]? = some r := by
  obtain ⟨i, hi, rfl⟩ := List.mem_take_iff_getElem.1 hr
  refine ⟨i, by omega, ?_⟩
  rw [Nat.mod_eq_of_lt (by omega), List.getElem?_eq_getElem]

/-- What `pregenerate` leaves: the sizes of the items in turn, twice. -/
theorem pregenerate_spec (hne : lr ≠ []) {l : List (U16 × U32)} (h : pregenerate lr rnd = some l) :
    l.length = 2 * pregenSeqSize ∧ ∀ i (hi : i < l.length), ∃ r, lr[i % pregenSeqSize % lr.length]? = some r ∧
      ∃ k, pregenSize r ((rnd k).setWidth 32) = some l[i].1 := by
  obtain ⟨base, hbase, rfl⟩ := Option.map_eq_some_iff.1 h
  have hstart : (0 : U16).toNat = 0 := rfl
  have hpos : (0 : U16).toNat < lr.length := List.length_pos_of_ne_nil hne
  obtain ⟨hlen, hitems⟩ := pregenLoop_spec hpos (by decide) hbase
  refine ⟨by rw [List.length_append, hlen]; rfl, fun i hi => ?_⟩
  rw [List.length_append, hlen] at hi
  by_cases hlow : i < pregenSeqSize
  · obtain ⟨r, hr, k, hk⟩ := hitems i (by omega)
    rw [hstart, Nat.zero_add] at hr
    rw [Nat.mod_eq_of_lt hlow, List.getElem_append_left (by omega)]
    exact ⟨r, hr, k, hk⟩
  · obtain ⟨r, hr, k, hk⟩ := hitems (i - pregenSeqSize) (by omega)
    rw [hstart, Nat.zero_add] at hr
    have hmod : i % pregenSeqSize = i - pregenSeqSize := by
      rw [Nat.mod_eq_sub_mod (by omega), Nat.mod_eq_of_lt (by omega)]
    rw [hmod, List.getElem_append_right (by omega)]
    simp only [hlen]
    exact ⟨r, hr, k, hk⟩

end

/-! ## Bursts -/

section

variable {sizes : List U16}

theorem generateLoop_spec (c : BurstCall) : ∀ {left : Nat} {ptr : U16} (packetId : U8), ptr.toNat + left ≤ sizes.length →
    ptr.toNat + left < 65536 → ∃ l ptr', generateLoop sizes c left ptr packetId = some (l, ptr') ∧ ptr'.toNat = ptr.toNat + left ∧
      l.map GenPacket.size = (sizes.drop ptr.toNat).take left ∧ ∀ p ∈ l, p.time = c.time
  | 0, ptr, _, _, _ => ⟨[], ptr, rfl, rfl, rfl, nofun⟩
  | left + 1, ptr, packetId, hlen, hw => by
    have hptr : ptr.toNat < sizes.length := by omega
    have hnext : (ptr + 1).toNat = ptr.toNat + 1 := by
      rw [BitVec.toNat_add, show (1 : U16).toNat = 1 from rfl]
      omega
    obtain ⟨l, ptr', hl, hptr', hsizes, htime⟩ :=
      @generateLoop_spec c left (ptr + 1) (packetId + 1) (by omega) (by omega)
    refine ⟨{ size := sizes[ptr.toNat], block := dataBlock sizes[ptr.toNat] c.burstIndex packetId, time := c.time } :: l, ptr', ?_,
      by omega, ?_, ?_⟩
    · rw [generateLoop, List.getElem?_eq_getElem hptr]
      dsimp only
      rw [hl]
      rfl
    · rw [List.map_cons, hsizes, hnext, List.drop_eq_getElem_cons hptr, List.take_succ_cons]
    · intro p hp
      rcases List.mem_cons.1 hp with rfl | hp
      · rfl
      · exact htime p hp

theorem generateBurst_spec (hlen : sizes.length = 2 * pregenSeqSize) {ptr : U32} (hptr : ptr.toNat < pregenSeqSize) (c : BurstCall)
    (hc : c.count ≤ pregenSeqSize) :
    ∃ l ptr', generateBurst sizes ptr c = some (l, ptr') ∧
      ptr'.toNat = (if pregenSeqSize ≤ ptr.toNat + c.count then ptr.toNat + c.count - pregenSeqSize else ptr.toNat + c.count) ∧
      l.map GenPacket.size = (sizes.drop ptr.toNat).take c.count ∧ ∀ p ∈ l, p.time = c.time := by
  have hseq : pregenSeqSize = 5503 := rfl
  have hshort : (ptr.setWidth 16).toNat = ptr.toNat := by
    rw [BitVec.toNat_setWidth]
    omega
  obtain ⟨l, ptr₁, hl, hptr₁, hsizes, htime⟩ :=
    @generateLoop_spec sizes c c.count (ptr.setWidth 16) ((c.burstIndex + 1).setWidth 8) (by omega) (by omega)
  rw [hshort] at hptr₁ hsizes
  refine ⟨l, _, by rw [generateBurst, hl]; rfl, ?_, hsizes, htime⟩
  rw [← hptr₁]
  split
  · rename_i hbig
    have hsub : (ptr₁ - BitVec.ofNat 16 pregenSeqSize).toNat = ptr₁.toNat - pregenSeqSize := by
      have hle : BitVec.ofNat 16 pregenSeqSize ≤ ptr₁ := by
        rw [BitVec.le_def, BitVec.toNat_ofNat]
        omega
      rw [BitVec.toNat_sub_of_le hle, BitVec.toNat_ofNat]
      omega
    rw [BitVec.toNat_setWidth, hsub]
    omega
  · rw [BitVec.toNat_setWidth]
    have hlt := ptr₁.isLt
    omega

theorem generateBursts_spec (hlen : sizes.length = 2 * pregenSeqSize) {latency : Bool} : ∀ {calls : List BurstCall} {ptr : U32},
    ptr.toNat < pregenSeqSize → (∀ c ∈ calls, c.count ≤ pregenSeqSize ∧ c.time.isSome = latency) →
      ∃ l ptr', generateBursts sizes ptr calls = some (l, ptr') ∧ ptr'.toNat < pregenSeqSize ∧
        ∀ p ∈ l, p.size ∈ sizes ∧ p.time.isSome = latency
  | [], ptr, hptr, _ => ⟨[], ptr, rfl, hptr, nofun⟩
  | c :: calls, ptr, hptr, hcalls => by
    have hc := hcalls c List.mem_cons_self
    obtain ⟨l, ptr₁, hl, hptr₁, hsizes, htime⟩ := generateBurst_spec hlen hptr c hc.1
    have hlow : ptr₁.toNat < pregenSeqSize := by
      rw [hptr₁]
      split <;> omega
    obtain ⟨l', ptr', hl', hptr', hall⟩ := generateBursts_spec hlen hlow fun c' hc' => hcalls c' (List.mem_cons_of_mem c hc')
    refine ⟨l ++ l', ptr', by rw [generateBursts, hl]; dsimp only; rw [hl']; rfl, hptr', fun p hp => ?_⟩
    rcases List.mem_append.1 hp with hp | hp
    · have hmem : p.size ∈ (sizes.drop ptr.toNat).take c.count := by
        rw [← hsizes]
        exact List.mem_map_of_mem hp
      exact ⟨List.mem_of_mem_drop (List.mem_of_mem_take hmem), by rw [htime p hp]; exact hc.2⟩
    · exact hall p hp

/-- A burst of one packet. -/
def oneBurst (latency : Bool) : BurstCall where
  count := 1
  burstIndex := 0
  time := if latency then some 0 else none

theorem oneBurst_count (latency : Bool) : (oneBurst latency).count ≤ pregenSeqSize := by
  show 1 ≤ 5503
  decide

/-- Bursts of one packet reach every size of the first half. -/
theorem reaches (hlen : sizes.length = 2 * pregenSeqSize) (latency : Bool) : ∀ (m : Nat) {ptr : U32}, ptr.toNat + m < pregenSeqSize →
    ∃ l ptr', generateBursts sizes ptr (List.replicate (m + 1) (oneBurst latency)) = some (l, ptr') ∧
      ∃ p ∈ l, sizes[ptr.toNat + m]? = some p.size
  | 0, ptr, h => by
    obtain ⟨l, ptr₁, hl, -, hsizes, -⟩ := generateBurst_spec hlen h (oneBurst latency) (oneBurst_count latency)
    refine ⟨l, ptr₁, ?_, ?_⟩
    · rw [List.replicate_one, generateBursts, hl]
      simp [generateBursts]
    · have hptr : ptr.toNat < sizes.length := by omega
      rw [List.drop_eq_getElem_cons hptr] at hsizes
      have hmem : sizes[ptr.toNat] ∈ l.map GenPacket.size := by
        rw [hsizes]
        exact List.mem_cons_self
      obtain ⟨p, hp, hsize⟩ := List.mem_map.1 hmem
      exact ⟨p, hp, by rw [Nat.add_zero, List.getElem?_eq_getElem hptr, hsize]⟩
  | m + 1, ptr, h => by
    have hlow : ptr.toNat < pregenSeqSize := by omega
    obtain ⟨l, ptr₁, hl, hptr₁, -, -⟩ := generateBurst_spec hlen hlow (oneBurst latency) (oneBurst_count latency)
    have hnext : ptr₁.toNat = ptr.toNat + 1 := by
      rw [hptr₁, if_neg (by show ¬pregenSeqSize ≤ ptr.toNat + 1; omega)]
      rfl
    obtain ⟨l', ptr', hl', p, hp, hsize⟩ := @reaches hlen latency m ptr₁ (by omega)
    refine ⟨l ++ l', ptr', ?_, p, List.mem_append_right l hp, ?_⟩
    · rw [List.replicate_succ, generateBursts, hl]
      dsimp only
      rw [hl']
      rfl
    · have hindex : ptr.toNat + (m + 1) = ptr₁.toNat + m := by omega
      rw [hindex]
      exact hsize

end

theorem writes_inside_iff (p : GenPacket) : (∀ o, p.Writes o → o < maxPacketSize) ↔ p.size.toNat ≤ maxPacketSize := by
  have hbuf : maxPacketSize = 4096 := rfl
  have hsize := p.size.isLt
  have hwords : (getSize32 p.size).toNat = (p.size.toNat + 3) / 4 := by
    rw [getSize32, BitVec.toNat_ofNat]
    omega
  unfold GenPacket.Writes
  rw [hwords]
  constructor
  · intro h
    by_contra hbig
    exact absurd (h maxPacketSize (.inl (by omega))) (Nat.lt_irrefl _)
  · rintro h o (ho | ⟨-, ho⟩)
    · omega
    · omega

/-! ## The check -/

section

variable {latency : Bool} {p : RxPacket}

theorem checkWords_reads : ∀ {n i : Nat} {r : RxRead}, r ∈ (checkWords p n i).1 →
    r.packet = p ∧ r.bytes = 4 ∧ ∃ j, r.offset = 4 * j ∧ j < i + n
  | 0, _, _, h => nomatch h
  | n + 1, i, r, h => by
    rw [checkWords] at h
    split at h
    · rw [List.mem_singleton.1 h]
      exact ⟨rfl, rfl, i, rfl, by omega⟩
    · rcases List.mem_cons.1 h with rfl | h
      · exact ⟨rfl, rfl, i, rfl, by omega⟩
      · obtain ⟨h1, h2, j, hj, hlt⟩ := checkWords_reads h
        exact ⟨h1, h2, j, hj, by omega⟩

theorem checkWords_passes : ∀ {n i : Nat}, (checkWords p n i).2 = true ↔ ∀ j, i ≤ j → j < i + n → p.word j = p.word 2
  | 0, i => ⟨fun _ j h1 h2 => absurd h2 (by omega), fun _ => rfl⟩
  | n + 1, i => by
    rw [checkWords]
    by_cases hi : p.word i = p.word 2
    · rw [if_neg fun h => h hi]
      dsimp only
      rw [checkWords_passes]
      constructor
      · intro h j h1 h2
        by_cases hj : j = i
        · rw [hj]
          exact hi
        · exact h j (by omega) (by omega)
      · exact fun h j h1 h2 => h j (by omega) (by omega)
    · rw [if_pos hi]
      exact ⟨nofun, fun h => absurd (h i (Nat.le_refl i) (by omega)) hi⟩

theorem size_le_len (p : RxPacket) : p.size.toNat ≤ p.len.toNat := by
  rw [RxPacket.size, BitVec.toNat_setWidth]
  exact Nat.mod_le _ _

theorem spPrint_inside {r : RxRead} (h : r ∈ spPrint p) : r.Inside := by
  rw [List.mem_singleton.1 h, RxRead.Inside]
  have hle := size_le_len p
  show 0 + p.size.toNat ≤ p.len.toNat
  omega

theorem invalidBytes_eq (p : RxPacket) : p.invalidBytes = 4 * ((p.size.toNat + 3) / 4) - p.size.toNat := by
  have hlt := p.size.isLt
  rw [RxPacket.invalidBytes, getSize32, BitVec.toNat_ofNat, Nat.mod_eq_of_lt (by omega)]

theorem checkWords_inside {r : RxRead} (h : r ∈ (checkWords p (p.wholeWords - firstWord latency) (firstWord latency)).1) : r.Inside := by
  obtain ⟨hp, hb, j, hj, hlt⟩ := checkWords_reads h
  have hle := size_le_len p
  have hwhole : p.wholeWords = p.size.toNat / 4 := rfl
  have hdiv := Nat.div_mul_le_self p.size.toNat 4
  rw [RxRead.Inside, hp, hb, hj]
  by_cases hfirst : firstWord latency ≤ p.wholeWords
  · omega
  · -- No word is checked; the loop's reads are none.
    rw [Nat.sub_eq_zero_of_le (by omega)] at h
    exact nomatch h

theorem checkWords_genuine (h1 : p.size ≠ 0) (h2 : (swap32 (p.word 2)).extractLsb' 24 8 = getSizeHash p.size) :
    (checkWords p (p.wholeWords - firstWord latency) (firstWord latency)).2 = true ↔ p.HeadGenuine latency := by
  rw [checkWords_passes]
  constructor
  · exact fun h => ⟨h1, h2, fun i hi hfirst => h i hfirst (by omega)⟩
  · exact fun h i hfirst hi => h.2.2 i (by omega) hfirst

/-- The last word is read only if everything before it is right. -/
theorem spCheck_spec (latency : Bool) (p : RxPacket) :
    ((spCheckDataFast latency p).2 = true ↔ p.Genuine latency) ∧
      ((∀ r ∈ (spCheckDataFast latency p).1, r.Inside) ↔
        (p.HeadGenuine latency → p.invalidBytes ≠ 0 → 4 * max (firstWord latency) p.wholeWords + 4 ≤ p.len.toNat)) := by
  unfold spCheckDataFast
  by_cases hzero : p.size = 0
  · rw [if_pos hzero]
    exact ⟨⟨nofun, fun h => absurd hzero h.1.1⟩, fun _ h => absurd hzero h.1, fun _ r hr => spPrint_inside hr⟩
  · rw [if_neg hzero]
    by_cases hhash : (swap32 (p.word 2)).extractLsb' 24 8 = getSizeHash p.size
    · rw [if_neg fun h => h hhash]
      have hgen := @checkWords_genuine latency p hzero hhash
      dsimp only
      by_cases hwords : (checkWords p (p.wholeWords - firstWord latency) (firstWord latency)).2 = false
      · rw [if_pos hwords]
        have hno : ¬p.HeadGenuine latency := by
          rw [← hgen, hwords]
          exact nofun
        refine ⟨⟨nofun, fun h => absurd h.1 hno⟩, fun _ h => absurd h hno, fun _ r hr => ?_⟩
        rcases List.mem_append.1 hr with hr | hr
        · exact checkWords_inside hr
        · exact spPrint_inside hr
      · rw [if_neg hwords]
        have hhead : p.HeadGenuine latency := hgen.1 (Bool.eq_true_of_not_eq_false hwords)
        by_cases hlast : p.invalidBytes = 0
        · rw [if_pos hlast]
          refine ⟨⟨fun _ => ⟨hhead, fun h => absurd hlast h⟩, fun _ => Bool.eq_true_of_not_eq_false hwords⟩,
            fun _ _ h => absurd hlast h, fun _ r hr => checkWords_inside hr⟩
        · rw [if_neg hlast]
          by_cases hword : p.word (max (firstWord latency) p.wholeWords) <<< (8 * p.invalidBytes) =
              p.word 2 <<< (8 * p.invalidBytes)
          · rw [if_neg fun h => h hword]
            refine ⟨⟨fun _ => ⟨hhead, fun _ => hword⟩, fun _ => rfl⟩, fun h _ _ => h _ (List.mem_append_right _ List.mem_cons_self),
              fun h r hr => ?_⟩
            rcases List.mem_append.1 hr with hr | hr
            · exact checkWords_inside hr
            · rw [List.mem_singleton.1 hr]
              exact h hhead hlast
          · rw [if_pos hword]
            refine ⟨⟨nofun, fun h => absurd (h.2 hlast) hword⟩, fun h _ _ => h _ (List.mem_append_right _ List.mem_cons_self),
              fun h r hr => ?_⟩
            rcases List.mem_append.1 hr with hr | hr
            · exact checkWords_inside hr
            · rcases List.mem_cons.1 hr with rfl | hr
              · exact h hhead hlast
              · exact spPrint_inside hr
    · rw [if_pos hhash]
      exact ⟨⟨nofun, fun h => absurd h.1.2.1 hhash⟩, fun _ h => absurd h.2.1 hhash, fun _ r hr => spPrint_inside hr⟩

/-- The reads of a packet stay inside exactly if it is long enough. -/
theorem reads_inside_iff (latency : Bool) (p : RxPacket) :
    ((∀ r ∈ headReads latency p, r.Inside) ∧ ∀ r ∈ (spCheckDataFast latency p).1, r.Inside) ↔ p.Long latency := by
  rw [(spCheck_spec latency p).2, invalidBytes_eq, RxPacket.Long]
  have hsize : p.size.toNat = p.len.toNat % 65536 := BitVec.toNat_setWidth ..
  have hwhole : p.wholeWords = p.size.toNat / 4 := rfl
  have hhead : (∀ r ∈ headReads latency p, r.Inside) ↔ 12 ≤ p.len.toNat := by
    constructor
    · intro h
      exact h _ (List.mem_append_right _ (List.mem_singleton_self _))
    · intro h r hr
      rcases List.mem_append.1 hr with hr | hr
      · split at hr
        · rw [List.mem_singleton.1 hr]
          show 0 + 8 ≤ p.len.toNat
          omega
        · exact nomatch hr
      · rw [List.mem_singleton.1 hr]
        exact h
  rw [hhead]
  refine and_congr_right fun h12 => ?_
  have hfirst : firstWord latency ≤ 2 := by cases latency <;> decide
  by_cases hgen : p.HeadGenuine latency
  · constructor
    · intro h
      by_cases hfour : 4 * ((p.size.toNat + 3) / 4) - p.size.toNat = 0
      · by_cases hbig : 65536 ≤ p.len.toNat
        · exact .inr (.inl hbig)
        · exact .inl (by omega)
      · have hread := h hgen hfour
        have hmax := Nat.le_max_right (firstWord latency) p.wholeWords
        exact .inr (.inl (by omega))
    · intro h _ hinvalid
      have hmax : max (firstWord latency) p.wholeWords ≤ max 2 p.wholeWords := max_le_max_right _ hfirst
      rcases h with h | h | h
      · omega
      · omega
      · exact absurd hgen h
  · exact ⟨fun _ => .inr (.inr hgen), fun _ h => absurd h hgen⟩

/-- The reads of a burst stay inside exactly if every packet that is reached is long enough. -/
theorem checkBurst_inside_iff (latency : Bool) : ∀ (prev : Option RxPacket) (rx : List RxPacket),
    (∀ r ∈ checkBurst latency prev rx, r.Inside) ↔ RxLong latency rx
  | _, [] => ⟨fun _ => trivial, fun _ => nofun⟩
  | prev, p :: l => by
    rw [RxLong, ← reads_inside_iff, checkBurst, ← (spCheck_spec latency p).1]
    by_cases hpass : (spCheckDataFast latency p).2 = true
    · rw [if_pos hpass]
      constructor
      · intro h
        refine ⟨⟨fun r hr => ?_, fun r hr => ?_⟩, fun _ => (checkBurst_inside_iff latency (some p) l).1 fun r hr => ?_⟩
        · exact h r (List.mem_append_left _ (List.mem_append_left _ hr))
        · exact h r (List.mem_append_left _ (List.mem_append_right _ hr))
        · exact h r (List.mem_append_right _ hr)
      · rintro ⟨⟨hhead, hcheck⟩, hrest⟩ r hr
        rcases List.mem_append.1 hr with hr | hr
        · rcases List.mem_append.1 hr with hr | hr
          · exact hhead r hr
          · exact hcheck r hr
        · exact (checkBurst_inside_iff latency (some p) l).2 (hrest hpass) r hr
    · rw [if_neg hpass]
      constructor
      · intro h
        refine ⟨⟨fun r hr => ?_, fun r hr => ?_⟩, fun hno => absurd hno hpass⟩
        · exact h r (List.mem_append_left _ (List.mem_append_left _ hr))
        · exact h r (List.mem_append_left _ (List.mem_append_right _ hr))
      · rintro ⟨⟨hhead, hcheck⟩, -⟩ r hr
        rcases List.mem_append.1 hr with hr | hr
        · rcases List.mem_append.1 hr with hr | hr
          · exact hhead r hr
          · exact hcheck r hr
        · cases prev with
          | none => exact nomatch hr
          | some q => exact spPrint_inside hr

end

/-! ## The generator and the check -/

/-- Where all is right, an item that is used has a size for every result of `rand`, one of the item that a buffer holds. -/
theorem LoopbackRight.size {lr : ListRange} (hne : lr ≠ []) {txBurst : Nat} (hb : 1 ≤ txBurst) {latency : Bool} {rx : List RxPacket}
    (h : LoopbackRight lr txBurst latency rx) {r : RangeItem} (hr : r ∈ lr.take pregenSeqSize) (v : BitVec 31) :
    ∃ size, pregenSize r (v.setWidth 32) = some size ∧ r.Has size ∧ size.toNat ≤ maxPacketSize := by
  obtain ⟨i, hi, hitem⟩ := used_index hr
  obtain ⟨l, hl, ⟨hlen, hlisted⟩, hinside⟩ := h.generated fun _ => v
  have hil : i < l.length := by omega
  obtain ⟨r₁, hr₁, hhas⟩ := hlisted i hil
  obtain ⟨r₂, hr₂, -, hsize⟩ := (pregenerate_spec hne hl).2 i hil
  rw [Nat.mod_eq_of_lt hi, hitem] at hr₁ hr₂
  obtain rfl : r = r₁ := Option.some.inj hr₁
  obtain rfl : r = r₂ := Option.some.inj hr₂
  refine ⟨l[i].1, hsize, hhas, ?_⟩
  have hmap : (l.map Prod.fst).length = 2 * pregenSeqSize := by rw [List.length_map, hlen]
  have hzero : (0 : U32).toNat = 0 := rfl
  obtain ⟨out, ptr, hout, p, hp, hpsize⟩ := @reaches (l.map Prod.fst) hmap latency i 0 (by omega)
  have hone : ∀ c ∈ List.replicate (i + 1) (oneBurst latency), c.count ≤ txBurst ∧ c.time.isSome = latency := by
    intro c hc
    rw [List.eq_of_mem_replicate hc]
    exact ⟨hb, by cases latency <;> rfl⟩
  obtain ⟨out', ptr', hout', -, hwrites⟩ := hinside _ hone
  obtain ⟨rfl, -⟩ := Prod.mk.inj (Option.some.inj (hout.symm.trans hout'))
  have hle := (writes_inside_iff p).1 (hwrites p hp)
  rw [hzero, Nat.zero_add, List.getElem?_map, List.getElem?_eq_getElem hil] at hpsize
  have hval : l[i].1 = p.size := Option.some.inj hpsize
  rw [hval]
  exact hle

/-- Generator and check stay where they should exactly if the sizes of all items that are used fit and the received packets are long
enough. -/
theorem loopback_right_iff {texts : List (List Char)} {lr : ListRange} (h : texts.foldlM listOption [] = some lr) (hne : lr ≠ [])
    {txBurst : Nat} (hb : 1 ≤ txBurst ∧ txBurst ≤ 1024) (latency : Bool) (rx : List RxPacket) :
    LoopbackRight lr txBurst latency rx ↔ SizesFit lr ∧ RxLong latency rx := by
  have hcounted := listOption_counted (fun _ hr => absurd hr List.not_mem_nil) h
  constructor
  · intro hright
    refine ⟨fun r hr => ?_, (checkBurst_inside_iff latency none rx).1 hright.checked⟩
    exact (hcounted r (List.mem_of_mem_take hr)).fits (hright.size hne hb.1 hr)
  · rintro ⟨hfit, hlong⟩
    refine ⟨fun rnd => ?_, (checkBurst_inside_iff latency none rx).2 hlong⟩
    have hpos : (0 : U16).toNat < lr.length := List.length_pos_of_ne_nil hne
    have hstart : (0 : U16).toNat = 0 := rfl
    have hbase : ∃ base, pregenLoop lr rnd pregenSeqSize 0 0 = some base := by
      refine pregenLoop_some hpos (by decide) fun j hj r hr v => ?_
      rw [hstart, Nat.zero_add] at hr
      obtain ⟨size, hsize, -⟩ := (hfit r (mem_used hj hr)).size v
      exact ⟨size, hsize⟩
    obtain ⟨base, hbase⟩ := hbase
    have hpre : pregenerate lr rnd = some (base ++ base) := by rw [pregenerate, hbase]; rfl
    obtain ⟨hlen, hitems⟩ := pregenerate_spec hne hpre
    have hsizes : ∀ i (hi : i < (base ++ base).length), ∃ r, lr[i % pregenSeqSize % lr.length]? = some r ∧
        r.Has (base ++ base)[i].1 ∧ (base ++ base)[i].1.toNat ≤ maxPacketSize := by
      intro i hi
      obtain ⟨r, hr, k, hk⟩ := hitems i hi
      obtain ⟨size, hsize, hhas, hle⟩ := (hfit r (mem_used (Nat.mod_lt i (by decide)) hr)).size (rnd k)
      obtain rfl : size = (base ++ base)[i].1 := Option.some.inj (hsize.symm.trans hk)
      exact ⟨r, hr, hhas, hle⟩
    refine ⟨base ++ base, hpre, ⟨hlen, fun i hi => ?_⟩, fun calls hcalls => ?_⟩
    · obtain ⟨r, hr, hhas, -⟩ := hsizes i hi
      exact ⟨r, hr, hhas⟩
    · have hmap : ((base ++ base).map Prod.fst).length = 2 * pregenSeqSize := by rw [List.length_map, hlen]
      have hcount : ∀ c ∈ calls, c.count ≤ pregenSeqSize ∧ c.time.isSome = latency := fun c hc =>
        ⟨le_trans (hcalls c hc).1 (le_trans hb.2 (by decide)), (hcalls c hc).2⟩
      obtain ⟨out, ptr, hout, hptr, hall⟩ := generateBursts_spec hmap (show (0 : U32).toNat < pregenSeqSize by decide) hcount
      refine ⟨out, ptr, hout, hptr, fun p hp => (writes_inside_iff p).2 ?_⟩
      obtain ⟨i, hi, heq⟩ := List.getElem_of_mem (hall p hp).1
      rw [List.length_map] at hi
      obtain ⟨-, -, -, hle⟩ := hsizes i hi
      rw [← heq, List.getElem_map]
      exact hle

/-- A packet of 64 zero bytes. -/
def zeroPacket : RxPacket where
  len := 64
  mem := fun _ => 0

def smallSizes : ListRange := [{ min := 64, max := 64, ordered := by decide }, { min := 128, max := 256, ordered := by decide }]

theorem loopback_right_small :
    ["64,128-256".toList].foldlM listOption [] = some smallSizes ∧ LoopbackRight smallSizes 64 false [zeroPacket] := by
  have hparse : ["64,128-256".toList].foldlM listOption [] = some smallSizes := rfl
  refine ⟨hparse, (loopback_right_iff hparse (List.cons_ne_nil _ _) ⟨by decide, by decide⟩ false [zeroPacket]).2 ⟨by decide, ?_⟩⟩
  exact ⟨⟨by decide, .inl (by decide)⟩, fun _ => trivial⟩

/-- The size 5000 is accepted, but no buffer holds it. -/
theorem large_size_overruns :
    ¬ ∀ (texts : List (List Char)) (lr : ListRange) (txBurst : Nat) (latency : Bool) (rx : List RxPacket),
      texts.foldlM listOption [] = some lr → lr ≠ [] → 1 ≤ txBurst ∧ txBurst ≤ 1024 → LoopbackRight lr txBurst latency rx := by
  intro h
  have hparse : ["5000".toList].foldlM listOption [] = some [{ min := 5000, max := 5000, ordered := Int.le_refl _ }] := rfl
  have hright := h _ _ 64 false [] hparse (List.cons_ne_nil _ _) ⟨by decide, by decide⟩
  obtain ⟨size, hsize, -, hle⟩ := hright.size (List.cons_ne_nil _ _) (by decide) (List.mem_singleton_self _) 0
  obtain rfl : 5000 = size := Option.some.inj hsize
  exact absurd hle (by decide)

end NdkSw.Tools

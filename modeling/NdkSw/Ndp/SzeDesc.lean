/-
The descriptors of the SZE (v1) controller (`ndp/ctrl.c`): the driver describes a ring of blocks to the hardware as a chain of
descriptors, first the part behind the initial offset of the channel, then the whole ring in a loop, and shifts the pointers
of the hardware by that offset.
-/
import NdkSw.Ndp.Channel
import NdkSw.Ring.Chain

namespace NdkSw.Sze

open Ndp Ring

/-! ## Data model -/

def pageSize : Nat := 4096

/-- `MAX_DESC_SPACE`. -/
def maxDescSpace : Nat := 4096 * 1024

/-- `struct ndp_block`. -/
structure NdpBlock where
  size : Nat
  phys : U64
  deriving DecidableEq, Repr

/-- `struct ndp_ring`. -/
structure NdpRing where
  size : Nat
  blocks : List NdpBlock
  deriving DecidableEq, Repr

/-- `struct ndp_ctrl` of the SZE controller with its channel's ring, the memory at `update_ptr` and the register
`SZE_CTRL_REG_SW_POINTER`. -/
structure SzeCtrl where
  ring : NdpRing
  ptrmask : U64
  descriptorPhys : U64
  updatePtr : U64
  swPointer : U32
  swptr : U64
  hwptr : U64
  initialOffset : Nat

/-! ## The list -/

/-- A type 0 descriptor. -/
def szeEntry (phys : U64) (size : Nat) : U64 :=
  let flags : U64 := (BitVec.ofNat 64 (size / pageSize) - 1) <<< 1
  phys ||| flags

/-- The variables of `ndp_ctrl_desc_ring` with the memory that `desc` points to, by entry. -/
structure DescOut where
  mem : Int → U64
  desc : Option Int
  initialOffset : Nat
  descCount : U32

/-- The descriptor of `size` bytes from `phys` on: written if there is a place for it, and counted. -/
def DescOut.emit (o : DescOut) (phys : U64) (size : Nat) : DescOut :=
  { o with
    mem := match o.desc with
      | some d => Function.update o.mem d (szeEntry phys size)
      | none => o.mem
    desc := o.desc.map (· + 1)
    descCount := o.descCount + 1 }

/-- `while (block_size)` of `ndp_ctrl_desc_ring`. -/
def ndpCtrlDescBlock (phys : U64) (blockSize : Nat) (o : DescOut) : DescOut :=
  if blockSize = 0 then o
  else if o.initialOffset = 0 then
    let size := min blockSize maxDescSpace
    ndpCtrlDescBlock (phys + BitVec.ofNat 64 size) (blockSize - size) (o.emit phys size)
  else
    -- this part of the buffer is skipped
    let size := min (min blockSize maxDescSpace) o.initialOffset
    ndpCtrlDescBlock (phys + BitVec.ofNat 64 size) (blockSize - size) { o with initialOffset := o.initialOffset - size }
termination_by blockSize
decreasing_by
  all_goals
    simp only [maxDescSpace]
    omega

/-- `ndp_ctrl_desc_ring`. -/
def ndpCtrlDescRing (ring : NdpRing) (desc : Option Int) (mem : Int → U64) (initialOffset : Nat) : (Int → U64) × U32 :=
  let o := ring.blocks.foldl (fun o b => ndpCtrlDescBlock b.phys b.size o) { mem, desc, initialOffset, descCount := 0 }
  (o.mem, o.descCount)

/-- `ndp_ctrl_desc`, with `NULL` as `none`. -/
def ndpCtrlDesc (ctrl : SzeCtrl) (desc : Option Int) (mem : Int → U64) : (Int → U64) × U32 :=
  -- first stage
  let (mem, first) := if ctrl.initialOffset ≠ 0 then ndpCtrlDescRing ctrl.ring desc mem ctrl.initialOffset else (mem, 0)
  let secondStageOffset : U32 := if ctrl.initialOffset ≠ 0 then first * 8 else 0
  -- second stage
  let (mem, second) := ndpCtrlDescRing ctrl.ring (desc.map (· + (first.toNat : Int))) mem 0
  let descCount := first + second
  let mem := match desc with
    | some d => Function.update mem (d + (descCount.toNat : Int)) ((ctrl.descriptorPhys + secondStageOffset.signExtend 64) ||| 1)
    | none => mem
  (mem, descCount + 1)

/-! ## Pointers -/

/-- `ndp_ctrl_get_hwptr`. -/
def ndpCtrlGetHwptr (ctrl : SzeCtrl) : SzeCtrl × U64 :=
  let hwptr := (ctrl.updatePtr + BitVec.ofNat 64 ctrl.initialOffset) &&& ctrl.ptrmask
  ({ ctrl with hwptr }, hwptr)

/-- `ndp_ctrl_set_swptr`. -/
def ndpCtrlSetSwptr (ctrl : SzeCtrl) (ptr : U64) : SzeCtrl :=
  let ptr := (ptr - BitVec.ofNat 64 ctrl.initialOffset) &&& ctrl.ptrmask
  { ctrl with swPointer := ptr.setWidth 32, swptr := ptr }

/-- What `ndp_ctrl_attach_ring` sets for channel `index` when its allocations succeed: the controller, with its descriptors at
`descriptorPhys`. -/
def ndpCtrlAttachRing (ring : NdpRing) (index : BitVec 30) (descriptorPhys : U64) : SzeCtrl where
  ring
  ptrmask := BitVec.ofNat 64 (ring.size - 1)
  descriptorPhys
  updatePtr := 0
  swPointer := 0
  swptr := 0
  hwptr := 0
  initialOffset := (index.signExtend 64 * BitVec.ofNat 64 pageSize).toNat % ring.size

/-! ## Hardware -/

/-- How the hardware reads a descriptor. -/
def szeLink (e : U64) : Link U64 U64 :=
  if e.getLsbD 0 then .jump ((e >>> 1) <<< 1) else .piece ((e >>> 12) <<< 12) (((e.extractLsb' 1 11).toNat + 1) * pageSize)

/-- The descriptor at a physical address, for an area at `base`. -/
def szeRead (base : U64) (mem : Int → U64) (a : U64) : Link U64 U64 := szeLink (mem ((a - base).toNat / 8 : Nat))

/-- Byte `x` stands at position `p` of the stream that the hardware sees. -/
abbrev SzeServes (base : U64) (mem : Int → U64) : U64 → Nat → U64 → Prop :=
  Serves (fun b p => b + BitVec.ofNat 64 p) (szeRead base mem) (· + 8)

/-- The blocks of a ring as pieces. -/
def ringPieces (blocks : List NdpBlock) : List (U64 × Nat) := blocks.map fun b => (b.phys, b.size)

/-- The address of a byte of the ring. -/
def ringByte (blocks : List NdpBlock) (p : Nat) : Option U64 := byteAt (fun b p => b + BitVec.ofNat 64 p) (ringPieces blocks) p

/-- A ring of page-aligned blocks. -/
structure RingOk (ring : NdpRing) : Prop where
  block : ∀ b ∈ ring.blocks, 0 < b.size ∧ pageSize ∣ b.size ∧ pageSize ∣ b.phys.toNat
  size : ring.size = total (ringPieces ring.blocks)
  pow : ∃ k < 64, ring.size = 2 ^ k

/-! ## The loops as lists of pieces -/

/-- The pieces of `n` bytes from `phys` on. -/
def pieces (phys : U64) (n : Nat) : List (U64 × Nat) :=
  if n = 0 then []
  else (phys, min n maxDescSpace) :: pieces (phys + BitVec.ofNat 64 (min n maxDescSpace)) (n - min n maxDescSpace)
termination_by n
decreasing_by
  simp only [maxDescSpace]
  omega

/-- The pieces of some blocks behind the first `skip` bytes. -/
def descPieces : List NdpBlock → Nat → List (U64 × Nat)
  | [], _ => []
  | b :: blocks, skip => pieces (b.phys + BitVec.ofNat 64 (min b.size skip)) (b.size - skip) ++ descPieces blocks (skip - b.size)

def DescOut.emits (o : DescOut) (l : List (U64 × Nat)) : DescOut := l.foldl (fun o a => o.emit a.1 a.2) o

theorem DescOut.emits_append (o : DescOut) (l l' : List (U64 × Nat)) : o.emits (l ++ l') = (o.emits l).emits l' :=
  List.foldl_append

theorem DescOut.emits_with (o : DescOut) (l : List (U64 × Nat)) (n : Nat) :
    ({ o with initialOffset := n } : DescOut).emits l = { o.emits l with initialOffset := n } := by
  induction l generalizing o with
  | nil => rfl
  | cons a l ih => exact ih (o.emit a.1 a.2)

theorem ndpCtrlDescBlock_eq (n : Nat) : ∀ (phys : U64) (o : DescOut), ndpCtrlDescBlock phys n o =
    { o.emits (pieces (phys + BitVec.ofNat 64 (min n o.initialOffset)) (n - o.initialOffset)) with
      initialOffset := o.initialOffset - n } := by
  induction n using Nat.strong_induction_on with
  | _ n ih =>
    intro phys o
    rw [ndpCtrlDescBlock]
    by_cases hn : n = 0
    · subst hn
      rw [if_pos rfl, Nat.zero_sub, pieces, if_pos rfl]
      rfl
    rw [if_neg hn]
    have hsize : 0 < maxDescSpace := by decide
    by_cases ho : o.initialOffset = 0
    · rw [if_pos ho]
      dsimp only
      have hemit : (o.emit phys (min n maxDescSpace)).initialOffset = 0 := ho
      rw [ih _ (by omega), hemit, ho, Nat.min_zero, Nat.min_zero, Nat.sub_zero, Nat.sub_zero, BitVec.add_zero,
        BitVec.add_zero]
      conv_rhs => rw [pieces, if_neg hn]
      rw [Nat.zero_sub, Nat.zero_sub]
      rfl
    · rw [if_neg ho]
      dsimp only
      generalize hs : min (min n maxDescSpace) o.initialOffset = size
      rw [ih _ (by omega)]
      dsimp only
      have hsum : phys + BitVec.ofNat 64 size + BitVec.ofNat 64 (min (n - size) (o.initialOffset - size)) =
          phys + BitVec.ofNat 64 (min n o.initialOffset) := by
        rw [BitVec.add_assoc, ← BitVec.ofNat_add]
        congr 2
        omega
      rw [hsum, show n - size - (o.initialOffset - size) = n - o.initialOffset by omega,
        show o.initialOffset - size - (n - size) = o.initialOffset - n by omega, DescOut.emits_with]

theorem foldl_desc_eq (blocks : List NdpBlock) : ∀ (o : DescOut),
    blocks.foldl (fun o b => ndpCtrlDescBlock b.phys b.size o) o =
      { o.emits (descPieces blocks o.initialOffset) with initialOffset := o.initialOffset - total (ringPieces blocks) } := by
  induction blocks with
  | nil => exact fun o => rfl
  | cons b blocks ih =>
    intro o
    rw [List.foldl_cons, ih, ndpCtrlDescBlock_eq, descPieces, DescOut.emits_append, DescOut.emits_with]
    dsimp only
    have htotal : total (ringPieces (b :: blocks)) = b.size + total (ringPieces blocks) := rfl
    rw [htotal, Nat.sub_sub]

/-! ### What was emitted -/

/-- Write entries one after the other, from `d` on. -/
def storeAt (mem : Int → U64) (d : Int) : List U64 → Int → U64
  | [] => mem
  | v :: l => storeAt (Function.update mem d v) (d + 1) l

theorem storeAt_append (l l' : List U64) : ∀ (mem : Int → U64) (d : Int),
    storeAt mem d (l ++ l') = storeAt (storeAt mem d l) (d + l.length) l' := by
  induction l with
  | nil =>
    intro mem d
    simp [storeAt]
  | cons v l ih =>
    intro mem d
    rw [List.cons_append, storeAt, ih, storeAt, List.length_cons, Nat.cast_succ, add_assoc, add_comm 1]

theorem storeAt_before (l : List U64) : ∀ (mem : Int → U64) {d x : Int}, x < d → storeAt mem d l x = mem x := by
  induction l with
  | nil => exact fun _ _ _ _ => rfl
  | cons v l ih =>
    intro mem d x hx
    rw [storeAt, ih _ (by omega), Function.update_of_ne (by omega)]

theorem storeAt_get (l : List U64) : ∀ (mem : Int → U64) (d : Int) (i : Nat) (h : i < l.length),
    storeAt mem d l (d + i) = l[i] := by
  induction l with
  | nil => exact fun _ _ i h => absurd h (Nat.not_lt_zero i)
  | cons v l ih =>
    intro mem d i h
    cases i with
    | zero =>
      rw [storeAt, storeAt_before _ _ (by simp)]
      simp
    | succ i =>
      have hi := ih (Function.update mem d v) (d + 1) i (Nat.lt_of_succ_lt_succ h)
      rw [storeAt, Nat.cast_succ, add_comm (i : Int), ← add_assoc, hi]
      rfl

/-- The entries of some pieces. -/
def entries (l : List (U64 × Nat)) : List U64 := l.map fun a => szeEntry a.1 a.2

theorem DescOut.emits_eq (l : List (U64 × Nat)) : ∀ (o : DescOut),
    (o.emits l).descCount = o.descCount + BitVec.ofNat 32 l.length ∧
      (o.emits l).mem = match o.desc with
        | some d => storeAt o.mem d (entries l)
        | none => o.mem := by
  induction l with
  | nil =>
    intro o
    constructor
    · exact (BitVec.add_zero _).symm
    · cases o.desc <;> rfl
  | cons a l ih =>
    intro o
    obtain ⟨hcount, hmem⟩ := ih (o.emit a.1 a.2)
    constructor
    · show (DescOut.emits (o.emit a.1 a.2) l).descCount = _
      rw [hcount, DescOut.emit, List.length_cons, BitVec.ofNat_add, BitVec.add_assoc, BitVec.add_comm 1]
      rfl
    · show (DescOut.emits (o.emit a.1 a.2) l).mem = _
      rw [hmem, DescOut.emit]
      cases o.desc <;> rfl

theorem ndpCtrlDescRing_eq (ring : NdpRing) (desc : Option Int) (mem : Int → U64) (skip : Nat) :
    ndpCtrlDescRing ring desc mem skip =
      (match desc with
        | some d => storeAt mem d (entries (descPieces ring.blocks skip))
        | none => mem, BitVec.ofNat 32 (descPieces ring.blocks skip).length) := by
  unfold ndpCtrlDescRing
  rw [foldl_desc_eq]
  dsimp only
  obtain ⟨hcount, hmem⟩ := DescOut.emits_eq (descPieces ring.blocks skip) ⟨mem, desc, skip, 0⟩
  rw [hcount, hmem]
  dsimp only
  rw [show (0 : U32) = 0#32 from rfl, BitVec.zero_add]

/-! ### The pieces -/

/-- A piece that a descriptor can hold: pages, and no more of them than the size field counts. -/
structure PieceOk (a : U64 × Nat) : Prop where
  phys : pageSize ∣ a.1.toNat
  size : pageSize ∣ a.2
  pos : 0 < a.2
  field : a.2 / pageSize - 1 < 2 ^ 11

theorem dvd_toNat_add {phys : U64} {n : Nat} (hp : pageSize ∣ phys.toNat) (hn : pageSize ∣ n) :
    pageSize ∣ (phys + BitVec.ofNat 64 n).toNat := by
  have hw : pageSize ∣ 2 ^ 64 := by decide
  rw [BitVec.toNat_add, BitVec.toNat_ofNat]
  exact (Nat.dvd_mod_iff hw).2 (hp.add ((Nat.dvd_mod_iff hw).2 hn))

theorem pieces_ok (n : Nat) : ∀ {phys : U64}, pageSize ∣ phys.toNat → pageSize ∣ n → ∀ a ∈ pieces phys n, PieceOk a := by
  induction n using Nat.strong_induction_on with
  | _ n ih =>
    intro phys hp hn a ha
    rw [pieces] at ha
    by_cases h0 : n = 0
    · rw [if_pos h0] at ha
      cases ha
    · rw [if_neg h0] at ha
      have hmin : pageSize ∣ min n maxDescSpace := by
        rcases Nat.le_total n maxDescSpace with h | h
        · rwa [min_eq_left h]
        · rw [min_eq_right h]
          decide
      have hle : min n maxDescSpace ≤ maxDescSpace := min_le_right _ _
      have hpos : 0 < min n maxDescSpace := by
        have : 0 < maxDescSpace := by decide
        omega
      cases ha with
      | head =>
        refine ⟨hp, hmin, hpos, ?_⟩
        have := Nat.div_le_div_right (c := pageSize) hle
        have hmax : maxDescSpace / pageSize = 1024 := by decide
        dsimp only
        omega
      | tail _ ha => exact ih _ (by omega) (dvd_toNat_add hp hmin) ((Nat.dvd_sub hn hmin)) a ha

theorem total_pieces (n : Nat) : ∀ phys : U64, total (pieces phys n) = n := by
  induction n using Nat.strong_induction_on with
  | _ n ih =>
    intro phys
    rw [pieces]
    by_cases h0 : n = 0
    · rw [if_pos h0, h0, total_nil]
    · have hpos : 0 < maxDescSpace := by decide
      rw [if_neg h0, total_cons, ih _ (by omega)]
      dsimp only
      omega

theorem byteAt_pieces (n : Nat) : ∀ (phys : U64) (p : Nat),
    byteAt (fun b p => b + BitVec.ofNat 64 p) (pieces phys n) p = if p < n then some (phys + BitVec.ofNat 64 p) else none := by
  induction n using Nat.strong_induction_on with
  | _ n ih =>
    intro phys p
    rw [pieces]
    by_cases h0 : n = 0
    · rw [if_pos h0, h0, if_neg (Nat.not_lt_zero p), byteAt]
    · have hpos : 0 < maxDescSpace := by decide
      rw [if_neg h0, byteAt, ih _ (by omega)]
      by_cases hp : p < min n maxDescSpace
      · rw [if_pos hp, if_pos (by omega)]
      · rw [if_neg hp, BitVec.add_assoc, ← BitVec.ofNat_add, Nat.add_sub_cancel' (not_lt.1 hp)]
        by_cases hn : p < n
        · rw [if_pos (by omega), if_pos hn]
        · rw [if_neg (by omega), if_neg hn]

theorem total_descPieces (blocks : List NdpBlock) : ∀ skip,
    total (descPieces blocks skip) = total (ringPieces blocks) - skip := by
  induction blocks with
  | nil => exact fun skip => (Nat.zero_sub skip).symm
  | cons b blocks ih =>
    intro skip
    have htotal : total (ringPieces (b :: blocks)) = b.size + total (ringPieces blocks) := rfl
    rw [descPieces, total_append, total_pieces, ih, htotal]
    omega

/-- The pieces behind the first `skip` bytes show what the ring has there. -/
theorem byteAt_descPieces (blocks : List NdpBlock) : ∀ skip p,
    byteAt (fun b p => b + BitVec.ofNat 64 p) (descPieces blocks skip) p = ringByte blocks (skip + p) := by
  induction blocks with
  | nil => exact fun skip p => rfl
  | cons b blocks ih =>
    intro skip p
    have hring : ringByte (b :: blocks) (skip + p) =
        if skip + p < b.size then some (b.phys + BitVec.ofNat 64 (skip + p)) else ringByte blocks (skip + p - b.size) := rfl
    rw [descPieces, byteAt_append, total_pieces, hring, byteAt_pieces, ih]
    by_cases hp : p < b.size - skip
    · rw [if_pos hp, if_pos hp, if_pos (by omega), BitVec.add_assoc, ← BitVec.ofNat_add, min_eq_right (by omega)]
    · rw [if_neg hp, if_neg (by omega)]
      congr 1
      omega

theorem descPieces_ok : ∀ {blocks : List NdpBlock} {skip : Nat},
    (∀ b ∈ blocks, 0 < b.size ∧ pageSize ∣ b.size ∧ pageSize ∣ b.phys.toNat) → pageSize ∣ skip →
    ∀ a ∈ descPieces blocks skip, PieceOk a := by
  intro blocks
  induction blocks with
  | nil => exact nofun
  | cons b blocks ih =>
    intro skip hb hskip a ha
    obtain ⟨-, hsize, hphys⟩ := hb b List.mem_cons_self
    rw [descPieces, List.mem_append] at ha
    obtain ha | ha := ha
    · have hmin : pageSize ∣ min b.size skip := by
        rcases Nat.le_total b.size skip with h | h
        · rwa [min_eq_left h]
        · rwa [min_eq_right h]
      exact pieces_ok _ (dvd_toNat_add hphys hmin) (Nat.dvd_sub hsize hskip) a ha
    · exact ih (fun c hc => hb c (List.mem_cons_of_mem _ hc)) (Nat.dvd_sub hskip hsize) a ha

variable {l : List (U64 × Nat)}

theorem length_le_of_ok (h : ∀ a ∈ l, PieceOk a) : l.length * pageSize ≤ total l := by
  induction l with
  | nil => exact Nat.zero_le _
  | cons a l ih =>
    have ha := h a List.mem_cons_self
    have hpage := Nat.le_of_dvd ha.pos ha.size
    have hl := ih fun b hb => h b (List.mem_cons_of_mem _ hb)
    rw [List.length_cons, total_cons, Nat.succ_mul]
    omega

/-! ### Descriptors and back -/

theorem toNat_szeEntry {a : U64 × Nat} (h : PieceOk a) : (szeEntry a.1 a.2).toNat = a.1.toNat + 2 * (a.2 / pageSize - 1) := by
  obtain ⟨phys, size⟩ := a
  obtain ⟨⟨u, hu⟩, ⟨v, rfl⟩, hpos, hfield⟩ := h
  dsimp only [pageSize] at hu hpos hfield ⊢
  rw [Nat.mul_div_cancel_left v (by decide)] at hfield ⊢
  have hcount : (BitVec.ofNat 64 v - 1).toNat = v - 1 := by
    rw [BitVec.toNat_sub_of_le, BitVec.toNat_ofNat, Nat.mod_eq_of_lt (by omega)]
    · rfl
    · rw [BitVec.le_def, BitVec.toNat_ofNat, Nat.mod_eq_of_lt (by omega)]
      show 1 ≤ v
      omega
  have hflags : ((BitVec.ofNat 64 v - 1) <<< 1).toNat = 2 * (v - 1) := by
    rw [BitVec.toNat_shiftLeft, hcount, Nat.shiftLeft_eq, Nat.mod_eq_of_lt (by omega), Nat.mul_comm]
  unfold szeEntry
  dsimp only [pageSize]
  rw [BitVec.toNat_or, Nat.mul_div_cancel_left v (by decide), hflags, hu]
  exact (Nat.two_pow_add_eq_or_of_lt (i := 12) (by omega) u).symm

theorem szeLink_entry {a : U64 × Nat} (h : PieceOk a) : szeLink (szeEntry a.1 a.2) = .piece a.1 a.2 := by
  have he := toNat_szeEntry h
  generalize szeEntry a.1 a.2 = e at he
  obtain ⟨phys, size⟩ := a
  obtain ⟨⟨u, hu⟩, ⟨v, rfl⟩, hpos, hfield⟩ := h
  dsimp only [pageSize] at hu hpos hfield he
  rw [Nat.mul_div_cancel_left v (by decide)] at hfield he
  have hbit : e.getLsbD 0 = false := by
    rw [BitVec.getLsbD, Nat.testBit_zero, decide_eq_false_iff_not]
    omega
  have haddr : (e >>> 12) <<< 12 = phys := by
    apply BitVec.eq_of_toNat_eq
    have := phys.isLt
    rw [BitVec.toNat_shiftLeft, BitVec.toNat_ushiftRight, Nat.shiftRight_eq_div_pow, Nat.shiftLeft_eq]
    omega
  have hsize : (e.extractLsb' 1 11).toNat + 1 = v := by
    rw [BitVec.extractLsb'_toNat, Nat.shiftRight_eq_div_pow]
    omega
  unfold szeLink
  rw [hbit, haddr, hsize]
  show Link.piece phys (v * pageSize) = _
  rw [Nat.mul_comm]

theorem szeLink_jump {a : U64} (h : 2 ∣ a.toNat) : szeLink (a ||| 1) = .jump a := by
  obtain ⟨u, hu⟩ := h
  have he : (a ||| 1).toNat = a.toNat + 1 := by
    rw [BitVec.toNat_or, hu]
    exact (Nat.two_pow_add_eq_or_of_lt (i := 1) (by decide) u).symm
  have hbit : (a ||| 1).getLsbD 0 = true := by
    rw [BitVec.getLsbD, Nat.testBit_zero, decide_eq_true_eq]
    omega
  have haddr : ((a ||| 1) >>> 1) <<< 1 = a := by
    apply BitVec.eq_of_toNat_eq
    have := a.isLt
    rw [BitVec.toNat_shiftLeft, BitVec.toNat_ushiftRight, Nat.shiftRight_eq_div_pow, Nat.shiftLeft_eq]
    omega
  unfold szeLink
  rw [hbit, haddr]
  rfl

/-! ### The whole list -/

/-- The pieces of the first stage. -/
def firstStage (ctrl : SzeCtrl) : List (U64 × Nat) :=
  if ctrl.initialOffset ≠ 0 then descPieces ctrl.ring.blocks ctrl.initialOffset else []

def secondStage (ctrl : SzeCtrl) : List (U64 × Nat) := descPieces ctrl.ring.blocks 0

/-- The descriptor that closes the list. -/
def jumpBack (ctrl : SzeCtrl) : U64 := (ctrl.descriptorPhys + BitVec.ofNat 64 (8 * (firstStage ctrl).length)) ||| 1

theorem toInt_ofNat_small {w n : Nat} (hw : 2 ^ 32 ≤ 2 ^ w) (h : n < 2 ^ 31) : (BitVec.ofNat w n).toInt = n := by
  rw [BitVec.toInt_eq_toNat_bmod, BitVec.toNat_ofNat, Nat.mod_eq_of_lt (by omega), Int.bmod_eq_of_le (by omega) (by omega)]

/-- Both passes run through one list; the filling pass also writes it. -/
theorem ndpCtrlDesc_eq {ctrl : SzeCtrl} (h₁ : (firstStage ctrl).length < 2 ^ 28) (h₂ : (secondStage ctrl).length < 2 ^ 28)
    (mem : Int → U64) :
    ndpCtrlDesc ctrl none mem = (mem, BitVec.ofNat 32 ((firstStage ctrl ++ secondStage ctrl).length + 1)) ∧
      ndpCtrlDesc ctrl (some 0) mem = (storeAt mem 0 (entries (firstStage ctrl ++ secondStage ctrl) ++ [jumpBack ctrl]),
        BitVec.ofNat 32 ((firstStage ctrl ++ secondStage ctrl).length + 1)) := by
  have hstage : ∀ desc, (if ctrl.initialOffset ≠ 0 then ndpCtrlDescRing ctrl.ring desc mem ctrl.initialOffset else (mem, 0)) =
      (match desc with
        | some d => storeAt mem d (entries (firstStage ctrl))
        | none => mem, BitVec.ofNat 32 (firstStage ctrl).length) := by
    intro desc
    unfold firstStage
    by_cases ho : ctrl.initialOffset ≠ 0
    · rw [if_pos ho, if_pos ho, ndpCtrlDescRing_eq]
    · rw [if_neg ho, if_neg ho]
      cases desc <;> rfl
  have hoffset : ((if ctrl.initialOffset ≠ 0 then BitVec.ofNat 32 (firstStage ctrl).length * 8 else 0 : U32)).signExtend 64 =
      BitVec.ofNat 64 (8 * (firstStage ctrl).length) := by
    by_cases ho : ctrl.initialOffset ≠ 0
    · rw [if_pos ho, show (8 : U32) = BitVec.ofNat 32 8 from rfl, ← BitVec.ofNat_mul, Nat.mul_comm]
      apply BitVec.eq_of_toInt_eq
      rw [BitVec.toInt_signExtend_of_le (by decide), toInt_ofNat_small (by decide) (by omega),
        toInt_ofNat_small (by decide) (by omega)]
    · have : firstStage ctrl = [] := if_neg ho
      rw [if_neg ho, this]
      rfl
  have hlast : BitVec.ofNat 32 (firstStage ctrl).length + BitVec.ofNat 32 (secondStage ctrl).length =
      BitVec.ofNat 32 (firstStage ctrl ++ secondStage ctrl).length := by
    rw [← BitVec.ofNat_add, List.length_append]
  have hlen : (firstStage ctrl ++ secondStage ctrl).length < 2 ^ 31 := by
    rw [List.length_append]
    omega
  have hentries : entries (firstStage ctrl ++ secondStage ctrl) = entries (firstStage ctrl) ++ entries (secondStage ctrl) :=
    List.map_append
  constructor
  · unfold ndpCtrlDesc
    rw [hstage]
    dsimp only [Option.map_none]
    rw [ndpCtrlDescRing_eq]
    dsimp only
    rw [show descPieces ctrl.ring.blocks 0 = secondStage ctrl from rfl, hlast, BitVec.ofNat_add]
    rfl
  · unfold ndpCtrlDesc
    rw [hstage]
    dsimp only [Option.map_some]
    rw [ndpCtrlDescRing_eq, hoffset]
    dsimp only
    rw [show descPieces ctrl.ring.blocks 0 = secondStage ctrl from rfl, hlast, BitVec.toNat_ofNat, Nat.mod_eq_of_lt (by omega),
      BitVec.toNat_ofNat, Nat.mod_eq_of_lt (by omega), storeAt_append, hentries, storeAt_append, BitVec.ofNat_add]
    simp only [entries, List.length_map, List.length_append]
    rfl

/-! ## The ring as the hardware sees it -/

theorem iterate_next (a : U64) (i : Nat) : (· + 8)^[i] a = a + BitVec.ofNat 64 (8 * i) := by
  induction i with
  | zero => exact (BitVec.add_zero a).symm
  | succ i ih =>
    rw [Function.iterate_succ_apply', ih, Nat.mul_succ, BitVec.ofNat_add, BitVec.add_assoc]
    rfl

theorem szeRead_storeAt {base : U64} {mem : Int → U64} {l : List U64} {i : Nat} (hi : i < l.length) (hl : l.length < 2 ^ 32) :
    szeRead base (storeAt mem 0 l) ((· + 8)^[i] base) = szeLink l[i] := by
  have hsub : (base + BitVec.ofNat 64 (8 * i) - base).toNat / 8 = i := by
    rw [BitVec.add_comm, BitVec.add_sub_cancel, BitVec.toNat_ofNat, Nat.mod_eq_of_lt (by omega),
      Nat.mul_div_cancel_left i (by decide)]
  have hget := storeAt_get l mem 0 i hi
  rw [zero_add] at hget
  rw [szeRead, iterate_next, hsub, hget]

theorem lays_entries (base : U64) (mem : Int → U64) (jump : U64) (hok : ∀ a ∈ l, PieceOk a) (hl : l.length + 1 < 2 ^ 32) :
    Lays (szeRead base (storeAt mem 0 (entries l ++ [jump]))) (· + 8) base l := by
  intro i hi
  have hlen : (entries l).length = l.length := List.length_map _
  rw [szeRead_storeAt (by simp [hlen]; omega) (by simpa [hlen] using hl), List.getElem_append_left (by omega)]
  simp only [entries, List.getElem_map]
  exact szeLink_entry (hok _ (List.getElem_mem hi))

/-- What the driver set up describes the ring to the hardware, and its pointers go with it. -/
structure Described (ctrl : SzeCtrl) : Prop where
  /-- The counting pass counts what the filling pass writes: descriptors of whole pages, and the jump. -/
  list : ∃ l jump, (∀ a ∈ l, PieceOk a) ∧ l.length + 1 < 2 ^ 31 ∧ ∀ mem,
    ndpCtrlDesc ctrl none mem = (mem, BitVec.ofNat 32 (l.length + 1)) ∧
      ndpCtrlDesc ctrl (some 0) mem = (storeAt mem 0 (entries l ++ [jump]), BitVec.ofNat 32 (l.length + 1))
  shown : ∀ mem p, ∃ b, ringByte ctrl.ring.blocks ((ctrl.initialOffset + p) % ctrl.ring.size) = some b ∧
    ∀ x, SzeServes ctrl.descriptorPhys (ndpCtrlDesc ctrl (some 0) mem).1 ctrl.descriptorPhys p x ↔ x = b
  hwptr : ∀ u : U64, (ndpCtrlGetHwptr { ctrl with updatePtr := u }).2.toNat = (ctrl.initialOffset + u.toNat) % ctrl.ring.size
  back : ∀ u : U64,
    (ndpCtrlSetSwptr ctrl (ndpCtrlGetHwptr { ctrl with updatePtr := u }).2).swPointer.toNat = u.toNat % ctrl.ring.size
  forth : ∀ ptr : U64, (ndpCtrlGetHwptr { ctrl with updatePtr := (ndpCtrlSetSwptr ctrl ptr).swPointer.setWidth 64 }).2.toNat =
    ptr.toNat % ctrl.ring.size

section Attached

variable {ring : NdpRing} {index : BitVec 30} {d : U64}

theorem RingOk.dvd_size (h : RingOk ring) : pageSize ∣ ring.size := by
  rw [h.size]
  have hb := h.block
  generalize ring.blocks = blocks at hb
  induction blocks with
  | nil => exact dvd_zero _
  | cons b blocks ih =>
    have htotal : total (ringPieces (b :: blocks)) = b.size + total (ringPieces blocks) := rfl
    rw [htotal]
    exact (hb b List.mem_cons_self).2.1.add (ih fun c hc => hb c (List.mem_cons_of_mem _ hc))

theorem RingOk.pos (h : RingOk ring) : 0 < ring.size := by
  obtain ⟨k, -, hk⟩ := h.pow
  rw [hk]
  exact Nat.two_pow_pos k

variable (index d)

theorem initialOffset_lt (h : RingOk ring) : (ndpCtrlAttachRing ring index d).initialOffset < ring.size := Nat.mod_lt _ h.pos

theorem dvd_initialOffset (h : RingOk ring) : pageSize ∣ (ndpCtrlAttachRing ring index d).initialOffset := by
  have hw : pageSize ∣ 2 ^ 64 := by decide
  refine (Nat.dvd_mod_iff h.dvd_size).2 ?_
  rw [BitVec.toNat_mul, BitVec.toNat_ofNat]
  exact (Nat.dvd_mod_iff hw).2 (Dvd.dvd.mul_left ((Nat.dvd_mod_iff hw).2 dvd_rfl) _)

theorem stages_ok (h : RingOk ring) (hsize : ring.size ≤ 2 ^ 32) :
    (∀ a ∈ firstStage (ndpCtrlAttachRing ring index d) ++ secondStage (ndpCtrlAttachRing ring index d), PieceOk a) ∧
      (firstStage (ndpCtrlAttachRing ring index d)).length < 2 ^ 28 ∧
        (secondStage (ndpCtrlAttachRing ring index d)).length < 2 ^ 28 := by
  have hfirst : ∀ a ∈ firstStage (ndpCtrlAttachRing ring index d), PieceOk a := by
    unfold firstStage
    split
    · exact descPieces_ok h.block (dvd_initialOffset index d h)
    · exact nofun
  have hsecond : ∀ a ∈ secondStage (ndpCtrlAttachRing ring index d), PieceOk a := descPieces_ok h.block (dvd_zero _)
  have hle : ∀ l : List (U64 × Nat), (∀ a ∈ l, PieceOk a) → total l ≤ total (ringPieces ring.blocks) → l.length < 2 ^ 28 := by
    intro l hl ht
    have := length_le_of_ok hl
    have hs := h.size
    unfold pageSize at this
    omega
  refine ⟨fun a ha => (List.mem_append.1 ha).elim (hfirst a) (hsecond a), hle _ hfirst ?_, hle _ hsecond ?_⟩
  · unfold firstStage
    split
    · rw [total_descPieces]
      exact Nat.sub_le _ _
    · exact Nat.zero_le _
  · exact (total_descPieces _ _).le

/-- The walk of the hardware. -/
theorem serves_iff (h : RingOk ring) (hd : pageSize ∣ d.toNat) (hsize : ring.size ≤ 2 ^ 32) (mem : Int → U64) (p : Nat)
    (x : U64) :
    SzeServes d (ndpCtrlDesc (ndpCtrlAttachRing ring index d) (some 0) mem).1 d p x ↔
      ringByte ring.blocks (((ndpCtrlAttachRing ring index d).initialOffset + p) % ring.size) = some x := by
  obtain ⟨hok, h₁, h₂⟩ := stages_ok index d h hsize
  generalize hctrl : ndpCtrlAttachRing ring index d = ctrl at hok h₁ h₂
  have hring : ctrl.ring = ring := by rw [← hctrl]; rfl
  have hphys : ctrl.descriptorPhys = d := by rw [← hctrl]; rfl
  have hoff : ctrl.initialOffset < ring.size := by rw [← hctrl]; exact initialOffset_lt index d h
  rw [(ndpCtrlDesc_eq h₁ h₂ mem).2]
  dsimp only
  have hlen : (firstStage ctrl ++ secondStage ctrl).length + 1 < 2 ^ 32 := by
    rw [List.length_append]
    omega
  have hlays := lays_entries d mem (jumpBack ctrl) hok hlen
  obtain ⟨hl₁, hl₂⟩ := lays_append.1 hlays
  have hback : szeRead d (storeAt mem 0 (entries (firstStage ctrl ++ secondStage ctrl) ++ [jumpBack ctrl]))
      ((· + 8)^[(secondStage ctrl).length] ((· + 8)^[(firstStage ctrl).length] d)) =
        .jump ((· + 8)^[(firstStage ctrl).length] d) := by
    have hcount : (entries (firstStage ctrl ++ secondStage ctrl)).length =
        (secondStage ctrl).length + (firstStage ctrl).length := by
      rw [entries, List.length_map, List.length_append, Nat.add_comm]
    have heven : 2 ∣ (d + BitVec.ofNat 64 (8 * (firstStage ctrl).length)).toNat := by
      have hw : 2 ∣ 2 ^ 64 := by decide
      have hpage : 2 ∣ pageSize := by decide
      rw [BitVec.toNat_add, BitVec.toNat_ofNat]
      refine (Nat.dvd_mod_iff hw).2 ((hpage.trans hd).add ((Nat.dvd_mod_iff hw).2 ?_))
      exact Dvd.dvd.mul_right (by decide) _
    rw [← Function.iterate_add_apply, szeRead_storeAt (by simp [hcount]) (by simp [hcount]; omega),
      List.getElem_append_right (by omega), iterate_next]
    simp only [hcount, Nat.sub_self, List.getElem_cons_zero]
    rw [jumpBack, hphys]
    exact szeLink_jump heven
  have htotal := total_descPieces ring.blocks 0
  rw [Nat.sub_zero] at htotal
  rw [h.size]
  refine serves_rotated hl₁ hl₂ hback (by rw [← h.size]; exact h.pos) ?_ ?_ ?_ p x
  · -- the first descriptors serve what lies behind the initial offset, or there are none
    unfold firstStage
    rw [hring]
    by_cases ho : ctrl.initialOffset ≠ 0
    · right
      rw [if_pos ho]
      constructor
      · rw [total_descPieces, ← h.size]
        omega
      · exact byteAt_descPieces ring.blocks ctrl.initialOffset
    · left
      rw [if_neg ho]
      exact ⟨rfl, not_not.1 ho⟩
  · rw [secondStage, hring]
    exact htotal
  · intro p
    rw [secondStage, hring, byteAt_descPieces, Nat.zero_add]
    rfl

theorem exists_ringByte : ∀ (blocks : List NdpBlock) {p : Nat}, p < total (ringPieces blocks) →
    ∃ b, ringByte blocks p = some b := by
  intro blocks
  induction blocks with
  | nil => exact fun h => absurd h (Nat.not_lt_zero _)
  | cons b blocks ih =>
    intro p hp
    have htotal : total (ringPieces (b :: blocks)) = b.size + total (ringPieces blocks) := rfl
    have hring : ringByte (b :: blocks) p =
        if p < b.size then some (b.phys + BitVec.ofNat 64 p) else ringByte blocks (p - b.size) := rfl
    rw [htotal] at hp
    rw [hring]
    by_cases hb : p < b.size
    · rw [if_pos hb]
      exact ⟨_, rfl⟩
    · rw [if_neg hb]
      exact ih (by omega)

theorem and_ptrmask (h : RingOk ring) (x : U64) :
    (x &&& (ndpCtrlAttachRing ring index d).ptrmask).toNat = x.toNat % ring.size := by
  obtain ⟨k, hk, hpow⟩ := h.pow
  have hlt : 2 ^ k < 2 ^ 64 := Nat.pow_lt_pow_right (by decide) hk
  show (x &&& BitVec.ofNat 64 (ring.size - 1)).toNat = _
  rw [BitVec.toNat_and, BitVec.toNat_ofNat, hpow, Nat.mod_eq_of_lt (by omega), Nat.and_two_pow_sub_one_eq_mod]

theorem RingOk.dvd_pow (h : RingOk ring) : ring.size ∣ 2 ^ 64 := by
  obtain ⟨k, hk, hpow⟩ := h.pow
  rw [hpow]
  exact Nat.pow_dvd_pow 2 hk.le

theorem RingOk.size_lt (h : RingOk ring) : ring.size < 2 ^ 64 := by
  obtain ⟨k, hk, hpow⟩ := h.pow
  rw [hpow]
  exact Nat.pow_lt_pow_right (by decide) hk

theorem toNat_hwptr (h : RingOk ring) (u : U64) :
    (ndpCtrlGetHwptr { ndpCtrlAttachRing ring index d with updatePtr := u }).2.toNat =
      ((ndpCtrlAttachRing ring index d).initialOffset + u.toNat) % ring.size := by
  have hoff := initialOffset_lt index d h
  have hlt := h.size_lt
  have hand := and_ptrmask index d h (u + BitVec.ofNat 64 (ndpCtrlAttachRing ring index d).initialOffset)
  refine hand.trans ?_
  rw [BitVec.toNat_add, BitVec.toNat_ofNat, Nat.mod_eq_of_lt (by omega : (ndpCtrlAttachRing ring index d).initialOffset < 2 ^ 64),
    Nat.mod_mod_of_dvd _ h.dvd_pow, Nat.add_comm]

theorem toNat_swptr (h : RingOk ring) (ptr : U64) :
    (ndpCtrlSetSwptr (ndpCtrlAttachRing ring index d) ptr).swptr.toNat < ring.size ∧
      ((ndpCtrlAttachRing ring index d).initialOffset +
        (ndpCtrlSetSwptr (ndpCtrlAttachRing ring index d) ptr).swptr.toNat) % ring.size =
        ptr.toNat % ring.size := by
  have hoff := initialOffset_lt index d h
  have hlt := h.size_lt
  have hand := and_ptrmask index d h (ptr - BitVec.ofNat 64 (ndpCtrlAttachRing ring index d).initialOffset)
  have hswptr : (ndpCtrlSetSwptr (ndpCtrlAttachRing ring index d) ptr).swptr.toNat = _ := hand
  generalize (ndpCtrlAttachRing ring index d).initialOffset = o at hoff hswptr ⊢
  have hptr := ptr.isLt
  rw [hswptr, BitVec.toNat_sub, BitVec.toNat_ofNat, Nat.mod_eq_of_lt (by omega : o < 2 ^ 64), Nat.mod_mod_of_dvd _ h.dvd_pow]
  refine ⟨Nat.mod_lt _ h.pos, ?_⟩
  rw [Nat.add_mod_mod, show o + (2 ^ 64 - o + ptr.toNat) = 2 ^ 64 + ptr.toNat by omega, Nat.add_mod,
    Nat.mod_eq_zero_of_dvd h.dvd_pow, Nat.zero_add, Nat.mod_mod]

theorem size_le_of_back {ctrl : SzeCtrl} (h : Described ctrl) : ctrl.ring.size ≤ 2 ^ 32 := by
  by_contra hsize
  have hmod : (2 ^ 32) % ctrl.ring.size = 2 ^ 32 := Nat.mod_eq_of_lt (not_le.1 hsize)
  have hback := h.back (BitVec.ofNat 64 (2 ^ 32))
  rw [show (BitVec.ofNat 64 (2 ^ 32)).toNat = 2 ^ 32 from rfl, hmod] at hback
  exact absurd (BitVec.isLt _) (not_lt.2 hback.ge)

/-- The ring is described, and the pointers go with it, if and only if it has at most 4 GiB. -/
theorem described_iff (h : RingOk ring) (hd : pageSize ∣ d.toNat) :
    Described (ndpCtrlAttachRing ring index d) ↔ ring.size ≤ 2 ^ 32 := by
  constructor
  · exact size_le_of_back
  · intro hsize
    obtain ⟨hok, h₁, h₂⟩ := stages_ok index d h hsize
    have hreg : ∀ ptr, (ndpCtrlSetSwptr (ndpCtrlAttachRing ring index d) ptr).swPointer.toNat =
        (ndpCtrlSetSwptr (ndpCtrlAttachRing ring index d) ptr).swptr.toNat := by
      intro ptr
      have hlt := (toNat_swptr index d h ptr).1
      exact (BitVec.toNat_setWidth ..).trans (Nat.mod_eq_of_lt (hlt.trans_le hsize))
    constructor
    case list =>
      refine ⟨_, _, hok, ?_, fun mem => ndpCtrlDesc_eq h₁ h₂ mem⟩
      rw [List.length_append]
      omega
    case shown =>
      intro mem p
      obtain ⟨b, hb⟩ := exists_ringByte ring.blocks
        (p := ((ndpCtrlAttachRing ring index d).initialOffset + p) % ring.size) (by rw [← h.size]; exact Nat.mod_lt _ h.pos)
      refine ⟨b, hb, fun x => (serves_iff index d h hd hsize mem p x).trans ?_⟩
      rw [hb, Option.some.injEq, eq_comm]
    case hwptr => exact toNat_hwptr index d h
    case back =>
      intro u
      obtain ⟨hlt, hmod⟩ := toNat_swptr index d h
        (ndpCtrlGetHwptr { ndpCtrlAttachRing ring index d with updatePtr := u }).2
      rw [hreg]
      rw [toNat_hwptr index d h, Nat.mod_mod] at hmod
      have hcancel := Nat.ModEq.add_left_cancel' _ hmod
      rwa [Nat.ModEq, Nat.mod_eq_of_lt hlt] at hcancel
    case forth =>
      intro ptr
      obtain ⟨hlt, hmod⟩ := toNat_swptr index d h ptr
      rw [toNat_hwptr index d h, BitVec.toNat_setWidth_of_le (by decide), hreg, hmod]
      rfl

end Attached

/-- A ring of 8 GiB in blocks of 4 MiB. -/
def largeRing : NdpRing where
  size := 2 ^ 33
  blocks := (List.range 2048).map fun i => { size := 2 ^ 22, phys := BitVec.ofNat 64 (2 ^ 22 * i) }

/-- The hardware is at 4 GiB, and is told position 0. -/
theorem large_ring_cut : RingOk largeRing ∧ ¬Described (ndpCtrlAttachRing largeRing 0 0) := by
  constructor
  · constructor
    case block =>
      intro b hb
      simp only [largeRing, List.mem_map, List.mem_range] at hb
      obtain ⟨i, hi, rfl⟩ := hb
      refine ⟨show 0 < 2 ^ 22 by decide, show pageSize ∣ 2 ^ 22 by decide, ?_⟩
      rw [BitVec.toNat_ofNat, Nat.mod_eq_of_lt (by omega)]
      exact Dvd.dvd.mul_right (by decide) i
    case size => decide +kernel
    case pow => exact ⟨33, by decide, rfl⟩
  · intro h
    exact absurd (show 2 ^ 33 ≤ 2 ^ 32 from size_le_of_back h) (by decide)

/-- A ring of two blocks of two pages for channel 1, which starts at the second page. -/
theorem described_small :
    Described (ndpCtrlAttachRing { size := 16384, blocks := [⟨8192, 0x10000⟩, ⟨8192, 0x40000⟩] } 1 0x8000) :=
  (described_iff 1 0x8000 ⟨by decide, by decide, 14, by decide, rfl⟩ (by decide)).2 (by decide)

end NdkSw.Sze

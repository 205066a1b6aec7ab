/-
The load request of the boot driver for a card with a BMC (`nfb_boot_bw_bmc_load` of `boot/bw-bmc.c`): the slot is erased, and data
are written to its place in the flash, which may reach into an empty slot behind it.
-/
import NdkSw.Boot.Load
import NdkSw.Boot.Partition

namespace NdkSw.Boot

open Ndp Shared Bits

/-! ## Data model -/

/-- The request: the command bits, the slot that the path leads to, the size of the data, the name with its size. -/
structure BmcLoad where
  cmd : U64
  node : Option Nat
  dataSize : U64
  nameSize : U32
  name : List Char
  deriving DecidableEq, Repr

/-- What the BMC is told to do. -/
inductive BmcOp where
  | priority
  | unlink (path : List Char)
  | load (len : Nat) (offset : U32)
  | move (src dst : List Char)
  deriving DecidableEq, Repr

/-- What the request meets: memory for the two paths, and the results of the BMC. -/
structure BmcEnv where
  allocErase : Bool
  allocMove : Bool
  priority : Int
  unlink : Int
  load : Int
  move : Int
  deriving DecidableEq, Repr

def cmdErase : U64 := 1

def cmdWrite : U64 := 2

def cmdPriority : U64 := 4

def pathPrefix : List Char := "/fpga/".toList

/-! ## The request -/

/-- The loop over the other slots: the first empty one at the rounded end of the slot is added to it. -/
def usableSize (offset size : U32) : List BinarySlot → U32
  | [] => size
  | next :: l =>
    if ((offset + size + 0xFFF) &&& ~~~0xFFF) = next.base ∧ next.empty = true then size + next.size else usableSize offset size l

/-- The command `ERASE`, or the test that the slot is empty. -/
def eraseSlot (env : BmcEnv) (load : BmcLoad) (slot : BinarySlot) : Int × List BmcOp :=
  if load.cmd &&& cmdErase ≠ 0 then
    match slot.empty, slot.filename with
    | false, some name =>
      if env.allocErase = false then (eNomem, []) else (env.unlink, [.unlink (pathPrefix ++ name)])
    | _, _ => (eInval, [])
  else if slot.empty = false then (eInval, []) else (0, [])

/-- The command `WRITE`. The new name of the file is cut to its buffer. -/
def writeSlot (env : BmcEnv) (load : BmcLoad) (slot : BinarySlot) : Int × List BmcOp :=
  let ops : List BmcOp := [.load load.dataSize.toNat slot.base]
  if env.load ≠ 0 then (env.load, ops)
  else if env.allocMove = false then (eNomem, ops)
  else
    let size := (pathPrefix ++ "0x00000000-".toList).length + load.nameSize.toNat
    let dst := (pathPrefix ++ "0x".toList ++ hex8 slot.base ++ "-".toList ++ load.name).take (size - 1)
    (env.move, ops ++ [.move (pathPrefix ++ hex8 slot.base) dst])

/-- `nfb_boot_bw_bmc_load`, for the slots in the order of the device tree. -/
def nfbBootBwBmcLoad (env : BmcEnv) (slots : List BinarySlot) (load : BmcLoad) : Int × List BmcOp :=
  if load.cmd = cmdPriority then (env.priority, [.priority])
  else
    match load.node with
    | none => (eInval, [])
    | some i =>
      match slots[i]? with
      | none => (eInval, [])
      | some slot =>
        if (usableSize slot.base slot.size (slots.eraseIdx i)).toNat < load.dataSize.toNat then (eNomem, [])
        else
          let erased := eraseSlot env load slot
          if erased.1 ≠ 0 then erased
          else if load.cmd &&& cmdWrite ≠ 0 then
            let written := writeSlot env load slot
            (written.1, erased.2 ++ written.2)
          else (0, erased.2)

/-! ## What is asked of a write -/

/-- The slots of a flash: none without a place, all inside, no two on the same place. -/
structure SlotsFit (slots : List BinarySlot) : Prop where
  apart : slots.Pairwise fun s t => s.seg.Apart t.seg
  inside : ∀ s ∈ slots, 0 < s.seg.len ∧ s.seg.stop ≤ maxSize.toNat

/-- The range given to the BMC is in the flash, on no other image, and the image that was there is unlinked before. -/
structure WriteOk (env : BmcEnv) (slots : List BinarySlot) (i : Nat) (ops : List BmcOp) (len : Nat) (base : U32) : Prop where
  inside : base.toNat + len ≤ maxSize.toNat
  apart : ∀ j u, slots[j]? = some u → j ≠ i → u.empty = false → (⟨base.toNat, len⟩ : Seg).Apart u.seg
  erased : ∀ slot, slots[i]? = some slot → slot.empty = false → ∃ name rest,
    slot.filename = some name ∧ env.unlink = 0 ∧ ops = .unlink (pathPrefix ++ name) :: .load len base :: rest

/-- The condition: an image that starts between the end of the slot and the next page starts behind the data. -/
def SpareFits (slots : List BinarySlot) (i : Nat) (slot : BinarySlot) (load : BmcLoad) : Prop :=
  ∀ j u, slots[j]? = some u → j ≠ i → u.empty = false → slot.seg.stop ≤ u.seg.start →
    u.seg.start < ceilTo 4096 slot.seg.stop → slot.seg.start + load.dataSize.toNat ≤ u.seg.start

/-! ## What a request can do -/

theorem usableSize_cases (offset size : U32) (l : List BinarySlot) : usableSize offset size l = size ∨
    ∃ next ∈ l, next.empty = true ∧ ((offset + size + 0xFFF) &&& ~~~0xFFF) = next.base ∧ usableSize offset size l = size + next.size := by
  induction l with
  | nil => exact .inl rfl
  | cons next l ih =>
    rw [usableSize]
    by_cases h : ((offset + size + 0xFFF) &&& ~~~0xFFF) = next.base ∧ next.empty = true
    · rw [if_pos h]
      exact .inr ⟨next, List.mem_cons_self, h.2, h.1, rfl⟩
    · rw [if_neg h]
      rcases ih with ih | ⟨u, hu, ih⟩
      · exact .inl ih
      · exact .inr ⟨u, List.mem_cons_of_mem _ hu, ih⟩

theorem eraseSlot_spec (env : BmcEnv) (load : BmcLoad) (slot : BinarySlot) :
    (∀ len base, .load len base ∉ (eraseSlot env load slot).2) ∧
    ((eraseSlot env load slot).1 = 0 → slot.empty = false → ∃ name, slot.filename = some name ∧ env.unlink = 0 ∧
      (eraseSlot env load slot).2 = [.unlink (pathPrefix ++ name)]) := by
  unfold eraseSlot
  split
  · split
    · next name _ hname =>
      split
      · exact ⟨by simp, fun h => absurd h (by decide)⟩
      · exact ⟨by simp, fun h _ => ⟨name, hname, h, rfl⟩⟩
    · exact ⟨by simp, fun h => absurd h (by decide)⟩
  · split
    · exact ⟨by simp, fun h => absurd h (by decide)⟩
    · next hempty => exact ⟨by simp, fun _ h => absurd h hempty⟩

theorem writeSlot_ops (env : BmcEnv) (load : BmcLoad) (slot : BinarySlot) :
    ∃ rest, (writeSlot env load slot).2 = .load load.dataSize.toNat slot.base :: rest ∧ ∀ len base, .load len base ∉ rest := by
  unfold writeSlot
  split
  · exact ⟨[], rfl, by simp⟩
  · split
    · exact ⟨[], rfl, by simp⟩
    · exact ⟨_, rfl, by simp⟩

/-- What a request with a write has passed. -/
theorem of_load_mem {env : BmcEnv} {slots : List BinarySlot} {load : BmcLoad} {i : Nat} {slot : BinarySlot} {len : Nat} {base : U32}
    (hi : load.node = some i) (hslot : slots[i]? = some slot) (h : .load len base ∈ (nfbBootBwBmcLoad env slots load).2) :
    len = load.dataSize.toNat ∧ base = slot.base ∧
    load.dataSize.toNat ≤ (usableSize slot.base slot.size (slots.eraseIdx i)).toNat ∧
    (slot.empty = false → ∃ name rest, slot.filename = some name ∧ env.unlink = 0 ∧
      (nfbBootBwBmcLoad env slots load).2 = .unlink (pathPrefix ++ name) :: .load len base :: rest) := by
  unfold nfbBootBwBmcLoad at h ⊢
  by_cases hprio : load.cmd = cmdPriority
  · rw [if_pos hprio] at h
    simp at h
  rw [if_neg hprio, hi] at h ⊢
  dsimp only at h ⊢
  rw [hslot] at h ⊢
  dsimp only at h ⊢
  obtain ⟨hnot, herased⟩ := eraseSlot_spec env load slot
  by_cases hsize : (usableSize slot.base slot.size (slots.eraseIdx i)).toNat < load.dataSize.toNat
  · rw [if_pos hsize] at h
    simp at h
  rw [if_neg hsize] at h ⊢
  by_cases hret : (eraseSlot env load slot).1 ≠ 0
  · rw [if_pos hret] at h
    exact absurd h (hnot _ _)
  rw [if_neg hret] at h ⊢
  by_cases hwrite : load.cmd &&& cmdWrite ≠ 0
  · obtain ⟨rest, hops, hrest⟩ := writeSlot_ops env load slot
    rw [if_pos hwrite] at h ⊢
    dsimp only at h ⊢
    rw [hops, List.mem_append, List.mem_cons] at h
    have heq : BmcOp.load len base = .load load.dataSize.toNat slot.base := by
      rcases h with h | h | h
      · exact absurd h (hnot _ _)
      · exact h
      · exact absurd h (hrest _ _)
    cases heq
    refine ⟨rfl, rfl, Nat.le_of_not_lt hsize, fun hempty => ?_⟩
    obtain ⟨name, hname, hunlink, hpre⟩ := herased (not_not.1 hret) hempty
    exact ⟨name, rest, hname, hunlink, by rw [hpre, hops]; rfl⟩
  · rw [if_neg hwrite] at h
    exact absurd h (hnot _ _)

/-! ## Places -/

section

variable {slots : List BinarySlot} {i : Nat} {slot : BinarySlot}

theorem SlotsFit.apart_or (h : SlotsFit slots) {j : Nat} {u : BinarySlot} (hslot : slots[i]? = some slot) (hu : slots[j]? = some u)
    (hne : j ≠ i) : u.seg.stop ≤ slot.seg.start ∨ slot.seg.stop ≤ u.seg.start := by
  obtain ⟨hi, rfl⟩ := List.getElem?_eq_some_iff.1 hslot
  obtain ⟨hj, rfl⟩ := List.getElem?_eq_some_iff.1 hu
  have hposi := (h.inside _ (List.getElem_mem hi)).1
  have hposj := (h.inside _ (List.getElem_mem hj)).1
  have hpair := List.pairwise_iff_getElem.1 h.apart
  rw [← Seg.apart_iff hposj hposi]
  rcases Nat.lt_or_gt_of_ne hne with hlt | hgt
  · exact hpair j i hj hi hlt
  · exact (hpair i j hi hj hgt).symm

theorem usable_cases (h : SlotsFit slots) (hslot : slots[i]? = some slot) :
    slot.seg.start + (usableSize slot.base slot.size (slots.eraseIdx i)).toNat = slot.seg.stop ∨
    ∃ j next, j ≠ i ∧ slots[j]? = some next ∧ next.empty = true ∧ next.seg.start = ceilTo 4096 slot.seg.stop ∧
      slot.seg.start + (usableSize slot.base slot.size (slots.eraseIdx i)).toNat = slot.seg.stop + next.seg.len := by
  have hmem := List.mem_of_getElem? hslot
  rcases usableSize_cases slot.base slot.size (slots.eraseIdx i) with heq | ⟨next, hnext, hempty, hbase, heq⟩
  · rw [heq]
    exact .inl rfl
  · obtain ⟨j, hne, hj⟩ := List.mem_eraseIdx_iff_getElem?.1 hnext
    have hfit := (h.inside _ hmem).2
    have hnfit := (h.inside _ (List.mem_of_getElem? hj)).2
    have hround := congrArg BitVec.toNat hbase
    rw [toNat_roundPage hfit] at hround
    have hge := le_ceilTo (g := 4096) (by norm_num) (slot.base.toNat + slot.size.toNat)
    have hmax : maxSize.toNat = 0x10000000 := rfl
    refine .inr ⟨j, next, hne, hj, hempty, hround.symm, ?_⟩
    rw [heq, BitVec.toNat_add, Nat.mod_eq_of_lt]
    · exact (Nat.add_assoc _ _ _).symm
    · have hnext : next.base.toNat + next.size.toNat ≤ maxSize.toNat := hnfit
      omega

theorem usable_inside (h : SlotsFit slots) (hslot : slots[i]? = some slot) {d : Nat}
    (hd : d ≤ (usableSize slot.base slot.size (slots.eraseIdx i)).toNat) : slot.seg.start + d ≤ maxSize.toNat := by
  have hfit := (h.inside _ (List.mem_of_getElem? hslot)).2
  rcases usable_cases h hslot with heq | ⟨j, next, -, hj, -, hstart, heq⟩
  · omega
  · have hnfit := (h.inside _ (List.mem_of_getElem? hj)).2
    have hge := le_ceilTo (g := 4096) (by norm_num) slot.seg.stop
    unfold Seg.stop at hnfit
    omega

/-- A range at the start of the slot is on another image only if that starts before the next page. -/
theorem range_apart_iff (h : SlotsFit slots) (hslot : slots[i]? = some slot) {d j : Nat} {u : BinarySlot}
    (hd : d ≤ (usableSize slot.base slot.size (slots.eraseIdx i)).toNat) (hu : slots[j]? = some u) (hne : j ≠ i) (himage : u.empty = false) :
    (⟨slot.seg.start, d⟩ : Seg).Apart u.seg ↔
      (slot.seg.stop ≤ u.seg.start → u.seg.start < ceilTo 4096 slot.seg.stop → slot.seg.start + d ≤ u.seg.start) := by
  have hpos := (h.inside _ (List.mem_of_getElem? hslot)).1
  have hupos := (h.inside _ (List.mem_of_getElem? hu)).1
  constructor
  · intro hapart hbehind _
    by_contra hlt
    have hin : u.seg.start ∈ (⟨slot.seg.start, d⟩ : Seg) :=
      ⟨(Nat.le_add_right _ _).trans hbehind, show u.seg.start < slot.seg.start + d by omega⟩
    exact hapart _ hin ⟨le_rfl, show u.seg.start < u.seg.start + u.seg.len by omega⟩
  · intro hspare
    rcases h.apart_or hslot hu hne with hbefore | hbehind
    · exact (Seg.apart_of_le (b := ⟨slot.seg.start, d⟩) hbefore).symm
    refine Seg.apart_of_le (show slot.seg.start + d ≤ u.seg.start from ?_)
    rcases Nat.lt_or_ge u.seg.start (ceilTo 4096 slot.seg.stop) with hpage | hpage
    · exact hspare hbehind hpage
    -- behind the page the image is behind the empty slot too
    rcases usable_cases h hslot with heq | ⟨k, next, hk, hnext, hempty, hstart, heq⟩
    · omega
    · have hkj : k ≠ j := by
        rintro rfl
        rw [hnext] at hu
        cases hu
        exact absurd (hempty.symm.trans himage) nofun
      have hge := le_ceilTo (g := 4096) (by norm_num) slot.seg.stop
      rcases h.apart_or hu hnext hkj with hle | hle
      · unfold Seg.stop at *
        omega
      · unfold Seg.stop at *
        omega

end

/-- For every set of slots, every request and every BMC: the range that a request gives to the BMC is in the flash and on no other image,
and the slot is empty or unlinked by then, if and only if no image that starts in the page in which the slot ends is reached. -/
theorem write_over_image_iff {env : BmcEnv} {slots : List BinarySlot} {load : BmcLoad} {i : Nat} {slot : BinarySlot} {len : Nat} {base : U32}
    (hslots : SlotsFit slots) (hi : load.node = some i) (hslot : slots[i]? = some slot)
    (h : .load len base ∈ (nfbBootBwBmcLoad env slots load).2) :
    WriteOk env slots i (nfbBootBwBmcLoad env slots load).2 len base ↔ SpareFits slots i slot load := by
  obtain ⟨rfl, rfl, hd, herased⟩ := of_load_mem hi hslot h
  constructor
  · rintro ⟨-, hapart, -⟩ j u hu hne himage
    exact (range_apart_iff hslots hslot hd hu hne himage).1 (hapart j u hu hne himage)
  · intro hspare
    constructor
    · exact usable_inside hslots hslot hd
    · exact fun j u hu hne himage => (range_apart_iff hslots hslot hd hu hne himage).2 (hspare j u hu hne himage)
    · intro slot' hslot' hempty
      cases hslot.symm.trans hslot'
      exact herased hempty

def twoImages : List Char := "0,a,0x0,256,0\n1,b,0x200,256,0\n".toList

def twoImagesEnv : TableEnv := ⟨some "IA-440I".toList, true, true, twoImages.length, twoImages, fun _ => true, fun _ _ => true⟩

def twoSlots : List BinarySlot := (loadPartitionTable false twoImagesEnv).2

def twoSlotsLoad : BmcLoad := ⟨3, some 0, 592, 2, ['c']⟩

def twoSlotsBmc : BmcEnv := ⟨true, true, 0, 0, 0, 0⟩

theorem twoSlots_map : twoSlots.map (fun s => (s.base.toNat, s.size.toNat, s.empty)) =
    [(0, 256, false), (512, 256, false), (4096, 268431360, true)] := by
  decide +kernel

theorem twoSlots_fit : SlotsFit twoSlots := by
  have hsegs : twoSlots.map BinarySlot.seg = [⟨0, 256⟩, ⟨512, 256⟩, ⟨4096, 268431360⟩] := by decide +kernel
  constructor
  · rw [← List.pairwise_map (f := BinarySlot.seg), hsegs]
    simp only [List.pairwise_cons, List.mem_cons, List.not_mem_nil, or_false, forall_eq_or_imp, forall_eq]
    refine ⟨⟨?_, ?_⟩, ?_, nofun, List.Pairwise.nil⟩
    all_goals exact Seg.apart_of_le (by decide)
  · intro s hs
    have hmem := List.mem_map_of_mem (f := BinarySlot.seg) hs
    rw [hsegs] at hmem
    revert hmem
    generalize s.seg = seg
    revert seg
    decide

/-- An image of 512 bytes fits in front of the second one. -/
theorem first_image_replaced :
    WriteOk twoSlotsBmc twoSlots 0 (nfbBootBwBmcLoad twoSlotsBmc twoSlots { twoSlotsLoad with dataSize := 512 }).2 512 0 := by
  obtain ⟨slot, hslot⟩ : ∃ slot, twoSlots[0]? = some slot := Option.isSome_iff_exists.1 (by decide +kernel)
  have hstarts : ∀ u ∈ twoSlots, u.empty = false → u.seg.start = 0 ∨ u.seg.start = 512 := by decide +kernel
  have hpos := (twoSlots_fit.inside slot (List.mem_of_getElem? hslot)).1
  have hstart : slot.seg.start = 0 := by
    have hmap := congrArg (fun l => l[0]?) twoSlots_map
    rw [List.getElem?_map, hslot] at hmap
    exact congrArg Prod.fst (Option.some.inj hmap)
  refine (write_over_image_iff twoSlots_fit (by rfl) hslot (by decide +kernel)).2 ?_
  intro j u hu _ himage hbehind _
  rw [hstart]
  show 0 + 512 ≤ u.seg.start
  rcases hstarts u (List.mem_of_getElem? hu) himage with h | h
  · unfold Seg.stop at hbehind
    omega
  · omega

/-- The first image is replaced by one of 592 bytes, and the second is overwritten. -/
theorem second_image_overwritten : SlotsFit twoSlots ∧
    (nfbBootBwBmcLoad twoSlotsBmc twoSlots twoSlotsLoad) =
      (0, [.unlink "/fpga/a".toList, .load 592 0, .move "/fpga/00000000".toList "/fpga/0x00000000-c".toList]) ∧
    ¬WriteOk twoSlotsBmc twoSlots 0 (nfbBootBwBmcLoad twoSlotsBmc twoSlots twoSlotsLoad).2 592 0 := by
  refine ⟨twoSlots_fit, by decide +kernel, ?_⟩
  rintro ⟨-, hapart, -⟩
  obtain ⟨u, hu⟩ : ∃ u, twoSlots[1]? = some u := Option.isSome_iff_exists.1 (by decide +kernel)
  have hmap := congrArg (fun l => l[1]?) twoSlots_map
  rw [List.getElem?_map, hu] at hmap
  obtain ⟨hbase, hrest⟩ := Prod.mk.inj (Option.some.inj hmap)
  obtain ⟨hsize, hempty⟩ := Prod.mk.inj hrest
  refine hapart 1 u hu (by decide) hempty 512 ⟨by decide, by decide⟩ ⟨le_of_eq hbase, ?_⟩
  show 512 < u.base.toNat + u.size.toNat
  omega

end NdkSw.Boot

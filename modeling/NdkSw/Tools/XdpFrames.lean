/-
The XDP modes of ndptool (`tools/ndptool/xdp/xdp_read.c`, `xdp_generate.c`): the frames of the UMEM go round between the stack of
addresses and the rings of the kernel. The loops are taken apart into steps, so that what holds is said of every moment.
-/
import NdkSw.Tools.LoopbackHw
import NdkSw.Tools.PacketLimit

namespace NdkSw.Tools

open Ndp Ring

/-! ## The stack of addresses -/

/-- `NUM_FRAMES`. -/
def numFrames : Nat := 4096

/-- `init_addr`, the addresses of the first `n` frames; the head is what is taken next. -/
def initAddr (frameSize : U32) : Nat → List U64
  | 0 => []
  | n + 1 => (BitVec.ofNat 32 n * frameSize).setWidth 64 :: initAddr frameSize n

/-- `alloc_addr`; none at its BUG exit. -/
def allocAddr : List U64 → Option (U64 × List U64)
  | [] => none
  | addr :: stack => some (addr, stack)

/-- `free_addr`; none at its BUG exit. -/
def freeAddr (stack : List U64) (addr : U64) : Option (List U64) :=
  if stack.length = numFrames then none else some (addr :: stack)

/-! ## Rings -/

/-- A ring to the kernel (`struct xsk_ring_prod`): the slots that are reserved, the slot that is filled next, what was submitted, and the
slots that were filled. The counters of the code are these numbers modulo 2 ^ 32. -/
structure ProdRing where
  cachedProd : Nat
  idx : Nat
  producer : Nat
  slots : List (Nat × U64)

/-- `xsk_ring_prod__reserve` with so many free slots: all that is asked for, or nothing. -/
def ProdRing.reserve (ring : ProdRing) (free n : Nat) : Nat × ProdRing :=
  if free < n then (0, ring) else (n, { ring with idx := ring.cachedProd, cachedProd := ring.cachedProd + n })

/-- An address is written to the next slot. -/
def ProdRing.fill (ring : ProdRing) (addr : U64) : ProdRing :=
  { ring with idx := ring.idx + 1, slots := ring.slots ++ [(ring.idx, addr)] }

/-- `xsk_ring_prod__submit`. -/
def ProdRing.submit (ring : ProdRing) (n : Nat) : ProdRing := { ring with producer := ring.producer + n }

/-- The addresses in the slots that are filled and not submitted. -/
def ProdRing.pending (ring : ProdRing) : List U64 := (ring.slots.drop ring.producer).map (·.2)

/-! ## Parameters and sizes -/

/-- The parameters of the loops. The frames are pages; the kernel returns addresses at most `shift` bytes from the start of a chunk on the
completion ring. -/
structure XdpParams where
  limits : LoopParams
  frameSize : U32
  frame_pos : 0 < frameSize.toNat
  frames_lt : numFrames * frameSize.toNat < 2 ^ 32
  range : ListRange
  range_ne : range ≠ []
  clearData : Bool
  shift : Nat

/-- `max` of an item after `xdp_mode_generate_check`. -/
def sizeDelta (r : RangeItem) : U32 := if r.max - r.min ≠ 0 then r.max - r.min + 1 else 0

/-- A length of `xdp_mode_generate_loop`, with what `nc_fast_rand` returns. -/
def xdpSize (r : RangeItem) (rand : BitVec 15) : U32 :=
  if sizeDelta r ≠ 0 then r.min + (rand.setWidth 32).srem (sizeDelta r) else r.min

/-- The lengths of a burst from item `genIndex` on, and the item behind them. -/
def xdpSizes (range : ListRange) (rand : Nat → BitVec 15) : Nat → Nat → List U32 × Nat
  | 0, genIndex => ([], genIndex)
  | n + 1, genIndex =>
    match range[genIndex]? with
    | none => ([], genIndex)
    | some r =>
      let rest := xdpSizes range rand n (if genIndex + 1 = range.length then 0 else genIndex + 1)
      (xdpSize r (rand n) :: rest.1, rest.2)

/-- Whether all lengths are the same, so that they are set before the loop. -/
def XdpParams.constant (p : XdpParams) : Option U32 :=
  match p.range with
  | [r] => if sizeDelta r = 0 then some r.min else none
  | _ => none

/-- The frame of an address. -/
def XdpParams.frameOf (p : XdpParams) (addr : U64) : Nat := addr.toNat / p.frameSize.toNat

/-- Where in its frame an address points. -/
def XdpParams.offset (p : XdpParams) (addr : U64) : Nat := addr.toNat % p.frameSize.toNat

/-! ## The loops -/

/-- Where a loop is: at its head; filling the fill ring, with the number reserved and the number left; at the limits; at the RX ring; at a
received packet; at the completion ring; at a completed packet; before the reservation; filling the TX ring; behind it; at the update of
the statistics; at the end; or at a BUG exit. -/
inductive XdpPc where
  | top
  | fill (n left : Nat)
  | check
  | peek
  | process (cnt : Nat) (lens : List U32) (addrs : List U64)
  | collect
  | collecting (collected : Nat) (addrs : List U64)
  | reserve
  | fillTx (left : Nat)
  | filled
  | update
  | done
  | bug
  deriving DecidableEq

/-- The addresses that the kernel has returned and that are not yet back on the stack. -/
def XdpPc.addrs : XdpPc → List U64
  | .process _ _ addrs | .collecting _ addrs => addrs
  | _ => []

/-- The variables of a loop; beside them, the frames that the kernel owns, and what was cleared. -/
structure XdpState where
  stack : List U64
  ring : ProdRing
  burstSize : U32
  si : StatsInfo
  genIndex : Nat
  packetsRem : U64
  bytesCnt : U64
  lens : List U32
  data : List U64
  pc : XdpPc
  kernel : List Nat
  cleared : List (U64 × U32)

def XdpState.init (p : XdpParams) (incremental : Bool) : XdpState where
  stack := initAddr p.frameSize numFrames
  ring := ⟨0, 0, 0, []⟩
  burstSize := p.limits.burstSize
  si := .init incremental
  genIndex := 0
  packetsRem := p.limits.limitPackets
  bytesCnt := 0
  lens := match p.constant with
    | some len => List.replicate p.limits.burstSize.toNat len
    | none => []
  data := []
  pc := .top
  kernel := []
  cleared := []

/-- What comes from outside: the stop and the free slots at the head, a request for statistics, the packets that were received, random
numbers, completed packets, and the free slots of the TX ring. `go` is a step that takes nothing from outside. -/
inductive XdpAct where
  | top (stop : Bool) (free free' : Nat)
  | go
  | check (r : LimitRound)
  | receive (descs : List (U64 × U32))
  | head (stop : Bool) (rand : Nat → BitVec 15)
  | collect (addrs : List U64)
  | reserve (stop : Bool) (free : Nat)
  | update (r : LimitRound)

/-- The kernel returns frames that it owns, each once. -/
def XdpState.Returns (p : XdpParams) (s : XdpState) (addrs : List U64) : Prop :=
  (addrs.map p.frameOf).Nodup ∧ ∀ addr ∈ addrs, p.frameOf addr ∈ s.kernel

instance (p : XdpParams) (s : XdpState) (addrs : List U64) : Decidable (s.Returns p addrs) := inferInstanceAs (Decidable (_ ∧ _))

/-- The kernel returns these frames; from now on they are the program's. -/
def XdpState.returned (p : XdpParams) (s : XdpState) (addrs : List U64) (pc : XdpPc) : XdpState :=
  { s with kernel := s.kernel.diff (addrs.map p.frameOf), pc := pc }

/-- `n` more slots are submitted, and the kernel gets the frames that stand in them. -/
def XdpState.submit (p : XdpParams) (s : XdpState) (n : Nat) (pc : XdpPc) : XdpState :=
  { s with ring := s.ring.submit n, kernel := s.kernel ++ (s.ring.pending.take n).map p.frameOf, pc := pc }

/-- An address goes from the stack to the next slot of the ring. -/
def XdpState.give (s : XdpState) (pc : XdpPc) : XdpState :=
  match allocAddr s.stack with
  | none => { s with pc := .bug }
  | some (addr, stack) => { s with stack := stack, ring := s.ring.fill addr, pc := pc }

/-- An address comes back to the stack. -/
def XdpState.take (s : XdpState) (addr : U64) (pc : XdpPc) : XdpState :=
  match freeAddr s.stack addr with
  | none => { s with pc := .bug }
  | some stack => { s with stack := stack, pc := pc }

/-- The frames that the program has in hand: those that were returned and those in slots that are not submitted. -/
def XdpState.hand (p : XdpParams) (s : XdpState) : List Nat := (s.pc.addrs ++ s.ring.pending).map p.frameOf

/-- A step of `xdp_mode_read_loop`. -/
def xdpReadStep (p : XdpParams) (u : UpdateStats) (s : XdpState) : XdpAct → XdpState
  | .top stop free free' =>
    if s.pc = .top then
      if stop then { s with pc := .done }
      else
        let reservable := if free < s.stack.length then free else s.stack.length
        if s.burstSize.toNat < reservable then
          let reserved := s.ring.reserve free' reservable
          { s with ring := reserved.2, pc := .fill reserved.1 reserved.1 }
        else { s with pc := .check }
    else s
  | .go =>
    match s.pc with
    | .fill n 0 => s.submit p n .check
    | .fill n (left + 1) => s.give (.fill n left)
    | .process cnt lens (addr :: addrs) => s.take addr (.process cnt lens addrs)
    | _ => s
  | .check r =>
    if s.pc = .check then
      match checkLimits p.limits u r s.si s.burstSize with
      | (si, .inl _) => { s with si := si, pc := .done }
      | (si, .inr burstSize) => { s with si := si, burstSize := burstSize, pc := .peek }
    else s
  | .receive descs =>
    if s.pc = .peek ∧ descs.length ≤ s.burstSize.toNat ∧ s.Returns p (descs.map (·.1)) then
      if descs = [] then { s with pc := .top }
      else s.returned p (descs.map (·.1)) (.process descs.length (descs.map (·.2)) (descs.map (·.1)))
    else s
  | .update r =>
    match s.pc with
    | .process _ lens [] => { s with si := u.update r.stats lens (u.visit r.atUpdate s.si), pc := .top }
    | _ => s
  | _ => s

/-- A step of `xdp_mode_generate_loop`. -/
def xdpGenerateStep (p : XdpParams) (u : UpdateStats) (s : XdpState) : XdpAct → XdpState
  | .head stop rand =>
    if s.pc = .top then
      if stop ∨ (0 < p.limits.limitPackets ∧ s.packetsRem = 0) then { s with pc := .done }
      else
        let burstSize :=
          if 0 < p.limits.limitPackets ∧ s.packetsRem < s.burstSize.setWidth 64 then s.packetsRem.setWidth 32 else s.burstSize
        if 0 < p.limits.limitBytes ∧ p.limits.limitBytes ≤ s.bytesCnt then { s with burstSize := burstSize, pc := .done }
        else if p.constant.isSome then { s with burstSize := burstSize, pc := .collect }
        else
          let sizes := xdpSizes p.range rand burstSize.toNat s.genIndex
          { s with burstSize := burstSize, lens := sizes.1, genIndex := sizes.2, pc := .collect }
    else s
  | .collect addrs =>
    if s.pc = .collect ∧ addrs.length ≤ s.burstSize.toNat ∧ s.Returns p addrs ∧ ∀ addr ∈ addrs, p.offset addr ≤ p.shift then
      s.returned p addrs (.collecting addrs.length addrs)
    else s
  | .reserve stop free =>
    if s.pc = .reserve then
      let reserved := s.ring.reserve free s.burstSize.toNat
      if reserved.1 = s.burstSize.toNat then { s with ring := reserved.2, pc := .fillTx s.burstSize.toNat }
      else if stop then { s with pc := .done } else s
    else s
  | .go =>
    match s.pc with
    | .collecting collected [] =>
      if collected ≠ 0 ∨ s.stack.length < s.burstSize.toNat then { s with pc := .collect } else { s with pc := .reserve }
    | .collecting collected (addr :: addrs) => s.take addr (.collecting collected addrs)
    | .fillTx 0 => { s with pc := .filled }
    | .fillTx (left + 1) => { s.give (.fillTx left) with data := s.data ++ s.stack.head?.toList }
    | .filled =>
      let lens := s.lens.take s.burstSize.toNat
      { s with
        cleared := if p.clearData then s.cleared ++ s.data.zip lens else s.cleared
        packetsRem := s.packetsRem - s.burstSize.setWidth 64
        bytesCnt := if 0 < p.limits.limitBytes then (lens.map (BitVec.setWidth 64)).foldl (· + ·) s.bytesCnt else s.bytesCnt
        pc := .update }
    | _ => s
  | .update r =>
    if s.pc = .update then
      { s.submit p s.burstSize.toNat .top with
        si := u.update r.stats (s.lens.take s.burstSize.toNat) (u.visit r.atUpdate s.si)
        data := [] }
    else s
  | _ => s

inductive XdpLoop where
  | read
  | generate
  deriving DecidableEq, Repr

def XdpLoop.step (loop : XdpLoop) (p : XdpParams) (u : UpdateStats) (s : XdpState) (a : XdpAct) : XdpState :=
  match loop with
  | .read => xdpReadStep p u s a
  | .generate => xdpGenerateStep p u s a

/-! ## What is to hold -/

/-- Slots of the ring are reserved and not yet submitted. -/
def XdpPc.Reserved : XdpPc → Prop
  | .fill _ _ | .fillTx _ | .filled | .update => True
  | _ => False

/-- Every frame is once on the stack, or owned by the kernel, or on its way between them in the hand of the program; no BUG exit is reached;
the reserved slots are filled in turn, each once, and are submitted, all of them and no others; what is cleared starts at an address that
is in a slot of the ring and lies in the frame of this address. -/
structure FramesRight (p : XdpParams) (s : XdpState) : Prop where
  owned : (s.stack.map p.frameOf ++ (s.kernel ++ s.hand p)).Perm (List.range numFrames)
  noBug : s.pc ≠ .bug
  slots : s.ring.slots.map (·.1) = List.range s.ring.slots.length
  filled : s.ring.slots.length ≤ s.ring.cachedProd ∧ s.ring.producer ≤ s.ring.slots.length
  submitted : ¬ s.pc.Reserved → s.ring.slots.length = s.ring.cachedProd ∧ s.ring.producer = s.ring.cachedProd
  inside : ∀ w ∈ s.cleared, w.1 ∈ s.ring.slots.map (·.2) ∧ p.offset w.1 + w.2.toNat ≤ p.frameSize.toNat

/-- Without -C, or if every length of the list fits in a frame. -/
def XdpSizesFit (p : XdpParams) : Prop :=
  p.clearData = true → ∀ r ∈ p.range, ∀ rand : BitVec 15, p.shift + (xdpSize r rand).toNat ≤ p.frameSize.toNat

/-! ## Frames -/

theorem toNat_frame (p : XdpParams) {n : Nat} (hn : n < numFrames) :
    ((BitVec.ofNat 32 n * p.frameSize).setWidth 64).toNat = n * p.frameSize.toNat := by
  have hlt := p.frames_lt
  have hle : n * p.frameSize.toNat ≤ numFrames * p.frameSize.toNat := Nat.mul_le_mul_right _ (Nat.le_of_lt hn)
  have hsmall : n < 2 ^ 32 := hn.trans (by decide)
  rw [BitVec.toNat_setWidth_of_le (by decide), BitVec.toNat_mul, BitVec.toNat_ofNat, Nat.mod_eq_of_lt hsmall,
    Nat.mod_eq_of_lt (by omega)]

theorem initAddr_frames (p : XdpParams) : ∀ n ≤ numFrames,
    (initAddr p.frameSize n).map p.frameOf = (List.range n).reverse ∧ ∀ addr ∈ initAddr p.frameSize n, p.offset addr = 0 := by
  intro n
  induction n with
  | zero => exact fun _ => ⟨rfl, nofun⟩
  | succ n ih =>
    intro hn
    obtain ⟨hframes, hoffsets⟩ := ih (by omega)
    have haddr := toNat_frame p (show n < numFrames by omega)
    constructor
    · rw [initAddr, List.map_cons, hframes, List.range_succ, List.reverse_append, XdpParams.frameOf, haddr,
        Nat.mul_div_cancel _ p.frame_pos]
      rfl
    · intro addr hmem
      rcases List.mem_cons.1 hmem with rfl | hmem
      · rw [XdpParams.offset, haddr, Nat.mul_mod_left]
      · exact hoffsets addr hmem

/-! ## The invariant -/

/-- Nothing is reserved that is not submitted. -/
def ProdRing.Settled (ring : ProdRing) : Prop := ring.slots.length = ring.cachedProd ∧ ring.producer = ring.cachedProd

/-- Of `n` reserved slots, `left` are not yet filled, and there are addresses for them. -/
structure Filling (ring : ProdRing) (stack : List U64) (n left : Nat) : Prop where
  idx : left ≠ 0 → ring.idx = ring.slots.length
  reserved : ring.cachedProd = ring.slots.length + left
  producer : ring.producer + n = ring.cachedProd
  le : left ≤ n
  stack : left ≤ stack.length

/-- What holds where the loop is. -/
def FramesAt (s : XdpState) : Prop :=
  match s.pc with
  | .bug => False
  | .fill n left => Filling s.ring s.stack n left
  | .fillTx left => Filling s.ring s.stack s.burstSize.toNat left
  | .filled | .update => Filling s.ring s.stack s.burstSize.toNat 0
  | .reserve => s.ring.Settled ∧ s.burstSize.toNat ≤ s.stack.length
  | .process _ _ _ | .collecting _ _ | .top | .check | .peek | .collect | .done => s.ring.Settled

structure FramesInv (p : XdpParams) (s : XdpState) : Prop where
  owned : (s.stack.map p.frameOf ++ (s.kernel ++ s.hand p)).Perm (List.range numFrames)
  slots : s.ring.slots.map (·.1) = List.range s.ring.slots.length
  place : FramesAt s

theorem FramesInv.init (p : XdpParams) (incremental : Bool) : FramesInv p (XdpState.init p incremental) where
  owned := by
    show ((initAddr p.frameSize numFrames).map p.frameOf ++ ([] ++ [])).Perm _
    rw [List.append_nil, List.append_nil, (initAddr_frames p numFrames (Nat.le_refl _)).1]
    exact List.reverse_perm _
  slots := rfl
  place := ⟨rfl, rfl⟩

section

variable {p : XdpParams} {u : UpdateStats} {s : XdpState} {pc : XdpPc}

theorem FramesInv.goto (h : FramesInv p s) (hpc : s.pc = pc) {s' : XdpState} (haddrs : s'.pc.addrs = pc.addrs)
    (hstack : s'.stack = s.stack) (hkernel : s'.kernel = s.kernel)
    (hring : s'.ring.slots = s.ring.slots ∧ s'.ring.producer = s.ring.producer) (hplace : FramesAt s') : FramesInv p s' := by
  have hhand : s'.hand p = s.hand p := by
    rw [XdpState.hand, XdpState.hand, ProdRing.pending, ProdRing.pending, haddrs, hring.1, hring.2, hpc]
  refine ⟨?_, ?_, hplace⟩
  · rw [hstack, hkernel, hhand]
    exact h.owned
  · rw [hring.1]
    exact h.slots

theorem pending_fill {ring : ProdRing} (addr : U64) (h : ring.producer ≤ ring.slots.length) :
    (ring.fill addr).pending = ring.pending ++ [addr] := by
  rw [ProdRing.pending, ProdRing.fill, List.drop_append_of_le_length h, List.map_append]
  rfl

/-- An address is there for a slot, and goes into it. -/
theorem FramesInv.give (h : FramesInv p s) {n left : Nat} (hf : Filling s.ring s.stack n (left + 1)) (hpc : s.pc.addrs = [])
    (pc : XdpPc) (hpc' : pc.addrs = []) :
    ∃ addr stack, s.stack = addr :: stack ∧ s.give pc = { s with stack := stack, ring := s.ring.fill addr, pc := pc } ∧
      (stack.map p.frameOf ++ (s.kernel ++ (s.give pc).hand p)).Perm (List.range numFrames) ∧
      (s.ring.fill addr).slots.map (·.1) = List.range (s.ring.fill addr).slots.length ∧ Filling (s.ring.fill addr) stack n left := by
  have hres := hf.reserved
  have hprod := hf.producer
  have hn := hf.le
  cases hs : s.stack with
  | nil =>
    have hle := hf.stack
    rw [hs, List.length_nil] at hle
    omega
  | cons addr stack =>
    have hgive : s.give pc = { s with stack := stack, ring := s.ring.fill addr, pc := pc } := by
      rw [XdpState.give, hs]
      rfl
    have hhand : (s.give pc).hand p = s.hand p ++ [p.frameOf addr] := by
      rw [hgive, XdpState.hand, XdpState.hand, hpc]
      show (pc.addrs ++ (s.ring.fill addr).pending).map p.frameOf = _
      rw [hpc', pending_fill addr (by omega), List.nil_append, List.nil_append, List.map_append]
      rfl
    have hlen : (s.ring.fill addr).slots.length = s.ring.slots.length + 1 := List.length_append
    have hidx := hf.idx (Nat.succ_ne_zero left)
    have howned := h.owned
    refine ⟨addr, stack, rfl, hgive, ?_, ?_, ?_⟩
    · rw [hs, List.map_cons, List.cons_append] at howned
      rw [hhand, ← List.append_assoc s.kernel, ← List.append_assoc]
      exact (@List.perm_append_comm _ _ [p.frameOf addr]).trans howned
    · rw [hlen, List.range_succ, ← h.slots, ← hidx]
      exact List.map_append ..
    · have hle := hf.stack
      rw [hs, List.length_cons] at hle
      refine ⟨fun _ => ?_, ?_, hf.producer, Nat.le_of_succ_le hf.le, Nat.le_of_succ_le_succ hle⟩
      · show s.ring.idx + 1 = (s.ring.fill addr).slots.length
        rw [hlen, hidx]
      · show s.ring.cachedProd = (s.ring.fill addr).slots.length + left
        omega

theorem FramesInv.submit (h : FramesInv p s) {n : Nat} (hf : Filling s.ring s.stack n 0) (hpc : s.pc.addrs = [])
    (pc : XdpPc) (hpc' : pc.addrs = []) :
    (s.stack.map p.frameOf ++ ((s.submit p n pc).kernel ++ (s.submit p n pc).hand p)).Perm (List.range numFrames) ∧
      (s.submit p n pc).ring.Settled := by
  have hres := hf.reserved
  have hprod := hf.producer
  have hset : (s.ring.submit n).Settled := ⟨hres.symm, hprod⟩
  have hlen : s.ring.pending.length = n := by
    rw [ProdRing.pending, List.length_map, List.length_drop]
    omega
  have hnil : (s.ring.submit n).pending = [] := by
    rw [ProdRing.pending, List.drop_eq_nil_of_le (by obtain ⟨h1, h2⟩ := hset; omega)]
    rfl
  have howned := h.owned
  refine ⟨?_, hset⟩
  rw [XdpState.hand, hpc, List.nil_append] at howned
  rw [XdpState.hand]
  show (s.stack.map p.frameOf ++ ((s.kernel ++ (s.ring.pending.take n).map p.frameOf) ++ (pc.addrs ++ (s.ring.submit n).pending).map p.frameOf)).Perm _
  rw [hpc', hnil, List.take_of_length_le (Nat.le_of_eq hlen), List.append_nil, List.map_nil, List.append_nil]
  exact howned

theorem FramesInv.returned (h : FramesInv p s) {addrs : List U64} (hret : s.Returns p addrs) (hpc : s.pc.addrs = [])
    (hpc' : pc.addrs = addrs) :
    (s.stack.map p.frameOf ++ ((s.returned p addrs pc).kernel ++ (s.returned p addrs pc).hand p)).Perm (List.range numFrames) := by
  obtain ⟨hnodup, hmem⟩ := hret
  have hkernel : (addrs.map p.frameOf ++ s.kernel.diff (addrs.map p.frameOf)).Perm s.kernel := by
    refine List.subperm_append_diff_self_of_count_le fun n hn => ?_
    obtain ⟨addr, haddr, rfl⟩ := List.mem_map.1 hn
    rw [List.count_eq_one_of_mem hnodup hn]
    exact List.count_pos_iff.2 (hmem addr haddr)
  have howned := h.owned
  rw [XdpState.hand, hpc, List.nil_append] at howned
  refine List.Perm.trans (List.Perm.append_left _ ?_) howned
  rw [XdpState.hand]
  show (s.kernel.diff (addrs.map p.frameOf) ++ (pc.addrs ++ s.ring.pending).map p.frameOf).Perm _
  rw [hpc', List.map_append, ← List.append_assoc]
  exact (List.perm_append_comm.trans hkernel).append_right _

theorem FramesInv.take (h : FramesInv p s) {addr : U64} {addrs : List U64} (hpc : s.pc.addrs = addr :: addrs)
    (pc : XdpPc) (hpc' : pc.addrs = addrs) :
    s.take addr pc = { s with stack := addr :: s.stack, pc := pc } ∧
      ((addr :: s.stack).map p.frameOf ++ (s.kernel ++ (s.take addr pc).hand p)).Perm (List.range numFrames) := by
  have howned := h.owned
  rw [XdpState.hand, hpc, List.cons_append, List.map_cons] at howned
  have hroom : s.stack.length ≠ numFrames := fun hfull => by
    have hlen := howned.length_eq
    rw [List.length_append, List.length_append, List.length_map, List.length_cons, List.length_range] at hlen
    omega
  have htake : s.take addr pc = { s with stack := addr :: s.stack, pc := pc } := by
    rw [XdpState.take, freeAddr, if_neg hroom]
  refine ⟨htake, ?_⟩
  rw [htake, XdpState.hand]
  show (p.frameOf addr :: s.stack.map p.frameOf ++ (s.kernel ++ (pc.addrs ++ s.ring.pending).map p.frameOf)).Perm _
  rw [hpc', List.cons_append]
  refine List.Perm.trans ?_ howned
  rw [← List.append_assoc, ← List.append_assoc]
  exact List.perm_middle.symm

theorem Filling.of_reserve {ring : ProdRing} {stack : List U64} (h : ring.Settled) (free : Nat) {n : Nat} (hn : n ≤ stack.length) :
    Filling (ring.reserve free n).2 stack (ring.reserve free n).1 (ring.reserve free n).1 ∧
      (ring.reserve free n).2.slots = ring.slots ∧ (ring.reserve free n).2.producer = ring.producer := by
  obtain ⟨hlen, hprod⟩ := h
  rw [ProdRing.reserve]
  split
  case isTrue hfew =>
    exact ⟨⟨fun h => absurd rfl h, hlen.symm, hprod, Nat.le_refl _, Nat.zero_le _⟩, rfl, rfl⟩
  case isFalse hfew =>
    refine ⟨⟨fun _ => hlen.symm, ?_, ?_, Nat.le_refl _, hn⟩, rfl, rfl⟩
    · show ring.cachedProd + n = ring.slots.length + n
      rw [hlen]
    · show ring.producer + n = ring.cachedProd + n
      rw [hprod]

/-! ## Steps -/

theorem place_at (h : FramesInv p s) (hpc : s.pc = pc) : FramesAt { s with pc := pc } := by
  rw [← hpc]
  exact h.place

theorem xdpReadStep_inv (s : XdpState) (a : XdpAct) (h : FramesInv p s) : FramesInv p (xdpReadStep p u s a) := by
  cases a with
  | top stop free free' =>
    unfold xdpReadStep
    dsimp only
    by_cases hpc : s.pc = .top
    · have hset : s.ring.Settled := place_at h hpc
      simp only [if_pos hpc]
      split
      · exact h.goto hpc rfl rfl rfl ⟨rfl, rfl⟩ hset
      · generalize hres : (if free < s.stack.length then free else s.stack.length) = reservable
        have hle : reservable ≤ s.stack.length := by
          split at hres <;> omega
        split
        · obtain ⟨hfilling, hslots⟩ := Filling.of_reserve hset free' hle
          exact h.goto hpc rfl rfl rfl hslots hfilling
        · exact h.goto hpc rfl rfl rfl ⟨rfl, rfl⟩ hset
    · rw [if_neg hpc]
      exact h
  | go =>
    unfold xdpReadStep
    dsimp only
    cases hpc : s.pc with
    | fill n left =>
      have hf : Filling s.ring s.stack n left := place_at h hpc
      cases left with
      | zero =>
        -- all slots are filled
        obtain ⟨howned, hset⟩ := h.submit hf (by rw [hpc]; rfl) .check rfl
        exact ⟨howned, h.slots, hset⟩
      | succ left =>
        -- a free frame goes from the stack into the fill ring
        obtain ⟨addr, stack, -, hgive, howned, hslots, hfill⟩ := h.give hf (by rw [hpc]; rfl) (.fill n left) rfl
        dsimp only
        rw [hgive] at howned ⊢
        exact ⟨howned, hslots, hfill⟩
    | process cnt lens addrs =>
      have hset : s.ring.Settled := place_at h hpc
      cases addrs with
      | nil => exact h
      | cons addr addrs =>
        -- a processed frame goes back on the stack
        obtain ⟨htake, howned⟩ := h.take (by rw [hpc]; rfl) (.process cnt lens addrs) rfl
        dsimp only
        rw [htake] at howned ⊢
        exact ⟨howned, h.slots, hset⟩
    | top | check | peek | collect | collecting | reserve | fillTx | filled | update | done | bug => exact h
  | check r =>
    unfold xdpReadStep
    dsimp only
    by_cases hpc : s.pc = .check
    · have hset : s.ring.Settled := place_at h hpc
      simp only [if_pos hpc]
      split
      · exact h.goto hpc rfl rfl rfl ⟨rfl, rfl⟩ hset
      · exact h.goto hpc rfl rfl rfl ⟨rfl, rfl⟩ hset
    · rw [if_neg hpc]
      exact h
  | receive descs =>
    unfold xdpReadStep
    dsimp only
    split
    case isTrue hc =>
      obtain ⟨hpc, -, hret⟩ := hc
      have hset : s.ring.Settled := place_at h hpc
      split
      · exact h.goto hpc rfl rfl rfl ⟨rfl, rfl⟩ hset
      · exact ⟨h.returned hret (by rw [hpc]; rfl) rfl, h.slots, hset⟩
    case isFalse => exact h
  | update r =>
    unfold xdpReadStep
    dsimp only
    cases hpc : s.pc with
    | process cnt lens addrs =>
      have hset : s.ring.Settled := place_at h hpc
      cases addrs with
      | nil => exact h.goto hpc rfl rfl rfl ⟨rfl, rfl⟩ hset
      | cons addr addrs => exact h
    | top | fill | check | peek | collect | collecting | reserve | fillTx | filled | update | done | bug => exact h
  | head | collect | reserve => exact h

theorem xdpGenerateStep_inv (s : XdpState) (a : XdpAct) (h : FramesInv p s) : FramesInv p (xdpGenerateStep p u s a) := by
  cases a with
  | head stop rand =>
    unfold xdpGenerateStep
    dsimp only
    by_cases hpc : s.pc = .top
    · have hset : s.ring.Settled := place_at h hpc
      simp only [if_pos hpc]
      split
      · exact h.goto hpc rfl rfl rfl ⟨rfl, rfl⟩ hset
      split
      · exact h.goto hpc rfl rfl rfl ⟨rfl, rfl⟩ hset
      split
      · exact h.goto hpc rfl rfl rfl ⟨rfl, rfl⟩ hset
      · exact h.goto hpc rfl rfl rfl ⟨rfl, rfl⟩ hset
    · rw [if_neg hpc]
      exact h
  | collect addrs =>
    unfold xdpGenerateStep
    dsimp only
    split
    case isTrue hc =>
      obtain ⟨hpc, -, hret, -⟩ := hc
      have hset : s.ring.Settled := place_at h hpc
      exact ⟨h.returned hret (by rw [hpc]; rfl) rfl, h.slots, hset⟩
    case isFalse => exact h
  | reserve stop free =>
    unfold xdpGenerateStep
    dsimp only
    by_cases hpc : s.pc = .reserve
    · obtain ⟨hset, hle⟩ : s.ring.Settled ∧ s.burstSize.toNat ≤ s.stack.length := place_at h hpc
      simp only [if_pos hpc]
      split
      case isTrue hall =>
        obtain ⟨hfilling, hslots⟩ := Filling.of_reserve hset free hle
        rw [hall] at hfilling
        exact h.goto hpc rfl rfl rfl hslots hfilling
      case isFalse =>
        split
        · exact h.goto hpc rfl rfl rfl ⟨rfl, rfl⟩ hset
        · exact h
    · rw [if_neg hpc]
      exact h
  | go =>
    unfold xdpGenerateStep
    dsimp only
    cases hpc : s.pc with
    | collecting collected addrs =>
      have hset : s.ring.Settled := place_at h hpc
      cases addrs with
      | nil =>
        dsimp only
        split
        case isTrue => exact h.goto hpc rfl rfl rfl ⟨rfl, rfl⟩ hset
        case isFalse hc =>
          rw [not_or] at hc
          exact h.goto hpc rfl rfl rfl ⟨rfl, rfl⟩ ⟨hset, Nat.le_of_not_lt hc.2⟩
      | cons addr addrs =>
        -- a sent frame goes back on the stack
        obtain ⟨htake, howned⟩ := h.take (by rw [hpc]; rfl) (.collecting collected addrs) rfl
        dsimp only
        rw [htake] at howned ⊢
        exact ⟨howned, h.slots, hset⟩
    | fillTx left =>
      have hf : Filling s.ring s.stack s.burstSize.toNat left := place_at h hpc
      cases left with
      | zero => exact h.goto hpc rfl rfl rfl ⟨rfl, rfl⟩ hf
      | succ left =>
        -- a free frame goes from the stack into the TX ring
        obtain ⟨addr, stack, -, hgive, howned, hslots, hfill⟩ := h.give hf (by rw [hpc]; rfl) (.fillTx left) rfl
        dsimp only
        rw [hgive] at howned ⊢
        exact ⟨howned, hslots, hfill⟩
    | filled =>
      have hf : Filling s.ring s.stack s.burstSize.toNat 0 := place_at h hpc
      exact h.goto hpc rfl rfl rfl ⟨rfl, rfl⟩ hf
    | top | fill | check | peek | process | collect | reserve | update | done | bug => exact h
  | update r =>
    unfold xdpGenerateStep
    dsimp only
    by_cases hpc : s.pc = .update
    · have hf : Filling s.ring s.stack s.burstSize.toNat 0 := place_at h hpc
      obtain ⟨howned, hset⟩ := h.submit hf (by rw [hpc]; rfl) .top rfl
      rw [if_pos hpc]
      exact ⟨howned, h.slots, hset⟩
    · rw [if_neg hpc]
      exact h
  | top | check | receive => exact h

/-! ## What is cleared -/

theorem xdpSizes_mem {range : ListRange} {rand : Nat → BitVec 15} : ∀ n genIndex, ∀ len ∈ (xdpSizes range rand n genIndex).1,
    ∃ r ∈ range, ∃ v, len = xdpSize r v := by
  intro n
  induction n with
  | zero => exact fun _ len h => nomatch h
  | succ n ih =>
    intro genIndex len hlen
    rw [xdpSizes] at hlen
    cases hr : range[genIndex]? with
    | none =>
      rw [hr] at hlen
      cases hlen
    | some r =>
      rw [hr] at hlen
      rcases List.mem_cons.1 hlen with rfl | hlen
      · exact ⟨r, List.mem_of_getElem? hr, rand n, rfl⟩
      · exact ih _ len hlen

theorem constant_mem {len : U32} (h : p.constant = some len) : ∃ r ∈ p.range, ∃ v, len = xdpSize r v := by
  unfold XdpParams.constant at h
  split at h
  case h_1 r hrange =>
    split at h
    case isTrue hdelta =>
      refine ⟨r, by rw [hrange]; exact List.mem_singleton_self r, 0, ?_⟩
      rw [xdpSize, if_neg (not_not.2 hdelta)]
      exact (Option.some.inj h).symm
    case isFalse => cases h
  case h_2 => cases h

/-- The addresses of the stack and of the burst point near the start of their frames, and the lengths fit behind them. -/
structure WritesInv (p : XdpParams) (s : XdpState) : Prop where
  stack : ∀ addr ∈ s.stack, p.offset addr ≤ p.shift
  data : ∀ addr ∈ s.data, addr ∈ s.ring.slots.map (·.2) ∧ p.offset addr ≤ p.shift
  returned : ∀ cnt addrs, s.pc = .collecting cnt addrs → ∀ addr ∈ addrs, p.offset addr ≤ p.shift
  lens : p.clearData = true → ∀ len ∈ s.lens, p.shift + len.toNat ≤ p.frameSize.toNat
  cleared : ∀ w ∈ s.cleared, w.1 ∈ s.ring.slots.map (·.2) ∧ p.offset w.1 + w.2.toNat ≤ p.frameSize.toNat

theorem WritesInv.init (p : XdpParams) (hfit : XdpSizesFit p) (incremental : Bool) : WritesInv p (XdpState.init p incremental) where
  stack addr h := by
    rw [(initAddr_frames p numFrames (Nat.le_refl _)).2 addr h]
    exact Nat.zero_le _
  data := nofun
  returned := nofun
  lens hc len hlen := by
    unfold XdpState.init at hlen
    dsimp only at hlen
    cases hconst : p.constant with
    | none =>
      rw [hconst] at hlen
      cases hlen
    | some len' =>
      rw [hconst] at hlen
      obtain ⟨r, hr, v, rfl⟩ := constant_mem hconst
      rw [List.eq_of_mem_replicate hlen]
      exact hfit hc r hr v
  cleared := nofun

theorem WritesInv.goto (h : WritesInv p s) {s' : XdpState} (hstack : s'.stack = s.stack) (hslots : s'.ring.slots = s.ring.slots)
    (hdata : s'.data = s.data) (hlens : s'.lens = s.lens) (hcleared : s'.cleared = s.cleared)
    (hpc : ∀ cnt addrs, s'.pc ≠ .collecting cnt addrs) : WritesInv p s' := by
  refine ⟨?_, ?_, fun cnt addrs he => absurd he (hpc cnt addrs), ?_, ?_⟩
  · rw [hstack]
    exact h.stack
  · rw [hdata, hslots]
    exact h.data
  · rw [hlens]
    exact h.lens
  · rw [hcleared, hslots]
    exact h.cleared

theorem xdpGenerateStep_writes (hfit : XdpSizesFit p) (s : XdpState) (a : XdpAct) (hinv : FramesInv p s) (h : WritesInv p s) :
    WritesInv p (xdpGenerateStep p u s a) := by
  cases a with
  | head stop rand =>
    unfold xdpGenerateStep
    dsimp only
    split
    case isFalse => exact h
    case isTrue =>
      split
      · exact h.goto rfl rfl rfl rfl rfl nofun
      split
      · exact h.goto rfl rfl rfl rfl rfl nofun
      split
      · exact h.goto rfl rfl rfl rfl rfl nofun
      · refine ⟨h.stack, h.data, nofun, fun hc len hlen => ?_, h.cleared⟩
        obtain ⟨r, hr, v, rfl⟩ := xdpSizes_mem _ _ len hlen
        exact hfit hc r hr v
  | collect addrs =>
    unfold xdpGenerateStep
    dsimp only
    split
    case isTrue hc =>
      refine ⟨h.stack, h.data, fun cnt addrs' he addr hmem => ?_, h.lens, h.cleared⟩
      injection he with _ he
      subst he
      exact hc.2.2.2 addr hmem
    case isFalse => exact h
  | reserve stop free =>
    unfold xdpGenerateStep
    dsimp only
    split
    case isFalse => exact h
    case isTrue =>
      split
      · exact h.goto rfl (by rw [ProdRing.reserve]; split <;> rfl) rfl rfl rfl nofun
      split
      · exact h.goto rfl rfl rfl rfl rfl nofun
      · exact h
  | go =>
    unfold xdpGenerateStep
    dsimp only
    cases hpc : s.pc with
    | collecting collected addrs =>
      cases addrs with
      | nil =>
        dsimp only
        split
        · exact h.goto rfl rfl rfl rfl rfl nofun
        · exact h.goto rfl rfl rfl rfl rfl nofun
      | cons addr addrs =>
        obtain ⟨htake, -⟩ := hinv.take (by rw [hpc]; rfl) (.collecting collected addrs) rfl
        have hoff := h.returned _ _ hpc
        dsimp only
        rw [htake]
        refine ⟨fun a ha => ?_, h.data, fun cnt addrs' he a ha => ?_, h.lens, h.cleared⟩
        · rcases List.mem_cons.1 ha with rfl | ha
          · exact hoff _ List.mem_cons_self
          · exact h.stack a ha
        · injection he with _ he
          subst he
          exact hoff a (List.mem_cons_of_mem _ ha)
    | fillTx left =>
      have hf : Filling s.ring s.stack s.burstSize.toNat left := place_at hinv hpc
      cases left with
      | zero => exact h.goto rfl rfl rfl rfl rfl nofun
      | succ left =>
        obtain ⟨addr, stack, hs, hgive, -⟩ := hinv.give hf (by rw [hpc]; rfl) (.fillTx left) rfl
        have hoff := h.stack
        dsimp only
        rw [hgive, hs]
        rw [hs] at hoff
        have hslots : (s.ring.fill addr).slots.map (·.2) = s.ring.slots.map (·.2) ++ [addr] := List.map_append
        refine ⟨fun a ha => hoff a (List.mem_cons_of_mem _ ha), fun a ha => ?_, nofun, h.lens, fun w hw => ?_⟩
        · dsimp only
          rw [hslots]
          rcases List.mem_append.1 ha with ha | ha
          · exact ⟨List.mem_append_left _ (h.data a ha).1, (h.data a ha).2⟩
          · rw [show a = addr from List.mem_singleton.1 ha]
            exact ⟨List.mem_append_right _ (List.mem_singleton_self _), hoff addr List.mem_cons_self⟩
        · dsimp only
          rw [hslots]
          exact ⟨List.mem_append_left _ (h.cleared w hw).1, (h.cleared w hw).2⟩
    | filled =>
      refine ⟨h.stack, h.data, nofun, h.lens, fun w hw => ?_⟩
      cases hc : p.clearData with
      | false =>
        dsimp only at hw
        rw [hc, if_neg Bool.false_ne_true] at hw
        exact h.cleared w hw
      | true =>
        dsimp only at hw
        rw [hc, if_pos rfl] at hw
        rcases List.mem_append.1 hw with hw | hw
        · exact h.cleared w hw
        · -- a cleared range starts where a frame does and is no longer than a frame
          obtain ⟨haddr, hlen⟩ := List.of_mem_zip hw
          obtain ⟨hslot, hoff⟩ := h.data _ haddr
          have hle := h.lens hc _ (List.mem_of_mem_take hlen)
          exact ⟨hslot, by omega⟩
    | top | fill | check | peek | process | collect | reserve | update | done | bug => exact h
  | update r =>
    unfold xdpGenerateStep
    dsimp only
    split
    · exact ⟨h.stack, nofun, nofun, h.lens, h.cleared⟩
    · exact h
  | top | check | receive => exact h

theorem xdpReadStep_cleared (s : XdpState) (a : XdpAct) : (xdpReadStep p u s a).cleared = s.cleared := by
  have hgive : ∀ pc, (s.give pc).cleared = s.cleared := fun pc => by
    rw [XdpState.give]
    split <;> rfl
  have htake : ∀ addr pc, (s.take addr pc).cleared = s.cleared := fun addr pc => by
    rw [XdpState.take]
    split <;> rfl
  cases a with
  | go =>
    unfold xdpReadStep
    dsimp only
    split
    · rfl
    · exact hgive _
    · exact htake _ _
    · rfl
  | top | check | receive | update =>
    unfold xdpReadStep
    dsimp only
    repeat' split
    all_goals rfl
  | head | collect | reserve => rfl

/-! ## The result -/

theorem FramesInv.right (h : FramesInv p s)
    (hinside : ∀ w ∈ s.cleared, w.1 ∈ s.ring.slots.map (·.2) ∧ p.offset w.1 + w.2.toNat ≤ p.frameSize.toNat) : FramesRight p s := by
  have hring : s.pc ≠ .bug ∧ (s.ring.slots.length ≤ s.ring.cachedProd ∧ s.ring.producer ≤ s.ring.slots.length) ∧
      (¬ s.pc.Reserved → s.ring.Settled) := by
    have hfilling : ∀ {n left : Nat}, Filling s.ring s.stack n left →
        s.ring.slots.length ≤ s.ring.cachedProd ∧ s.ring.producer ≤ s.ring.slots.length := fun hf => by
      have h1 := hf.reserved
      have h2 := hf.producer
      have h3 := hf.le
      exact ⟨by omega, by omega⟩
    have hsettled : s.ring.Settled →
        s.ring.slots.length ≤ s.ring.cachedProd ∧ s.ring.producer ≤ s.ring.slots.length := fun hset => by
      obtain ⟨h1, h2⟩ := hset
      exact ⟨by omega, by omega⟩
    have hplace := h.place
    unfold FramesAt at hplace
    cases hpc : s.pc with
    | bug =>
      rw [hpc] at hplace
      exact hplace.elim
    | fill n left =>
      rw [hpc] at hplace
      exact ⟨nofun, hfilling hplace, fun hn => absurd trivial hn⟩
    | fillTx left =>
      rw [hpc] at hplace
      exact ⟨nofun, hfilling hplace, fun hn => absurd trivial hn⟩
    | filled | update =>
      rw [hpc] at hplace
      exact ⟨nofun, hfilling hplace, fun hn => absurd trivial hn⟩
    | reserve =>
      rw [hpc] at hplace
      exact ⟨nofun, hsettled hplace.1, fun _ => hplace.1⟩
    | process | collecting | top | check | peek | collect | done =>
      rw [hpc] at hplace
      exact ⟨nofun, hsettled hplace, fun _ => hplace⟩
  exact ⟨h.owned, hring.1, h.slots, hring.2.1, hring.2.2, hinside⟩

/-- In every run of the loops, the frames are where they belong; with -C, if the lengths of the list fit in a frame. -/
theorem xdp_frames_right (loop : XdpLoop) (p : XdpParams) (u : UpdateStats) (incremental : Bool) (acts : List XdpAct)
    (hfit : loop = .generate → XdpSizesFit p) : FramesRight p (run (loop.step p u) (XdpState.init p incremental) acts) := by
  cases loop with
  | read =>
    have hstep : ∀ s a, FramesInv p s ∧ s.cleared = [] →
        FramesInv p (XdpLoop.read.step p u s a) ∧ (XdpLoop.read.step p u s a).cleared = [] :=
      fun s a h => ⟨xdpReadStep_inv s a h.1, (xdpReadStep_cleared s a).trans h.2⟩
    have hrun := run_inv hstep acts (XdpState.init p incremental) ⟨.init p incremental, rfl⟩
    refine hrun.1.right fun w hw => ?_
    rw [hrun.2] at hw
    cases hw
  | generate =>
    have hstep : ∀ s a, FramesInv p s ∧ WritesInv p s →
        FramesInv p (XdpLoop.generate.step p u s a) ∧ WritesInv p (XdpLoop.generate.step p u s a) :=
      fun s a h => ⟨xdpGenerateStep_inv s a h.1, xdpGenerateStep_writes (hfit rfl) s a h.1 h.2⟩
    have hrun := run_inv hstep acts (XdpState.init p incremental) ⟨.init p incremental, .init p (hfit rfl) incremental⟩
    exact hrun.1.right hrun.2.cleared

end

/-- Packets of one size, in frames of 4096 bytes, with -C. -/
def oneSize (size : U32) : XdpParams where
  limits := { twoPackets with limitPackets := 0 }
  frameSize := 4096
  frame_pos := by decide
  frames_lt := by decide
  range := listRangeAddNumber [] size
  range_ne := List.cons_ne_nil _ _
  clearData := true
  shift := 0

def oneXdpBurst : List XdpAct := [.head false fun _ => 0, .collect [], .go, .reserve false 4096, .go, .go, .go]

theorem xdp_frames_sixty : FramesRight (oneSize 60)
    (run (XdpLoop.generate.step (oneSize 60) .single) (XdpState.init (oneSize 60) false) oneXdpBurst) :=
  xdp_frames_right .generate (oneSize 60) .single false oneXdpBurst fun _ _ r hr v => by
    rw [List.mem_singleton.1 hr, xdpSize, if_neg (by decide)]
    decide

theorem oneXdpBurst_cleared (addr : U64) (stack : List U64) :
    (run (XdpLoop.generate.step (oneSize 5000) .single) { XdpState.init (oneSize 5000) false with stack := addr :: stack }
      oneXdpBurst).cleared = [(addr, 5000)] := by
  simp [oneXdpBurst, XdpLoop.step, xdpGenerateStep, XdpState.init, oneSize, twoPackets, XdpParams.constant, sizeDelta, XdpState.Returns,
    listRangeAddNumber, XdpState.returned, ProdRing.reserve, XdpState.give, allocAddr]

/-- A packet of 5000 bytes is cleared beyond its frame; it is the last one, so beyond the UMEM. -/
theorem xdp_clears_beyond : ¬ FramesRight (oneSize 5000)
    (run (XdpLoop.generate.step (oneSize 5000) .single) (XdpState.init (oneSize 5000) false) oneXdpBurst) := by
  have htop : XdpState.init (oneSize 5000) false =
      { XdpState.init (oneSize 5000) false with stack := 4095 * 4096 :: initAddr 4096 4095 } := rfl
  intro h
  rw [htop] at h
  have hin := h.inside (4095 * 4096, 5000) (by rw [oneXdpBurst_cleared]; exact List.mem_singleton_self _)
  exact absurd hin.2 (by decide)

end NdkSw.Tools

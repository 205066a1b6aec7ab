/-
The copy between memory and the MI bus (`netcope/mi.h`): a direct path for 4 and 8 bytes, a prelude that aligns the
bus offset, vector instructions where the compiler has them and a postlude. All parts work on the same pointers and any
of them may end the copy. The model keeps the accesses in their order, each with its addresses and instructions.
-/
import Mathlib.Tactic
import NdkSw.Ndp.Channel

namespace NdkSw.Nfb

open Ndp

/-! ## Data model -/

/-- How the bytes are read: through a pointer to the type, or by an intrinsic. -/
inductive MiLoad
  | deref | load | loadu | streamLoad
  deriving DecidableEq, Repr

inductive MiStore
  | deref | store | storeu | stream
  deriving DecidableEq, Repr

/-- One read of `size` bytes and the write of the same bytes. -/
structure MiAccess where
  size : Nat
  load : MiLoad
  store : MiStore
  src : Nat
  dst : Nat
  deriving DecidableEq, Repr

/-- The variables that the parts of the copy share, with the accesses so far. -/
structure MiCopy where
  dst : Nat
  src : Nat
  nbyte : Nat
  offset : Nat
  wcUsed : Bool
  trace : List MiAccess
  deriving DecidableEq, Repr

/-! ## The parts of the copy -/

/-- The access in front of the pointers. -/
def MiCopy.access (size : Nat) (ld : MiLoad) (st : MiStore) (c : MiCopy) : MiCopy :=
  { c with trace := c.trace ++ [{ size, load := ld, store := st, src := c.src, dst := c.dst }] }

/-- `_NFB_BUS_MI_MEMCPY_CYCLE_ITER`; `true` is the `return true`. -/
def cycleIter (size : Nat) (wcInstr : Bool) (c : MiCopy) : MiCopy × Bool :=
  if c.nbyte = size then ({ c with wcUsed := c.wcUsed || wcInstr }, true)
  else ({ c with src := c.src + size, dst := c.dst + size, nbyte := c.nbyte - size }, false)

/-- An access followed by `_NFB_BUS_MI_MEMCPY_CYCLE_ITER`. -/
def copyOne (size : Nat) (ld : MiLoad) (st : MiStore) (wcInstr : Bool) (c : MiCopy) : MiCopy × Bool :=
  cycleIter size wcInstr (c.access size ld st)

variable {size : Nat} {st : MiStore} {ld : MiLoad} {wcInstr : Bool}

theorem copyOne_nbyte_lt {c c' : MiCopy} (hpos : 0 < size) (hle : size ≤ c.nbyte) (h : copyOne size ld st wcInstr c = (c', false)) :
    c'.nbyte < c.nbyte := by
  unfold copyOne cycleIter at h
  split at h
  · cases h
  · cases h
    simp only [MiCopy.access]
    omega

/-- `_NFB_BUS_MI_MEMCPY_CYCLE_LS`, `_ST` and `_AS`, which differ in their instructions only. -/
def cycle (size : Nat) (hpos : 0 < size) (ld : MiLoad) (st : MiStore) (wcInstr : Bool) (c : MiCopy) : MiCopy × Bool :=
  if _hle : size ≤ c.nbyte then
    match _h : copyOne size ld st wcInstr c with
    | (c', true) => (c', true)
    | (c', false) => cycle size hpos ld st wcInstr c'
  else (c, false)
termination_by c.nbyte
decreasing_by exact copyOne_nbyte_lt hpos _hle _h

/-- Go on unless the copy has ended. -/
def andThen (r : MiCopy × Bool) (f : MiCopy → MiCopy × Bool) : MiCopy × Bool :=
  match r with
  | (c, true) => (c, true)
  | (c, false) => f c

/-- `nfb_bus_mi_memcopy_simple`; the condition of the ARM variant is one on the address. -/
def memcopySimple (arm : Bool) (c : MiCopy) : MiCopy × Bool :=
  if c.nbyte = 4 then (c.access 4 .deref .deref, true)
  else if c.nbyte = 8 then
    if arm ∧ c.src % 64 ≠ (c.src + 4) % 64 then
      ({ c with trace := c.trace ++ [⟨4, .deref, .deref, c.src, c.dst⟩, ⟨4, .deref, .deref, c.src + 4, c.dst + 4⟩] }, true)
    else (c.access 8 .deref .deref, true)
  else (c, false)

/-- A part of the prelude: an access of `size` bytes if this bit of the offset is set. -/
def alignStep (size : Nat) (c : MiCopy) : MiCopy × Bool :=
  if c.offset / size % 2 = 1 ∧ c.nbyte ≥ size then
    andThen (copyOne size .deref .deref false c) fun c => ({ c with offset := c.offset + size }, false)
  else (c, false)

/-- `nfb_bus_mi_memcopy_prelude`. -/
def memcopyPrelude (c : MiCopy) : MiCopy × Bool :=
  andThen
    (if c.offset % 4 ≠ 0 then andThen (alignStep 1 c) (alignStep 2) else (c, false))
    (alignStep 4)

/-- `nfb_bus_mi_memcopy_interlude_avx_sse2`. -/
def memcopyInterlude (c : MiCopy) : MiCopy × Bool :=
  let src256a := c.src % 32 = 0
  let dst256a := c.dst % 32 = 0
  let src128a := c.src % 16 = 0
  let dst128a := c.dst % 16 = 0
  andThen
    (if src256a ∧ dst256a then cycle 32 (by decide) .deref .stream true c
    else if src256a ∧ ¬dst256a then cycle 32 (by decide) .streamLoad .storeu false c
    else if ¬src256a ∧ dst256a then cycle 32 (by decide) .loadu .store false c
    else cycle 32 (by decide) .loadu .storeu false c)
    fun c =>
      if src128a ∧ dst128a then cycle 16 (by decide) .deref .stream true c
      else if src128a ∧ ¬dst128a then cycle 16 (by decide) .load .storeu false c
      else if ¬src128a ∧ dst128a then cycle 16 (by decide) .loadu .stream false c
      else cycle 16 (by decide) .loadu .storeu false c

/-- The rest of the postlude behind its loop: at most one access of each size. -/
def remaining (size : Nat) (c : MiCopy) : MiCopy × Bool :=
  if c.nbyte ≥ size then copyOne size .deref .deref false c else (c, false)

/-- `nfb_bus_mi_memcopy_postlude`. -/
def memcopyPostlude (c : MiCopy) : MiCopy × Bool :=
  andThen (andThen (andThen (cycle 8 (by decide) .deref .deref false c) (remaining 4)) (remaining 2)) (remaining 1)

/-- `nfb_bus_mi_memcopy_avx2_sse2`, with its return value; `mavx2` is `CONFIG_HAVE_MAVX2`. -/
def memcopyAvx2Sse2 (arm mavx2 : Bool) (dst src nbyte offset : Nat) (wcUsed : Bool) : MiCopy × Nat :=
  let c : MiCopy := { dst, src, nbyte, offset, wcUsed, trace := [] }
  let r := andThen (memcopySimple arm c) fun c =>
    andThen (memcopyPrelude c) fun c =>
      andThen (if mavx2 then memcopyInterlude c else (c, false)) memcopyPostlude
  (r.1, nbyte)

/-- `nfb_bus_mi_memcopy_noopt`. -/
def memcopyNoopt (arm : Bool) (dst src nbyte offset : Nat) (wcUsed : Bool) : MiCopy × Nat :=
  let c : MiCopy := { dst, src, nbyte, offset, wcUsed, trace := [] }
  let r := andThen (memcopySimple arm c) fun c => andThen (memcopyPrelude c) memcopyPostlude
  (r.1, nbyte)

/-! ## What a copy should do -/

/-- The pairs of bytes that an access reads and writes. -/
def MiAccess.bytes (a : MiAccess) : List (Nat × Nat) := (List.range a.size).map fun i => (a.src + i, a.dst + i)

/-- The instruction reads a vector that has to be aligned. -/
def MiLoad.Aligned (size : Nat) : MiLoad → Prop
  | .deref => 16 ≤ size
  | .load | .streamLoad => True
  | .loadu => False

def MiStore.Aligned (size : Nat) : MiStore → Prop
  | .deref => 16 ≤ size
  | .store | .stream => True
  | .storeu => False

/-- Aligned vector instructions have aligned addresses. -/
def MiAccess.Aligned (a : MiAccess) : Prop :=
  (a.load.Aligned a.size → a.size ∣ a.src) ∧ (a.store.Aligned a.size → a.size ∣ a.dst)

/-- The contents of the destination when `n` bytes are copied. -/
def copyRange (src dst n : Nat) (from_ to_ : Nat → U8) : Nat → U8 := fun x =>
  if dst ≤ x ∧ x < dst + n then from_ (src + (x - dst)) else to_ x

/-- The contents of the destination after some accesses. -/
def execTrace (trace : List MiAccess) (from_ to_ : Nat → U8) : Nat → U8 :=
  trace.foldl (fun m a => copyRange a.src a.dst a.size from_ m) to_

/-- The accesses copy `n` bytes, each of them once and in increasing order, and touch nothing else. -/
structure Copied (src dst : Nat) (trace : List MiAccess) (n : Nat) : Prop where
  bytes : trace.flatMap (·.bytes) = (List.range n).map fun i => (src + i, dst + i)
  effect : ∀ from_ to_, execTrace trace from_ to_ = copyRange src dst n from_ to_
  aligned : ∀ a ∈ trace, a.Aligned

/-- Accesses of up to 8 bytes are naturally aligned in the address space of the bus, where the copy starts at
`offset`. -/
def Natural (src offset : Nat) (trace : List MiAccess) : Prop :=
  ∀ a ∈ trace, a.size ≤ 8 → a.size ∣ offset + (a.src - src)

/-- What is expected of a call, from its accesses and its return value. -/
structure CopyRight (dst src nbyte offset : Nat) (r : MiCopy × Nat) : Prop where
  copied : Copied src dst r.1.trace nbyte
  natural : nbyte ≠ 4 → nbyte ≠ 8 → Natural src offset r.1.trace
  ret : r.2 = nbyte

/-! ## Accesses one after another -/

theorem copyRange_zero (src dst : Nat) (from_ to_ : Nat → U8) : copyRange src dst 0 from_ to_ = to_ := by
  funext x
  rw [copyRange, if_neg (by omega)]

theorem copyRange_add (src dst p n : Nat) (from_ to_ : Nat → U8) :
    copyRange (src + p) (dst + p) n from_ (copyRange src dst p from_ to_) = copyRange src dst (p + n) from_ to_ := by
  funext x
  simp only [copyRange]
  by_cases h1 : dst + p ≤ x ∧ x < dst + p + n
  · rw [if_pos h1, if_pos (by omega)]
    congr 1
    omega
  · rw [if_neg h1]
    by_cases h2 : dst ≤ x ∧ x < dst + p
    · rw [if_pos h2, if_pos (by omega)]
    · rw [if_neg h2, if_neg (by omega)]

variable {src dst n p : Nat} {trace : List MiAccess}

theorem Copied.nil (src dst : Nat) : Copied src dst [] 0 :=
  ⟨rfl, fun from_ to_ => (copyRange_zero src dst from_ to_).symm, fun _ h => nomatch h⟩

theorem Copied.snoc (h : Copied src dst trace p) {a : MiAccess} (hs : a.src = src + p) (hd : a.dst = dst + p)
    (ha : a.Aligned) : Copied src dst (trace ++ [a]) (p + a.size) := by
  constructor
  case bytes =>
    rw [List.flatMap_append, h.bytes, List.range_add, List.map_append, List.map_map]
    congr 1
    simp only [List.flatMap_cons, List.flatMap_nil, List.append_nil, MiAccess.bytes, hs, hd]
    refine List.map_congr_left fun i _ => ?_
    simp only [Function.comp_apply, Nat.add_assoc]
  case effect =>
    intro from_ to_
    rw [← copyRange_add, ← h.effect, execTrace, List.foldl_append, List.foldl_cons, List.foldl_nil, hs, hd]
    rfl
  case aligned =>
    intro b hb
    rcases List.mem_append.1 hb with hb | hb
    · exact h.aligned b hb
    · rw [List.mem_singleton.1 hb]; exact ha

/-! ## The parts of the copy, with the exits -/

/-- `p` bytes are copied and the variables stand behind them. -/
structure Under (s c : MiCopy) (p : Nat) : Prop where
  src : c.src = s.src + p
  dst : c.dst = s.dst + p
  nbyte : c.nbyte + p = s.nbyte
  copied : Copied s.src s.dst c.trace p
  natural : Natural s.src s.offset c.trace

/-- A part of the copy has ended it, or `Q` holds of the variables and of the number of bytes copied. -/
def Goes (s : MiCopy) (Q : MiCopy → Nat → Prop) : MiCopy × Bool → Prop
  | (c, true) => Copied s.src s.dst c.trace s.nbyte ∧ Natural s.src s.offset c.trace
  | (c, false) => ∃ p, Under s c p ∧ Q c p

variable {s c : MiCopy} {Q R : MiCopy → Nat → Prop} {r : MiCopy × Bool} {f : MiCopy → MiCopy × Bool}

theorem Goes.andThen (h : Goes s Q r) (hf : ∀ c p, Under s c p → Q c p → Goes s R (f c)) : Goes s R (Nfb.andThen r f) := by
  rcases r with ⟨c, _ | _⟩
  · obtain ⟨p, hu, hq⟩ := h
    exact hf c p hu hq
  · exact h

theorem Goes.mono (h : Goes s Q r) (hqr : ∀ c p, Under s c p → Q c p → R c p) : Goes s R r := by
  rcases r with ⟨c, _ | _⟩
  · obtain ⟨p, hu, hq⟩ := h
    exact ⟨p, hu, hqr c p hu hq⟩
  · exact h

theorem Goes.skip (hu : Under s c p) (hq : Q c p) : Goes s Q (c, false) := ⟨p, hu, hq⟩

/-- An access may be made at `p`. -/
structure MayAccess (s : MiCopy) (size : Nat) (ld : MiLoad) (st : MiStore) (p : Nat) : Prop where
  load : ld.Aligned size → size ∣ s.src + p
  store : st.Aligned size → size ∣ s.dst + p
  natural : size ≤ 8 → size ∣ s.offset + p

theorem MayAccess.next (h : MayAccess s size ld st p) :
    MayAccess s size ld st (p + size) where
  load := fun ha => by rw [← Nat.add_assoc]; exact (h.load ha).add dvd_rfl
  store := fun ha => by rw [← Nat.add_assoc]; exact (h.store ha).add dvd_rfl
  natural := fun ha => by rw [← Nat.add_assoc]; exact (h.natural ha).add dvd_rfl

theorem MayAccess.scalar (hsize : size ≤ 8) (h : size ∣ s.offset + p) :
    MayAccess s size .deref .deref p where
  load := fun ha => absurd (show 16 ≤ size from ha) (by omega)
  store := fun ha => absurd (show 16 ≤ size from ha) (by omega)
  natural := fun _ => h

theorem copyOne_goes (wcInstr : Bool) (hu : Under s c p) (hle : size ≤ c.nbyte) (ha : MayAccess s size ld st p) :
    Goes s (fun c' q => q = p + size ∧ c'.offset = c.offset ∧ c'.nbyte + size = c.nbyte ∧ c.nbyte ≠ size)
      (copyOne size ld st wcInstr c) := by
  have hcopied : Copied s.src s.dst (c.access size ld st).trace (p + size) :=
    hu.copied.snoc hu.src hu.dst ⟨fun h => hu.src ▸ ha.load h, fun h => hu.dst ▸ ha.store h⟩
  have hnatural : Natural s.src s.offset (c.access size ld st).trace := by
    intro a hmem hsize
    rcases List.mem_append.1 hmem with h | h
    · exact hu.natural a h hsize
    · rw [List.mem_singleton.1 h] at hsize ⊢
      rw [hu.src, Nat.add_sub_cancel_left]
      exact ha.natural hsize
  have hn := hu.nbyte
  unfold copyOne cycleIter
  split
  case isTrue hend =>
    have hall : p + size = s.nbyte := by rw [← hn, Nat.add_comm, show c.nbyte = size from hend]
    exact ⟨hall ▸ hcopied, hnatural⟩
  case isFalse hend =>
    have hne : c.nbyte ≠ size := hend
    refine ⟨p + size, ⟨?_, ?_, ?_, hcopied, hnatural⟩, rfl, rfl, ?_, hne⟩
    · exact (congrArg (· + size) hu.src).trans (Nat.add_assoc ..)
    · exact (congrArg (· + size) hu.dst).trans (Nat.add_assoc ..)
    · simp only [MiCopy.access]; omega
    · simp only [MiCopy.access]; omega

theorem cycle_goes {hpos : 0 < size} (hu : Under s c p) (ha : size ≤ c.nbyte → MayAccess s size ld st p) :
    Goes s (fun c' q => c'.nbyte < size ∧ c'.nbyte ≤ c.nbyte ∧ c'.offset = c.offset ∧ size ∣ q - p ∧ p ≤ q)
      (cycle size hpos ld st wcInstr c) := by
  -- along the loop, on the number of bytes that are left
  induction hn : c.nbyte using Nat.strong_induction_on generalizing c p with
  | _ m ih =>
    subst hn
    rw [cycle]
    split
    case isTrue hle =>
      have hone := copyOne_goes wcInstr hu hle (ha hle)
      split
      case h_1 c' heq => rw [heq] at hone; exact hone
      case h_2 c' heq =>
        rw [heq] at hone
        obtain ⟨q, hu', rfl, hoff, hnb, -⟩ := hone
        refine Goes.mono (ih c'.nbyte (by omega) hu' (fun _ => (ha hle).next) rfl) ?_
        rintro c'' q - ⟨hlt, hle', hoff', hdvd, hpq⟩
        refine ⟨hlt, by omega, hoff'.trans hoff, ?_, by omega⟩
        obtain ⟨k, hk⟩ := hdvd
        exact ⟨k + 1, by rw [Nat.mul_succ]; omega⟩
    case isFalse hlt => exact Goes.skip hu ⟨by omega, le_rfl, rfl, by simp, le_rfl⟩

theorem alignStep_goes (hsize : size ≤ 8) (hu : Under s c p) (hoff : c.offset = s.offset + p)
    (ha : size ≤ c.nbyte → c.offset / size % 2 = 1 → size ∣ c.offset) :
    Goes s (fun c' q => c'.offset = s.offset + q ∧ (c' = c ∧ ¬(c.offset / size % 2 = 1 ∧ c.nbyte ≥ size) ∨
        c'.offset = c.offset + size ∧ c.offset / size % 2 = 1 ∧ c'.nbyte + size = c.nbyte)) (alignStep size c) := by
  unfold alignStep
  split
  case isTrue hbit =>
    refine (copyOne_goes false hu hbit.2 (.scalar hsize (hoff ▸ ha hbit.2 hbit.1))).andThen ?_
    rintro c' q hu' ⟨rfl, hoff', hn, -⟩
    refine Goes.skip (p := p + size) ⟨hu'.src, hu'.dst, hu'.nbyte, hu'.copied, hu'.natural⟩ ⟨?_, .inr ⟨?_, hbit.1, hn⟩⟩
    · simp only [hoff', hoff]; omega
    · simp only [hoff']
  case isFalse hbit => exact Goes.skip hu ⟨hoff, .inl ⟨rfl, hbit⟩⟩

/-- The bus offset is aligned as far as the rest of the copy needs it. -/
def Aligned8 (s c : MiCopy) (p : Nat) : Prop :=
  (s.offset + p) % 8 = 0 ∨ (s.offset + p) % 4 = 0 ∧ c.nbyte < 4 ∨ c.nbyte < 2

theorem memcopyPrelude_goes (hu : Under s c p) (hoff : c.offset = s.offset + p) :
    Goes s (fun c q => Aligned8 s c q) (memcopyPrelude c) := by
  have htwo : Goes s (fun c q => c.offset = s.offset + q ∧ (c.offset % 4 = 0 ∨ c.nbyte < 2))
      (if c.offset % 4 ≠ 0 then Nfb.andThen (alignStep 1 c) (alignStep 2) else (c, false)) := by
    split
    case isTrue hne =>
      refine (alignStep_goes (by decide) hu hoff fun _ _ => one_dvd _).andThen ?_
      rintro c₁ q₁ hu₁ ⟨hoff₁, h₁⟩
      have heven : 2 ≤ c₁.nbyte → c₁.offset % 2 = 0 := by
        intro hn
        rcases h₁ with ⟨rfl, hbit⟩ | ⟨hadd, hbit, -⟩ <;> omega
      refine Goes.mono (alignStep_goes (by decide) hu₁ hoff₁ fun hn _ => Nat.dvd_of_mod_eq_zero (heven hn)) ?_
      rintro c₂ q₂ - ⟨hoff₂, ⟨rfl, hbit⟩ | ⟨hadd, hbit, hn⟩⟩
      · refine ⟨hoff₂, ?_⟩
        by_cases hn : 2 ≤ c₂.nbyte
        · have := heven hn
          omega
        · omega
      · have := heven (by omega)
        exact ⟨hoff₂, by omega⟩
    case isFalse heq => exact Goes.skip hu ⟨hoff, by omega⟩
  refine htwo.andThen ?_
  rintro c₁ q₁ hu₁ ⟨hoff₁, h₁⟩
  refine Goes.mono (alignStep_goes (by decide) hu₁ hoff₁ fun hn _ => Nat.dvd_of_mod_eq_zero (by omega)) ?_
  rintro c₂ q₂ - ⟨hoff₂, ⟨rfl, hbit⟩ | ⟨hadd, hbit, hn⟩⟩
  · unfold Aligned8; omega
  · unfold Aligned8; omega

theorem vectorCycle_goes {hpos : 0 < size} (h16 : 16 ∣ size) (hu : Under s c p) (ha : Aligned8 s c p)
    (hld : ld.Aligned size → c.src % size = 0) (hst : st.Aligned size → c.dst % size = 0) :
    Goes s (fun c' q => Aligned8 s c' q ∧ c'.src % 16 = c.src % 16 ∧ c'.dst % 16 = c.dst % 16)
      (cycle size hpos ld st wcInstr c) := by
  have hbig : ¬size ≤ 8 := fun h => by have := Nat.le_of_dvd hpos h16; omega
  have hmay : MayAccess s size ld st p :=
    ⟨fun h => hu.src ▸ Nat.dvd_of_mod_eq_zero (hld h), fun h => hu.dst ▸ Nat.dvd_of_mod_eq_zero (hst h),
      fun h => absurd h hbig⟩
  refine Goes.mono (cycle_goes hu fun _ => hmay) ?_
  rintro c' q hu' ⟨hlt, hle, -, hdvd, hpq⟩
  have hdvd16 : 16 ∣ q - p := h16.trans hdvd
  have hs := hu.src
  have hs' := hu'.src
  have hd := hu.dst
  have hd' := hu'.dst
  unfold Aligned8 at ha ⊢
  omega

theorem memcopyInterlude_goes (hu : Under s c p) (ha : Aligned8 s c p) :
    Goes s (fun c q => Aligned8 s c q) (memcopyInterlude c) := by
  unfold memcopyInterlude
  refine Goes.andThen (Q := fun c' q => Aligned8 s c' q ∧ c'.src % 16 = c.src % 16 ∧ c'.dst % 16 = c.dst % 16) ?_ ?_
  · split
    case isTrue h => exact vectorCycle_goes (by decide) hu ha (fun _ => h.1) (fun _ => h.2)
    split
    case isTrue h => exact vectorCycle_goes (by decide) hu ha (fun _ => h.1) (fun h => h.elim)
    split
    case isTrue h => exact vectorCycle_goes (by decide) hu ha (fun h => h.elim) (fun _ => h.2)
    case isFalse => exact vectorCycle_goes (by decide) hu ha (fun h => h.elim) (fun h => h.elim)
  · rintro c' q hu' ⟨ha', hsrc, hdst⟩
    refine Goes.mono (Q := fun c'' q => Aligned8 s c'' q ∧ c''.src % 16 = c'.src % 16 ∧ c''.dst % 16 = c'.dst % 16) ?_
      fun _ _ _ h => h.1
    split
    case isTrue h => exact vectorCycle_goes (by decide) hu' ha' (fun _ => hsrc.trans h.1) (fun _ => hdst.trans h.2)
    split
    case isTrue h => exact vectorCycle_goes (by decide) hu' ha' (fun _ => hsrc.trans h.1) (fun h => h.elim)
    split
    case isTrue h => exact vectorCycle_goes (by decide) hu' ha' (fun h => h.elim) (fun _ => hdst.trans h.2)
    case isFalse => exact vectorCycle_goes (by decide) hu' ha' (fun h => h.elim) (fun h => h.elim)

theorem remaining_goes (hsize : size ≤ 8) (hu : Under s c p) (hlt : c.nbyte < 2 * size) (ha : size ≤ c.nbyte → size ∣ s.offset + p) :
    Goes s (fun c' q => c'.nbyte < size ∧ (c' = c ∧ q = p ∨ q = p + size ∧ c'.nbyte + size = c.nbyte))
      (remaining size c) := by
  unfold remaining
  split
  case isTrue hle =>
    refine Goes.mono (copyOne_goes false hu hle (.scalar hsize (ha hle))) ?_
    rintro c' q - ⟨rfl, -, hn, -⟩
    exact ⟨by omega, .inr ⟨rfl, hn⟩⟩
  case isFalse hlt => exact Goes.skip hu ⟨by omega, .inl ⟨rfl, rfl⟩⟩

theorem memcopyPostlude_goes (hu : Under s c p) (ha : Aligned8 s c p) :
    Goes s (fun c _ => c.nbyte = 0) (memcopyPostlude c) := by
  unfold Aligned8 at ha
  have height : Goes s (fun c q => c.nbyte < 8 ∧ ((s.offset + q) % 8 = 0 ∨ (s.offset + q) % 4 = 0 ∧ c.nbyte < 4 ∨ c.nbyte < 2))
      (cycle 8 (by decide) .deref .deref false c) := by
    refine Goes.mono (cycle_goes hu fun hn => .scalar (by decide) (Nat.dvd_of_mod_eq_zero (by omega))) ?_
    rintro c' q - ⟨hlt, hle, -, hdvd, hpq⟩
    omega
  have hfour : Goes s (fun c q => c.nbyte < 4 ∧ ((s.offset + q) % 4 = 0 ∨ c.nbyte < 2))
      (Nfb.andThen (cycle 8 (by decide) .deref .deref false c) (remaining 4)) := by
    refine height.andThen ?_
    rintro c₁ q₁ hu₁ ⟨hlt, h₁⟩
    refine Goes.mono (remaining_goes (by decide) hu₁ (by omega) fun hn => Nat.dvd_of_mod_eq_zero (by omega)) ?_
    rintro c₂ q₂ - ⟨hlt₂, ⟨rfl, rfl⟩ | ⟨rfl, hn⟩⟩ <;> omega
  have htwo : Goes s (fun c _ => c.nbyte < 2)
      (Nfb.andThen (Nfb.andThen (cycle 8 (by decide) .deref .deref false c) (remaining 4)) (remaining 2)) := by
    refine hfour.andThen ?_
    rintro c₁ q₁ hu₁ ⟨hlt, h₁⟩
    refine Goes.mono (remaining_goes (by decide) hu₁ (by omega) fun hn => Nat.dvd_of_mod_eq_zero (by omega)) ?_
    exact fun _ _ _ h => h.1
  refine htwo.andThen fun c₁ q₁ hu₁ hlt => ?_
  refine Goes.mono (remaining_goes (by decide) hu₁ (by omega) fun _ => one_dvd _) ?_
  exact fun _ _ _ h => by omega

/-! ## Both functions -/

theorem Goes.finish (h : Goes s (fun c _ => c.nbyte = 0) r) :
    Copied s.src s.dst r.1.trace s.nbyte ∧ Natural s.src s.offset r.1.trace := by
  rcases r with ⟨c, _ | _⟩
  · obtain ⟨p, hu, h0⟩ := h
    have hp : p = s.nbyte := by have := hu.nbyte; omega
    exact ⟨hp ▸ hu.copied, hu.natural⟩
  · exact h

theorem memcopySimple_cases (arm : Bool) (hc : c.trace = []) :
    memcopySimple arm c = (c, false) ∨
      (c.nbyte = 4 ∨ c.nbyte = 8) ∧ (memcopySimple arm c).2 = true ∧
        Copied c.src c.dst (memcopySimple arm c).1.trace c.nbyte := by
  have hscalar : ∀ size q, size ≤ 8 → (⟨size, .deref, .deref, c.src + q, c.dst + q⟩ : MiAccess).Aligned := by
    intro size q hsize
    exact ⟨fun h => absurd (show 16 ≤ size from h) (by omega), fun h => absurd (show 16 ≤ size from h) (by omega)⟩
  have hfirst : ∀ size, size ≤ 8 → Copied c.src c.dst [⟨size, .deref, .deref, c.src, c.dst⟩] (0 + size) :=
    fun size hsize => (Copied.nil c.src c.dst).snoc rfl rfl (hscalar size 0 hsize)
  unfold memcopySimple MiCopy.access
  rw [hc]
  split
  case isTrue h4 => exact .inr ⟨.inl h4, rfl, by rw [h4]; exact hfirst 4 (by decide)⟩
  split
  case isTrue h8 =>
    refine .inr ⟨.inr h8, ?_⟩
    split
    · refine ⟨rfl, ?_⟩
      rw [h8]
      exact (hfirst 4 (by decide)).snoc rfl rfl (hscalar 4 4 (by decide))
    · exact ⟨rfl, by rw [h8]; exact hfirst 8 (by decide)⟩
  case isFalse => exact .inl rfl

theorem copyRight_of_goes {arm wcUsed : Bool} {nbyte offset : Nat}
    (hf : ∀ s : MiCopy, Under s s 0 → Goes s (fun c _ => c.nbyte = 0) (f s)) :
    CopyRight dst src nbyte offset
      ((Nfb.andThen (memcopySimple arm ⟨dst, src, nbyte, offset, wcUsed, []⟩) f).1, nbyte) := by
  rcases memcopySimple_cases (c := ⟨dst, src, nbyte, offset, wcUsed, []⟩) arm rfl with hs | ⟨hn, hend, hcopied⟩
  · rw [hs]
    have hstart : Under ⟨dst, src, nbyte, offset, wcUsed, []⟩ ⟨dst, src, nbyte, offset, wcUsed, []⟩ 0 :=
      ⟨rfl, rfl, rfl, Copied.nil src dst, fun _ h => nomatch h⟩
    obtain ⟨hcopied, hnatural⟩ := (hf _ hstart).finish
    exact ⟨hcopied, fun _ _ => hnatural, rfl⟩
  · have hthen : Nfb.andThen (memcopySimple arm ⟨dst, src, nbyte, offset, wcUsed, []⟩) f =
        memcopySimple arm ⟨dst, src, nbyte, offset, wcUsed, []⟩ := by
      generalize memcopySimple arm ⟨dst, src, nbyte, offset, wcUsed, []⟩ = r at hend
      rcases r with ⟨c, b⟩
      cases hend
      rfl
    rw [hthen]
    exact ⟨hcopied, fun h4 h8 => absurd hn (by simp [h4, h8]), rfl⟩

/-- For every length, offset and alignment both functions copy the bytes, in order and each of them once, and the
optimised one leaves in the destination what the plain one leaves there. -/
theorem memcopy_right (arm mavx2 wcUsed : Bool) (dst src nbyte offset : Nat) :
    CopyRight dst src nbyte offset (memcopyAvx2Sse2 arm mavx2 dst src nbyte offset wcUsed) ∧
      CopyRight dst src nbyte offset (memcopyNoopt arm dst src nbyte offset wcUsed) ∧
      ∀ from_ to_, execTrace (memcopyAvx2Sse2 arm mavx2 dst src nbyte offset wcUsed).1.trace from_ to_ =
        execTrace (memcopyNoopt arm dst src nbyte offset wcUsed).1.trace from_ to_ := by
  have hopt : CopyRight dst src nbyte offset (memcopyAvx2Sse2 arm mavx2 dst src nbyte offset wcUsed) := by
    refine copyRight_of_goes fun s hs => ?_
    refine (memcopyPrelude_goes hs rfl).andThen fun c p hu ha => ?_
    refine Goes.andThen (Q := fun c q => Aligned8 s c q) ?_ fun c p hu ha => memcopyPostlude_goes hu ha
    split
    · exact memcopyInterlude_goes hu ha
    · exact Goes.skip hu ha
  have hnoopt : CopyRight dst src nbyte offset (memcopyNoopt arm dst src nbyte offset wcUsed) := by
    refine copyRight_of_goes fun s hs => ?_
    exact (memcopyPrelude_goes hs rfl).andThen fun c p hu ha => memcopyPostlude_goes hu ha
  refine ⟨hopt, hnoopt, fun from_ to_ => ?_⟩
  rw [hopt.copied.effect, hnoopt.copied.effect]

end NdkSw.Nfb

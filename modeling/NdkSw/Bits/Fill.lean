/-
Zeros written behind the parts of a memory. Positions reach their bytes through a map, so that a byte may have several of
them. A pad is remembered with the part it was written for; the pads of a pass stay in their frames and cover what is left of
them if and only if none of them starts too late.
-/
import Mathlib.Tactic

namespace Bits

variable {κ : Type} [DecidableEq κ]

/-! ## One range -/

/-- `memset(p, 0, n)`. -/
def zeroFill (cell : Int → κ) (p : Int) : Nat → (κ → BitVec 8) → κ → BitVec 8
  | 0, byte => byte
  | n + 1, byte => Function.update (zeroFill cell p n byte) (cell (p + n)) 0

variable {cell : Int → κ} {p : Int} {n : Nat} {byte : κ → BitVec 8}

/-- What is zero stays zero. -/
theorem zeroFill_of_zero {c : κ} (h : byte c = 0) : zeroFill cell p n byte c = 0 := by
  induction n with
  | zero => exact h
  | succ n ih =>
    rw [zeroFill]
    by_cases hc : c = cell (p + n)
    · rw [hc, Function.update_self]
    · rw [Function.update_of_ne hc]
      exact ih

theorem zeroFill_inside {x : Int} (hx : p ≤ x) (hlt : x < p + n) : zeroFill cell p n byte (cell x) = 0 := by
  induction n with
  | zero => omega
  | succ n ih =>
    rw [zeroFill]
    by_cases hc : cell x = cell (p + n)
    · rw [hc, Function.update_self]
    · rw [Function.update_of_ne hc]
      refine ih ?_
      have hne : x ≠ p + n := fun h => hc (congrArg cell h)
      push_cast at hlt
      omega

/-! ## A pass over several parts -/

/-- `len` bytes from `pos` on, written for a part. -/
structure Pad where
  part : Nat
  pos : Int
  len : Nat
  deriving DecidableEq, Repr

/-- The memory, and the pads written so far. -/
structure PadMem (κ : Type) where
  cell : Int → κ
  byte : κ → BitVec 8
  pads : List Pad

namespace PadMem

def read (m : PadMem κ) (x : Int) : BitVec 8 := m.byte (m.cell x)

/-- Pad one part, if it asks for it. -/
def pad (m : PadMem κ) (part : Nat) : Option (Int × Nat) → PadMem κ
  | none => m
  | some (pos, len) => { m with byte := zeroFill m.cell pos len m.byte, pads := m.pads ++ [⟨part, pos, len⟩] }

/-- Pad the first `n` parts. -/
def padAll (m : PadMem κ) (ask : Nat → Option (Int × Nat)) : Nat → PadMem κ
  | 0 => m
  | n + 1 => (padAll m ask n).pad n (ask n)

variable {m : PadMem κ} {ask : Nat → Option (Int × Nat)}

@[simp] theorem pad_cell (part : Nat) (o : Option (Int × Nat)) : (m.pad part o).cell = m.cell := by
  cases o <;> rfl

@[simp] theorem padAll_cell (n : Nat) : (m.padAll ask n).cell = m.cell := by
  induction n with
  | zero => rfl
  | succ n ih => rw [padAll, pad_cell, ih]

theorem pad_of_zero {part : Nat} {o : Option (Int × Nat)} {x : Int} (h : m.read x = 0) : (m.pad part o).read x = 0 := by
  cases o with
  | none => exact h
  | some a => exact zeroFill_of_zero h

/-- A pad clears its range, and no later one brings anything back. -/
theorem padAll_zero {i : Nat} {pos x : Int} {len : Nat} (ha : ask i = some (pos, len)) (hx : pos ≤ x) (hlt : x < pos + len) :
    ∀ n, i < n → (m.padAll ask n).read x = 0 := by
  intro n hi
  induction n with
  | zero => exact absurd hi (Nat.not_lt_zero i)
  | succ n ih =>
    rw [padAll]
    by_cases hin : i = n
    · subst hin
      rw [ha]
      exact zeroFill_inside hx hlt
    · exact pad_of_zero (ih (by omega))

theorem mem_padAll {a : Pad} (hm : m.pads = []) (n : Nat) :
    a ∈ (m.padAll ask n).pads ↔ a.part < n ∧ ask a.part = some (a.pos, a.len) := by
  induction n with
  | zero =>
    rw [padAll, hm]
    exact ⟨nofun, fun h => absurd h.1 (Nat.not_lt_zero _)⟩
  | succ n ih =>
    have hsplit : a.part < n + 1 ↔ a.part < n ∨ a.part = n := by omega
    rw [padAll, hsplit, or_and_right, ← ih]
    cases ha : ask n with
    | none =>
      constructor
      · exact Or.inl
      · rintro (h | ⟨rfl, h⟩)
        · exact h
        · rw [ha] at h
          cases h
    | some r =>
      obtain ⟨pos, len⟩ := r
      simp only [pad, List.mem_append, List.mem_singleton]
      constructor
      · rintro (h | rfl)
        · exact .inl h
        · exact .inr ⟨rfl, ha⟩
      · rintro (h | ⟨rfl, h⟩)
        · exact .inl h
        · rw [ha] at h
          cases h
          exact .inr rfl

end PadMem

/-! ## Frames -/

/-- Part `i` has `size` bytes from `frame i` on, of which `used i` are somebody else's: the others are zero, and nothing
was written beside a frame. -/
structure Padded (m : PadMem κ) (frame : Nat → Int) (used : Nat → Nat) (size n : Nat) : Prop where
  zero : ∀ i < n, ∀ x, used i ≤ x → x < size → m.read (frame i + x) = 0
  inside : ∀ a ∈ m.pads, ∀ x, a.pos ≤ x → x < a.pos + a.len → frame a.part ≤ x ∧ x < frame a.part + size

/-- Pads that start `late i` bytes behind the bytes in use. -/
theorem padded_iff {m : PadMem κ} {ask : Nat → Option (Int × Nat)} {frame : Nat → Int} {used : Nat → Nat} (found late : Nat → Nat)
    {size : Nat} (hm : m.pads = []) (hfound : ∀ i < n, used i < size → found i = used i)
    (hask : ∀ i < n, ask i = if found i < size then some (frame i + late i + found i, size - found i) else none) :
    Padded (m.padAll ask n) frame used size n ↔ ∀ i < n, found i < size → late i = 0 := by
  constructor
  · intro h i hi hlt
    have ha : ⟨i, frame i + late i + found i, size - found i⟩ ∈ (m.padAll ask n).pads := by
      rw [PadMem.mem_padAll hm]
      exact ⟨hi, by rw [hask i hi, if_pos hlt]⟩
    have hlast := h.inside _ ha (frame i + late i + size - 1) (by dsimp only; omega) (by dsimp only; omega)
    dsimp only at hlast
    omega
  · intro h
    constructor
    case zero =>
      intro i hi x hx hlt
      have hused : found i = used i := hfound i hi (by omega)
      have hshort : found i < size := by omega
      have hlate := h i hi hshort
      refine PadMem.padAll_zero (by rw [hask i hi, if_pos hshort]) ?_ ?_ n hi
      · omega
      · omega
    case inside =>
      intro a ha x hx hlt
      obtain ⟨hi, ha⟩ := (PadMem.mem_padAll hm n).1 ha
      rw [hask _ hi] at ha
      by_cases hshort : found a.part < size
      · rw [if_pos hshort] at ha
        have hlate := h _ hi hshort
        simp only [Option.some.injEq, Prod.mk.injEq] at ha
        omega
      · rw [if_neg hshort] at ha
        cases ha

end Bits

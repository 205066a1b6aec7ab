/-
Slices of a memory: storing a list at a place, and cutting a slice into chunks of one length, of which the last may be shorter. Put one
behind the other, or each at its place, the chunks are the slice again.
-/
import Mathlib.Tactic

namespace Shared

variable {α : Type}

/-! ## Slices -/

/-- The `n` entries of a memory from `off` on. -/
def slice (mem : Nat → α) (off n : Nat) : List α := (List.range n).map fun j => mem (off + j)

variable {mem : Nat → α} {off n i : Nat}

@[simp] theorem length_slice : (slice mem off n).length = n := by
  rw [slice, List.length_map, List.length_range]

@[simp] theorem slice_zero (mem : Nat → α) (off : Nat) : slice mem off 0 = [] := rfl

theorem getElem?_slice {j : Nat} (hj : j < n) : (slice mem off n)[j]? = some (mem (off + j)) := by
  rw [slice, List.getElem?_map, List.getElem?_range hj]
  rfl

theorem slice_append (mem : Nat → α) (off a b : Nat) : slice mem off a ++ slice mem (off + a) b = slice mem off (a + b) := by
  unfold slice
  rw [List.range_add, List.map_append, List.map_map]
  congr 1
  apply List.map_congr_left
  intro j _
  exact congrArg mem (Nat.add_assoc off a j)

/-! ## Storing -/

section

variable {held : Nat → Option α} {l : List α}

/-- What a memory holds after a list is stored from `off` on. -/
def storeList (held : Nat → Option α) (off : Nat) (l : List α) (i : Nat) : Option α :=
  if off ≤ i ∧ i < off + l.length then l[i - off]? else held i

theorem storeList_inside {j : Nat} (hj : j < l.length) : storeList held off l (off + j) = l[j]? := by
  rw [storeList, if_pos ⟨by omega, by omega⟩, Nat.add_sub_cancel_left]

theorem storeList_before (hi : i < off) : storeList held off l i = held i := by
  rw [storeList, if_neg (by omega)]

theorem storeList_behind (hi : off + l.length ≤ i) : storeList held off l i = held i := by
  rw [storeList, if_neg (by omega)]

/-- Lists stored one after the other, each at its place. -/
def placeAll (held : Nat → Option α) (ws : List (Nat × List α)) : Nat → Option α :=
  ws.foldl (fun held w => storeList held w.1 w.2) held

/-- The first `n` entries of a memory. -/
def firstPart (mem : Nat → α) (n : Nat) (i : Nat) : Option α := if i < n then some (mem i) else none

/-- Storing what comes next. -/
theorem storeList_next (mem : Nat → α) (n m : Nat) : storeList (firstPart mem n) n (slice mem n m) = firstPart mem (n + m) := by
  funext i
  rcases Nat.lt_or_ge i n with hlt | hge
  · rw [storeList_before hlt, firstPart, firstPart, if_pos hlt, if_pos (by omega)]
  · obtain ⟨j, rfl⟩ := Nat.exists_eq_add_of_le hge
    rcases Nat.lt_or_ge j m with hj | hj
    · rw [storeList_inside (by rwa [length_slice]), getElem?_slice hj, firstPart, if_pos (by omega)]
    · rw [storeList_behind (by rw [length_slice]; omega), firstPart, firstPart, if_neg (by omega), if_neg (by omega)]

end

/-! ## Chunks -/

/-- The number of chunks of length `c`; no entries are one chunk too. -/
def chunkCount (c n : Nat) : Nat := (n - 1) / c + 1

/-- The length of a chunk. -/
def chunkLen (c n i : Nat) : Nat := min c (n - c * i)

section

variable {c : Nat} (hc : 0 < c)

include hc

/-- Another chunk follows if there are entries behind this one. -/
theorem succ_lt_chunkCount : i + 1 < chunkCount c n ↔ c * (i + 1) < n := by
  unfold chunkCount
  rw [Nat.add_lt_add_iff_right, Nat.lt_iff_add_one_le, Nat.le_div_iff_mul_le hc, Nat.mul_comm]
  have hpos : 0 < c * (i + 1) := Nat.mul_pos hc (Nat.succ_pos i)
  omega

/-- A chunk starts inside, or at the start. -/
theorem start_le_of_lt (hi : i < chunkCount c n) : c * i ≤ n := by
  cases i with
  | zero => exact Nat.zero_le _
  | succ i => exact le_of_lt ((succ_lt_chunkCount hc).1 hi)

/-- The entries up to the end of a chunk. -/
theorem start_add_chunkLen (hi : i < chunkCount c n) : c * i + chunkLen c n i = min (c * (i + 1)) n := by
  have hle := start_le_of_lt hc hi
  unfold chunkLen
  rw [Nat.mul_succ]
  omega

/-- A chunk that another one follows is full, the last one ends at the end. -/
theorem end_of_chunk (hi : i < chunkCount c n) : c * i + chunkLen c n i = n ↔ i + 1 = chunkCount c n := by
  rw [start_add_chunkLen hc hi]
  have hiff := succ_lt_chunkCount (n := n) (i := i) hc
  omega

theorem chunkLen_of_succ_lt (hi : i + 1 < chunkCount c n) : chunkLen c n i = c := by
  have hlt := (succ_lt_chunkCount hc).1 hi
  unfold chunkLen
  rw [Nat.mul_succ] at hlt
  omega

/-- The chunks up to one of them, put one behind the other. -/
theorem flatten_chunks (mem : Nat → α) (n : Nat) : ∀ {m}, m ≤ chunkCount c n →
    ((List.range m).map fun i => slice mem (c * i) (chunkLen c n i)).flatten = slice mem 0 (min (c * m) n) := by
  intro m
  induction m with
  | zero =>
    intro _
    rw [Nat.mul_zero, Nat.zero_min]
    rfl
  | succ m ih =>
    intro hm
    have hlt : m < chunkCount c n := hm
    have hstart : min (c * m) n = c * m := Nat.min_eq_left (start_le_of_lt hc hlt)
    rw [List.range_succ, List.map_append, List.flatten_append, ih (le_of_lt hlt), ← start_add_chunkLen hc hlt, hstart,
      ← slice_append, Nat.zero_add]
    simp

/-- The same, each at its place. -/
theorem placeAll_chunks (mem : Nat → α) (n : Nat) : ∀ {m}, m ≤ chunkCount c n →
    placeAll (fun _ => none) ((List.range m).map fun i => (c * i, slice mem (c * i) (chunkLen c n i))) =
      firstPart mem (min (c * m) n) := by
  intro m
  induction m with
  | zero =>
    intro _
    funext i
    rw [Nat.mul_zero, Nat.zero_min]
    rfl
  | succ m ih =>
    intro hm
    have hlt : m < chunkCount c n := hm
    have hstart : min (c * m) n = c * m := Nat.min_eq_left (start_le_of_lt hc hlt)
    have ih := ih (le_of_lt hlt)
    rw [placeAll] at ih ⊢
    rw [List.range_succ, List.map_append, List.foldl_append, ih, hstart, ← start_add_chunkLen hc hlt]
    exact storeList_next mem (c * m) (chunkLen c n m)

theorem chunkCount_mul (n : Nat) : n ≤ c * chunkCount c n := by
  have hiff := succ_lt_chunkCount (n := n) (i := (n - 1) / c) hc
  unfold chunkCount at hiff ⊢
  omega

end

end Shared

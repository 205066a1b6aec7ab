/-
Segments of a line: a start and a length. An empty one contains nothing, wherever it is.
-/
import Mathlib.Tactic

namespace Shared

structure Seg where
  start : Nat
  len : Nat
  deriving DecidableEq, Repr

namespace Seg

def stop (s : Seg) : Nat := s.start + s.len

instance : Membership Nat Seg := ⟨fun s x => s.start ≤ x ∧ x < s.stop⟩

instance (x : Nat) (s : Seg) : Decidable (x ∈ s) := inferInstanceAs (Decidable (_ ∧ _))

/-- Both have no point in common. -/
def Apart (a b : Seg) : Prop := ∀ x ∈ a, x ∉ b

/-- All points are below `n`. -/
def Below (s : Seg) (n : Nat) : Prop := ∀ x ∈ s, x < n

theorem mem_iff {s : Seg} {x : Nat} : x ∈ s ↔ s.start ≤ x ∧ x < s.stop := Iff.rfl

theorem below_iff {s : Seg} {n : Nat} : s.Below n ↔ 0 < s.len → s.stop ≤ n := by
  constructor
  · intro h hpos
    have hlast := h (s.stop - 1) ⟨by unfold stop; omega, by unfold stop; omega⟩
    omega
  · rintro h x ⟨hstart, hstop⟩
    have hpos : 0 < s.len := by unfold stop at hstop; omega
    exact lt_of_lt_of_le hstop (h hpos)

theorem Apart.symm {a b : Seg} (h : a.Apart b) : b.Apart a := fun x hb ha => h x ha hb

/-- One ends before the other starts. -/
theorem apart_of_le {a b : Seg} (h : a.stop ≤ b.start) : a.Apart b := by
  rintro x ⟨-, hx⟩ ⟨hx', -⟩
  omega

/-- Of two segments with points, one ends before the other starts. -/
theorem apart_iff {a b : Seg} (ha : 0 < a.len) (hb : 0 < b.len) : a.Apart b ↔ a.stop ≤ b.start ∨ b.stop ≤ a.start := by
  constructor
  · intro h
    by_contra hn
    push Not at hn
    refine h (max a.start b.start) ⟨le_max_left _ _, ?_⟩ ⟨le_max_right _ _, ?_⟩
    · rw [max_lt_iff]
      exact ⟨by unfold stop; omega, hn.1⟩
    · rw [max_lt_iff]
      exact ⟨hn.2, by unfold stop; omega⟩
  · rintro (h | h)
    · exact apart_of_le h
    · exact (apart_of_le h).symm

/-- In a row of segments each ends before all later ones. -/
theorem row_stop_le (seg : Nat → Seg) {n : Nat} (h : ∀ j, j + 1 < n → (seg j).stop ≤ (seg (j + 1)).start) {i j : Nat} (hij : i < j)
    (hj : j < n) : (seg i).stop ≤ (seg j).start := by
  induction j with
  | zero => omega
  | succ j ih =>
    rcases Nat.lt_succ_iff_lt_or_eq.1 hij with hlt | rfl
    · have hstart : (seg j).start ≤ (seg j).stop := Nat.le_add_right _ _
      exact (ih hlt (by omega)).trans (hstart.trans (h j hj))
    · exact h i hj

end Seg

end Shared

/-
Amounts on their way: what a party has produced waits with it until a collector takes it, the collector holds what it has taken, and
gives it out in parts. Taking and giving out leave the total as it is.
-/
import Mathlib.Tactic

namespace Shared

structure Stock (ι M : Type) where
  waiting : ι → M
  held : M
  given : List M

section

variable {ι M : Type} [AddCommMonoid M]

def Stock.empty : Stock ι M where
  waiting := fun _ => 0
  held := 0
  given := []

/-- The collector gives out what it holds. -/
def Stock.give (s : Stock ι M) : Stock ι M :=
  { s with held := 0, given := s.given ++ [s.held] }

def Stock.total [Fintype ι] (s : Stock ι M) : M := ∑ i, s.waiting i + s.held + s.given.sum

@[simp] theorem Stock.total_empty [Fintype ι] : (Stock.empty : Stock ι M).total = 0 := by
  simp [Stock.total, Stock.empty]

theorem Stock.total_give [Fintype ι] (s : Stock ι M) : s.give.total = s.total := by
  show ∑ j, s.waiting j + 0 + (s.given ++ [s.held]).sum = ∑ j, s.waiting j + s.held + s.given.sum
  rw [List.sum_append, List.sum_singleton, add_zero]
  ac_rfl

/-- Where nothing waits, the total is what is held and what was given out. -/
theorem Stock.total_of_collected [Fintype ι] {s : Stock ι M} (h : ∀ i, s.waiting i = 0) : s.total = s.held + s.given.sum := by
  rw [Stock.total, Finset.sum_eq_zero fun i _ => h i, zero_add]

variable [DecidableEq ι]

/-- A party has produced more. -/
def Stock.add (s : Stock ι M) (i : ι) (m : M) : Stock ι M :=
  { s with waiting := Function.update s.waiting i (s.waiting i + m) }

/-- The collector takes what waits with a party. -/
def Stock.collect (s : Stock ι M) (i : ι) : Stock ι M :=
  { s with waiting := Function.update s.waiting i 0, held := s.held + s.waiting i }

variable [Fintype ι]

/-- A change at one place, in a sum over all places. -/
theorem sum_update_add (f : ι → M) (i : ι) (m : M) : ∑ j, Function.update f i (f i + m) j = ∑ j, f j + m := by
  rw [Finset.sum_update_of_mem (Finset.mem_univ i), ← Finset.add_sum_erase _ f (Finset.mem_univ i), Finset.sdiff_singleton_eq_erase]
  rw [add_right_comm]

theorem sum_update_zero (f : ι → M) (i : ι) : ∑ j, Function.update f i 0 j + f i = ∑ j, f j := by
  rw [Finset.sum_update_of_mem (Finset.mem_univ i), ← Finset.add_sum_erase _ f (Finset.mem_univ i), Finset.sdiff_singleton_eq_erase]
  rw [zero_add, add_comm]

theorem Stock.total_add (s : Stock ι M) (i : ι) (m : M) : (s.add i m).total = s.total + m := by
  have hsum := sum_update_add s.waiting i m
  show ∑ j, Function.update s.waiting i (s.waiting i + m) j + s.held + s.given.sum = ∑ j, s.waiting j + s.held + s.given.sum + m
  rw [hsum]
  ac_rfl

theorem Stock.total_collect (s : Stock ι M) (i : ι) : (s.collect i).total = s.total := by
  have hsum := sum_update_zero s.waiting i
  show ∑ j, Function.update s.waiting i 0 j + (s.held + s.waiting i) + s.given.sum = ∑ j, s.waiting j + s.held + s.given.sum
  rw [← hsum]
  ac_rfl

end

end Shared

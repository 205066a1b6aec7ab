/-
The list of numbers and ranges that the tools take as an option (`struct list_range` of `netcope/nccommon.h`).
-/
import NdkSw.Ndp.Channel

namespace NdkSw.Tools

open Ndp

/-- One entry: two values of type `int`, the smaller one first. -/
structure RangeItem where
  min : U32
  max : U32
  ordered : min.toInt ≤ max.toInt

abbrev ListRange := List RangeItem

/-- `list_range_add_number`. -/
def listRangeAddNumber (lr : ListRange) (x : U32) : ListRange := lr ++ [{ min := x, max := x, ordered := Int.le_refl _ }]

/-- `list_range_add_range`; none if it refuses the range. -/
def listRangeAddRange (lr : ListRange) (x y : U32) : Option ListRange :=
  if h : x.toInt ≤ y.toInt then some (lr ++ [{ min := x, max := y, ordered := h }]) else none

/-- `list_range_contains`. -/
def listRangeContains (lr : ListRange) (item : U32) : Bool := lr.any fun r => r.min.sle item && item.sle r.max

/-- `list_range_count`. -/
def listRangeCount (lr : ListRange) : U32 := lr.foldl (fun count r => count + (r.max - r.min + 1)) 0

/-- A number is in one of the ranges. -/
def Listed (lr : ListRange) (z : Int) : Prop := ∃ r ∈ lr, r.min.toInt ≤ z ∧ z ≤ r.max.toInt

section

variable {lr : ListRange} {x y : U32} {z : Int}

theorem contains_iff : listRangeContains lr x = true ↔ Listed lr x.toInt := by
  unfold listRangeContains Listed
  rw [List.any_eq_true]
  constructor
  · rintro ⟨r, hr, hin⟩
    rw [Bool.and_eq_true, BitVec.sle_eq_decide, BitVec.sle_eq_decide, decide_eq_true_eq, decide_eq_true_eq] at hin
    exact ⟨r, hr, hin⟩
  · rintro ⟨r, hr, hin⟩
    refine ⟨r, hr, ?_⟩
    rw [Bool.and_eq_true, BitVec.sle_eq_decide, BitVec.sle_eq_decide, decide_eq_true_eq, decide_eq_true_eq]
    exact hin

end

end NdkSw.Tools

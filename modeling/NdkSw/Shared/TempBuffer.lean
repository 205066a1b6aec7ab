/-
A function and its temporary buffer. What it does is a list of operations in order; it keeps the discipline if it accesses the
buffer inside, frees it once and leaves none behind. The operations that do not concern the buffer are of any type.
-/
import Mathlib.Tactic

namespace Shared

/-- An operation of the function: a successful allocation of `n` bytes, an access to a range of them, `free`, or anything else. -/
inductive BufOp (E : Type) where
  | alloc (n : Nat)
  | access (off len : Nat)
  | free
  | call (e : E)
  deriving DecidableEq

variable {E : Type}

/-- One operation, with the size of the buffer that is held; `none` is a breach. An access of no bytes touches nothing. -/
def bufStep (held : Option Nat) : BufOp E → Option (Option Nat)
  | .alloc n =>
    match held with
    | none => some (some n)
    | some _ => none
  | .access off len =>
    match held with
    | none => if len = 0 then some none else none
    | some n => if len = 0 ∨ off + len ≤ n then some (some n) else none
  | .free =>
    match held with
    | none => none
    | some _ => some none
  | .call _ => some held

def bufRun : Option Nat → List (BufOp E) → Option (Option Nat)
  | held, [] => some held
  | held, op :: ops => (bufStep held op).bind fun held => bufRun held ops

/-- The whole function, from no buffer to no buffer. -/
def Disciplined (ops : List (BufOp E)) : Prop := bufRun none ops = some none

instance (ops : List (BufOp E)) : Decidable (Disciplined ops) := inferInstanceAs (Decidable (_ = _))

/-! ## Rules -/

@[simp] theorem bufRun_nil (held : Option Nat) : bufRun held ([] : List (BufOp E)) = some held := rfl

@[simp] theorem bufRun_call (held : Option Nat) (e : E) (ops : List (BufOp E)) : bufRun held (.call e :: ops) = bufRun held ops := rfl

@[simp] theorem bufRun_alloc (n : Nat) (ops : List (BufOp E)) : bufRun none (.alloc n :: ops) = bufRun (some n) ops := rfl

@[simp] theorem bufRun_free (n : Nat) (ops : List (BufOp E)) : bufRun (some n) (.free :: ops) = bufRun none ops := rfl

/-- An access inside. -/
theorem bufRun_access {n off len : Nat} (h : off + len ≤ n) (ops : List (BufOp E)) :
    bufRun (some n) (.access off len :: ops) = bufRun (some n) ops := by
  show (bufStep (some n) (.access off len)).bind _ = _
  rw [bufStep, if_pos (.inr h)]
  rfl

/-- An access outside. -/
theorem bufRun_beyond {n off len : Nat} (hpos : 0 < len) (h : n < off + len) (ops : List (BufOp E)) :
    bufRun (some n) (.access off len :: ops) = none := by
  have hout : ¬(len = 0 ∨ off + len ≤ n) := by omega
  show (bufStep (some n) (.access off len)).bind _ = _
  rw [bufStep, if_neg hout]
  rfl

/-- An access of no bytes needs no buffer. -/
@[simp] theorem bufRun_access_zero (held : Option Nat) (off : Nat) (ops : List (BufOp E)) :
    bufRun held (.access off 0 :: ops) = bufRun held ops := by
  cases held with
  | none => rfl
  | some n =>
    show (bufStep (some n) (.access off 0)).bind _ = _
    rw [bufStep, if_pos (.inl rfl)]
    rfl

theorem bufRun_append (ops ops' : List (BufOp E)) : ∀ held,
    bufRun held (ops ++ ops') = (bufRun held ops).bind fun held => bufRun held ops' := by
  induction ops with
  | nil => exact fun _ => rfl
  | cons op ops ih =>
    intro held
    rw [List.cons_append, bufRun, bufRun]
    cases bufStep held op with
    | none => rfl
    | some held' => exact ih held'

/-- Three ranges that follow each other and do not fit. -/
theorem bufRun_three_beyond {n a b c : Nat} (h : n < a + b + c) (ops : List (BufOp E)) :
    bufRun (some n) (.access 0 a :: .access a b :: .access (a + b) c :: ops) = none := by
  by_cases ha : n < a
  · exact bufRun_beyond (by omega) (by omega) _
  rw [bufRun_access (by omega)]
  by_cases hb : n < a + b
  · exact bufRun_beyond (by omega) hb _
  rw [bufRun_access (by omega)]
  exact bufRun_beyond (by omega) h _

end Shared

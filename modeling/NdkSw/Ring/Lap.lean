/-
Rings whose slots carry a valid bit. The writer toggles the bit at every lap, so that a reader who
knows the lap of its position tells a written slot from one that still holds the entry of a lap ago,
without a pointer of the writer. The first lap writes `true` over slots that were cleared before.
-/
import Mathlib.Tactic

namespace Ring

variable {N : Nat}

/-! ## The bit of a lap -/

/-- The valid bit of position `n`. -/
def lapBit (N n : Nat) : Bool := decide (n / N % 2 = 0)

@[simp] theorem lapBit_zero (N : Nat) : lapBit N 0 = true := by simp [lapBit]

theorem lapBit_add (hN : 0 < N) (n : Nat) : lapBit N (n + N) = !lapBit N n := by
  unfold lapBit
  rw [Nat.add_div_right n hN]
  rcases Nat.mod_two_eq_zero_or_one (n / N) with h | h <;> simp [Nat.succ_mod_two_eq_zero_iff, h]

theorem lapBit_congr {a b : Nat} (h : a / N = b / N) : lapBit N a = lapBit N b := by
  unfold lapBit; rw [h]

/-- The bit changes where the slot number wraps around. -/
theorem lapBit_succ (n : Nat) : lapBit N (n + 1) = if (n + 1) % N = 0 then !lapBit N n else lapBit N n := by
  unfold lapBit
  rw [Nat.succ_div]
  by_cases h : N ∣ n + 1
  · rw [if_pos h, if_pos (Nat.mod_eq_zero_of_dvd h)]
    rcases Nat.mod_two_eq_zero_or_one (n / N) with h2 | h2 <;> simp [Nat.succ_mod_two_eq_zero_iff, h2]
  · rw [if_neg h, if_neg (fun hm => h (Nat.dvd_of_mod_eq_zero hm)), Nat.add_zero]

/-- Less than one lap apart, two positions have the same bit if the later one has not wrapped around. -/
theorem lapBit_eq_iff {a b : Nat} (hab : a ≤ b) (hlap : b < a + N) : lapBit N a = lapBit N b ↔ a % N ≤ b % N := by
  have hN : 0 < N := by omega
  have ha := Nat.div_add_mod a N
  have hb := Nat.div_add_mod b N
  have hal := Nat.mod_lt a hN
  have hbl := Nat.mod_lt b hN
  have hle : a / N ≤ b / N := Nat.div_le_div_right hab
  have hge : b / N ≤ a / N + 1 := by
    rw [← Nat.add_div_right a hN]
    exact Nat.div_le_div_right (by omega)
  rcases Nat.lt_or_ge (a / N) (b / N) with h | h
  · have he : b / N = a / N + 1 := by omega
    rw [he, Nat.mul_add, Nat.mul_one] at hb
    have hne : lapBit N b = !lapBit N a := by
      rw [← lapBit_add hN]
      refine lapBit_congr ?_
      rw [he, Nat.add_div_right a hN]
    rw [hne]
    simp only [Bool.eq_not_self, false_iff]
    omega
  · have he : a / N = b / N := by omega
    rw [he] at ha
    exact ⟨fun _ => by omega, fun _ => lapBit_congr he⟩

theorem lapBit_eq_not {a b : Nat} (hab : a ≤ b) (hlap : b < a + N) (h : ¬ a % N ≤ b % N) : lapBit N a = !lapBit N b := by
  have hne := mt (lapBit_eq_iff hab hlap).1 h
  revert hne
  cases lapBit N a <;> cases lapBit N b <;> simp

/-! ## The slots -/

/-- The valid bits after `n` entries: the last lap has its own bits, and slots not reached yet are clear. -/
structure Toggled (N : Nat) (valid : Nat → Bool) (n : Nat) : Prop where
  written : ∀ p, p < n → n ≤ p + N → valid (p % N) = lapBit N p
  fresh : ∀ j, n ≤ j → j < N → valid j = false

theorem toggled_zero {valid : Nat → Bool} (h : ∀ j, j < N → valid j = false) : Toggled N valid 0 :=
  ⟨fun p hp => absurd hp (Nat.not_lt_zero p), fun j _ => h j⟩

/-- The slot that is written next does not look written. -/
theorem Toggled.next {valid : Nat → Bool} {n : Nat} (h : Toggled N valid n) (hN : 0 < N) : valid (n % N) = !lapBit N n := by
  rcases Nat.lt_or_ge n N with hlt | hge
  · rw [Nat.mod_eq_of_lt hlt, h.fresh n le_rfl hlt]
    simp [lapBit, Nat.div_eq_of_lt hlt]
  · have hw := h.written (n - N) (by omega) (by omega)
    rw [← Nat.mod_eq_sub_mod hge] at hw
    rw [hw, ← Nat.sub_add_cancel hge, lapBit_add hN, Nat.add_sub_cancel, Bool.not_not]

theorem Toggled.write {valid valid' : Nat → Bool} {n : Nat} (h : Toggled N valid n)
    (hself : valid' (n % N) = lapBit N n) (hother : ∀ j, j ≠ n % N → valid' j = valid j) : Toggled N valid' (n + 1) := by
  refine ⟨fun p hp hn => ?_, fun j hj hjN => ?_⟩
  · rcases Nat.lt_or_ge p n with hlt | hge
    · have hne : p % N ≠ n % N := by
        intro heq
        have hd := (Nat.modEq_iff_dvd' (Nat.le_of_lt hlt)).1 heq
        exact absurd (Nat.le_of_dvd (by omega) hd) (by omega)
      rw [hother _ hne]
      exact h.written p hlt (by omega)
    · rw [show p = n by omega]
      exact hself
  · have hne : j ≠ n % N := by
      have := Nat.mod_le n N
      omega
    rw [hother j hne]
    exact h.fresh j (by omega) hjN

end Ring

/-
Dividing `m` things evenly into `n` shares: thing `q` is in share `q * n / m`. The shares are intervals, one behind the other, and no two
of them differ by more than one thing.
-/
import Mathlib.Tactic

namespace Shared

/-- The share of a thing. -/
def share (m n q : Nat) : Nat := q * n / m

/-- The first thing that is not in a share before `i`. -/
def shareStart (m n i : Nat) : Nat := (i * m + n - 1) / n

section

variable {m n q r i j : Nat}

theorem share_lt (hq : q < m) (hn : 0 < n) : share m n q < n :=
  Nat.div_lt_of_lt_mul (Nat.mul_lt_mul_of_pos_right hq hn)

theorem share_mono (h : q ≤ r) : share m n q ≤ share m n r := Nat.div_le_div_right (Nat.mul_le_mul_right n h)

theorem share_lt_iff (hm : 0 < m) (hn : 0 < n) : share m n q < i ↔ q < shareStart m n i := by
  have hprod : (q + 1) * n = q * n + n := Nat.succ_mul q n
  rw [share, Nat.div_lt_iff_lt_mul hm, shareStart, Nat.lt_iff_add_one_le, Nat.lt_iff_add_one_le, Nat.le_div_iff_mul_le hn, hprod]
  omega

theorem shareStart_le (hi : i ≤ n) (hn : 0 < n) : shareStart m n i ≤ m := by
  have hprod : i * m ≤ n * m := Nat.mul_le_mul_right m hi
  rw [shareStart]
  apply Nat.le_of_lt_succ
  apply Nat.div_lt_of_lt_mul
  rw [Nat.mul_succ]
  omega

/-- A share starts a whole share, or one thing more, behind the one before. -/
theorem shareStart_succ (hn : 0 < n) :
    shareStart m n i + m / n ≤ shareStart m n (i + 1) ∧ shareStart m n (i + 1) ≤ shareStart m n i + m / n + 1 := by
  have hsum : (i + 1) * m + n - 1 = (i * m + n - 1) + m := by
    rw [Nat.succ_mul]
    omega
  rw [shareStart, shareStart, hsum, Nat.add_div hn]
  split <;> omega

theorem countP_lt_range (c m : Nat) : (List.range m).countP (fun q => q < c) = min c m := by
  induction m with
  | zero => rw [Nat.min_zero]; rfl
  | succ m ih =>
    rw [List.range_succ, List.countP_append, ih, List.countP_singleton]
    by_cases hm : m < c
    · rw [if_pos (by simpa using hm)]
      omega
    · rw [if_neg (by simpa using hm)]
      omega

theorem countP_lt_succ (f : Nat → Nat) (i : Nat) (l : List Nat) :
    l.countP (fun q => f q < i + 1) = l.countP (fun q => f q < i) + l.countP (fun q => f q = i) := by
  induction l with
  | nil => rfl
  | cons q l ih =>
    rw [List.countP_cons, List.countP_cons, List.countP_cons, ih]
    rcases Nat.lt_trichotomy (f q) i with hlt | heq | hgt
    · simp [hlt, Nat.lt_succ_of_lt hlt, hlt.ne]
      omega
    · simp [heq]
      omega
    · simp [Nat.not_lt.2 hgt.le, hgt.ne', Nat.not_lt.2 (Nat.succ_le_of_lt hgt)]

/-- How many things a share has. -/
theorem countP_share (hn : 0 < n) (hi : i < n) :
    (List.range m).countP (fun q => share m n q = i) = shareStart m n (i + 1) - shareStart m n i := by
  rcases Nat.eq_zero_or_pos m with rfl | hm
  · have hzero := shareStart_le (m := 0) (Nat.succ_le_of_lt hi) hn
    rw [Nat.le_zero.1 hzero, Nat.zero_sub]
    rfl
  · have hbefore : ∀ k, k ≤ n → (List.range m).countP (fun q => share m n q < k) = shareStart m n k := by
      intro k hk
      have hset : (fun q => decide (share m n q < k)) = fun q => decide (q < shareStart m n k) :=
        funext fun q => decide_eq_decide.2 (share_lt_iff hm hn)
      rw [hset, countP_lt_range, Nat.min_eq_left (shareStart_le hk hn)]
    have hsplit := countP_lt_succ (share m n) i (List.range m)
    rw [hbefore (i + 1) hi, hbefore i hi.le] at hsplit
    omega

/-- No two shares differ by more than one. -/
theorem shares_even (hn : 0 < n) (hi : i < n) (hj : j < n) :
    (List.range m).countP (fun q => share m n q = i) ≤ (List.range m).countP (fun q => share m n q = j) + 1 := by
  have hstep := shareStart_succ (m := m) (i := i) hn
  have hstep' := shareStart_succ (m := m) (i := j) hn
  rw [countP_share hn hi, countP_share hn hj]
  omega

end

end Shared

/-
Masked ring pointers. A ring of `2 ^ k` slots is addressed by machine words that only mean
something modulo `2 ^ k`; a program compares two of them by subtracting and masking. The proofs
count positions without bound instead: `At k x n` says that the word `x` stands at the absolute
position `n`, and every masked difference is then the plain difference of two positions, as
long as these are less than one lap apart.
-/
import Mathlib.Tactic

namespace Ring

variable {w n a b : Nat} {k : Nat} {m x y : BitVec w}

/-! ## Masks -/

/-- `m` is the mask of a ring of `2 ^ k` slots. -/
def IsMask (m : BitVec w) (k : Nat) : Prop := m.toNat + 1 = 2 ^ k

instance (m : BitVec w) (k : Nat) : Decidable (IsMask m k) := inferInstanceAs (Decidable (_ = _))

theorem IsMask.le_width (h : IsMask m k) : k ≤ w := by
  have : 2 ^ k ≤ 2 ^ w := by rw [← h]; exact m.isLt
  exact (Nat.pow_le_pow_iff_right (by norm_num)).1 this

theorem IsMask.toNat_eq (h : IsMask m k) : m.toNat = 2 ^ k - 1 := by
  unfold IsMask at h; omega

theorem IsMask.unique {m' : BitVec w} (h : IsMask m k) (h' : IsMask m' k) : m = m' :=
  BitVec.eq_of_toNat_eq (h.toNat_eq.trans h'.toNat_eq.symm)

theorem isMask_ofNat (hk : k ≤ w) : IsMask (BitVec.ofNat w (2 ^ k - 1)) k := by
  have hle : 2 ^ k ≤ 2 ^ w := Nat.pow_le_pow_right (by norm_num) hk
  have hpos : 0 < 2 ^ k := by positivity
  unfold IsMask
  rw [BitVec.toNat_ofNat, Nat.mod_eq_of_lt (by omega)]
  omega

theorem IsMask.toNat_and (h : IsMask m k) (x : BitVec w) : (x &&& m).toNat = x.toNat % 2 ^ k := by
  rw [BitVec.toNat_and, h.toNat_eq, Nat.and_two_pow_sub_one_eq_mod]

theorem IsMask.toNat_and_lt (h : IsMask m k) (x : BitVec w) : (x &&& m).toNat < 2 ^ k := by
  rw [h.toNat_and]; exact Nat.mod_lt _ (by positivity)

theorem IsMask.setWidth {v : Nat} (h : IsMask m k) (hk : k ≤ v) : IsMask (m.setWidth v) k := by
  unfold IsMask at *
  have hle : 2 ^ k ≤ 2 ^ v := Nat.pow_le_pow_right (by norm_num) hk
  rw [BitVec.toNat_setWidth, Nat.mod_eq_of_lt (by omega), h]

/-! ## Positions -/

/-- The word `x` stands at the absolute position `n` of a ring of `2 ^ k` slots. -/
def At (k : Nat) (x : BitVec w) (n : Nat) : Prop := x.toNat ≡ n [MOD 2 ^ k]

theorem at_toNat (x : BitVec w) : At k x x.toNat := Nat.ModEq.refl _

theorem at_of_mod (hx : x.toNat = n % 2 ^ k) : At k x n := by
  unfold At Nat.ModEq; rw [hx, Nat.mod_mod]

theorem at_ofNat (hk : k ≤ w) (n : Nat) : At k (BitVec.ofNat w n) n := by
  unfold At
  rw [BitVec.toNat_ofNat]
  exact (Nat.mod_modEq _ _).of_dvd (pow_dvd_pow 2 hk)

theorem At.congr (h : At k x a) (hab : a ≡ b [MOD 2 ^ k]) : At k x b :=
  Nat.ModEq.trans h hab

/-- A word below the ring size is the slot of its position. -/
theorem At.toNat_eq (h : At k x n) (hx : x.toNat < 2 ^ k) : x.toNat = n % 2 ^ k := by
  rw [← h]; exact (Nat.mod_eq_of_lt hx).symm

theorem At.add (hk : k ≤ w) (hx : At k x a) (hy : At k y b) : At k (x + y) (a + b) := by
  unfold At
  rw [BitVec.toNat_add]
  exact ((Nat.mod_modEq _ _).of_dvd (pow_dvd_pow 2 hk)).trans (Nat.ModEq.add hx hy)

theorem At.sub (hk : k ≤ w) (hx : At k x a) (hy : At k y b) (hab : b ≤ a) : At k (x - y) (a - b) := by
  unfold At
  rw [BitVec.toNat_sub]
  have hd : 2 ^ k ∣ 2 ^ w := pow_dvd_pow 2 hk
  refine ((Nat.mod_modEq _ _).of_dvd hd).trans ?_
  -- add `y` on both sides: what is left is `2 ^ w + x` against `a`
  apply Nat.ModEq.add_right_cancel' y.toNat
  have h1 : 2 ^ w - y.toNat + x.toNat + y.toNat = 2 ^ w + x.toNat := by have := y.isLt; omega
  rw [h1]
  calc 2 ^ w + x.toNat ≡ 0 + a [MOD 2 ^ k] := Nat.ModEq.add (Nat.modEq_zero_iff_dvd.2 hd) hx
    _ = (a - b) + b := by omega
    _ ≡ (a - b) + y.toNat [MOD 2 ^ k] := Nat.ModEq.add_left _ (Nat.ModEq.symm hy)

theorem At.and (hm : IsMask m k) (hx : At k x n) : At k (x &&& m) n := by
  unfold At
  rw [hm.toNat_and]
  exact (Nat.mod_modEq _ _).trans hx

theorem At.toNat_and (hm : IsMask m k) (hx : At k x n) : (x &&& m).toNat = n % 2 ^ k := by
  rw [hm.toNat_and]; exact hx

theorem At.setWidth {v : Nat} (hk : k ≤ v) (hx : At k x n) : At k (x.setWidth v) n := by
  unfold At
  rw [BitVec.toNat_setWidth]
  exact ((Nat.mod_modEq _ _).of_dvd (pow_dvd_pow 2 hk)).trans hx

/-- The one rule behind every masked difference: less than one lap apart, it is the difference
of the two positions. -/
theorem At.toNat_sub_and (hm : IsMask m k) (hx : At k x a) (hy : At k y b) (hab : b ≤ a) (hlap : a - b < 2 ^ k) :
    ((x - y) &&& m).toNat = a - b := by
  rw [(At.sub hm.le_width hx hy hab).toNat_and hm, Nat.mod_eq_of_lt hlap]

theorem at_sub_and (hm : IsMask m k) (x y : BitVec w) : At k (x - y) ((x - y) &&& m).toNat := by
  unfold At
  rw [hm.toNat_and]
  exact (Nat.mod_modEq _ _).symm

/-- A word stands as far before another one as its masked distance says. -/
theorem At.add_dist (hm : IsMask m k) (hy : At k y a) : At k x (a + ((x - y) &&& m).toNat) := by
  have hat := At.add hm.le_width hy (at_sub_and hm x y)
  rwa [BitVec.add_comm y, BitVec.sub_add_cancel] at hat

theorem At.sub_dist (hm : IsMask m k) (hy : At k y a) (hle : ((y - x) &&& m).toNat ≤ a) : At k x (a - ((y - x) &&& m).toNat) := by
  have hat := At.sub hm.le_width hy (at_sub_and hm y x) hle
  have hx : y - (y - x) = x := by
    rw [BitVec.sub_eq_add_neg, BitVec.neg_sub, ← BitVec.add_assoc, BitVec.add_right_neg, BitVec.zero_add]
  rwa [hx] at hat

/-- Two words below the ring size at positions less than one lap apart are equal only at the
same position. -/
theorem At.eq_iff (hx : At k x a) (hy : At k y b) (hxl : x.toNat < 2 ^ k) (hyl : y.toNat < 2 ^ k) (hab : b ≤ a) (hlap : a - b < 2 ^ k) :
    x = y ↔ a = b := by
  rw [BitVec.toNat_inj.symm, hx.toNat_eq hxl, hy.toNat_eq hyl]
  constructor
  · intro h
    have h2 : b ≡ a [MOD 2 ^ k] := h.symm
    have h3 := (Nat.modEq_iff_dvd' hab).1 h2
    rcases Nat.eq_zero_or_pos (a - b) with h0 | h0
    · omega
    · exact absurd (Nat.le_of_dvd h0 h3) (by omega)
  · rintro rfl; rfl

/-- The distance of two positions less than one lap apart, from their slots. -/
theorem mod_distance (hab : b ≤ a) (hlap : a < b + n) : (a % n + n - b % n) % n = a - b := by
  have hn : 0 < n := by omega
  have hb := Nat.mod_lt b hn
  have ha : a % n = (b % n + (a - b)) % n := by
    rw [Nat.mod_add_mod, Nat.add_sub_cancel' hab]
  rw [ha]
  rcases Nat.lt_or_ge (b % n + (a - b)) n with h | h
  · rw [Nat.mod_eq_of_lt h, show b % n + (a - b) + n - b % n = a - b + n by omega, Nat.add_mod_right,
      Nat.mod_eq_of_lt (by omega)]
  · rw [Nat.mod_eq_sub_mod h, Nat.mod_eq_of_lt (show b % n + (a - b) - n < n by omega),
      show b % n + (a - b) - n + n - b % n = a - b by omega, Nat.mod_eq_of_lt (by omega)]

/-- The minimum of two machine words, as `min` of C. -/
def umin (x y : BitVec w) : BitVec w := if x < y then x else y

@[simp] theorem toNat_umin (x y : BitVec w) : (umin x y).toNat = min x.toNat y.toNat := by
  unfold umin
  split
  · rename_i h; rw [min_eq_left (by have := BitVec.lt_def.1 h; omega)]
  · rename_i h; rw [min_eq_right (by have := mt BitVec.lt_def.2 h; omega)]

/-! ## Slots -/

/-- The slot of a position. -/
def slot (k n : Nat) : Nat := n % 2 ^ k

/-- The slots of `c` consecutive positions from `a` on. -/
def slots (k a c : Nat) : List Nat := (List.range c).map fun i => slot k (a + i)

@[simp] theorem slots_zero (k a : Nat) : slots k a 0 = [] := rfl

@[simp] theorem length_slots (k a c : Nat) : (slots k a c).length = c := by simp [slots]

theorem slots_append (k a c d : Nat) : slots k a c ++ slots k (a + c) d = slots k a (c + d) := by
  unfold slots
  rw [List.range_add, List.map_append, List.map_map]
  congr 1
  exact List.map_congr_left fun i _ => by simp [Nat.add_assoc]

theorem mem_slots {c : Nat} : n ∈ slots k a c ↔ ∃ i, a ≤ i ∧ i < a + c ∧ slot k i = n := by
  simp only [slots, List.mem_map, List.mem_range]
  constructor
  · rintro ⟨i, hi, rfl⟩; exact ⟨a + i, by omega, by omega, rfl⟩
  · rintro ⟨i, h1, h2, rfl⟩; exact ⟨i - a, by omega, by rw [Nat.add_sub_cancel' h1]⟩

/-- Positions less than one lap apart have different slots. -/
theorem slot_inj {i j : Nat} (h : slot k i = slot k j) (h1 : i < j + 2 ^ k) (h2 : j < i + 2 ^ k) : i = j := by
  rcases le_total i j with hij | hij
  · have hd := (Nat.modEq_iff_dvd' hij).1 h
    rcases Nat.eq_zero_or_pos (j - i) with h0 | h0
    · omega
    · exact absurd (Nat.le_of_dvd h0 hd) (by omega)
  · have hd := (Nat.modEq_iff_dvd' hij).1 (Eq.symm h)
    rcases Nat.eq_zero_or_pos (i - j) with h0 | h0
    · omega
    · exact absurd (Nat.le_of_dvd h0 hd) (by omega)

/-- Consecutive runs of positions inside one lap have disjoint slots. -/
theorem slots_disjoint {c d : Nat} (hab : a + c ≤ b) (hlap : b + d ≤ a + 2 ^ k) : List.Disjoint (slots k a c) (slots k b d) := by
  intro n h1 h2
  obtain ⟨i, hi1, hi2, rfl⟩ := mem_slots.1 h1
  obtain ⟨j, hj1, hj2, hj⟩ := mem_slots.1 h2
  have := slot_inj hj (by omega) (by omega)
  omega

theorem slots_nodup {c : Nat} (hlap : c ≤ 2 ^ k) : (slots k a c).Nodup := by
  refine List.Nodup.map_on (fun i hi j hj h => ?_) List.nodup_range
  have hi' := List.mem_range.1 hi
  have hj' := List.mem_range.1 hj
  have := slot_inj h (by omega) (by omega)
  omega

/-! ## Memory -/

/-- A ring of `n` slots holds the last `n` entries of the stream written to it. -/
def HoldsLast {α : Type} (n : Nat) (mem : Nat → α) (l : List α) : Prop :=
  ∀ p d, l[p]? = some d → l.length ≤ p + n → mem (p % n) = d

theorem HoldsLast.nil {α : Type} (n : Nat) (mem : Nat → α) : HoldsLast n mem [] :=
  fun _ _ h => absurd h (by simp)

theorem HoldsLast.write {α : Type} {n : Nat} {mem : Nat → α} {l : List α} (h : HoldsLast n mem l) {i : Nat}
    (hi : i % n = l.length % n) {d : α} : HoldsLast n (Function.update mem (i % n) d) (l ++ [d]) := by
  intro p e hp hlen
  rw [List.length_append, List.length_singleton] at hlen
  rcases Nat.lt_or_ge p l.length with hlt | hge
  · rw [List.getElem?_append_left hlt] at hp
    have hne : p % n ≠ i % n := by
      rw [hi]
      intro heq
      have hd := (Nat.modEq_iff_dvd' (Nat.le_of_lt hlt)).1 heq
      exact absurd (Nat.le_of_dvd (by omega) hd) (by omega)
    rw [Function.update_of_ne hne]
    exact h p e hp (by omega)
  · rw [List.getElem?_append_right hge] at hp
    have hpe : p = l.length := by
      have := (List.getElem?_eq_some_iff.1 hp).1
      simp at this; omega
    rw [hpe, ← hi, Function.update_self]
    rw [hpe, Nat.sub_self] at hp
    exact Option.some.inj hp

end Ring

/-
A queue in a ring of memory: from one position on, the slots stand for the entries of a list, one each. Entries are
appended behind the last one as long as the ring is not full and dropped at the front; neither touches the others.
What a slot stands for is a relation between its contents and an entry.
-/
import NdkSw.Ring.Ptr

namespace Ring

variable {α β : Type} {k p : Nat} {mem : Nat → β} {R : β → α → Prop} {l : List α}

/-- The slots from position `p` on stand for the entries of `l`. -/
def Window (k p : Nat) (mem : Nat → β) (R : β → α → Prop) (l : List α) : Prop :=
  ∀ i a, l[i]? = some a → R (mem (slot k (p + i))) a

theorem Window.nil : Window k p mem R [] := by
  intro i a h
  cases h

theorem Window.head {a : α} (h : Window k p mem R (a :: l)) : R (mem (slot k p)) a := h 0 a rfl

theorem Window.drop (h : Window k p mem R l) (n : Nat) : Window k (p + n) mem R (l.drop n) := by
  intro i a hi
  rw [List.getElem?_drop] at hi
  have := h (n + i) a hi
  rwa [← Nat.add_assoc] at this

theorem Window.tail {a : α} (h : Window k p mem R (a :: l)) : Window k (p + 1) mem R l := h.drop 1

/-- What changes no slot of the queue keeps it. -/
theorem Window.congr (h : Window k p mem R l) {mem' : Nat → β}
    (hsame : ∀ i < l.length, mem' (slot k (p + i)) = mem (slot k (p + i))) : Window k p mem' R l := by
  intro i a hi
  rw [hsame i (List.getElem?_eq_some_iff.1 hi).1]
  exact h i a hi

/-- Two slots of one lap. -/
theorem slot_ne {i j : Nat} (hij : i < j) (hlap : j < i + 2 ^ k) : slot k i ≠ slot k j := by
  intro h
  have := slot_inj h (by omega) (by omega)
  omega

/-- A write behind the queue does not touch it. -/
theorem update_behind {b : β} {i j : Nat} (hi : i < j) (hj : j < i + 2 ^ k) :
    Function.update mem (slot k j) b (slot k i) = mem (slot k i) :=
  Function.update_of_ne (slot_ne hi hj) _ _

/-- Appending an entry to a queue that is not full. -/
theorem Window.push (h : Window k p mem R l) (hroom : l.length < 2 ^ k) {b : β} {a : α} (hb : R b a) :
    Window k p (Function.update mem (slot k (p + l.length)) b) R (l ++ [a]) := by
  intro i c hi
  rcases Nat.lt_or_ge i l.length with hlt | hge
  · rw [List.getElem?_append_left hlt] at hi
    rw [update_behind (by omega) (by omega)]
    exact h i c hi
  · rw [List.getElem?_append_right hge] at hi
    obtain ⟨hi', rfl⟩ := List.getElem?_eq_some_iff.1 hi
    have heq : i = l.length := by simp at hi'; omega
    subst heq
    simpa using hb

/-- Two runs of slots shorter than the ring are the same slots only if they are as long and start at the same slot. -/
theorem slots_perm_iff {a b n m : Nat} (hm : m < 2 ^ k) :
    (slots k a n).Perm (slots k b m) ↔ n = m ∧ (m = 0 ∨ slot k a = slot k b) := by
  constructor
  · intro h
    have hlen := h.length_eq
    rw [length_slots, length_slots] at hlen
    subst hlen
    refine ⟨rfl, or_iff_not_imp_left.2 fun h0 => ?_⟩
    have ha : slot k a ∈ slots k b n := h.subset (mem_slots.2 ⟨a, le_rfl, by omega, rfl⟩)
    obtain ⟨j, hj1, hj2, hj⟩ := mem_slots.1 ha
    rcases Nat.eq_or_lt_of_le hj1 with rfl | hlt
    · exact hj.symm
    -- the slot before the first of one run is in the other one, a whole lap behind its end
    have hpred : slot k (j - 1) ∈ slots k a n := h.symm.subset (mem_slots.2 ⟨j - 1, by omega, by omega, rfl⟩)
    obtain ⟨i, hi1, hi2, hi⟩ := mem_slots.1 hpred
    have hshift : slot k (j + (i - a)) = slot k (j - 1 + 2 ^ k) := by
      unfold slot at *
      rw [Nat.add_mod_right, ← hi, Nat.add_mod, hj, ← Nat.add_mod, Nat.add_sub_cancel' hi1]
    have := slot_inj hshift (by omega) (by omega)
    omega
  · rintro ⟨rfl, rfl | hslot⟩
    · exact List.Perm.refl _
    · have heq : slots k a n = slots k b n := by
        unfold slots
        refine List.map_congr_left fun i _ => ?_
        unfold slot at *
        rw [Nat.add_mod, hslot, ← Nat.add_mod]
      rw [heq]

/-- The distance of the two ends. -/
theorem distance_window {w n : Nat} {m x y : BitVec w} (hm : IsMask m k) (hx : x.toNat = slot k (p + n))
    (hy : y.toNat = slot k p) (hn : n < 2 ^ k) : ((x - y) &&& m).toNat = n := by
  have h := At.toNat_sub_and hm (at_of_mod hx) (at_of_mod hy) (Nat.le_add_right p n) (by omega)
  omega

theorem at_one {w : Nat} (hk : k ≤ w) : At k (1 : BitVec w) 1 := at_ofNat hk 1

/-- The free slots of a ring that keeps one slot empty. -/
theorem free_window {w n : Nat} {m x y : BitVec w} (hm : IsMask m k) (hx : x.toNat = slot k (p + n))
    (hy : y.toNat = slot k p) (hn : n < 2 ^ k) : ((y - x - 1) &&& m).toNat = 2 ^ k - 1 - n := by
  have hk := hm.le_width
  have hlap : At k y (p + 2 ^ k) := (at_of_mod hy).congr (by unfold Nat.ModEq; simp)
  have hdist : At k (y - x) (2 ^ k - n) := by
    have := At.sub hk hlap (at_of_mod hx) (by omega)
    rwa [show p + 2 ^ k - (p + n) = 2 ^ k - n by omega] at this
  rw [At.toNat_sub_and hm hdist (at_one hk) (by omega) (by omega)]
  omega

/-- One slot further. -/
theorem toNat_succ_and {w n : Nat} {m x : BitVec w} (hm : IsMask m k) (hx : x.toNat = slot k n) :
    ((x + 1) &&& m).toNat = slot k (n + 1) :=
  (At.add hm.le_width (at_of_mod hx) (at_one hm.le_width)).toNat_and hm

end Ring

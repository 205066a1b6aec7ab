/-
Chains of descriptors. A reader that walks a chain finds, entry by entry, a piece of memory or the place where the chain goes
on; what stands at a position of the stream is a matter of the pieces passed. A chain that ends in a jump back to one of
its own entries shows the pieces from there on again and again.
-/
import Mathlib.Tactic

namespace Ring

variable {A B : Type}

/-- An entry of a chain: `len` bytes from `start` on, or the place of the next entry. -/
inductive Link (A B : Type) where
  | piece (start : B) (len : Nat)
  | jump (a : A)
  deriving DecidableEq

section

variable (shift : B → Nat → B)

/-! ## Pieces -/

/-- The byte at a position of some pieces in a row. -/
def byteAt : List (B × Nat) → Nat → Option B
  | [], _ => none
  | (b, n) :: l, p => if p < n then some (shift b p) else byteAt l (p - n)

/-- The bytes of some pieces. -/
def total (l : List (B × Nat)) : Nat := (l.map Prod.snd).sum

@[simp] theorem total_nil : total ([] : List (B × Nat)) = 0 := rfl

@[simp] theorem total_cons (a : B × Nat) (l : List (B × Nat)) : total (a :: l) = a.2 + total l := rfl

@[simp] theorem total_append (l l' : List (B × Nat)) : total (l ++ l') = total l + total l' := by
  simp [total]

theorem byteAt_append (l l' : List (B × Nat)) (p : Nat) :
    byteAt shift (l ++ l') p = if p < total l then byteAt shift l p else byteAt shift l' (p - total l) := by
  induction l generalizing p with
  | nil => simp
  | cons a l ih =>
    obtain ⟨b, n⟩ := a
    rw [List.cons_append, byteAt, byteAt, total_cons, ih]
    by_cases hp : p < n
    · rw [if_pos hp, if_pos hp, if_pos (by omega)]
    · rw [if_neg hp, if_neg hp, Nat.sub_sub]
      by_cases hq : p - n < total l
      · rw [if_pos hq, if_pos (by omega)]
      · rw [if_neg hq, if_neg (by omega)]

/-! ## Walks -/

variable (rd : A → Link A B) (next : A → A)

/-- A reader that starts at entry `a` finds byte `x` at position `p` of the stream. -/
inductive Serves : A → Nat → B → Prop
  | here {a : A} {b : B} {n p : Nat} : rd a = .piece b n → p < n → Serves a p (shift b p)
  | skip {a : A} {b x : B} {n p : Nat} : rd a = .piece b n → n ≤ p → Serves (next a) (p - n) x → Serves a p x
  | jump {a a' : A} {p : Nat} {x : B} : rd a = .jump a' → Serves a' p x → Serves a p x

variable {shift rd next} {l : List (B × Nat)} {a : A}

theorem serves_piece {b x : B} {n p : Nat} (h : rd a = .piece b n) :
    Serves shift rd next a p x ↔ if p < n then shift b p = x else Serves shift rd next (next a) (p - n) x := by
  constructor
  · rintro (⟨hr, hp⟩ | ⟨hr, hp, hs⟩ | ⟨hr, -⟩)
    · rw [h] at hr
      cases hr
      rw [if_pos hp]
    · rw [h] at hr
      cases hr
      rwa [if_neg (not_lt.2 hp)]
    · rw [h] at hr
      cases hr
  · intro hx
    by_cases hp : p < n
    · rw [if_pos hp] at hx
      rw [← hx]
      exact .here h hp
    · rw [if_neg hp] at hx
      exact .skip h (not_lt.1 hp) hx

theorem serves_jump {a' : A} {x : B} {p : Nat} (h : rd a = .jump a') : Serves shift rd next a p x ↔ Serves shift rd next a' p x := by
  constructor
  · rintro (⟨hr, -⟩ | ⟨hr, -, -⟩ | ⟨hr, hs⟩)
    · rw [h] at hr
      cases hr
    · rw [h] at hr
      cases hr
    · rw [h] at hr
      cases hr
      exact hs
  · exact .jump h

/-- The pieces stand in consecutive entries from `a` on. -/
def Lays (rd : A → Link A B) (next : A → A) (a : A) (l : List (B × Nat)) : Prop :=
  ∀ i (h : i < l.length), rd (next^[i] a) = .piece l[i].1 l[i].2

theorem Lays.tail {c : B × Nat} (h : Lays rd next a (c :: l)) : Lays rd next (next a) l := by
  intro i hi
  exact h (i + 1) (Nat.succ_lt_succ hi)

theorem lays_append {l' : List (B × Nat)} : Lays rd next a (l ++ l') ↔ Lays rd next a l ∧ Lays rd next (next^[l.length] a) l' := by
  constructor
  · intro h
    constructor
    · intro i hi
      have hget := h i (by rw [List.length_append]; omega)
      rwa [List.getElem_append_left hi] at hget
    · intro i hi
      have hget := h (i + l.length) (by rw [List.length_append]; omega)
      rw [Function.iterate_add_apply, List.getElem_append_right (by omega)] at hget
      simpa using hget
  · rintro ⟨h, h'⟩ i hi
    rw [List.length_append] at hi
    by_cases hil : i < l.length
    · rw [List.getElem_append_left hil]
      exact h i hil
    · have hget := h' (i - l.length) (by omega)
      rwa [← Function.iterate_add_apply, Nat.sub_add_cancel (not_lt.1 hil), ← List.getElem_append_right (not_lt.1 hil)] at hget

/-- A reader goes through the pieces that are laid out and on behind them. -/
theorem Lays.serves (h : Lays rd next a l) (p : Nat) (x : B) :
    Serves shift rd next a p x ↔
      if p < total l then byteAt shift l p = some x else Serves shift rd next (next^[l.length] a) (p - total l) x := by
  induction l generalizing a p with
  | nil => simp
  | cons c l ih =>
    obtain ⟨b, n⟩ := c
    have hhead : rd a = .piece b n := h 0 (Nat.succ_pos _)
    rw [serves_piece hhead, byteAt, total_cons]
    dsimp only
    by_cases hp : p < n
    · rw [if_pos hp, if_pos hp, if_pos (by omega), Option.some.injEq]
    · rw [if_neg hp, if_neg hp, ih h.tail, Nat.sub_sub]
      by_cases hq : p - n < total l
      · rw [if_pos hq, if_pos (by omega)]
      · rw [if_neg hq, if_neg (by omega)]
        rfl

/-- Pieces that end in a jump back to the first of them are a loop. -/
theorem Lays.serves_loop (h : Lays rd next a l) (hjump : rd (next^[l.length] a) = .jump a) (hpos : 0 < total l) (p : Nat) (x : B) :
    Serves shift rd next a p x ↔ byteAt shift l (p % total l) = some x := by
  induction p using Nat.strong_induction_on with
  | _ p ih =>
    rw [h.serves]
    by_cases hp : p < total l
    · rw [if_pos hp, Nat.mod_eq_of_lt hp]
    · rw [if_neg hp, serves_jump hjump, ih _ (by omega), ← Nat.mod_eq_sub_mod (not_lt.1 hp)]

/-- A first stage that shows what a list of pieces has from `o` on, and a loop over the whole list: the reader sees the list
turned by `o`. -/
theorem serves_rotated {l₀ l₁ : List (B × Nat)} {o : Nat} (h₀ : Lays rd next a l₀) (h₁ : Lays rd next (next^[l₀.length] a) l₁)
    (hjump : rd (next^[l₁.length] (next^[l₀.length] a)) = .jump (next^[l₀.length] a)) (hpos : 0 < total l)
    (hfirst : l₀ = [] ∧ o = 0 ∨ total l₀ + o = total l ∧ ∀ p, byteAt shift l₀ p = byteAt shift l (o + p)) (htotal : total l₁ = total l)
    (hsecond : ∀ p, byteAt shift l₁ p = byteAt shift l p) (p : Nat) (x : B) :
    Serves shift rd next a p x ↔ byteAt shift l ((o + p) % total l) = some x := by
  have hloop : ∀ p, Serves shift rd next (next^[l₀.length] a) p x ↔ byteAt shift l₁ (p % total l₁) = some x := fun p =>
    h₁.serves_loop hjump (by rw [htotal]; exact hpos) p x
  rw [h₀.serves]
  obtain ⟨rfl, rfl⟩ | ⟨hsum, hbyte⟩ := hfirst
  · rw [total_nil, if_neg (Nat.not_lt_zero p), hloop, htotal, hsecond, Nat.sub_zero, Nat.zero_add]
  · by_cases hp : p < total l₀
    · rw [if_pos hp, hbyte, Nat.mod_eq_of_lt (by omega)]
    · rw [if_neg hp, hloop, htotal, hsecond, show o + p = total l + (p - total l₀) by omega, Nat.add_mod_left]

end

end Ring

/-
A list that is replayed a number of times, by a source that gives some items in every round. What the source has delivered is always
the start of the repeated list, and it ends where the repeated list ends; two sources of one list agree.
-/
import Mathlib.Tactic

namespace Shared

variable {α : Type}

/-! ## Repeated lists -/

/-- Item `n` of a list that is repeated `loops` times, or forever if that is zero. -/
def repeated (l : List α) (loops n : Nat) : Option α := if loops = 0 ∨ n < loops * l.length then l[n % l.length]? else none

/-- The place in the list, and the number of the pass: `n` items are gone, `j` of them in pass `current`. -/
def Cursor (len loops n j current : Nat) : Prop := ∃ k, n = k * len + j ∧ j ≤ len ∧ (loops = 0 ∨ current = k + 1 ∧ k < loops)

section

variable {l : List α} {len loops n j current : Nat}

theorem repeated_nil (loops n : Nat) : repeated ([] : List α) loops n = none := by
  unfold repeated
  split_ifs
  · rfl
  · rfl

theorem repeated_eq_none (hl : l ≠ []) : repeated l loops n = none ↔ loops ≠ 0 ∧ loops * l.length ≤ n := by
  have hlt : n % l.length < l.length := Nat.mod_lt _ (List.length_pos_of_ne_nil hl)
  unfold repeated
  split_ifs with h
  · rw [List.getElem?_eq_getElem hlt]
    constructor
    · intro hc
      cases hc
    · omega
  · exact ⟨fun _ => by omega, fun _ => rfl⟩

/-- A repeated list, written out. -/
theorem getElem?_flatten_replicate (l : List α) : ∀ loops n,
    (List.replicate loops l).flatten[n]? = if n < loops * l.length then l[n % l.length]? else none := by
  intro loops
  induction loops with
  | zero =>
    intro n
    rw [Nat.zero_mul, if_neg (Nat.not_lt_zero n)]
    rfl
  | succ loops ih =>
    intro n
    rw [List.replicate_succ, List.flatten_cons, Nat.succ_mul]
    rcases Nat.lt_or_ge n l.length with hlt | hge
    · rw [List.getElem?_append_left hlt, if_pos (by omega), Nat.mod_eq_of_lt hlt]
    · obtain ⟨m, rfl⟩ := Nat.exists_eq_add_of_le hge
      rw [List.getElem?_append_right hge, Nat.add_sub_cancel_left, ih, Nat.add_mod_left]
      congr 1
      exact propext ⟨fun h => by omega, fun h => by omega⟩

theorem cursor_start (len loops : Nat) : Cursor len loops 0 0 1 := by
  refine ⟨0, by omega, Nat.zero_le _, ?_⟩
  omega

theorem Cursor.advance (h : Cursor len loops n j current) {i : Nat} (hi : j + i ≤ len) : Cursor len loops (n + i) (j + i) current := by
  obtain ⟨k, rfl, -, hk⟩ := h
  exact ⟨k, Nat.add_assoc _ _ _, hi, hk⟩

/-- At the end of a pass, another one follows. -/
theorem Cursor.wrap (h : Cursor len loops n len current) (hmore : loops = 0 ∨ current < loops) : Cursor len loops n 0 (current + 1) := by
  obtain ⟨k, rfl, -, hk⟩ := h
  refine ⟨k + 1, by rw [Nat.succ_mul, Nat.add_zero], Nat.zero_le _, ?_⟩
  omega

/-- In a pass, the items of the list follow. -/
theorem Cursor.repeated (h : Cursor l.length loops n j current) {i : Nat} (hi : j + i < l.length) : Shared.repeated l loops (n + i) = l[j + i]? := by
  obtain ⟨k, rfl, -, hk⟩ := h
  have hmod : (k * l.length + j + i) % l.length = j + i := by
    rw [Nat.add_assoc, Nat.add_comm, Nat.add_mul_mod_self_right, Nat.mod_eq_of_lt hi]
  unfold Shared.repeated
  rw [hmod, if_pos]
  rcases hk with hzero | ⟨-, hlt⟩
  · exact Or.inl hzero
  · have hmul : (k + 1) * l.length ≤ loops * l.length := Nat.mul_le_mul_right _ hlt
    rw [Nat.succ_mul] at hmul
    omega

/-- At the end of the last pass nothing follows. -/
theorem Cursor.repeated_end (h : Cursor l.length loops n l.length current) (hlast : ¬ (loops = 0 ∨ current < loops)) :
    Shared.repeated l loops n = none := by
  obtain ⟨k, rfl, -, hk⟩ := h
  have hloops : loops = k + 1 := by omega
  unfold Shared.repeated
  rw [if_neg]
  rw [hloops, Nat.succ_mul]
  omega

end

/-! ## Sources -/

/-- What a source has delivered, and whether it has ended itself. -/
structure Delivery (α : Type) where
  items : List α
  ended : Bool
  deriving DecidableEq, Repr

/-- A source asked round by round; no items and no next state at its end. -/
def runRounds {σ ι : Type} (step : σ → ι → Option (σ × List α)) : σ → List ι → Delivery α
  | _, [] => ⟨[], false⟩
  | s, i :: is =>
    match step s i with
    | none => ⟨[], true⟩
    | some (s', l) => ⟨l ++ (runRounds step s' is).items, (runRounds step s' is).ended⟩

/-- The delivered items are the first ones of those wanted, all of them if the source has ended; every other round delivers some. -/
structure Replays (wanted : Nat → Option α) (rounds : Nat) (out : Delivery α) : Prop where
  items : ∀ n < out.items.length, wanted n = out.items[n]?
  complete : out.ended = true → wanted out.items.length = none
  progress : out.ended = false → rounds ≤ out.items.length

section

variable {σ ι : Type} {step : σ → ι → Option (σ × List α)} {wanted : Nat → Option α} {Inv : σ → Nat → Prop}

/-- What one round does, all rounds do. -/
theorem runRounds_replays (hstep : ∀ s n i, Inv s n → (step s i = none ∧ wanted n = none) ∨
      ∃ s' l, step s i = some (s', l) ∧ l ≠ [] ∧ (∀ j < l.length, wanted (n + j) = l[j]?) ∧ Inv s' (n + l.length)) :
    ∀ is s n, Inv s n → Replays (fun m => wanted (n + m)) is.length (runRounds step s is) := by
  intro is
  induction is with
  | nil => exact fun s n _ => ⟨fun m hm => absurd hm (Nat.not_lt_zero m), fun h => Bool.noConfusion h, fun _ => Nat.zero_le _⟩
  | cons i is ih =>
    intro s n hs
    rcases hstep s n i hs with ⟨hend, hnone⟩ | ⟨s', l, hsome, hl, hitems, hs'⟩
    · rw [runRounds, hend]
      exact ⟨fun m hm => absurd hm (Nat.not_lt_zero m), fun _ => hnone, fun h => Bool.noConfusion h⟩
    · have hrest := ih s' (n + l.length) hs'
      have hpos := List.length_pos_of_ne_nil hl
      rw [runRounds, hsome]
      refine ⟨?_, ?_, ?_⟩
      · intro m hm
        dsimp only at hm ⊢
        rcases Nat.lt_or_ge m l.length with hlt | hge
        · rw [hitems m hlt, List.getElem?_append_left hlt]
        · obtain ⟨k, rfl⟩ := Nat.exists_eq_add_of_le hge
          rw [List.length_append] at hm
          rw [List.getElem?_append_right hge, Nat.add_sub_cancel_left, ← hrest.items k (by omega), Nat.add_assoc]
      · intro h
        dsimp only at h ⊢
        rw [List.length_append, ← Nat.add_assoc]
        exact hrest.complete h
      · intro h
        dsimp only at h ⊢
        have hle := hrest.progress h
        rw [List.length_append, List.length_cons]
        omega

end

section

variable {wanted wanted' : Nat → Option α} {rounds rounds' : Nat} {out out' : Delivery α}

/-- Two sources of the same items: one has delivered the first items of the other one. -/
theorem Replays.prefix_or (h : Replays wanted rounds out) (h' : Replays wanted rounds' out') :
    out.items <+: out'.items ∨ out'.items <+: out.items := by
  have hfirst : ∀ {a b : List α}, a.length ≤ b.length → (∀ n < a.length, wanted n = a[n]?) → (∀ n < b.length, wanted n = b[n]?) → a <+: b := by
    intro a b hle ha hb
    rw [List.prefix_iff_getElem?]
    intro n hn
    rw [← hb n (by omega), ha n hn, List.getElem?_eq_getElem hn]
  rcases Nat.le_total out.items.length out'.items.length with hle | hle
  · exact Or.inl (hfirst hle h.items h'.items)
  · exact Or.inr (hfirst hle h'.items h.items)

/-- Two sources of the same items that both have ended have delivered the same. -/
theorem Replays.eq_of_ended (h : Replays wanted rounds out) (h' : Replays wanted rounds' out') (hend : out.ended = true)
    (hend' : out'.ended = true) : out.items = out'.items := by
  have hlen : ∀ {o o' : Delivery α} {r : Nat}, Replays wanted r o' → wanted o.items.length = none → ¬ o.items.length < o'.items.length := by
    intro o o' r ho' hnone hlt
    have hitem := ho'.items _ hlt
    rw [hnone, List.getElem?_eq_getElem hlt] at hitem
    cases hitem
  have heq : out.items.length = out'.items.length := by
    have h₁ := hlen h' (h.complete hend)
    have h₂ := hlen h (h'.complete hend')
    omega
  apply List.ext_getElem?
  intro n
  rcases Nat.lt_or_ge n out.items.length with hlt | hge
  · rw [← h.items n hlt, h'.items n (by omega)]
  · rw [List.getElem?_eq_none hge, List.getElem?_eq_none (by omega)]

/-- A source that has ended has delivered the list as often as it is repeated. -/
theorem Replays.eq_replicate {l : List α} {loops : Nat} (h : Replays (repeated l loops) rounds out) (hloops : loops ≠ 0)
    (hend : out.ended = true) : out.items = (List.replicate loops l).flatten := by
  have hwanted : ∀ n, repeated l loops n = (List.replicate loops l).flatten[n]? := by
    intro n
    rw [getElem?_flatten_replicate, repeated]
    congr 1
    exact propext (or_iff_right hloops)
  have hall : Replays (repeated l loops) rounds ⟨(List.replicate loops l).flatten, true⟩ :=
    ⟨fun n _ => hwanted n, fun _ => (hwanted _).trans (List.getElem?_eq_none (le_refl _)), fun he => Bool.noConfusion he⟩
  exact h.eq_of_ended hall hend rfl

/-- Deliveries of any length that are right for two streams: the streams are the same, if nothing follows their ends. -/
theorem Replays.streams_eq {outs : Nat → Delivery α} (h : ∀ r, Replays wanted r (outs r)) (h' : ∀ r, Replays wanted' r (outs r))
    (hend : ∀ m n, m ≤ n → wanted m = none → wanted n = none) (hend' : ∀ m n, m ≤ n → wanted' m = none → wanted' n = none) :
    wanted = wanted' := by
  funext n
  have hn := h (n + 1)
  have hn' := h' (n + 1)
  rcases Nat.lt_or_ge n (outs (n + 1)).items.length with hlt | hge
  · rw [hn.items n hlt, hn'.items n hlt]
  · have hended : (outs (n + 1)).ended = true := by
      by_contra hne
      have hle := hn.progress (Bool.eq_false_iff.2 hne)
      omega
    rw [hend _ n hge (hn.complete hended), hend' _ n hge (hn'.complete hended)]

theorem repeated_end_closed (l : List α) (loops : Nat) : ∀ m n, m ≤ n → repeated l loops m = none → repeated l loops n = none := by
  intro m n hle hm
  rcases eq_or_ne l [] with rfl | hl
  · exact repeated_nil loops n
  · rw [repeated_eq_none hl] at hm ⊢
    exact ⟨hm.1, le_trans hm.2 hle⟩

/-- The number of passes shows, unless the list is empty. -/
theorem repeated_inj {l : List α} {a b : Nat} (hl : l ≠ []) (h : repeated l a = repeated l b) : a = b := by
  have hpos := List.length_pos_of_ne_nil hl
  have hle : ∀ {a b : Nat}, repeated l a = repeated l b → a ≠ 0 → b ≠ 0 ∧ b ≤ a := by
    intro a b h ha
    have hnone : repeated l b (a * l.length) = none := by
      rw [← h, repeated_eq_none hl]
      exact ⟨ha, le_refl _⟩
    rw [repeated_eq_none hl] at hnone
    exact ⟨hnone.1, Nat.le_of_mul_le_mul_right hnone.2 hpos⟩
  rcases eq_or_ne a 0 with rfl | ha
  · by_contra hb
    exact (hle h.symm (Ne.symm hb)).1 rfl
  · obtain ⟨hb, hba⟩ := hle h ha
    exact le_antisymm (hle h.symm hb).2 hba

end

end Shared

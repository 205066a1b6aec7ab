/-
Values that several users save before they change them. Users share cells; each saves what it finds in its cell and disables
it, in one pass or more, and later users put back what they saved, in another order. The value comes back if and only if the
last to put it back was the first to save it, in the only pass, or there was nothing to disable.
-/
import Mathlib.Tactic

namespace Shared

variable {U K V : Type} [DecidableEq U] [DecidableEq K]

/-- The cells, and what each user has saved. -/
structure State (U K V : Type) where
  val : K → V
  saved : U → V

section

variable (cell : U → K) (d : K → V → V)

/-! ## Passes -/

/-- A user saves its cell and disables it. -/
def saveOne (s : State U K V) (u : U) : State U K V where
  val := Function.update s.val (cell u) (d (cell u) (s.val (cell u)))
  saved := Function.update s.saved u (s.val (cell u))

def saveAll (l : List U) (s : State U K V) : State U K V := l.foldl (saveOne cell d) s

/-- A user puts its saved value back. -/
def restoreOne (s : State U K V) (u : U) : State U K V := { s with val := Function.update s.val (cell u) (s.saved u) }

def restoreAll (r : List U) (s : State U K V) : State U K V := r.foldl (restoreOne cell) s

/-- The user is the first of its cell. -/
def IsFirst (l : List U) (u : U) : Prop := l.find? (fun x => cell x = cell u) = some u

instance (l : List U) (u : U) : Decidable (IsFirst cell l u) := inferInstanceAs (Decidable (_ = _))

/-- The user who puts the cell back last. -/
def lastOf (r : List U) (k : K) : Option U := r.reverse.find? (fun x => cell x = k)

/-- What brings the value of a cell back, after `n` passes over `l` and one back over `r`. -/
def Back (n : Nat) (l r : List U) (s : State U K V) (k : K) : Prop :=
  match lastOf cell r k with
  | some w => if n = 0 ∨ w ∉ l then s.saved w = s.val k else n = 1 ∧ IsFirst cell l w ∨ d k (s.val k) = s.val k
  | none => n = 0 ∨ (∀ u ∈ l, cell u ≠ k) ∨ d k (s.val k) = s.val k

instance [DecidableEq V] (n : Nat) (l r : List U) (s : State U K V) (k : K) : Decidable (Back cell d n l r s k) := by
  unfold Back
  split
  · infer_instance
  · infer_instance

end

/-! ## What a pass leaves -/

section

variable {cell : U → K} {d : K → V → V} {l : List U}

theorem saveAll_val (hd : ∀ k v, d k (d k v) = d k v) (k : K) (l : List U) : ∀ s : State U K V,
    (saveAll cell d l s).val k = if ∃ u ∈ l, cell u = k then d k (s.val k) else s.val k := by
  induction l with
  | nil =>
    intro s
    rw [if_neg (by simp)]
    rfl
  | cons x l ih =>
    intro s
    show (saveAll cell d l (saveOne cell d s x)).val k = _
    rw [ih]
    by_cases hx : cell x = k
    · have hval : (saveOne cell d s x).val k = d k (s.val k) := by
        subst hx
        exact Function.update_self ..
      have hex : ∃ u ∈ x :: l, cell u = k := ⟨x, List.mem_cons_self, hx⟩
      rw [if_pos hex, hval]
      split
      · exact hd k _
      · rfl
    · have hval : (saveOne cell d s x).val k = s.val k := Function.update_of_ne (Ne.symm hx) _ _
      have hex : (∃ u ∈ x :: l, cell u = k) ↔ ∃ u ∈ l, cell u = k := by simp [hx]
      rw [hval]
      simp only [hex]

theorem saveAll_saved_of_notMem {u : U} (hu : u ∉ l) : ∀ s : State U K V, (saveAll cell d l s).saved u = s.saved u := by
  induction l with
  | nil => exact fun _ => rfl
  | cons x l ih =>
    intro s
    rw [List.mem_cons, not_or] at hu
    exact (ih hu.2 (saveOne cell d s x)).trans (Function.update_of_ne hu.1 _ _)

/-- The first user of a cell saves its value, the others what the first left. -/
theorem saveAll_saved (hd : ∀ k v, d k (d k v) = d k v) {u : U} (hl : l.Nodup) (hu : u ∈ l) : ∀ s : State U K V,
    (saveAll cell d l s).saved u = if IsFirst cell l u then s.val (cell u) else d (cell u) (s.val (cell u)) := by
  induction l with
  | nil => cases hu
  | cons x l ih =>
    intro s
    rw [List.nodup_cons] at hl
    show (saveAll cell d l (saveOne cell d s x)).saved u = _
    by_cases hux : u = x
    · subst hux
      rw [saveAll_saved_of_notMem hl.1, if_pos (by simp [IsFirst])]
      exact Function.update_self ..
    · have hul : u ∈ l := (List.mem_cons.1 hu).resolve_left hux
      rw [ih hl.2 hul]
      by_cases hx : cell x = cell u
      · have hval : (saveOne cell d s x).val (cell u) = d (cell u) (s.val (cell u)) := by
          rw [← hx]
          exact Function.update_self ..
        have hnot : ¬IsFirst cell (x :: l) u := by
          rw [IsFirst, List.find?_cons_of_pos (by simpa using hx), Option.some.injEq]
          exact Ne.symm hux
        rw [hval, if_neg hnot]
        split
        · rfl
        · exact hd _ _
      · have hval : (saveOne cell d s x).val (cell u) = s.val (cell u) := Function.update_of_ne (Ne.symm hx) _ _
        have hfirst : IsFirst cell (x :: l) u ↔ IsFirst cell l u := by
          rw [IsFirst, List.find?_cons_of_neg (by simpa using hx), IsFirst]
        rw [hval]
        simp only [hfirst]

omit [DecidableEq U] in
/-- The last user decides. -/
theorem restoreAll_val (k : K) (r : List U) (s : State U K V) :
    (restoreAll cell r s).val k = match lastOf cell r k with
      | some w => s.saved w
      | none => s.val k := by
  induction r using List.reverseRecOn with
  | nil => rfl
  | append_singleton r x ih =>
    have hstep : restoreAll cell (r ++ [x]) s = restoreOne cell (restoreAll cell r s) x := by
      simp [restoreAll]
    have hsaved : (restoreAll cell r s).saved = s.saved := by
      clear ih hstep
      induction r generalizing s with
      | nil => rfl
      | cons y r ih => exact ih (restoreOne cell s y)
    have hlast : lastOf cell (r ++ [x]) k = if cell x = k then some x else lastOf cell r k := by
      unfold lastOf
      rw [List.reverse_append, List.reverse_singleton, List.singleton_append, List.find?_cons]
      by_cases hx : cell x = k
      · simp [hx]
      · simp [hx]
    rw [hstep, hlast]
    by_cases hx : cell x = k
    · subst hx
      rw [if_pos rfl]
      show Function.update _ _ _ _ = _
      rw [Function.update_self, hsaved]
    · rw [if_neg hx, ← ih]
      exact Function.update_of_ne (Ne.symm hx) _ _

/-! ## Any number of passes -/

theorem iterate_val (hd : ∀ k v, d k (d k v) = d k v) (l : List U) (s : State U K V) (n : Nat) (k : K) :
    ((saveAll cell d l)^[n] s).val k = if n ≠ 0 ∧ ∃ u ∈ l, cell u = k then d k (s.val k) else s.val k := by
  induction n with
  | zero => rw [if_neg (by simp)]; rfl
  | succ n ih =>
    rw [Function.iterate_succ_apply', saveAll_val hd, ih]
    by_cases hex : ∃ u ∈ l, cell u = k
    · have hsucc : n + 1 ≠ 0 ∧ ∃ u ∈ l, cell u = k := ⟨Nat.succ_ne_zero n, hex⟩
      rw [if_pos hex, if_pos hsucc]
      split
      · exact hd k _
      · rfl
    · rw [if_neg hex, if_neg fun h => hex h.2, if_neg fun h => hex h.2]

theorem iterate_saved (hd : ∀ k v, d k (d k v) = d k v) (hl : l.Nodup) (s : State U K V) (n : Nat) (u : U) :
    ((saveAll cell d l)^[n] s).saved u =
      if n = 0 ∨ u ∉ l then s.saved u
      else if n = 1 ∧ IsFirst cell l u then s.val (cell u) else d (cell u) (s.val (cell u)) := by
  cases n with
  | zero => rw [if_pos (.inl rfl)]; rfl
  | succ n =>
    rw [Function.iterate_succ_apply']
    by_cases hu : u ∈ l
    · rw [if_neg (by simp [hu]), saveAll_saved hd hl hu, iterate_val hd]
      cases n with
      | zero => simp
      | succ n =>
        have hsucc : n + 1 ≠ 0 ∧ ∃ x ∈ l, cell x = cell u := ⟨Nat.succ_ne_zero n, u, hu, rfl⟩
        have hmany : ¬(n + 1 + 1 = 1 ∧ IsFirst cell l u) := fun h => absurd h.1 (by omega)
        rw [if_pos hsucc, if_neg hmany, hd]
        split
        · rfl
        · rfl
    · rw [if_pos (.inr hu), saveAll_saved_of_notMem hu]
      induction n with
      | zero => rfl
      | succ n ih => rw [Function.iterate_succ_apply', saveAll_saved_of_notMem hu, ih]

/-- A cell has its value again if and only if the condition holds. -/
theorem back_iff (hd : ∀ k v, d k (d k v) = d k v) (hl : l.Nodup) (r : List U) (s : State U K V) (n : Nat) (k : K) :
    (restoreAll cell r ((saveAll cell d l)^[n] s)).val k = s.val k ↔ Back cell d n l r s k := by
  rw [restoreAll_val, Back]
  cases hw : lastOf cell r k with
  | none =>
    dsimp only
    rw [iterate_val hd]
    by_cases hn : n = 0
    · simp [hn]
    · by_cases hex : ∃ u ∈ l, cell u = k
      · rw [if_pos ⟨hn, hex⟩]
        constructor
        · exact fun h => .inr (.inr h)
        · rintro (h | h | h)
          · exact absurd h hn
          · obtain ⟨u, hu, hk⟩ := hex
            exact absurd hk (h u hu)
          · exact h
      · rw [if_neg fun h => hex h.2]
        constructor
        · exact fun _ => .inr (.inl fun u hu hk => hex ⟨u, hu, hk⟩)
        · exact fun _ => rfl
  | some w =>
    have hcell : cell w = k := by simpa using List.find?_some hw
    dsimp only
    rw [iterate_saved hd hl, hcell]
    by_cases hout : n = 0 ∨ w ∉ l
    · rw [if_pos hout, if_pos hout]
    · rw [if_neg hout, if_neg hout]
      by_cases hfirst : n = 1 ∧ IsFirst cell l w
      · rw [if_pos hfirst]
        exact ⟨fun _ => .inl hfirst, fun _ => rfl⟩
      · rw [if_neg hfirst]
        exact ⟨.inr, fun h => h.resolve_left hfirst⟩

end

end Shared

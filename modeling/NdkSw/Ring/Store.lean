/-
Writing a run of entries into the memory of a ring. The slots are the positions modulo the size, and a run no longer
than the ring writes each of its slots once; a window of one lap is then as good as plain memory, in which a list of
writes can be read back wherever the writes that reach a place agree on it.
-/
import NdkSw.Ring.Ptr

namespace Ring

variable {α : Type} {n : Nat}

/-! ## One run -/

/-- Write the entries of a list into consecutive slots, from that of position `p` on. -/
def writeFrom (n : Nat) (mem : Nat → α) : Nat → List α → (Nat → α)
  | _, [] => mem
  | p, a :: l => writeFrom n (Function.update mem (p % n) a) (p + 1) l

theorem writeFrom_of_ne {x : Nat} (l : List α) : ∀ (mem : Nat → α) (p : Nat), (∀ j, j < l.length → (p + j) % n ≠ x) →
    writeFrom n mem p l x = mem x := by
  induction l with
  | nil => exact fun _ _ _ => rfl
  | cons a l ih =>
    intro mem p hne
    rw [writeFrom, ih _ _ fun j hj => ?_]
    · exact Function.update_of_ne (Ne.symm (hne 0 (Nat.succ_pos _))) _ _
    · rw [Nat.add_assoc, Nat.add_comm 1 j]
      exact hne (j + 1) (Nat.succ_lt_succ hj)

/-- Two places of a window of one lap have different slots. -/
theorem window_inj {P a b : Nat} (ha : a < n) (hb : b < n) (h : (P + a) % n = (P + b) % n) : a = b := by
  have hmod : a ≡ b [MOD n] := Nat.ModEq.add_left_cancel' P h
  rwa [Nat.ModEq, Nat.mod_eq_of_lt ha, Nat.mod_eq_of_lt hb] at hmod

/-- A ring of `n` slots still holds the last `n` entries after a run is appended. -/
theorem HoldsLast.writeFrom (m : List α) : ∀ {mem : Nat → α} {l : List α}, HoldsLast n mem l →
    HoldsLast n (Ring.writeFrom n mem l.length m) (l ++ m) := by
  induction m with
  | nil =>
    intro mem l h
    rwa [List.append_nil]
  | cons a m ih =>
    intro mem l h
    have hstep := ih (h.write (i := l.length) rfl (d := a))
    rw [List.append_assoc, List.length_append, List.length_singleton] at hstep
    exact hstep

/-! ## A window of one lap -/

theorem writeFrom_window {P o o' : Nat} {b : α} {mem : Nat → α} : ∀ {l : List α}, o + l.length ≤ n → o ≤ o' →
    l[o' - o]? = some b → writeFrom n mem (P + o) l ((P + o') % n) = b := by
  intro l
  induction l generalizing mem o with
  | nil => exact fun _ _ h => absurd h (by simp)
  | cons a l ih =>
    intro hn ho hb
    rw [List.length_cons] at hn
    rw [writeFrom]
    rcases Nat.lt_or_ge o o' with hlt | hge
    · have hb' : l[o' - (o + 1)]? = some b := by
        rwa [show o' - o = o' - (o + 1) + 1 by omega, List.getElem?_cons_succ] at hb
      exact ih (by omega) hlt hb'
    · obtain rfl : o = o' := by omega
      rw [Nat.sub_self, List.getElem?_cons_zero, Option.some.injEq] at hb
      rw [writeFrom_of_ne, Function.update_self, hb]
      intro j hj heq
      have hslot : (P + (o + 1 + j)) % n = (P + o) % n := by rw [← heq, ← Nat.add_assoc, ← Nat.add_assoc]
      have hinj := window_inj (by omega) (by omega) hslot
      omega

theorem writeFrom_outside {P o o' : Nat} {mem : Nat → α} {l : List α} (hn : o + l.length ≤ n) (ho' : o' < n)
    (hout : o' < o ∨ o + l.length ≤ o') : writeFrom n mem (P + o) l ((P + o') % n) = mem ((P + o') % n) := by
  refine writeFrom_of_ne l mem (P + o) fun j hj heq => ?_
  have hinj := window_inj (a := o + j) (b := o') (by omega) ho' (by rw [← heq, Nat.add_assoc])
  omega

/-- Several runs into the window from position `P` on, each with the place where it begins. -/
def writeAll (n P : Nat) (mem : Nat → α) (ws : List (Nat × List α)) : Nat → α :=
  ws.foldl (fun m w => writeFrom n m (P + w.1) w.2) mem

/-- Where the window begins may be counted in either number. -/
theorem writeAll_shift (P : Nat) (mem : Nat → α) (ws : List (Nat × List α)) :
    writeAll n 0 mem (ws.map fun w => (P + w.1, w.2)) = writeAll n P mem ws := by
  unfold writeAll
  rw [List.foldl_map]
  simp only [Nat.zero_add]

/-- The write `w` puts `b` at the place `o`. -/
def Puts (w : Nat × List α) (o : Nat) (b : α) : Prop := w.1 ≤ o ∧ w.2[o - w.1]? = some b

/-- A place holds what is put there, if all writes that reach it agree. -/
theorem writeAll_eq {P o : Nat} {b : α} (ho : o < n) (ws : List (Nat × List α)) :
    ∀ mem : Nat → α, (∀ w ∈ ws, w.1 + w.2.length ≤ n) → (∀ w ∈ ws, ∀ c, Puts w o c → c = b) →
      ((∃ w ∈ ws, Puts w o b) ∨ mem ((P + o) % n) = b) → writeAll n P mem ws ((P + o) % n) = b := by
  induction ws with
  | nil =>
    intro mem _ _ hex
    rcases hex with ⟨w, hw, -⟩ | hmem
    · exact absurd hw List.not_mem_nil
    · exact hmem
  | cons w ws ih =>
    intro mem hlen hagree hex
    have hw := hlen w List.mem_cons_self
    refine ih _ (fun v hv => hlen v (List.mem_cons_of_mem w hv)) (fun v hv => hagree v (List.mem_cons_of_mem w hv)) ?_
    rw [or_iff_not_imp_left]
    intro hnot
    show Ring.writeFrom n mem (P + w.1) w.2 ((P + o) % n) = b
    by_cases hin : w.1 ≤ o ∧ o < w.1 + w.2.length
    · have hlt : o - w.1 < w.2.length := by omega
      have hget : w.2[o - w.1]? = some w.2[o - w.1] := List.getElem?_eq_getElem hlt
      rw [writeFrom_window hw hin.1 hget]
      exact hagree w List.mem_cons_self _ ⟨hin.1, hget⟩
    · rw [writeFrom_outside hw ho (by omega)]
      refine hex.resolve_left fun ⟨v, hv, hput⟩ => ?_
      rcases List.mem_cons.1 hv with rfl | hv
      · exact hin ⟨hput.1, by have := (List.getElem?_eq_some_iff.1 hput.2).1; omega⟩
      · exact hnot ⟨v, hv, hput⟩

/-- Runs that lie between two places of the window leave what is outside of these. -/
theorem writeAll_outside {P o u v : Nat} {ws : List (Nat × List α)} (hws : ∀ w ∈ ws, u ≤ w.1 ∧ w.1 + w.2.length ≤ v) (hv : v ≤ n)
    (ho : o < n) (hout : o < u ∨ v ≤ o) (mem : Nat → α) : writeAll n P mem ws ((P + o) % n) = mem ((P + o) % n) := by
  refine writeAll_eq ho ws mem (fun w hw => (hws w hw).2.trans hv) (fun w hw c hput => ?_) (Or.inr rfl)
  have hlt := (List.getElem?_eq_some_iff.1 hput.2).1
  have hle := hput.1
  obtain ⟨h1, h2⟩ := hws w hw
  omega

end Ring

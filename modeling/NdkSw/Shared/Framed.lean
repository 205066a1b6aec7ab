/-
Blocks in a memory: each has a header that says how long its data are, and the next one starts behind them. A reader that goes from
header to header gets the data of all blocks, put one behind the other.
-/
import NdkSw.Shared.Chunks

namespace Shared

variable {α : Type}

/-! ## Lists in a memory -/

/-- The memory holds a list from `a` on. -/
def Stored (mem : Nat → Option α) (a : Nat) (l : List α) : Prop := ∀ j < l.length, mem (a + j) = l[j]?

/-- Reading `n` entries; no list if one of them is undefined. -/
def readList (mem : Nat → Option α) (a : Nat) : Nat → Option (List α)
  | 0 => some []
  | n + 1 => (mem a).bind fun x => (readList mem (a + 1) n).map (x :: ·)

section

variable {mem mem' : Nat → Option α} {a b : Nat} {l l' : List α}

theorem stored_storeList (held : Nat → Option α) (a : Nat) (l : List α) : Stored (storeList held a l) a l :=
  fun _ hj => storeList_inside hj

theorem Stored.congr (h : Stored mem a l) (hmem : ∀ i, a ≤ i → i < a + l.length → mem' i = mem i) : Stored mem' a l := by
  intro j hj
  rw [hmem (a + j) (by omega) (by omega)]
  exact h j hj

theorem stored_append : Stored mem a (l ++ l') ↔ Stored mem a l ∧ Stored mem (a + l.length) l' := by
  constructor
  · intro h
    constructor
    · intro j hj
      rw [h j (by rw [List.length_append]; omega), List.getElem?_append_left hj]
    · intro j hj
      rw [Nat.add_assoc, h (l.length + j) (by rw [List.length_append]; omega), List.getElem?_append_right (by omega),
        Nat.add_sub_cancel_left]
  · rintro ⟨hl, hl'⟩ j hj
    rw [List.length_append] at hj
    rcases Nat.lt_or_ge j l.length with hlt | hge
    · rw [hl j hlt, List.getElem?_append_left hlt]
    · obtain ⟨k, rfl⟩ := Nat.exists_eq_add_of_le hge
      rw [← Nat.add_assoc, hl' k (by omega), List.getElem?_append_right (by omega), Nat.add_sub_cancel_left]

theorem stored_cons {x : α} : Stored mem a (x :: l) ↔ mem a = some x ∧ Stored mem (a + 1) l := by
  rw [← List.singleton_append, stored_append]
  refine and_congr_left fun _ => ⟨fun h => h 0 Nat.one_pos, fun h j hj => ?_⟩
  obtain rfl : j = 0 := Nat.lt_one_iff.1 hj
  exact h

/-- A list stored right behind another one. -/
theorem Stored.storeList_behind (h : Stored mem a l) (l' : List α) : Stored (storeList mem (a + l.length) l') a (l ++ l') :=
  stored_append.2 ⟨h.congr fun _ _ hlt => storeList_before hlt, stored_storeList mem _ l'⟩

/-- What is stored is read. -/
theorem readList_stored : ∀ {l : List α} {a : Nat}, Stored mem a l → readList mem a l.length = some l := by
  intro l
  induction l with
  | nil => exact fun _ => rfl
  | cons x l ih =>
    intro a h
    obtain ⟨hx, hl⟩ := stored_cons.1 h
    rw [List.length_cons, readList, hx, Option.bind_some, ih hl]
    rfl

/-! ## Writes -/

theorem placeAll_append (held : Nat → Option α) (ws ws' : List (Nat × List α)) :
    placeAll held (ws ++ ws') = placeAll (placeAll held ws) ws' := List.foldl_append

theorem placeAll_cons (held : Nat → Option α) (w : Nat × List α) (ws : List (Nat × List α)) :
    placeAll held (w :: ws) = placeAll (storeList held w.1 w.2) ws := rfl

/-- Writes that all start behind an entry leave it. -/
theorem placeAll_before {i : Nat} : ∀ {ws : List (Nat × List α)} (held : Nat → Option α), (∀ w ∈ ws, i < w.1) → placeAll held ws i = held i := by
  intro ws
  induction ws with
  | nil => exact fun _ _ => rfl
  | cons w ws ih =>
    intro held h
    rw [placeAll_cons, ih _ fun w' hw' => h w' (List.mem_cons_of_mem w hw'), storeList_before (h w (List.mem_cons_self ..))]

/-- A write that all later ones are behind stays as it is. -/
theorem placeAll_stored (held : Nat → Option α) (pre : List (Nat × List α)) {post : List (Nat × List α)}
    (h : ∀ w ∈ post, a + l.length ≤ w.1) : Stored (placeAll held (pre ++ (a, l) :: post)) a l := by
  rw [placeAll_append, placeAll_cons]
  refine (stored_storeList _ a l).congr fun i _ hi => placeAll_before _ fun w hw => ?_
  exact lt_of_lt_of_le hi (h w hw)

end

/-! ## Blocks -/

/-- Blocks with their headers, from `a` to `stop`. -/
inductive Framed (header : Nat → List α) (mem : Nat → Option α) : Nat → Nat → List (List α) → Prop
  | nil (a : Nat) : Framed header mem a a []
  | cons {a stop : Nat} {bytes : List α} {blocks : List (List α)} (block : Stored mem a (header bytes.length ++ bytes))
      (rest : Framed header mem (a + (header bytes.length ++ bytes).length) stop blocks) : Framed header mem a stop (bytes :: blocks)

/-- Reading from header to header, of length `h`, until no block starts: the data, and the place where it ends. -/
def walk (mem : Nat → Option α) (next : Nat → Option Nat) (h : Nat) : Nat → Nat → Option (List α × Nat)
  | 0, _ => none
  | fuel + 1, a =>
    match next a with
    | none => some ([], a)
    | some n => (readList mem (a + h) n).bind fun bytes => (walk mem next h fuel (a + h + n)).map fun r => (bytes ++ r.1, r.2)

section

variable {header : Nat → List α} {mem mem' : Nat → Option α} {a stop : Nat} {blocks : List (List α)}

theorem Framed.le (h : Framed header mem a stop blocks) : a ≤ stop := by
  induction h with
  | nil a => exact le_refl a
  | cons _ _ ih => omega

/-- Only the entries from the first block to the end count. -/
theorem Framed.congr (h : Framed header mem a stop blocks) (hmem : ∀ i, a ≤ i → i < stop → mem' i = mem i) : Framed header mem' a stop blocks := by
  induction h with
  | nil a => exact .nil a
  | cons block rest ih =>
    have hle := rest.le
    exact .cons (block.congr fun i hi hlt => hmem i hi (by omega)) (ih fun i hi hlt => hmem i (by omega) hlt)

/-- A reader of headers gets all data, and ends behind the last block. -/
theorem walk_framed {next : Nat → Option Nat} {h : Nat} (hlen : ∀ n, (header n).length = h) (hstop : next stop = none)
    (hf : Framed header mem a stop blocks)
    (hnext : ∀ a, ∀ l ∈ blocks, Stored mem a (header l.length ++ l) → a + (h + l.length) ≤ stop → next a = some l.length) :
    ∀ fuel > blocks.length, walk mem next h fuel a = some (blocks.flatten, stop) := by
  induction hf with
  | nil a =>
    intro fuel hfuel
    obtain ⟨fuel, rfl⟩ := Nat.exists_eq_add_one_of_ne_zero (Nat.ne_of_gt hfuel)
    rw [walk, hstop]
    rfl
  | @cons a stop bytes blocks block rest ih =>
    intro fuel hfuel
    obtain ⟨fuel, rfl⟩ := Nat.exists_eq_add_one_of_ne_zero (Nat.ne_of_gt (lt_of_le_of_lt (Nat.zero_le _) hfuel))
    have hle := rest.le
    rw [List.length_append, hlen] at hle rest ih
    have hdata := (stored_append.1 block).2
    rw [hlen] at hdata
    have hrest := ih hstop (fun a l hl => hnext a l (List.mem_cons_of_mem bytes hl)) fuel (by rw [List.length_cons] at hfuel; omega)
    rw [← Nat.add_assoc] at hrest
    rw [walk, hnext a bytes (List.mem_cons_self ..) block hle]
    dsimp only
    rw [readList_stored hdata, Option.bind_some, hrest]
    rfl

end

end Shared

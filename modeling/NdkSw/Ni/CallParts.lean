/-
Calls put together from parts. Calls that nest may follow one another and may stand in a section or list; calls that leave a section
open do not nest, because the sections that are opened and not closed can be counted.
-/
import NdkSw.Ni.PluginJson

namespace NdkSw.Ni

open Json

/-! ## Trees -/

namespace Calls

variable (items : Int → NiJsonItem)

def append : Calls → Calls → Calls
  | nil, t => t
  | item i value v rest, t => item i value v (rest.append t)
  | .section i calls rest, t => .section i calls (rest.append t)
  | list i calls rest, t => list i calls (rest.append t)

theorem flatten_append (s t : Calls) : (s.append t).flatten = s.flatten ++ t.flatten := by
  induction s with
  | nil => rfl
  | item i value v rest ih => simp only [append, flatten, ih, List.cons_append]
  | «section» i calls rest _ ih => simp only [append, flatten, ih, List.cons_append, List.append_assoc]
  | list i calls rest _ ih => simp only [append, flatten, ih, List.cons_append, List.append_assoc]

theorem fits_append {ty : NiJsonType} {s t : Calls} (hs : s.Fits items ty) (ht : t.Fits items ty) : (s.append t).Fits items ty := by
  induction s with
  | nil => exact ht
  | item i value v rest ih => exact ⟨hs.1, ih hs.2⟩
  | «section» i calls rest _ ih => exact ⟨hs.1, ih hs.2⟩
  | list i calls rest _ ih => exact ⟨hs.1, ih hs.2⟩

theorem depth_append (s t : Calls) : (s.append t).depth items = max (s.depth items) (t.depth items) := by
  induction s with
  | nil => exact (Nat.zero_max _).symm
  | item i value v rest ih => exact ih
  | «section» i calls rest _ ih => simp only [append, depth, ih, Nat.max_assoc]
  | list i calls rest _ ih => simp only [append, depth, ih, Nat.max_assoc]

theorem exists_fits {skip key : Prop} [Decidable skip] {ty ty' : NiJsonType} {t : Calls}
    (h : if skip then t.Fits items ty else key ∧ t.Fits items ty') : ∃ ty, t.Fits items ty := by
  split at h
  · exact ⟨ty, h⟩
  · exact ⟨ty', h.2⟩

end Calls

/-! ## Calls that nest -/

/-- The calls are those of a tree that fits and opens no more than `n` sections and lists one in the other. -/
def Nests (items : Int → NiJsonItem) (ty : NiJsonType) (n : Nat) (calls : List NiCall) : Prop :=
  ∃ t : Calls, t.flatten = calls ∧ t.Fits items ty ∧ t.depth items ≤ n

variable {l : List (List NiCall)}

section

variable {items : Int → NiJsonItem} {ty : NiJsonType} {n : Nat} {calls calls' : List NiCall} {i : Int} {value : BitVec 8 → List Char}

theorem Nests.nil : Nests items ty n [] := ⟨.nil, rfl, trivial, Nat.zero_le n⟩

theorem Nests.append (h : Nests items ty n calls) (h' : Nests items ty n calls') : Nests items ty n (calls ++ calls') := by
  obtain ⟨t, rfl, hfit, hdepth⟩ := h
  obtain ⟨t', rfl, hfit', hdepth'⟩ := h'
  refine ⟨t.append t', t.flatten_append t', Calls.fits_append items hfit hfit', ?_⟩
  rw [Calls.depth_append]
  exact Nat.max_le.2 ⟨hdepth, hdepth'⟩

theorem Nests.flatten (h : ∀ calls ∈ l, Nests items ty n calls) : Nests items ty n l.flatten := by
  induction l with
  | nil => exact .nil
  | cons calls l ih =>
    have hrest : ∀ calls ∈ l, Nests items ty n calls := fun calls hc => h calls (List.mem_cons_of_mem _ hc)
    rw [List.flatten_cons]
    exact (h calls List.mem_cons_self).append (ih hrest)

theorem Nests.item (hkey : ¬(items i).Skipped → Calls.PlainKey (items i).key)
    (hvalue : ¬(items i).Skipped → ∃ v, Value (value (niJsonFDecimDec (items i).flags)) v) : Nests items .object n [.item i value] := by
  by_cases hskip : (items i).Skipped
  · refine ⟨.item i value .null .nil, rfl, ⟨?_, trivial⟩, Nat.zero_le n⟩
    intro hprint
    exact absurd hskip hprint
  · obtain ⟨v, hv⟩ := hvalue hskip
    refine ⟨.item i value v .nil, rfl, ⟨?_, trivial⟩, Nat.zero_le n⟩
    intro hprint
    exact ⟨by decide, fun _ => hkey hprint, hv⟩

theorem Nests.section (hprint : ¬(items i).Skipped) (hkey : ty = .object → Calls.PlainKey (items i).key)
    (h : Nests items .object n calls) : Nests items ty (n + 1) (.section i :: (calls ++ [.endsection i])) := by
  obtain ⟨t, rfl, hfit, hdepth⟩ := h
  refine ⟨.section i t .nil, rfl, ⟨?_, trivial⟩, ?_⟩
  · rw [if_neg hprint]
    exact ⟨hkey, hfit⟩
  · rw [Calls.depth, if_neg hprint, Calls.depth, Nat.max_zero]
    exact Nat.succ_le_succ hdepth

theorem Nests.list (hprint : ¬(items i).Skipped) (hkey : ty = .object → Calls.PlainKey (items i).key)
    (h : Nests items .array n calls) : Nests items ty (n + 1) (.list i :: (calls ++ [.endlist i])) := by
  obtain ⟨t, rfl, hfit, hdepth⟩ := h
  refine ⟨.list i t .nil, rfl, ⟨?_, trivial⟩, ?_⟩
  · rw [if_neg hprint]
    exact ⟨hkey, hfit⟩
  · rw [Calls.depth, if_neg hprint, Calls.depth, Nat.max_zero]
    exact Nat.succ_le_succ hdepth

theorem mem_nested {item first last : NiCall} {rest : List NiCall} (hfirst : item ≠ first) (hlast : item ≠ last)
    (hmem : item ∈ first :: (calls ++ last :: rest)) : item ∈ calls ∨ item ∈ rest := by
  rcases List.mem_append.1 (List.mem_of_ne_of_mem hfirst hmem) with hmem | hmem
  · exact .inl hmem
  · exact .inr (List.mem_of_ne_of_mem hlast hmem)

theorem Nests.values (h : Nests items ty n calls) (hmem : NiCall.item i value ∈ calls) (hprint : ¬(items i).Skipped) :
    ∃ v, Value (value (niJsonFDecimDec (items i).flags)) v := by
  obtain ⟨t, rfl, hfit, -⟩ := h
  induction t generalizing ty with
  | nil => cases hmem
  | item j value' v rest ih =>
    rcases List.mem_cons.1 hmem with heq | hmem
    · cases heq
      exact ⟨v, (hfit.1 hprint).2.2⟩
    · exact ih hmem hfit.2
  | «section» j calls rest ih ih' =>
    obtain ⟨ty', hinner⟩ := Calls.exists_fits items hfit.1
    rw [Calls.flatten] at hmem
    rcases mem_nested (by simp) (by simp) hmem with hmem | hmem
    · exact ih hmem hinner
    · exact ih' hmem hfit.2
  | list j calls rest ih ih' =>
    obtain ⟨ty', hinner⟩ := Calls.exists_fits items hfit.1
    rw [Calls.flatten] at hmem
    rcases mem_nested (by simp) (by simp) hmem with hmem | hmem
    · exact ih hmem hinner
    · exact ih' hmem hfit.2

theorem Nests.text (hprint : ¬(items i).Skipped) (h : Nests items .object n calls) (hn : n + 1 ≤ 15)
    (stackStates : Nat → NiJsonStackState) :
    ∃ text v, printed items stackStates (.section i :: (calls ++ [.endsection i])) = some text ∧ Text text v := by
  obtain ⟨t, rfl, hfit, hdepth⟩ := h
  have helements : (Calls.section i t .nil).elements items =
      [((items i).key, .obj ((t.elements items).map fun e => (Calls.memberKey e.1, e.2)))] := by
    rw [Calls.elements, if_neg hprint, Calls.elements]
  have hfits : (Calls.section i t .nil).Fits items .common := by
    refine ⟨?_, trivial⟩
    rw [if_neg hprint]
    refine ⟨?_, hfit⟩
    intro hkind
    cases hkind
  have hroom : (Calls.section i t .nil).depth items ≤ 15 := by
    rw [Calls.depth, if_neg hprint, Calls.depth, Nat.max_zero]
    omega
  obtain ⟨text, hprinted, htext, -⟩ := json_text items stackStates _ _ _ helements hfits hroom
  exact ⟨text, _, hprinted, htext⟩

end

/-! ## Open sections -/

/-- The sections that are opened less those that are closed. -/
def openSections : List NiCall → Int
  | [] => 0
  | .section _ :: calls => openSections calls + 1
  | .endsection _ :: calls => openSections calls - 1
  | _ :: calls => openSections calls

@[simp] theorem openSections_append (calls calls' : List NiCall) :
    openSections (calls ++ calls') = openSections calls + openSections calls' := by
  induction calls with
  | nil => exact (Int.zero_add _).symm
  | cons c calls ih =>
    cases c with
    | «section» i =>
      simp only [List.cons_append, openSections, ih]
      omega
    | endsection i =>
      simp only [List.cons_append, openSections, ih]
      omega
    | list i => exact ih
    | endlist i => exact ih
    | item i value => exact ih

theorem openSections_flatten (t : Calls) : openSections t.flatten = 0 := by
  induction t with
  | nil => rfl
  | item i value v rest ih => exact ih
  | «section» i calls rest ih ih' =>
    simp only [Calls.flatten, openSections, openSections_append, ih, ih']
    rfl
  | list i calls rest ih ih' =>
    simp only [Calls.flatten, openSections, openSections_append, ih, ih']
    rfl

theorem openSections_parts (h : ∀ calls ∈ l, openSections calls = 0) : openSections l.flatten = 0 := by
  induction l with
  | nil => rfl
  | cons calls l ih =>
    rw [List.flatten_cons, openSections_append, h calls List.mem_cons_self,
      ih fun calls hc => h calls (List.mem_cons_of_mem _ hc)]
    rfl

end NdkSw.Ni

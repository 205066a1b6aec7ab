/-
The windows of a device file (`char.c`): other parts of the driver register ranges of file offsets, which `mmap`
looks up. The list of windows is kept sorted; a new one goes to the first gap that is large enough.
-/
import NdkSw.Nfb.Lock
import NdkSw.Shared.Words

namespace NdkSw.Nfb

open Ndp Ring

/-! ## Data model -/

/-- `struct nfb_char_mmap_mod`; `mmap` stands for the handler together with its `priv`. -/
structure NfbCharMmapMod (H : Type) where
  size : U64
  offset : U64
  mmap : H
  deriving DecidableEq, Repr

section Calls

variable {H : Type} {w : NfbCharMmapMod H} {l : List (NfbCharMmapMod H)}

/-- The loop of `nfb_char_register_mmap` with the insertion in front of `pos`, from `*offset` on. -/
def insertMmap (size : U64) (mmap : H) : U64 → List (NfbCharMmapMod H) → U64 × List (NfbCharMmapMod H)
  | offset, [] => (offset, [{ size, offset, mmap }])
  | offset, item :: l =>
    if offset + size ≤ item.offset then (offset, { size, offset, mmap } :: item :: l)
    else
      let r := insertMmap size mmap (item.offset + item.size) l
      (r.1, item :: r.2)

/-- `nfb_char_register_mmap`, with its return value and what it writes to `*offset`; `alloc` says if there is memory
for the item. -/
def nfbCharRegisterMmap (alloc : Bool) (size : U64) (mmap : H) (l : List (NfbCharMmapMod H)) :
    List (NfbCharMmapMod H) × Int × Option U64 :=
  if size = 0 then (l, eInval, none)
  else
    match insertMmap size mmap 0 l with
    | (offset, l') => if alloc then (l', 0, some offset) else (l, eNomem, some offset)

/-- `nfb_char_unregister_mmap`. -/
def nfbCharUnregisterMmap (offset : U64) : List (NfbCharMmapMod H) → List (NfbCharMmapMod H) × Int
  | [] => ([], eNodev)
  | item :: l =>
    if item.offset = offset then (l, 0)
    else
      match nfbCharUnregisterMmap offset l with
      | (l, ret) => (item :: l, ret)

/-- The test of `nfb_char_mmap` on a window. -/
def NfbCharMmapMod.covers (item : NfbCharMmapMod H) (offset size : U64) : Bool :=
  item.offset ≤ offset ∧ item.size ≥ size ∧ item.offset + item.size ≥ offset + size

/-- `nfb_char_mmap`: the handler that is called for `size` bytes at `offset`, if any. -/
def nfbCharMmap (l : List (NfbCharMmapMod H)) (offset size : U64) : Option H :=
  (l.find? (·.covers offset size)).map (·.mmap)

inductive MmapAct (H : Type)
  | register (size : U64) (mmap : H) (alloc : Bool)
  | unregister (offset : U64)

def mmapStep (l : List (NfbCharMmapMod H)) : MmapAct H → List (NfbCharMmapMod H)
  | .register size mmap alloc => (nfbCharRegisterMmap alloc size mmap l).1
  | .unregister offset => (nfbCharUnregisterMmap offset l).1

/-! ## Windows -/

/-- The first file offset behind a window. -/
def NfbCharMmapMod.stop (w : NfbCharMmapMod H) : Nat := w.offset.toNat + w.size.toNat

/-- A sorted list of disjoint windows, none of them empty. -/
structure Windows (l : List (NfbCharMmapMod H)) : Prop where
  sorted : l.Pairwise fun x y => x.stop ≤ y.offset.toNat
  nonempty : ∀ w ∈ l, 0 < w.size.toNat
  noWrap : ∀ w ∈ l, w.stop < 2 ^ 64

/-- `size` bytes from `n` on lie beside every window. -/
def Fits (l : List (NfbCharMmapMod H)) (size n : Nat) : Prop := ∀ w ∈ l, n + size ≤ w.offset.toNat ∨ w.stop ≤ n

/-- All bytes of the range belong to the window. -/
def NfbCharMmapMod.Contains (w : NfbCharMmapMod H) (offset size : Nat) : Prop :=
  ∀ n, offset ≤ n → n < offset + size → w.offset.toNat ≤ n ∧ n < w.stop

theorem Windows.nil : Windows ([] : List (NfbCharMmapMod H)) :=
  ⟨List.Pairwise.nil, fun _ h => absurd h List.not_mem_nil, fun _ h => absurd h List.not_mem_nil⟩

theorem Windows.cons_iff : Windows (w :: l) ↔ ((∀ x ∈ l, w.stop ≤ x.offset.toNat) ∧ 0 < w.size.toNat ∧ w.stop < 2 ^ 64) ∧ Windows l := by
  constructor
  · intro h
    obtain ⟨hw, hl⟩ := List.pairwise_cons.1 h.sorted
    exact ⟨⟨hw, h.nonempty w List.mem_cons_self, h.noWrap w List.mem_cons_self⟩, hl,
      fun x hx => h.nonempty x (List.mem_cons_of_mem _ hx), fun x hx => h.noWrap x (List.mem_cons_of_mem _ hx)⟩
  · rintro ⟨⟨hw, h0, hs⟩, hl⟩
    refine ⟨List.pairwise_cons.2 ⟨hw, hl.sorted⟩, ?_, ?_⟩
    · intro x hx
      rcases List.mem_cons.1 hx with rfl | hx
      · exact h0
      · exact hl.nonempty x hx
    · intro x hx
      rcases List.mem_cons.1 hx with rfl | hx
      · exact hs
      · exact hl.noWrap x hx

/-! ## Register -/

/-- What the loop finds from `lo` on: the first place where the window fits. -/
structure Placed (size : U64) (mmap : H) (lo : Nat) (l : List (NfbCharMmapMod H)) (offset : U64)
    (l' : List (NfbCharMmapMod H)) : Prop where
  ge : lo ≤ offset.toNat
  fits : Fits l size.toNat offset.toNat
  least : ∀ n, lo ≤ n → Fits l size.toNat n → offset.toNat ≤ n
  windows : Windows l'
  perm : l'.Perm ({ size, offset, mmap } :: l)

theorem insertMmap_spec {size : U64} (hs : 0 < size.toNat) (mmap : H) (hl : Windows l) {lo : U64}
    (hlo : ∀ w ∈ l, lo.toNat ≤ w.offset.toNat) (hnw : (insertMmap size mmap lo l).1.toNat + size.toNat < 2 ^ 64) :
    Placed size mmap lo.toNat l (insertMmap size mmap lo l).1 (insertMmap size mmap lo l).2 := by
  induction l generalizing lo with
  | nil =>
    refine ⟨le_rfl, fun w hw => absurd hw List.not_mem_nil, fun n hn _ => hn, ?_, List.Perm.refl _⟩
    exact Windows.cons_iff.2 ⟨⟨fun x hx => absurd hx List.not_mem_nil, hs, hnw⟩, Windows.nil⟩
  | cons item l ih =>
    obtain ⟨⟨hitem, h0, hstop⟩, hl'⟩ := Windows.cons_iff.1 hl
    rw [insertMmap] at hnw ⊢
    by_cases hfit : lo + size ≤ item.offset
    · rw [if_pos hfit] at hnw ⊢
      have hsum : lo.toNat + size.toNat ≤ item.offset.toNat := by
        have := BitVec.le_def.1 hfit
        rwa [BitVec.toNat_add, Nat.mod_eq_of_lt hnw] at this
      have hall : ∀ w ∈ item :: l, lo.toNat + size.toNat ≤ w.offset.toNat := by
        intro w hw
        rcases List.mem_cons.1 hw with rfl | hw
        · exact hsum
        · have := hitem w hw
          unfold NfbCharMmapMod.stop at this
          omega
      refine ⟨le_rfl, fun w hw => Or.inl (hall w hw), fun n hn _ => hn, ?_, List.Perm.refl _⟩
      exact Windows.cons_iff.2 ⟨⟨hall, hs, hnw⟩, hl⟩
    · rw [if_neg hfit] at hnw ⊢
      -- the sum may wrap here, but then the gap is too small all the more
      have hsum : item.offset.toNat < lo.toNat + size.toNat := by
        have := BitVec.lt_def.1 (BitVec.not_le.1 hfit)
        rw [BitVec.toNat_add] at this
        exact lt_of_lt_of_le this (Nat.mod_le _ _)
      have hnext : (item.offset + item.size).toNat = item.stop := by
        rw [BitVec.toNat_add]
        exact Nat.mod_eq_of_lt hstop
      obtain ⟨hge, hfits, hleast, hwin, hperm⟩ := ih hl'
        (show ∀ w ∈ l, (item.offset + item.size).toNat ≤ w.offset.toNat by rw [hnext]; exact hitem) hnw
      rw [hnext] at hge hleast
      have hlo' := hlo item List.mem_cons_self
      have hstop' : item.offset.toNat ≤ item.stop := Nat.le_add_right _ _
      refine ⟨by show lo.toNat ≤ BitVec.toNat (insertMmap _ _ _ l).1; omega, ?_, ?_, ?_, ?_⟩
      · intro w hw
        rcases List.mem_cons.1 hw with rfl | hw
        · exact Or.inr hge
        · exact hfits w hw
      · intro n hn hfn
        refine hleast n ?_ fun w hw => hfn w (List.mem_cons_of_mem _ hw)
        rcases hfn item List.mem_cons_self with h | h
        · omega
        · exact h
      · refine Windows.cons_iff.2 ⟨⟨fun x hx => ?_, h0, hstop⟩, hwin⟩
        rcases List.mem_cons.1 (hperm.mem_iff.1 hx) with rfl | hx
        · exact hge
        · exact hitem x hx
      · exact (List.Perm.cons item hperm).trans (List.Perm.swap _ _ _)

section Lists

variable {l : List (NfbCharMmapMod H)}

theorem Windows.eq_of_common (h : Windows l) {x y : NfbCharMmapMod H} (hx : x ∈ l) (hy : y ∈ l) {n : Nat}
    (hnx : x.offset.toNat ≤ n ∧ n < x.stop) (hny : y.offset.toNat ≤ n ∧ n < y.stop) : x = y := by
  induction l with
  | nil => cases hx
  | cons w l ih =>
    obtain ⟨⟨hw, _, _⟩, hl⟩ := Windows.cons_iff.1 h
    rcases List.mem_cons.1 hx with rfl | hx'
    · rcases List.mem_cons.1 hy with rfl | hy'
      · rfl
      · have := hw y hy'
        omega
    · rcases List.mem_cons.1 hy with rfl | hy'
      · have := hw x hx'
        omega
      · exact ih hl hx' hy'

theorem Windows.mem_range (h : Windows l) (hw : w ∈ l) : w.offset.toNat ≤ w.offset.toNat ∧ w.offset.toNat < w.stop := by
  have := h.nonempty w hw
  unfold NfbCharMmapMod.stop
  omega

/-! ## Unregister -/

theorem nfbCharUnregisterMmap_eq (h : Windows l) (offset : U64) :
    nfbCharUnregisterMmap offset l =
      (l.filter (·.offset ≠ offset), if ∃ w ∈ l, w.offset = offset then 0 else eNodev) := by
  induction l with
  | nil => simp [nfbCharUnregisterMmap]
  | cons w l ih =>
    obtain ⟨⟨hw, h0, _⟩, hl⟩ := Windows.cons_iff.1 h
    rw [nfbCharUnregisterMmap]
    by_cases heq : w.offset = offset
    · have hrest : l.filter (·.offset ≠ offset) = l := by
        rw [List.filter_eq_self]
        intro x hx
        refine decide_eq_true fun hxo => ?_
        have := hw x hx
        rw [hxo, ← heq] at this
        unfold NfbCharMmapMod.stop at this
        omega
      rw [if_pos heq, List.filter_cons_of_neg (by simpa using heq), hrest]
      simp [heq]
    · rw [if_neg heq, ih hl, List.filter_cons_of_pos (by simpa using heq)]
      simp [heq]

theorem Windows.unregister (h : Windows l) (offset : U64) : Windows (nfbCharUnregisterMmap offset l).1 := by
  rw [nfbCharUnregisterMmap_eq h]
  exact ⟨List.Pairwise.filter _ h.sorted, fun w hw => h.nonempty w (List.mem_of_mem_filter hw),
    fun w hw => h.noWrap w (List.mem_of_mem_filter hw)⟩

/-! ## Lookup -/

theorem NfbCharMmapMod.contains_iff {offset size : Nat} (h0 : 0 < size) :
    w.Contains offset size ↔ w.offset.toNat ≤ offset ∧ offset + size ≤ w.stop := by
  constructor
  · intro h
    have hfirst := h offset le_rfl (by omega)
    have hlast := h (offset + size - 1) (by omega) (by omega)
    omega
  · rintro ⟨h1, h2⟩ n hn hn'
    omega

theorem NfbCharMmapMod.covers_iff (hw : w.stop < 2 ^ 64) {offset size : U64} (h0 : 0 < size.toNat)
    (hr : offset.toNat + size.toNat < 2 ^ 64) : w.covers offset size = true ↔ w.Contains offset.toNat size.toNat := by
  have hsum : (w.offset + w.size).toNat = w.stop := by
    rw [BitVec.toNat_add]
    exact Nat.mod_eq_of_lt hw
  have hsum' : (offset + size).toNat = offset.toNat + size.toNat := by
    rw [BitVec.toNat_add, Nat.mod_eq_of_lt hr]
  unfold NfbCharMmapMod.covers
  rw [decide_eq_true_iff, contains_iff h0]
  simp only [ge_iff_le, BitVec.le_def, hsum, hsum']
  unfold NfbCharMmapMod.stop at *
  omega

theorem nfbCharMmap_spec (h : Windows l) {offset size : U64} (h0 : 0 < size.toNat) (hr : offset.toNat + size.toNat < 2 ^ 64) :
    (∀ w ∈ l, w.Contains offset.toNat size.toNat → nfbCharMmap l offset size = some w.mmap ∧
        ∀ x ∈ l, x.Contains offset.toNat size.toNat → x = w) ∧
      ((¬ ∃ w ∈ l, w.Contains offset.toNat size.toNat) → nfbCharMmap l offset size = none) := by
  have huniq : ∀ w ∈ l, w.Contains offset.toNat size.toNat → ∀ x ∈ l, x.Contains offset.toNat size.toNat → x = w :=
    fun w hw hc x hx hcx => h.eq_of_common hx hw (hcx offset.toNat le_rfl (by omega)) (hc offset.toNat le_rfl (by omega))
  refine ⟨fun w hw hc => ⟨?_, huniq w hw hc⟩, fun hno => ?_⟩
  · have hsome : (l.find? (·.covers offset size)).isSome = true :=
      List.find?_isSome.2 ⟨w, hw, (NfbCharMmapMod.covers_iff (h.noWrap w hw) h0 hr).2 hc⟩
    obtain ⟨x, hx⟩ := Option.isSome_iff_exists.1 hsome
    have hmem := List.mem_of_find?_eq_some hx
    have hcov := List.find?_some (p := fun x : NfbCharMmapMod H => x.covers offset size) hx
    have hxw := huniq w hw hc x hmem ((NfbCharMmapMod.covers_iff (h.noWrap x hmem) h0 hr).1 hcov)
    unfold nfbCharMmap
    rw [hx, hxw]
    rfl
  · unfold nfbCharMmap
    rw [Option.map_eq_none_iff, List.find?_eq_none]
    intro w hw hcov
    exact hno ⟨w, hw, (NfbCharMmapMod.covers_iff (h.noWrap w hw) h0 hr).1 hcov⟩

end Lists

/-! ## Runs -/

/-- The window that a registration takes does not wrap. -/
def NoWrap (l : List (NfbCharMmapMod H)) : MmapAct H → Prop
  | .register size mmap _ => (insertMmap size mmap 0 l).1.toNat + size.toNat < 2 ^ 64
  | .unregister _ => True

instance (l : List (NfbCharMmapMod H)) : (a : MmapAct H) → Decidable (NoWrap l a)
  | .register size mmap _ => inferInstanceAs (Decidable ((insertMmap size mmap 0 l).1.toNat + size.toNat < 2 ^ 64))
  | .unregister _ => inferInstanceAs (Decidable True)

/-- The calls on a list of windows: a registration takes the lowest offset at which its window fits, unregistering
removes the window with the offset, and a lookup calls the handler of the one window that contains the range. -/
structure RegistryRight (l : List (NfbCharMmapMod H)) : Prop where
  windows : Windows l
  register : ∀ (size : U64) (mmap : H), size ≠ 0 → NoWrap l (.register size mmap true) → ∃ l' offset,
    nfbCharRegisterMmap true size mmap l = (l', 0, some offset) ∧ IsLeast {n | Fits l size.toNat n} offset.toNat ∧
      l'.Perm ({ size, offset, mmap } :: l)
  refuse : ∀ (size : U64) (mmap : H) (alloc : Bool), size = 0 ∨ alloc = false →
    (nfbCharRegisterMmap alloc size mmap l).1 = l ∧ (nfbCharRegisterMmap alloc size mmap l).2.1 ≠ 0
  unregister : ∀ offset : U64, nfbCharUnregisterMmap offset l =
    (l.filter (·.offset ≠ offset), if ∃ w ∈ l, w.offset = offset then 0 else eNodev)
  lookup : ∀ offset size : U64, 0 < size.toNat → offset.toNat + size.toNat < 2 ^ 64 →
    ((nfbCharMmap l offset size).isSome = true ↔ ∃ w ∈ l, w.Contains offset.toNat size.toNat) ∧
      ∀ w ∈ l, w.Contains offset.toNat size.toNat → nfbCharMmap l offset size = some w.mmap ∧
        ∀ x ∈ l, x.Contains offset.toNat size.toNat → x = w

theorem Windows.placed (h : Windows l) {size : U64} {mmap : H} (h0 : size ≠ 0)
    (hnw : (insertMmap size mmap 0 l).1.toNat + size.toNat < 2 ^ 64) :
    Placed size mmap 0 l (insertMmap size mmap 0 l).1 (insertMmap size mmap 0 l).2 := by
  have hs : 0 < size.toNat := by
    rcases Nat.eq_zero_or_pos size.toNat with hz | hz
    · exact absurd (BitVec.eq_of_toNat_eq hz) h0
    · exact hz
  exact insertMmap_spec hs mmap h (fun w _ => Nat.zero_le _) hnw

theorem mmapStep_windows (l : List (NfbCharMmapMod H)) (a : MmapAct H) (hnw : NoWrap l a) (h : Windows l) :
    Windows (mmapStep l a) := by
  cases a with
  | register size mmap alloc =>
    show Windows (nfbCharRegisterMmap alloc size mmap l).1
    unfold nfbCharRegisterMmap
    by_cases h0 : size = 0
    · rw [if_pos h0]
      exact h
    · rw [if_neg h0]
      cases alloc with
      | true => exact (h.placed h0 hnw).windows
      | false => exact h
  | unregister offset => exact h.unregister offset

theorem Windows.right (h : Windows l) : RegistryRight l := by
  constructor
  case windows => exact h
  case register =>
    intro size mmap h0 hnw
    have hp := h.placed h0 hnw
    refine ⟨_, _, by unfold nfbCharRegisterMmap; rw [if_neg h0]; rfl, ⟨hp.fits, fun n hn => ?_⟩, hp.perm⟩
    exact hp.least n (Nat.zero_le _) hn
  case refuse =>
    rintro size mmap alloc (rfl | rfl)
    · unfold nfbCharRegisterMmap
      rw [if_pos rfl]
      exact ⟨rfl, show eInval ≠ 0 by decide⟩
    · unfold nfbCharRegisterMmap
      split
      · exact ⟨rfl, show eInval ≠ 0 by decide⟩
      · exact ⟨rfl, show eNomem ≠ 0 by decide⟩
  case unregister => exact nfbCharUnregisterMmap_eq h
  case lookup =>
    intro offset size h0 hr
    obtain ⟨hfound, hnone⟩ := nfbCharMmap_spec h h0 hr
    refine ⟨⟨fun hsome => ?_, ?_⟩, hfound⟩
    · by_contra hno
      rw [hnone hno] at hsome
      cases hsome
    · rintro ⟨w, hw, hc⟩
      rw [(hfound w hw hc).1]
      rfl

/-- After every run of registrations that do not wrap, and of calls that take windows away, the calls are right. -/
theorem mmap_registry_right {acts : List (MmapAct H)} (hnw : Meets mmapStep NoWrap [] acts) :
    RegistryRight (run mmapStep [] acts) :=
  (run_inv_of mmapStep_windows acts [] hnw Windows.nil).right

end Calls

/-- Two windows, of which the first goes away, and a smaller one in its place. -/
theorem mmap_registry_right_reuse :
    (run mmapStep [] [.register 4096 'a' true, .register 8192 'b' true, .unregister 0, .register 100 'c' true]) =
        [⟨100, 0, 'c'⟩, ⟨8192, 4096, 'b'⟩] ∧
      RegistryRight (run mmapStep []
        [.register 4096 'a' true, .register 8192 'b' true, .unregister 0, .register 100 'c' true]) :=
  ⟨by decide, mmap_registry_right (by decide)⟩

end NdkSw.Nfb

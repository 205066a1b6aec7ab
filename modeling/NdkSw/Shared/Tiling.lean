/-
A row of segments in a space of a given size, with the free space made into pieces. A free piece starts at a multiple of a
granularity: what lies between the end of a segment and the next multiple is given away.
-/
import NdkSw.Bits.Align
import NdkSw.Shared.Segments

namespace Shared

open Bits

variable {α : Type}

inductive Piece (α : Type) where
  | used (a : α)
  | free (s : Seg)
  deriving DecidableEq, Repr

/-- Where a piece lies. -/
def Piece.seg (seg : α → Seg) : Piece α → Seg
  | .used a => seg a
  | .free s => s

def Piece.used? : Piece α → Option α
  | .used a => some a
  | .free _ => none

variable (seg : α → Seg) (g max : Nat)

/-- The pieces from `p` on: a free piece up to each segment, if there is room, and one behind the last. -/
def tile (p : Nat) : List α → List (Piece α)
  | [] => if p < max then [.free ⟨p, max - p⟩] else []
  | a :: l => (if p < (seg a).start then [.free ⟨p, (seg a).start - p⟩] else []) ++ .used a :: tile (ceilTo g (seg a).stop) l

/-- The segments in their order, each behind the one before. -/
def Row (l : List α) : Prop := l.Pairwise fun a b => (seg a).stop ≤ (seg b).start

variable {seg g max} {p e : Nat} {l : List α}

theorem row_iff_map : Row seg l ↔ (l.map seg).Pairwise fun s t => s.stop ≤ t.start := by
  rw [List.pairwise_map, Row]

/-! ## What the pieces are -/

theorem tile_used (seg : α → Seg) (g max : Nat) (l : List α) : ∀ p, (tile seg g max p l).filterMap Piece.used? = l := by
  induction l with
  | nil =>
    intro p
    rw [tile]
    split
    · rfl
    · rfl
  | cons a l ih =>
    intro p
    have hcons : ∀ t : List (Piece α), (.used a :: t).filterMap Piece.used? = a :: t.filterMap Piece.used? := fun _ => rfl
    rw [tile, List.filterMap_append, hcons, ih]
    split
    · rfl
    · rfl

theorem mem_of_used {a : α} (h : .used a ∈ tile seg g max p l) : a ∈ l := by
  rw [← tile_used seg g max l p, List.mem_filterMap]
  exact ⟨_, h, rfl⟩

theorem used_mem (seg : α → Seg) (g max p : Nat) {a : α} (h : a ∈ l) : .used a ∈ tile seg g max p l := by
  rw [← tile_used seg g max l p, List.mem_filterMap] at h
  obtain ⟨piece, hp, hu⟩ := h
  cases piece with
  | used b =>
    cases hu
    exact hp
  | free s => cases hu

/-- A free piece is not empty. -/
theorem free_pos {s : Seg} : ∀ {p}, .free s ∈ tile seg g max p l → 0 < s.len := by
  induction l with
  | nil =>
    intro p h
    rw [tile] at h
    split at h
    · rw [List.mem_singleton] at h
      cases h
      show 0 < max - p
      omega
    · cases h
  | cons a l ih =>
    intro p h
    rw [tile, List.mem_append] at h
    rcases h with h | h
    · split at h
      · rw [List.mem_singleton] at h
        cases h
        show 0 < (seg a).start - p
        omega
      · cases h
    · rcases List.mem_cons.1 h with h | h
      · cases h
      · exact ih h

/-! ## Where the pieces lie -/

section

variable (hg : 0 < g)

include hg

/-- Every piece lies behind what comes before. -/
theorem le_start (hrow : Row seg l) : ∀ {p e}, e ≤ p → (∀ a ∈ l, e ≤ (seg a).start) →
    ∀ piece ∈ tile seg g max p l, e ≤ (piece.seg seg).start := by
  induction l with
  | nil =>
    intro p e hp _ piece h
    rw [tile] at h
    split at h
    · rw [List.mem_singleton] at h
      subst h
      exact hp
    · cases h
  | cons a l ih =>
    intro p e hp hl piece h
    obtain ⟨hafter, hrow⟩ := List.pairwise_cons.1 hrow
    have ha := hl a List.mem_cons_self
    have hstop : (seg a).start ≤ (seg a).stop := Nat.le_add_right _ _
    rw [tile, List.mem_append] at h
    rcases h with h | h
    · split at h
      · rw [List.mem_singleton] at h
        subst h
        exact hp
      · cases h
    · rcases List.mem_cons.1 h with rfl | h
      · exact ha
      · exact ih hrow (le_trans (ha.trans hstop) (le_ceilTo hg _)) (fun b hb => (ha.trans hstop).trans (hafter b hb)) piece h

omit hg in
theorem le_free_start : ∀ {p e}, e ≤ p → (∀ a ∈ l, e ≤ ceilTo g (seg a).stop) → ∀ s, .free s ∈ tile seg g max p l → e ≤ s.start := by
  induction l with
  | nil =>
    intro p e hp _ s h
    rw [tile] at h
    split at h
    · rw [List.mem_singleton] at h
      cases h
      exact hp
    · cases h
  | cons a l ih =>
    intro p e hp hl s h
    rw [tile, List.mem_append] at h
    rcases h with h | h
    · split at h
      · rw [List.mem_singleton] at h
        cases h
        exact hp
      · cases h
    · rcases List.mem_cons.1 h with h | h
      · cases h
      · exact ih (hl a List.mem_cons_self) (fun b hb => hl b (List.mem_cons_of_mem _ hb)) s h

/-- A free piece lies in front of a segment, or behind what is given away behind it. -/
theorem free_apart (hrow : Row seg l) : ∀ {p} s, .free s ∈ tile seg g max p l → ∀ a ∈ l,
    ceilTo g (seg a).stop ≤ s.start ∨ s.stop ≤ (seg a).start := by
  induction l with
  | nil => exact fun _ _ a ha => absurd ha List.not_mem_nil
  | cons a l ih =>
    intro p s h
    obtain ⟨hafter, hrow⟩ := List.pairwise_cons.1 hrow
    have hstop : ∀ b : α, (seg b).start ≤ (seg b).stop := fun b => Nat.le_add_right _ _
    rw [tile, List.mem_append] at h
    rcases h with h | h
    · split at h
      · rename_i hlt
        rw [List.mem_singleton] at h
        cases h
        have hend : (⟨p, (seg a).start - p⟩ : Seg).stop = (seg a).start := by
          show p + ((seg a).start - p) = _
          omega
        intro b hb
        rw [hend]
        rcases List.mem_cons.1 hb with rfl | hb
        · exact Or.inr le_rfl
        · exact Or.inr ((hstop a).trans (hafter b hb))
      · cases h
    · rcases List.mem_cons.1 h with h | h
      · cases h
      intro b hb
      rcases List.mem_cons.1 hb with rfl | hb
      · refine Or.inl (le_free_start le_rfl (fun c hc => ?_) s h)
        exact ceilTo_le hg (((hafter c hc).trans (hstop c)).trans (le_ceilTo hg _)) (dvd_ceilTo _ _)
      · exact ih hrow s h b hb

/-- The pieces are a row again. -/
theorem tile_row (hrow : Row seg l) : ∀ {p}, Row (Piece.seg seg) (tile seg g max p l) := by
  induction l with
  | nil =>
    intro p
    rw [tile]
    split
    · exact List.pairwise_singleton _ _
    · exact List.Pairwise.nil
  | cons a l ih =>
    intro p
    have hcons := List.pairwise_cons.1 hrow
    have hlater : ∀ piece ∈ tile seg g max (ceilTo g (seg a).stop) l, (seg a).stop ≤ (piece.seg seg).start :=
      le_start hg hcons.2 (le_ceilTo hg _) hcons.1
    have htail : Row (Piece.seg seg) (.used a :: tile seg g max (ceilTo g (seg a).stop) l) :=
      List.pairwise_cons.2 ⟨hlater, ih hcons.2⟩
    rw [tile]
    split
    · next hlt =>
      refine List.pairwise_cons.2 ⟨fun piece h => ?_, htail⟩
      have hend : (Piece.seg seg (.free ⟨p, (seg a).start - p⟩)).stop = (seg a).start := by
        show p + ((seg a).start - p) = _
        omega
      rw [hend]
      rcases List.mem_cons.1 h with rfl | h
      · exact le_rfl
      · exact le_trans (Nat.le_add_right _ _) (hlater piece h)
    · exact htail

end

theorem tile_below (hl : ∀ a ∈ l, (seg a).stop ≤ max) : ∀ {p}, ∀ piece ∈ tile seg g max p l, (piece.seg seg).stop ≤ max := by
  induction l with
  | nil =>
    intro p piece h
    rw [tile] at h
    split at h
    · rw [List.mem_singleton] at h
      subst h
      show p + (max - p) ≤ max
      omega
    · cases h
  | cons a l ih =>
    intro p piece h
    have ha := hl a List.mem_cons_self
    rw [tile, List.mem_append] at h
    rcases h with h | h
    · split at h
      · rw [List.mem_singleton] at h
        subst h
        show p + ((seg a).start - p) ≤ max
        unfold Seg.stop at ha
        omega
      · cases h
    · rcases List.mem_cons.1 h with rfl | h
      · exact ha
      · exact ih (fun b hb => hl b (List.mem_cons_of_mem _ hb)) piece h

/-- Every place from `p` on is in a piece or was given away behind a segment. -/
theorem tile_cover (seg : α → Seg) (g : Nat) (l : List α) {x : Nat} (hx : x < max) : ∀ {p}, p ≤ x → (∃ piece ∈ tile seg g max p l, x ∈ piece.seg seg) ∨
    ∃ a ∈ l, (seg a).stop ≤ x ∧ x < ceilTo g (seg a).stop := by
  induction l with
  | nil =>
    intro p hp
    refine .inl ⟨.free ⟨p, max - p⟩, ?_, ?_⟩
    · rw [tile, if_pos (lt_of_le_of_lt hp hx)]
      exact List.mem_singleton.2 rfl
    · exact ⟨hp, show x < p + (max - p) by omega⟩
  | cons a l ih =>
    intro p hp
    have hmem : ∀ piece ∈ .used a :: tile seg g max (ceilTo g (seg a).stop) l, piece ∈ tile seg g max p (a :: l) := by
      intro piece h
      rw [tile]
      exact List.mem_append_right _ h
    rcases Nat.lt_or_ge x (seg a).start with hbefore | hstart
    · refine .inl ⟨.free ⟨p, (seg a).start - p⟩, ?_, ?_⟩
      · rw [tile, if_pos (lt_of_le_of_lt hp hbefore)]
        exact List.mem_cons_self
      · exact ⟨hp, show x < p + ((seg a).start - p) by omega⟩
    rcases Nat.lt_or_ge x (seg a).stop with hin | hstop
    · exact .inl ⟨.used a, hmem _ List.mem_cons_self, hstart, hin⟩
    rcases Nat.lt_or_ge x (ceilTo g (seg a).stop) with hgap | hbehind
    · exact .inr ⟨a, List.mem_cons_self, hstop, hgap⟩
    rcases ih hbehind with ⟨piece, hpiece, hxp⟩ | ⟨b, hb, hgap⟩
    · exact .inl ⟨piece, hmem _ (List.mem_cons_of_mem _ hpiece), hxp⟩
    · exact .inr ⟨b, List.mem_cons_of_mem _ hb, hgap⟩

end Shared

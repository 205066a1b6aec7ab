/-
The parser of the lists of numbers and ranges (`list_range_parse` of `netcope/nccommon.h`). What it accepts are ranges whose number of
values it could count.
-/
import NdkSw.Shared.OptionText
import NdkSw.Tools.ListRange

namespace NdkSw.Tools

open Ndp Shared

/-! ## Numbers -/

/-- `strtol` in base 10: the number within the bounds of a `long`, and what stands behind it; none if there are no digits. -/
def strtolDecimal (s : List Char) : Option (Int × List Char) :=
  let s := s.dropWhile isBlank
  let signed := s.head? = some '-' ∨ s.head? = some '+'
  let u := if signed then s.tail else s
  let digits := digitsIn 10 u
  if digits = [] then none
  else
    let z : Int := if s.head? = some '-' then -(numberIn 10 digits : Int) else numberIn 10 digits
    some (max (-2 ^ 63) (min z (2 ^ 63 - 1)), u.drop digits.length)

/-- `list_range_get_number`: the number as an `int`. -/
def listRangeGetNumber (s : List Char) : Option (U32 × List Char) :=
  (strtolDecimal s).map fun (z, rest) => (BitVec.ofInt 32 z, rest)

/-! ## Lists -/

/-- `list_range_parse_intr`: the list, the result and the end of the range. -/
def listRangeParseIntr (lr : ListRange) (s : List Char) : ListRange × U32 × List Char :=
  match listRangeGetNumber s with
  | none => (lr, -1, s)
  | some (x, s₁) =>
    match s₁.dropWhile isBlank with
    | '-' :: s₂ =>
      match listRangeGetNumber s₂ with
      | none => (lr, -1, s)
      | some (y, rest) =>
        match listRangeAddRange lr x y with
        | none => (lr, -1, rest)
        | some lr => (lr, y - x + 1, rest)
    | _ => (lr, -1, s)

/-- A range or a number: the list, the count and what follows. -/
def listRangeParseItem (lr : ListRange) (count : U32) (s : List Char) : Option (ListRange × U32 × List Char) :=
  let (lr, ret, rest) := listRangeParseIntr lr s
  if ret.slt 0 then (listRangeGetNumber s).map fun (x, rest) => (listRangeAddNumber lr x, count + 1, rest)
  else some (lr, count + ret, rest)

/-- The loop of `list_range_parse`; none for its result -1. -/
def listRangeParseFrom : Nat → ListRange → U32 → List Char → Option (ListRange × U32)
  | 0, _, _, _ => none
  | fuel + 1, lr, count, s =>
    match listRangeParseItem lr count (s.dropWhile isBlank) with
    | none => none
    | some (lr, count, rest) =>
      match rest.dropWhile isBlank with
      | [] => some (lr, count)
      | ',' :: rest => listRangeParseFrom fuel lr count rest
      | _ => none

/-- `list_range_parse`. -/
def listRangeParse (lr : ListRange) (s : List Char) : Option (ListRange × U32) := listRangeParseFrom (s.length + 1) lr 0 s

/-- An option that takes a list: the list that it has been extended to, if it is accepted. -/
def listOption (lr : ListRange) (s : List Char) : Option ListRange :=
  match listRangeParse lr s with
  | none => none
  | some (lr, count) => if count.slt 0 then none else some lr

/-- The number of values of the range is an `int`, or too large by so much that it is zero. -/
def RangeItem.Counted (r : RangeItem) : Prop := 0 ≤ (r.max - r.min + 1).toInt

section

variable {lr lr' : ListRange} {s rest : List Char} {count count' : U32}

theorem getNumber_shorter {x : U32} (h : listRangeGetNumber s = some (x, rest)) : rest.length < s.length := by
  unfold listRangeGetNumber strtolDecimal at h
  obtain ⟨⟨z, t⟩, hz, heq⟩ := Option.map_eq_some_iff.1 h
  obtain ⟨-, rfl⟩ := Prod.mk.inj heq
  dsimp only at hz
  generalize hu : (if (s.dropWhile isBlank).head? = some '-' ∨ (s.dropWhile isBlank).head? = some '+' then
    (s.dropWhile isBlank).tail else s.dropWhile isBlank) = u at hz
  have hlen : u.length ≤ s.length := by
    have hdrop := (List.dropWhile_sublist isBlank (l := s)).length_le
    rw [← hu]
    split
    · exact le_trans (by rw [List.length_tail]; omega) hdrop
    · exact hdrop
  by_cases hd : digitsIn 10 u = []
  · rw [if_pos hd] at hz
    cases hz
  · rw [if_neg hd] at hz
    obtain ⟨-, rfl⟩ := Prod.mk.inj (Option.some.inj hz)
    have hpos := List.length_pos_of_ne_nil hd
    have htake : (digitsIn 10 u).length ≤ u.length := (List.takeWhile_sublist _).length_le
    rw [List.length_drop]
    omega

theorem parseIntr_cases (lr : ListRange) (s : List Char) :
    (listRangeParseIntr lr s).1 = lr ∧ (listRangeParseIntr lr s).2.1 = -1 ∨
      ∃ x y s₁ s₂ rest, listRangeGetNumber s = some (x, s₁) ∧ s₁.dropWhile isBlank = '-' :: s₂ ∧
        listRangeGetNumber s₂ = some (y, rest) ∧ ∃ h : x.toInt ≤ y.toInt,
          listRangeParseIntr lr s = (lr ++ [{ min := x, max := y, ordered := h }], y - x + 1, rest) := by
  unfold listRangeParseIntr
  cases hx : listRangeGetNumber s with
  | none => exact .inl ⟨rfl, rfl⟩
  | some p =>
    obtain ⟨x, s₁⟩ := p
    dsimp only
    split
    · rename_i s₂ hminus
      cases hy : listRangeGetNumber s₂ with
      | none => exact .inl ⟨rfl, rfl⟩
      | some q =>
        obtain ⟨y, rest⟩ := q
        dsimp only [listRangeAddRange]
        by_cases hle : x.toInt ≤ y.toInt
        · rw [dif_pos hle]
          exact .inr ⟨x, y, s₁, s₂, rest, rfl, hminus, hy, hle, rfl⟩
        · rw [dif_neg hle]
          exact .inl ⟨rfl, rfl⟩
    · exact .inl ⟨rfl, rfl⟩

theorem parseItem_cases {s' : List Char} (h : listRangeParseItem lr count s = some (lr', count', s')) :
    s'.length < s.length ∧ ((∃ r : RangeItem, r.Counted ∧ lr' = lr ++ [r]) ∨ ∃ s₂, s'.dropWhile isBlank = '-' :: s₂) := by
  unfold listRangeParseItem at h
  rcases parseIntr_cases lr s with ⟨hlr, hret⟩ | ⟨x, y, s₁, s₂, rest, hx, hminus, hy, hle, hall⟩
  · rcases hintr : listRangeParseIntr lr s with ⟨lr₁, ret, rest⟩
    rw [hintr] at h hlr hret
    obtain rfl : lr₁ = lr := hlr
    obtain rfl : ret = -1 := hret
    have hneg : (-1 : U32).slt 0 = true := by decide
    dsimp only at h
    rw [if_pos hneg] at h
    obtain ⟨⟨x, t⟩, hx, heq⟩ := Option.map_eq_some_iff.1 h
    cases heq
    refine ⟨getNumber_shorter hx, .inl ⟨{ min := x, max := x, ordered := Int.le_refl _ }, ?_, rfl⟩⟩
    rw [RangeItem.Counted, BitVec.sub_self]
    decide
  · rw [hall] at h
    dsimp only at h
    by_cases hneg : (y - x + 1).slt 0 = true
    · rw [if_pos hneg, hx] at h
      cases h
      exact ⟨getNumber_shorter hx, .inr ⟨s₂, hminus⟩⟩
    · rw [if_neg hneg] at h
      cases h
      refine ⟨?_, .inl ⟨_, ?_, rfl⟩⟩
      · have h1 := getNumber_shorter hx
        have h2 := getNumber_shorter hy
        have h3 := (List.dropWhile_sublist isBlank (l := s₁)).length_le
        rw [hminus, List.length_cons] at h3
        omega
      · rw [BitVec.slt_eq_decide, decide_eq_true_eq, not_lt] at hneg
        exact hneg

theorem dropWhile_shorter (s : List Char) : (s.dropWhile isBlank).length ≤ s.length := (List.dropWhile_sublist isBlank).length_le

theorem parseFrom_fuel : ∀ {fuel : Nat} {lr : ListRange} {count : U32} {s : List Char}, s.length < fuel →
    listRangeParseFrom (fuel + 1) lr count s = listRangeParseFrom fuel lr count s
  | 0, _, _, _, h => absurd h (Nat.not_lt_zero _)
  | fuel + 1, lr, count, s, h => by
    rw [listRangeParseFrom, listRangeParseFrom]
    cases hitem : listRangeParseItem lr count (s.dropWhile isBlank) with
    | none => rfl
    | some p =>
      obtain ⟨lr', count', rest⟩ := p
      have hshort := (parseItem_cases hitem).1
      have hs := dropWhile_shorter s
      dsimp only
      split
      · rfl
      · rename_i t hcomma
        have ht := dropWhile_shorter rest
        rw [hcomma, List.length_cons] at ht
        exact parseFrom_fuel (by omega)
      · rfl

theorem parseFrom_counted : ∀ {fuel : Nat} {lr : ListRange} {count : U32} {s : List Char} {lr' : ListRange} {count' : U32},
    (∀ r ∈ lr, r.Counted) → listRangeParseFrom fuel lr count s = some (lr', count') → ∀ r ∈ lr', r.Counted
  | 0, _, _, _, _, _, _, h => nomatch h
  | fuel + 1, lr, count, s, lr', count', hlr, h => by
    rw [listRangeParseFrom] at h
    cases hitem : listRangeParseItem lr count (s.dropWhile isBlank) with
    | none =>
      rw [hitem] at h
      cases h
    | some p =>
      obtain ⟨lr₁, count₁, rest⟩ := p
      rw [hitem] at h
      dsimp only at h
      rcases (parseItem_cases hitem).2 with ⟨r, hr, rfl⟩ | ⟨s₂, hminus⟩
      · have hall : ∀ x ∈ lr ++ [r], x.Counted := by
          intro x hx
          rcases List.mem_append.1 hx with hx | hx
          · exact hlr x hx
          · rw [List.mem_singleton.1 hx]
            exact hr
        split at h
        · cases h
          exact hall
        · exact parseFrom_counted hall h
        · cases h
      · rw [hminus] at h
        cases h

theorem listOption_counted {texts : List (List Char)} (hlr : ∀ r ∈ lr, r.Counted) (h : texts.foldlM listOption lr = some lr') :
    ∀ r ∈ lr', r.Counted := by
  induction texts generalizing lr with
  | nil =>
    cases h
    exact hlr
  | cons t texts ih =>
    rw [List.foldlM_cons] at h
    obtain ⟨lr₁, h1, h2⟩ := Option.bind_eq_some_iff.1 h
    refine ih ?_ h2
    unfold listOption at h1
    split at h1
    · cases h1
    · rename_i hparse
      split at h1
      · cases h1
      · cases h1
        exact parseFrom_counted hlr hparse

end

end NdkSw.Tools

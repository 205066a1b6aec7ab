/-
What `list_range_parse` is to read: items between commas, an integer or two of them around a minus. The parser takes every such text as
integers without a bound would be taken, but puts what does not fit an `int` into one.
-/
import NdkSw.Shared.IntText
import NdkSw.Tools.ListParse

namespace NdkSw.Tools

open Ndp Shared

/-! ## The grammar -/

/-- A number, or a range from its first to its last value. -/
inductive ListItem where
  | number (x : Int)
  | range (x y : Int)
  deriving DecidableEq, Repr

/-- The text of an item, with blanks around it and before the minus. -/
inductive ItemText : List Char → ListItem → Prop
  | number {t b : List Char} {x : Int} (ht : IntText t x) (hb : Blanks b) : ItemText (t ++ b) (.number x)
  | range {t b u b' : List Char} {x y : Int} (ht : IntText t x) (hb : Blanks b) (hu : IntText u y) (hb' : Blanks b') :
    ItemText (t ++ (b ++ '-' :: (u ++ b'))) (.range x y)

/-- The text of a list of at least one item. -/
inductive ListText : List Char → List ListItem → Prop
  | last {t : List Char} {i : ListItem} (ht : ItemText t i) : ListText t [i]
  | more {t s : List Char} {i : ListItem} {l : List ListItem} (ht : ItemText t i) (hs : ListText s l) : ListText (t ++ ',' :: s) (i :: l)

namespace ListItem

/-- The first value. -/
def lo : ListItem → Int
  | .number x => x
  | .range x _ => x

/-- The last one. -/
def hi : ListItem → Int
  | .number x => x
  | .range _ y => y

/-- The number of values. -/
def size (i : ListItem) : Int := i.hi - i.lo + 1

/-- The values and their number fit an `int`, and they are in order. -/
def Fits (i : ListItem) : Prop := -2 ^ 31 ≤ i.lo ∧ i.lo ≤ i.hi ∧ i.hi < 2 ^ 31 ∧ i.size < 2 ^ 31

/-- A value is listed. -/
def Has (i : ListItem) (z : Int) : Prop := i.lo ≤ z ∧ z ≤ i.hi

end ListItem

/-! ## Values of type `int` -/

/-- What is left in an `int` of a value that `strtol` first puts into a `long`. -/
def cutInt (z : Int) : U32 := BitVec.ofInt 32 (max (-2 ^ 63) (min z (2 ^ 63 - 1)))

/-- The number of values of an item, in `int` arithmetic. -/
def ListItem.cutSize (i : ListItem) : U32 := cutInt i.hi - cutInt i.lo + 1

/-- What is left of the item is a range whose number of values, as an `int`, is not negative. -/
def ListItem.Passes (i : ListItem) : Prop := (cutInt i.lo).toInt ≤ (cutInt i.hi).toInt ∧ 0 ≤ i.cutSize.toInt

instance (i : ListItem) : Decidable i.Passes := inferInstanceAs (Decidable (_ ∧ _))

/-- The number of values of a list, in `int` arithmetic. -/
def cutTotal (l : List ListItem) : U32 := l.foldl (fun count i => count + i.cutSize) 0

/-! ## What the parser is for -/

/-- The result of `list_range_parse`. -/
def listRangeParseResult (lr : ListRange) (s : List Char) : U32 := ((listRangeParse lr s).map Prod.snd).getD (-1)

/-- It accepts the lists of items that fit, it returns the count of the items it adds, and these have the values that are listed. -/
structure ParsesLists (lr : ListRange) (s : List Char) : Prop where
  accepts : 0 ≤ (listRangeParseResult lr s).toInt ↔ ∃ l, ListText s l ∧ ∀ i ∈ l, i.Fits
  counts : ∀ lr' count, listRangeParse lr s = some (lr', count) → 0 ≤ count.toInt →
    ∃ added, lr' = lr ++ added ∧ count = listRangeCount added
  contains : ∀ lr' count, listRangeParse lr s = some (lr', count) → 0 ≤ count.toInt → ∀ l, ListText s l → ∀ n : U32,
    listRangeContains lr' n = true ↔ listRangeContains lr n = true ∨ ∃ i ∈ l, i.Has n.toInt

/-- Where all items of the list fit, so does their total number of values, or it is too large by so much that its lower half is zero
again. Where some do not, what is left of them in an `int` is out of order, or has a negative number of values, or all have together. -/
structure ListFits (s : List Char) : Prop where
  total : ∀ l, ListText s l → (∀ i ∈ l, i.Fits) → (l.map ListItem.size).sum % 2 ^ 32 < 2 ^ 31
  refused : ∀ l, ListText s l → (∃ i ∈ l, ¬i.Fits) → (∃ i ∈ l, ¬i.Passes) ∨ (cutTotal l).toInt < 0

/-! ## Reading a list -/

/-- The item at the start of a text, and what stands behind it. -/
def readItem (s : List Char) : Option (ListItem × List Char) :=
  match readInt s with
  | none => none
  | some (x, s₁) =>
    match s₁.dropWhile isBlank with
    | '-' :: s₂ =>
      match readInt s₂ with
      | none => none
      | some (y, rest) => some (.range x y, rest.dropWhile isBlank)
    | rest => some (.number x, rest)

/-- The items of a text. -/
def readItems : Nat → List Char → Option (List ListItem)
  | 0, _ => none
  | fuel + 1, s =>
    match readItem s with
    | none => none
    | some (i, []) => some [i]
    | some (i, ',' :: rest) => (readItems fuel rest).map (i :: ·)
    | some _ => none

/-- The end of the text or a comma. -/
def AtEnd (s : List Char) : Prop := s = [] ∨ s.head? = some ','

section

variable {s t rest : List Char} {i : ListItem} {l : List ListItem} {fuel : Nat}

theorem AtEnd.not_blank (h : AtEnd rest) : ∀ c, rest.head? = some c → isBlank c = false := by
  intro c hc
  rcases h with rfl | h
  · cases hc
  · obtain rfl : ',' = c := Option.some.inj (h.symm.trans hc)
    rfl

theorem AtEnd.noDigit (h : AtEnd rest) : NoDigit rest := by
  intro c hc
  rcases h with rfl | h
  · cases hc
  · obtain rfl : ',' = c := Option.some.inj (h.symm.trans hc)
    rfl

theorem readItem_complete (h : ItemText t i) (hrest : AtEnd rest) : readItem (t ++ rest) = some (i, rest) := by
  unfold readItem
  cases h with
  | @number t b x ht hb =>
    rw [List.append_assoc, readInt_complete ht (hb.noDigit hrest.noDigit)]
    dsimp only
    rw [hb.dropWhile_eq hrest.not_blank]
    rcases hrest with rfl | h
    · rfl
    · obtain ⟨s, rfl⟩ : ∃ s, rest = ',' :: s := List.head?_eq_some_iff.1 h
      rfl
  | @range t b u b' x y ht hb hu hb' =>
    have hminus : NoDigit (b ++ '-' :: (u ++ b') ++ rest) := by
      rw [List.append_assoc]
      refine hb.noDigit fun c hc => ?_
      obtain rfl : '-' = c := Option.some.inj hc
      rfl
    rw [List.append_assoc, readInt_complete ht hminus]
    dsimp only
    rw [List.append_assoc, hb.dropWhile_append, List.cons_append, List.dropWhile_cons_of_neg (by decide)]
    have hsecond := readInt_complete hu (hb'.noDigit hrest.noDigit)
    rw [← List.append_assoc] at hsecond
    simp only [hsecond]
    rw [hb'.dropWhile_eq hrest.not_blank]

theorem readItem_sound (h : readItem s = some (i, rest)) : ∃ t, s = t ++ rest ∧ ItemText t i := by
  unfold readItem at h
  cases hx : readInt s with
  | none =>
    rw [hx] at h
    cases h
  | some p =>
    obtain ⟨x, s₁⟩ := p
    rw [hx] at h
    obtain ⟨-, t, rfl, ht⟩ := readInt_sound hx
    obtain ⟨b, hb, hs₁⟩ := exists_blanks s₁
    dsimp only at h
    split at h
    · rename_i s₂ hminus
      cases hy : readInt s₂ with
      | none =>
        rw [hy] at h
        cases h
      | some q =>
        obtain ⟨y, s₃⟩ := q
        rw [hy] at h
        obtain ⟨rfl, rfl⟩ := Prod.mk.inj (Option.some.inj h)
        obtain ⟨-, u, rfl, hu⟩ := readInt_sound hy
        obtain ⟨b', hb', hs₃⟩ := exists_blanks s₃
        refine ⟨t ++ (b ++ '-' :: (u ++ b')), ?_, .range ht hb hu hb'⟩
        conv_lhs => rw [hs₁, hminus, hs₃]
        simp only [List.append_assoc, List.cons_append]
    · obtain ⟨rfl, rfl⟩ := Prod.mk.inj (Option.some.inj h)
      refine ⟨t ++ b, ?_, .number ht hb⟩
      rw [List.append_assoc, ← hs₁]

theorem readItems_sound : ∀ {fuel : Nat} {s : List Char} {l : List ListItem}, readItems fuel s = some l → ListText s l
  | 0, _, _, h => nomatch h
  | fuel + 1, s, l, h => by
    rw [readItems] at h
    split at h
    · cases h
    · rename_i i hitem
      obtain ⟨t, rfl, ht⟩ := readItem_sound hitem
      cases h
      rw [List.append_nil]
      exact .last ht
    · rename_i i rest hitem
      obtain ⟨t, rfl, ht⟩ := readItem_sound hitem
      obtain ⟨l', hl', rfl⟩ := Option.map_eq_some_iff.1 h
      exact .more ht (readItems_sound hl')
    · cases h

theorem readItems_complete (h : ListText s l) : ∀ {fuel : Nat}, s.length < fuel → readItems fuel s = some l := by
  induction h with
  | @last t i ht =>
    intro fuel hfuel
    obtain ⟨fuel, rfl⟩ := Nat.exists_eq_add_one_of_ne_zero (Nat.ne_zero_of_lt hfuel)
    have hitem := readItem_complete ht (.inl rfl)
    rw [List.append_nil] at hitem
    rw [readItems, hitem]
  | @more t s i l ht _ ih =>
    intro fuel hfuel
    obtain ⟨fuel, rfl⟩ := Nat.exists_eq_add_one_of_ne_zero (Nat.ne_zero_of_lt hfuel)
    rw [List.length_append, List.length_cons] at hfuel
    rw [readItems, readItem_complete ht (.inr rfl)]
    show (readItems fuel s).map (i :: ·) = _
    rw [ih (by omega)]
    rfl

theorem readItems_iff : readItems (s.length + 1) s = some l ↔ ListText s l :=
  ⟨readItems_sound, fun h => readItems_complete h (Nat.lt_succ_self _)⟩

theorem ListText.unique {l' : List ListItem} (h : ListText s l) (h' : ListText s l') : l = l' :=
  Option.some.inj ((readItems_iff.2 h).symm.trans (readItems_iff.2 h'))

end

/-! ## What the parser reads -/

theorem strtolDecimal_eq (s : List Char) : strtolDecimal s = (readInt s).map fun p => (max (-2 ^ 63) (min p.1 (2 ^ 63 - 1)), p.2) := by
  unfold strtolDecimal readInt
  dsimp only
  generalize (if (s.dropWhile isBlank).head? = some '-' ∨ (s.dropWhile isBlank).head? = some '+' then (s.dropWhile isBlank).tail
    else s.dropWhile isBlank) = u
  by_cases hdigits : digitsIn 10 u = []
  · rw [if_pos hdigits, if_pos hdigits]
    rfl
  · rw [if_neg hdigits, if_neg hdigits]
    rfl

theorem getNumber_eq (s : List Char) : listRangeGetNumber s = (readInt s).map fun p => (cutInt p.1, p.2) := by
  rw [listRangeGetNumber, strtolDecimal_eq, Option.map_map]
  rfl

/-- The range is what is left of the item. -/
def CutTo (i : ListItem) (r : RangeItem) : Prop := r.min = cutInt i.lo ∧ r.max = cutInt i.hi

section

variable {s rest : List Char} {i : ListItem} {l : List ListItem} {lr lr' : ListRange} {count count' : U32} {fuel : Nat}

theorem number_cutSize (x : Int) : (ListItem.number x).cutSize = 1 := by
  show cutInt x - cutInt x + 1 = 1
  rw [BitVec.sub_self]
  rfl

theorem number_passes (x : Int) : (ListItem.number x).Passes := by
  refine ⟨Int.le_refl _, ?_⟩
  rw [number_cutSize]
  decide

theorem range_ext {r r' : RangeItem} (h : CutTo i r) (h' : CutTo i r') : r = r' := by
  obtain ⟨x, y, hxy⟩ := r
  obtain ⟨x', y', hxy'⟩ := r'
  obtain ⟨rfl, rfl⟩ := h
  obtain ⟨rfl, rfl⟩ := h'
  rfl

theorem parseItem_number {x : Int} {s₁ : List Char} (hx : readInt s = some (x, s₁)) {ret : U32}
    (hintr : listRangeParseIntr lr s = (lr', ret, rest)) (hneg : ret.slt 0 = true) :
    listRangeParseItem lr count s = some (listRangeAddNumber lr' (cutInt x), count + 1, s₁) := by
  rw [listRangeParseItem, hintr]
  dsimp only
  rw [if_pos hneg, getNumber_eq, hx]
  rfl

/-- An item that is read and passes is added and counted; with anything else the parser fails, or it stops before a minus. -/
theorem parseItem_read (lr : ListRange) (count : U32) (s : List Char) :
    (∃ i rest r rest', readItem s = some (i, rest) ∧ i.Passes ∧ CutTo i r ∧ rest'.dropWhile isBlank = rest ∧
        listRangeParseItem lr count s = some (lr ++ [r], count + i.cutSize, rest')) ∨
      (∀ i rest, readItem s = some (i, rest) → ¬i.Passes) ∧
        ∀ lr' count' rest', listRangeParseItem lr count s = some (lr', count', rest') → ∃ s₂, rest'.dropWhile isBlank = '-' :: s₂ := by
  have hneg : (-1 : U32).slt 0 = true := by decide
  unfold readItem
  cases hx : readInt s with
  | none =>
    have hno : listRangeGetNumber s = none := by rw [getNumber_eq, hx]; rfl
    refine .inr ⟨fun i rest h => ?_, fun lr' count' rest' h => ?_⟩
    · cases h
    · rw [listRangeParseItem, listRangeParseIntr, hno] at h
      dsimp only at h
      rw [if_pos hneg] at h
      cases h
  | some p =>
    obtain ⟨x, s₁⟩ := p
    have hnum : listRangeGetNumber s = some (cutInt x, s₁) := by rw [getNumber_eq, hx]; rfl
    dsimp only
    split
    · rename_i s₂ hminus
      cases hy : readInt s₂ with
      | none =>
        -- No number behind the minus: the first one is added, and the minus is left.
        have hno : listRangeGetNumber s₂ = none := by rw [getNumber_eq, hy]; rfl
        have hintr : listRangeParseIntr lr s = (lr, -1, s) := by
          rw [listRangeParseIntr, hnum]
          simp only [hminus, hno]
        refine .inr ⟨fun i rest h => ?_, fun lr' count' rest' h => ⟨s₂, ?_⟩⟩
        · cases h
        · rw [parseItem_number hx hintr hneg] at h
          cases h
          exact hminus
      | some q =>
        obtain ⟨y, s₃⟩ := q
        have hsecond : listRangeGetNumber s₂ = some (cutInt y, s₃) := by rw [getNumber_eq, hy]; rfl
        dsimp only
        by_cases hle : (cutInt x).toInt ≤ (cutInt y).toInt
        · have hintr : listRangeParseIntr lr s =
              (lr ++ [{ min := cutInt x, max := cutInt y, ordered := hle }], cutInt y - cutInt x + 1, s₃) := by
            rw [listRangeParseIntr, hnum]
            simp only [hminus, hsecond, listRangeAddRange, dif_pos hle]
          by_cases hsize : 0 ≤ (cutInt y - cutInt x + 1).toInt
          · refine .inl ⟨.range x y, _, { min := cutInt x, max := cutInt y, ordered := hle }, s₃, rfl, ⟨hle, hsize⟩, ⟨rfl, rfl⟩, rfl, ?_⟩
            have hcounted : ¬(cutInt y - cutInt x + 1).slt 0 = true := by
              rw [BitVec.slt_eq_decide, decide_eq_true_eq, not_lt]
              exact hsize
            rw [listRangeParseItem, hintr]
            dsimp only
            rw [if_neg hcounted]
            rfl
          · -- The range is added, but the count is negative: the first number is added again, and the minus is left.
            refine .inr ⟨fun i rest h => ?_, fun lr' count' rest' h => ⟨s₂, ?_⟩⟩
            · cases h
              exact fun hpasses => hsize hpasses.2
            · have hnegative : (cutInt y - cutInt x + 1).slt 0 = true := by
                rw [BitVec.slt_eq_decide, decide_eq_true_eq]
                exact not_le.1 hsize
              rw [parseItem_number hx hintr hnegative] at h
              cases h
              exact hminus
        · have hintr : listRangeParseIntr lr s = (lr, -1, s₃) := by
            rw [listRangeParseIntr, hnum]
            simp only [hminus, hsecond, listRangeAddRange, dif_neg hle]
          refine .inr ⟨fun i rest h => ?_, fun lr' count' rest' h => ⟨s₂, ?_⟩⟩
          · cases h
            exact fun hpasses => hle hpasses.1
          · rw [parseItem_number hx hintr hneg] at h
            cases h
            exact hminus
    · rename_i hminus
      have hintr : listRangeParseIntr lr s = (lr, -1, s) := by
        rw [listRangeParseIntr, hnum]
        dsimp only
        split
        · rename_i s₂ h
          exact absurd h (hminus s₂)
        · rfl
      refine .inl ⟨.number x, _, { min := cutInt x, max := cutInt x, ordered := Int.le_refl _ }, s₁, rfl, number_passes x,
        ⟨rfl, rfl⟩, rfl, ?_⟩
      rw [parseItem_number hx hintr hneg, number_cutSize]
      rfl

theorem readItem_dropWhile (s : List Char) : readItem (s.dropWhile isBlank) = readItem s := by
  unfold readItem
  rw [readInt_dropWhile]

/-- The parser accepts the lists whose items all pass, and adds what is left of them. -/
theorem parseFrom_iff : listRangeParseFrom fuel lr count s = some (lr', count') ↔
    ∃ l added, readItems fuel s = some l ∧ (∀ i ∈ l, i.Passes) ∧ List.Forall₂ CutTo l added ∧ lr' = lr ++ added ∧
      count' = l.foldl (fun count i => count + i.cutSize) count := by
  induction fuel generalizing lr count s with
  | zero =>
    constructor
    · intro h
      cases h
    · rintro ⟨l, added, hread, _⟩
      cases hread
  | succ fuel ih =>
    rw [listRangeParseFrom, readItems, ← readItem_dropWhile s]
    rcases parseItem_read lr count (s.dropWhile isBlank) with ⟨i, rest, r, rest', hread, hpasses, hcut, hrest, hparse⟩ | ⟨hno, hminus⟩
    · rw [hparse, hread]
      dsimp only
      rw [hrest]
      split
      · -- The end of the text.
        constructor
        · intro h
          cases h
          refine ⟨[i], [r], rfl, ?_, .cons hcut .nil, rfl, rfl⟩
          intro j hj
          rw [List.mem_singleton.1 hj]
          exact hpasses
        · rintro ⟨l, added, h, -, hadded, rfl, rfl⟩
          cases h
          cases hadded with
          | cons hcut' hnil =>
            cases hnil
            rw [range_ext hcut hcut']
            rfl
      · -- A comma.
        rename_i s₁
        rw [ih]
        constructor
        · rintro ⟨l, added, hl, hall, hadded, rfl, rfl⟩
          refine ⟨i :: l, r :: added, ?_, ?_, .cons hcut hadded, ?_, rfl⟩
          · show (readItems fuel s₁).map (i :: ·) = _
            rw [hl]
            rfl
          · intro j hj
            rcases List.mem_cons.1 hj with rfl | hj
            · exact hpasses
            · exact hall j hj
          · rw [List.append_assoc]
            rfl
        · rintro ⟨l, added, hl, hall, hadded, rfl, rfl⟩
          obtain ⟨l', hl', rfl⟩ := Option.map_eq_some_iff.1 hl
          cases hadded with
          | @cons _ r' _ added' hcut' hadded' =>
            refine ⟨l', added', hl', fun j hj => hall j (List.mem_cons_of_mem i hj), hadded', ?_, rfl⟩
            rw [range_ext hcut hcut', List.append_assoc]
            rfl
      · rename_i hend hcomma
        constructor
        · intro h
          cases h
        · rintro ⟨l, added, h, -⟩
          split at h
          · cases h
          · rename_i heq
            cases heq
            exact absurd rfl hend
          · rename_i heq
            cases heq
            exact absurd rfl (hcomma _)
          · cases h
    · -- The first item does not pass, or there is none: neither side accepts.
      constructor
      · intro h
        split at h
        · cases h
        · rename_i lr₁ count₁ rest' hitem
          obtain ⟨s₂, hs₂⟩ := hminus lr₁ count₁ rest' hitem
          rw [hs₂] at h
          cases h
      · rintro ⟨l, added, h, hall, -⟩
        split at h
        · cases h
        · rename_i i hitem
          cases h
          exact absurd (hall i List.mem_cons_self) (hno i _ hitem)
        · rename_i i rest hitem
          obtain ⟨l', -, rfl⟩ := Option.map_eq_some_iff.1 h
          exact absurd (hall i List.mem_cons_self) (hno i _ hitem)
        · cases h

/-- `list_range_parse` on the grammar. -/
theorem parse_iff : listRangeParse lr s = some (lr', count) ↔
    ∃ l added, ListText s l ∧ (∀ i ∈ l, i.Passes) ∧ List.Forall₂ CutTo l added ∧ lr' = lr ++ added ∧ count = cutTotal l := by
  rw [listRangeParse, parseFrom_iff]
  simp only [readItems_iff, cutTotal]

/-! ## Counts and values -/

theorem exists_cut (h : ∀ i ∈ l, i.Passes) : ∃ added, List.Forall₂ CutTo l added := by
  induction l with
  | nil => exact ⟨[], .nil⟩
  | cons i l ih =>
    obtain ⟨added, hadded⟩ := ih fun j hj => h j (List.mem_cons_of_mem i hj)
    exact ⟨{ min := cutInt i.lo, max := cutInt i.hi, ordered := (h i List.mem_cons_self).1 } :: added, .cons ⟨rfl, rfl⟩ hadded⟩

theorem listRangeCount_added {added : ListRange} (h : List.Forall₂ CutTo l added) : listRangeCount added = cutTotal l := by
  have hfold : ∀ count : U32, added.foldl (fun count r => count + (r.max - r.min + 1)) count =
      l.foldl (fun count i => count + i.cutSize) count := by
    induction h with
    | nil => exact fun _ => rfl
    | cons hcut _ ih =>
      intro count
      rw [List.foldl_cons, List.foldl_cons, hcut.1, hcut.2]
      exact ih _
  exact hfold 0

theorem cutInt_toInt {z : Int} (hlow : -2 ^ 31 ≤ z) (hhigh : z < 2 ^ 31) : (cutInt z).toInt = z := by
  rw [cutInt, max_eq_right (le_min (by omega) (by omega)), min_eq_left (by omega), BitVec.toInt_ofInt]
  exact Int.bmod_eq_of_le (by omega) (by omega)

namespace ListItem

theorem Fits.lo_toInt (h : i.Fits) : (cutInt i.lo).toInt = i.lo := cutInt_toInt h.1 (lt_of_le_of_lt h.2.1 h.2.2.1)

theorem Fits.hi_toInt (h : i.Fits) : (cutInt i.hi).toInt = i.hi := cutInt_toInt (le_trans h.1 h.2.1) h.2.2.1

theorem Fits.cutSize_eq (h : i.Fits) : i.cutSize = BitVec.ofInt 32 i.size := by
  rw [cutSize, size]
  apply BitVec.eq_of_toInt_eq
  rw [BitVec.toInt_add, BitVec.toInt_sub, h.lo_toInt, h.hi_toInt, BitVec.toInt_ofInt]
  simp

theorem Fits.size_toInt (h : i.Fits) : i.cutSize.toInt = i.size := by
  obtain ⟨hlow, hle, hhigh, hsize⟩ := h
  have hsize' : i.size = i.hi - i.lo + 1 := rfl
  rw [Fits.cutSize_eq ⟨hlow, hle, hhigh, hsize⟩, BitVec.toInt_ofInt]
  exact Int.bmod_eq_of_le (by omega) (by omega)

theorem Fits.passes (h : i.Fits) : i.Passes := by
  have hsize : i.size = i.hi - i.lo + 1 := rfl
  have hle := h.2.1
  refine ⟨?_, ?_⟩
  · rw [h.lo_toInt, h.hi_toInt]
    exact hle
  · rw [h.size_toInt]
    omega

end ListItem

theorem cutTotal_eq (h : ∀ i ∈ l, i.Fits) : cutTotal l = BitVec.ofInt 32 (l.map ListItem.size).sum := by
  have hfold : ∀ z : Int, l.foldl (fun count i => count + i.cutSize) (BitVec.ofInt 32 z) =
      BitVec.ofInt 32 (z + (l.map ListItem.size).sum) := by
    induction l with
    | nil => intro z; simp
    | cons i l ih =>
      intro z
      have hsize := (h i List.mem_cons_self).cutSize_eq
      rw [List.foldl_cons, hsize, ← BitVec.ofInt_add, ih fun j hj => h j (List.mem_cons_of_mem i hj), List.map_cons,
        List.sum_cons, Int.add_assoc]
  have hzero := hfold 0
  rw [Int.zero_add] at hzero
  exact hzero

/-- So it is not negative as an `int` if and only if the sum modulo 2^32 is below 2^31. -/
theorem cutTotal_nonneg (h : ∀ i ∈ l, i.Fits) : 0 ≤ (cutTotal l).toInt ↔ (l.map ListItem.size).sum % 2 ^ 32 < 2 ^ 31 := by
  rw [cutTotal_eq h, BitVec.toInt_ofInt, Int.bmod]
  omega

theorem contains_added {added : ListRange} (hadded : List.Forall₂ CutTo l added) (h : ∀ i ∈ l, i.Fits) (n : U32) :
    listRangeContains added n = true ↔ ∃ i ∈ l, i.Has n.toInt := by
  rw [contains_iff, Listed]
  induction hadded with
  | nil => exact ⟨fun ⟨_, hr, _⟩ => (nomatch hr), fun ⟨_, hi, _⟩ => (nomatch hi)⟩
  | @cons i r l added hcut _ ih =>
    have hi := h i List.mem_cons_self
    have hone : (r.min.toInt ≤ n.toInt ∧ n.toInt ≤ r.max.toInt) ↔ i.Has n.toInt := by
      rw [hcut.1, hcut.2, hi.lo_toInt, hi.hi_toInt]
      rfl
    simp only [List.mem_cons, exists_eq_or_imp, hone]
    rw [ih fun j hj => h j (List.mem_cons_of_mem i hj)]

theorem contains_append (lr added : ListRange) (n : U32) :
    listRangeContains (lr ++ added) n = true ↔ listRangeContains lr n = true ∨ listRangeContains added n = true := by
  unfold listRangeContains
  rw [List.any_append, Bool.or_eq_true]

theorem accepted_iff (lr : ListRange) (s : List Char) :
    0 ≤ (listRangeParseResult lr s).toInt ↔ ∃ l, ListText s l ∧ (∀ i ∈ l, i.Passes) ∧ 0 ≤ (cutTotal l).toInt := by
  unfold listRangeParseResult
  cases hparse : listRangeParse lr s with
  | none =>
    constructor
    · intro h
      exact absurd h (by decide)
    · rintro ⟨l, htext, hall, -⟩
      obtain ⟨added, hadded⟩ := exists_cut hall
      rw [parse_iff.2 ⟨l, added, htext, hall, hadded, rfl, rfl⟩] at hparse
      cases hparse
  | some p =>
    obtain ⟨lr', count⟩ := p
    obtain ⟨l, added, htext, hall, -, -, rfl⟩ := parse_iff.1 hparse
    constructor
    · exact fun h => ⟨l, htext, hall, h⟩
    · rintro ⟨l', htext', -, h⟩
      rw [htext.unique htext']
      exact h

end

/-! ## When the lists are parsed as they should be -/

/-- The list of the option is read right if and only if it fits, or what is left of it is refused. -/
theorem parses_lists_iff (lr : ListRange) (s : List Char) : ParsesLists lr s ↔ ListFits s := by
  constructor
  · intro h
    constructor
    · intro l htext hfits
      obtain ⟨l', htext', -, htotal⟩ := (accepted_iff lr s).1 (h.accepts.2 ⟨l, htext, hfits⟩)
      rw [← htext.unique htext'] at htotal
      exact (cutTotal_nonneg hfits).1 htotal
    · rintro l htext ⟨i, hi, hno⟩
      by_contra hnot
      rw [not_or, not_exists] at hnot
      obtain ⟨hpasses, htotal⟩ := hnot
      have hall : ∀ j ∈ l, j.Passes := fun j hj => by
        by_contra hj'
        exact hpasses j ⟨hj, hj'⟩
      obtain ⟨l', htext', hfits⟩ := h.accepts.1 ((accepted_iff lr s).2 ⟨l, htext, hall, not_lt.1 htotal⟩)
      rw [← htext.unique htext'] at hfits
      exact hno (hfits i hi)
  · intro h
    -- A list that is accepted fits.
    have hfit : ∀ l, ListText s l → (∀ i ∈ l, i.Passes) → 0 ≤ (cutTotal l).toInt → ∀ i ∈ l, i.Fits := by
      intro l htext hall htotal i hi
      by_contra hno
      rcases h.refused l htext ⟨i, hi, hno⟩ with ⟨j, hj, hj'⟩ | hneg
      · exact hj' (hall j hj)
      · omega
    constructor
    · rw [accepted_iff]
      constructor
      · rintro ⟨l, htext, hall, htotal⟩
        exact ⟨l, htext, hfit l htext hall htotal⟩
      · rintro ⟨l, htext, hfits⟩
        exact ⟨l, htext, fun i hi => (hfits i hi).passes, (cutTotal_nonneg hfits).2 (h.total l htext hfits)⟩
    · intro lr' count hparse _
      obtain ⟨l, added, -, -, hadded, hlr', rfl⟩ := parse_iff.1 hparse
      exact ⟨added, hlr', (listRangeCount_added hadded).symm⟩
    · intro lr' count hparse hcount l htext n
      obtain ⟨l', added, htext', hall, hadded, rfl, rfl⟩ := parse_iff.1 hparse
      obtain rfl := htext.unique htext'
      rw [contains_append, contains_added hadded (hfit l htext hall hcount)]

/-- The number 2^32 is taken for 0. -/
theorem number_beyond_int_accepted : ¬ParsesLists [] "4294967296".toList := by
  intro h
  have haccepted : 0 ≤ (listRangeParseResult [] "4294967296".toList).toInt := by decide
  obtain ⟨l, htext, hfits⟩ := h.accepts.1 haccepted
  have hread : readItems 11 "4294967296".toList = some [.number 4294967296] := by decide
  have hone : l = [.number 4294967296] := Option.some.inj ((readItems_complete htext (by decide)).symm.trans hread)
  have hhigh := (hfits (.number 4294967296) (by rw [hone]; exact List.mem_cons_self)).2.2.1
  exact absurd hhigh (by decide)

end NdkSw.Tools

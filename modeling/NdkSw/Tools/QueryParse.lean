/-
The parser of the lists of queries (`nc_query_parse` of `netcope/nccommon.h`): it cuts a copy of the text at its commas and looks each
item up in a table. Lengths are `int`, the number of items and their indexes are `char`, which has a sign. Allocations that can be served
are.
-/
import NdkSw.Shared.TextScan

namespace NdkSw.Tools

open Shared

/-- A string of C: no character of it is the terminator. -/
abbrev CText := { s : List Char // '\x00' ∉ s }

/-! ## The index array -/

/-- The bytes of an array; none for one that was never written. -/
abbrev IndexArray := List (Option (BitVec 8))

/-- `realloc` to a number of bytes; none if it cannot serve it. -/
def reallocIndex (idx : IndexArray) (size : BitVec 64) : Option IndexArray :=
  if 2 ^ 63 ≤ size.toNat then none else some (idx.take size.toNat ++ List.replicate (size.toNat - idx.length) none)

/-- An index is stored behind the others; none if it goes outside of the array. -/
def addIndex (idx : IndexArray) (idxSize : BitVec 8) (i : Nat) : Option (IndexArray × BitVec 8) :=
  let idxSize := idxSize + 1
  match reallocIndex idx (idxSize.signExtend 64) with
  | none => none
  | some idx =>
    let place := idxSize.toInt - 1
    if 0 ≤ place ∧ place < idx.length then some (idx.set place.toNat (some (BitVec.ofNat 8 i)), idxSize) else none

/-- The loop over the choices; the flag `hit` is left if there is none like the item. -/
def tryChoices (item : List Char) : List (List Char) → Nat → IndexArray → BitVec 8 → Bool → Option (IndexArray × BitVec 8 × Bool)
  | [], _, idx, idxSize, hit => some (idx, idxSize, hit)
  | choice :: choices, i, idx, idxSize, hit =>
    if item = choice then
      match addIndex idx idxSize i with
      | none => none
      | some (idx, idxSize) => tryChoices item choices (i + 1) idx idxSize false
    else tryChoices item choices (i + 1) idx idxSize hit

/-! ## The loop -/

/-- The copy of the text, and where the cursor stands in it. -/
structure QueryState where
  copy : List Char
  act : Nat
  idx : IndexArray
  idxSize : BitVec 8

/-- `len`: the distance of the first comma, as an `int`; 0 as well if there is none. -/
def itemLen (text : List Char) : Int := ((text.findIdx? (· = ',')).map fun d => (BitVec.ofNat 32 d).toInt).getD 0

/-- The item is ended; none if that writes outside of the copy. -/
def cutItem (copy : List Char) (act : Nat) (len : Int) : Option (List Char) :=
  if len = 0 then some copy
  else if 0 ≤ act + len ∧ act + len < copy.length then some (copy.set (act + len).toNat '\x00')
  else none

/-- The loop: the result and the array; none if it reads or writes outside of the copy or the array. -/
def queryLoop (choices : List (List Char)) : Nat → QueryState → Option (Int × IndexArray)
  | 0, _ => none
  | fuel + 1, s =>
    match cString (s.copy.drop s.act) with
    | none => none
    | some text =>
      let len := itemLen text
      match cutItem s.copy s.act len with
      | none => none
      | some copy =>
        match cString (copy.drop s.act) with
        | none => none
        | some item =>
          match tryChoices item choices 0 s.idx s.idxSize true with
          | none => none
          | some (idx, idxSize, hit) =>
            if hit then some (-1, [])
            else if len = 0 then some (idxSize.toInt, idx)
            else queryLoop choices fuel { copy, act := (s.act + len + 1).toNat, idx, idxSize }

/-- `nc_query_parse`. -/
def ncQueryParse (choices : List (List Char)) (query : CText) : Option (Int × IndexArray) :=
  queryLoop choices (query.val.length + 1) { copy := query.val ++ ['\x00'], act := 0, idx := [], idxSize := 0 }

/-! ## What the parser is for -/

/-- The text is a list of choices between commas. -/
def IsQuery (choices : List (List Char)) (query : List Char) (l : List (List Char)) : Prop :=
  l ≠ [] ∧ (∀ x ∈ l, x ∈ choices) ∧ query = [','].intercalate l

/-- The byte is the position of the choice, read as a `char`. -/
def IsPosition (choices : List (List Char)) (b : Option (BitVec 8)) (x : List Char) : Prop :=
  ∃ v : BitVec 8, b = some v ∧ v.toInt = choices.idxOf x

/-- Nothing is read or written outside; a list of choices is parsed to their number and their positions, anything else to -1. -/
structure QueryRight (choices : List (List Char)) (query : CText) : Prop where
  inside : ∃ r, ncQueryParse choices query = some r
  accepts : ∀ l, IsQuery choices query.val l → ∃ idx, ncQueryParse choices query = some ((l.length : Int), idx) ∧
    List.Forall₂ (IsPosition choices) idx l
  rejects : (∀ l, ¬IsQuery choices query.val l) → ∃ idx, ncQueryParse choices query = some (-1, idx)

/-- From an item on, with this many characters and this many choices before: no more than 127 items that are choices before the first one
that is not. An item of 2^31 characters or more before a comma makes the text no list of choices, and the distance of its comma, as an
`int`, does not lead out of the copy, nor to a 128th choice. -/
def QueryFine (choices : List (List Char)) : Nat → Nat → List (List Char) → Prop
  | _, _, [] => True
  | _, k, [x] => x ∈ choices → k < 127
  | act, k, x :: y :: items =>
    if x.length < 2 ^ 31 then x ∈ choices → k < 127 ∧ QueryFine choices (act + x.length + 1) (k + 1) (y :: items)
    else
      let len := (BitVec.ofNat 32 x.length).toInt
      0 ≤ act + len ∧ (0 < len → x.take len.toNat ∈ choices → k < 127) ∧ ¬∀ z ∈ x :: y :: items, z ∈ choices

/-- The items are fine, and if they are all choices, their positions are at most 127. -/
def QueryFits (choices : List (List Char)) (query : List Char) : Prop :=
  let items := query.splitOn ','
  QueryFine choices 0 0 items ∧ ((∀ x ∈ items, x ∈ choices) → ∀ x ∈ items, choices.idxOf x ≤ 127)

/-! ## The array -/

section

variable {idx : IndexArray} {k i : Nat} {item : List Char} {choices : List (List Char)}

theorem addIndex_room (hlen : idx.length = k) (hk : k < 127) :
    addIndex idx (BitVec.ofNat 8 k) i = some (idx ++ [some (BitVec.ofNat 8 i)], BitVec.ofNat 8 (k + 1)) := by
  have hnext : BitVec.ofNat 8 k + 1 = BitVec.ofNat 8 (k + 1) := (BitVec.ofNat_add ..).symm
  have hval : (BitVec.ofNat 8 (k + 1)).toNat = k + 1 := by
    rw [BitVec.toNat_ofNat]
    exact Nat.mod_eq_of_lt (by omega)
  have hmsb : (BitVec.ofNat 8 (k + 1)).msb = false := by
    rw [BitVec.msb_eq_decide, hval]
    exact decide_eq_false (by omega)
  have hint : (BitVec.ofNat 8 (k + 1)).toInt = k + 1 := by
    rw [BitVec.toInt_eq_toNat_of_msb hmsb, hval]
    rfl
  have hsize : ((BitVec.ofNat 8 (k + 1)).signExtend 64).toNat = k + 1 := by
    rw [BitVec.signExtend_eq_setWidth_of_msb_false hmsb, BitVec.toNat_setWidth, hval]
    exact Nat.mod_eq_of_lt (by omega)
  have hrealloc : reallocIndex idx ((BitVec.ofNat 8 (k + 1)).signExtend 64) = some (idx ++ [none]) := by
    rw [reallocIndex, hsize, if_neg (by omega), hlen, List.take_of_length_le (by omega), Nat.add_sub_cancel_left]
    rfl
  have hplace : ((k : Int) + 1 - 1).toNat = idx.length := by omega
  unfold addIndex
  dsimp only
  rw [hnext, hrealloc, hint]
  dsimp only
  rw [hplace, if_pos, List.set_append_right _ _ (Nat.le_refl _), Nat.sub_self, List.set_cons_zero]
  rw [List.length_append, List.length_singleton]
  omega

theorem addIndex_full : addIndex idx (BitVec.ofNat 8 127) i = none := by
  have hrealloc : reallocIndex idx ((BitVec.ofNat 8 127 + 1).signExtend 64) = none := if_pos (by decide)
  unfold addIndex
  dsimp only
  rw [hrealloc]

theorem tryChoices_spec {idxSize : BitVec 8} {hit : Bool} (hnodup : choices.Nodup) : tryChoices item choices i idx idxSize hit =
    if item ∈ choices then (addIndex idx idxSize (i + choices.idxOf item)).map fun p => (p.1, p.2, false)
    else some (idx, idxSize, hit) := by
  induction choices generalizing i idx idxSize hit with
  | nil => rfl
  | cons choice choices ih =>
    obtain ⟨hnew, hrest⟩ := List.nodup_cons.1 hnodup
    rw [tryChoices]
    by_cases heq : item = choice
    · subst heq
      rw [if_pos rfl, if_pos List.mem_cons_self, List.idxOf_cons_self, Nat.add_zero]
      cases addIndex idx idxSize i with
      | none => rfl
      | some p =>
        show tryChoices item choices (i + 1) p.1 p.2 false = _
        rw [ih hrest, if_neg hnew]
        rfl
    · rw [if_neg heq, ih hrest]
      have hmem : item ∈ choice :: choices ↔ item ∈ choices := by rw [List.mem_cons, or_iff_right heq]
      by_cases hin : item ∈ choices
      · rw [if_pos hin, if_pos (hmem.2 hin), List.idxOf_cons_ne _ (Ne.symm heq), Nat.add_right_comm, Nat.add_assoc]
      · rw [if_neg hin, if_neg fun h => hin (hmem.1 h)]

end

/-! ## A turn of the loop -/

/-- What is left of the text is unchanged, and so many choices were found. -/
structure Reads (s : QueryState) (t : List Char) (k : Nat) : Prop where
  copy : s.copy.drop s.act = t ++ ['\x00']
  text : '\x00' ∉ t
  count : s.idx.length = k
  size : s.idxSize = BitVec.ofNat 8 k
  le : k ≤ 127

section

variable {choices : List (List Char)} {s : QueryState} {t x u : List Char} {k fuel : Nat} {c : Char}

theorem Reads.length (h : Reads s t k) : s.copy.length = s.act + t.length + 1 := by
  have hlen := congrArg List.length h.copy
  rw [List.length_drop, List.length_append, List.length_singleton] at hlen
  omega

theorem findComma_none (h : ',' ∉ t) : t.findIdx? (· = ',') = none := by
  rw [List.findIdx?_eq_none_iff]
  intro d hd
  exact decide_eq_false fun heq => h (heq ▸ hd)

theorem itemLen_of_not_mem (h : ',' ∉ t) : itemLen t = 0 := by
  rw [itemLen, findComma_none h]
  rfl

theorem itemLen_append (h : ',' ∉ x) : itemLen (x ++ ',' :: u) = (BitVec.ofNat 32 x.length).toInt := by
  have hfind : (x ++ ',' :: u).findIdx? (· = ',') = some x.length := by
    rw [List.findIdx?_append, findComma_none h, List.findIdx?_cons, if_pos (decide_eq_true rfl)]
    show some (0 + x.length) = _
    rw [Nat.zero_add]
  rw [itemLen, hfind]
  rfl

/-- A turn that cuts off an item `x`, or takes the rest as it is. -/
theorem queryLoop_turn {copy : List Char} (h : Reads s t k) (hcut : cutItem s.copy s.act (itemLen t) = some copy)
    (hitem : cString (copy.drop s.act) = some x) (hnodup : choices.Nodup) :
    queryLoop choices (fuel + 1) s =
      if x ∈ choices then
        if k < 127 then
          if itemLen t = 0 then some ((k : Int) + 1, s.idx ++ [some (BitVec.ofNat 8 (choices.idxOf x))])
          else
            queryLoop choices fuel
              { copy
                act := (s.act + itemLen t + 1).toNat
                idx := s.idx ++ [some (BitVec.ofNat 8 (choices.idxOf x))]
                idxSize := BitVec.ofNat 8 (k + 1) }
        else none
      else some (-1, []) := by
  have htext : cString (s.copy.drop s.act) = some t := by
    rw [h.copy]
    exact cString_append h.text
  rw [queryLoop, htext]
  dsimp only
  rw [hcut]
  dsimp only
  rw [hitem]
  dsimp only
  rw [tryChoices_spec hnodup, Nat.zero_add]
  by_cases hx : x ∈ choices
  · rw [if_pos hx, if_pos hx, h.size]
    by_cases hk : k < 127
    · rw [addIndex_room h.count hk, if_pos hk]
      have hint : (BitVec.ofNat 8 (k + 1)).toInt = k + 1 := by
        rw [BitVec.toInt_ofNat']
        exact Int.bmod_eq_of_le (by omega) (by omega)
      simp only [Option.map_some, Bool.false_eq_true, if_false, hint]
    · obtain rfl : k = 127 := le_antisymm h.le (not_lt.1 hk)
      rw [addIndex_full, if_neg hk]
      rfl
  · rw [if_neg hx, if_neg hx]
    rfl

theorem queryLoop_last (h : Reads s t k) (hcomma : ',' ∉ t) (hnodup : choices.Nodup) :
    queryLoop choices (fuel + 1) s =
      if t ∈ choices then
        if k < 127 then some ((k : Int) + 1, s.idx ++ [some (BitVec.ofNat 8 (choices.idxOf t))]) else none
      else some (-1, []) := by
  have hlen := itemLen_of_not_mem hcomma
  have htext : cString (s.copy.drop s.act) = some t := by
    rw [h.copy]
    exact cString_append h.text
  rw [queryLoop_turn h (by rw [cutItem, if_pos hlen]) htext hnodup, if_pos hlen]

theorem queryLoop_uncut (h : Reads s t k) (hcomma : ',' ∈ t) (hle : itemLen t ≤ 0) (hin : 0 ≤ s.act + itemLen t)
    (hnodup : choices.Nodup) (hfree : ∀ c ∈ choices, ',' ∉ c) : queryLoop choices (fuel + 1) s = some (-1, []) := by
  have hno : t ∉ choices := fun ht => hfree t ht hcomma
  have htext : cString (t ++ ['\x00']) = some t := cString_append h.text
  have hlen := h.length
  by_cases hzero : itemLen t = 0
  · rw [queryLoop_turn h (by rw [cutItem, if_pos hzero]) (by rw [h.copy]; exact htext) hnodup, if_neg hno]
  · have hcut : cutItem s.copy s.act (itemLen t) = some (s.copy.set (s.act + itemLen t).toNat '\x00') := by
      rw [cutItem, if_neg hzero, if_pos ⟨hin, by omega⟩]
    -- The zero is written before the cursor.
    have hsame : (s.copy.set (s.act + itemLen t).toNat '\x00').drop s.act = t ++ ['\x00'] := by
      rw [List.drop_set_of_lt (by omega), h.copy]
    rw [queryLoop_turn h hcut (by rw [hsame]; exact htext) hnodup, if_neg hno]

/-- An item is cut off. -/
theorem queryLoop_cut (h : Reads s (x ++ c :: u) k) (hlen : itemLen (x ++ c :: u) = x.length) (hpos : 0 < x.length)
    (hnodup : choices.Nodup) :
    (x ∉ choices → queryLoop choices (fuel + 1) s = some (-1, [])) ∧
      (x ∈ choices → ¬k < 127 → queryLoop choices (fuel + 1) s = none) ∧
      (x ∈ choices → k < 127 → ∃ s', Reads s' u (k + 1) ∧ s'.act = s.act + x.length + 1 ∧
        s'.idx = s.idx ++ [some (BitVec.ofNat 8 (choices.idxOf x))] ∧ queryLoop choices (fuel + 1) s = queryLoop choices fuel s') := by
  have hcopy := h.length
  rw [List.length_append, List.length_cons] at hcopy
  have hnonzero : itemLen (x ++ c :: u) ≠ 0 := by omega
  have hplace : (s.act + itemLen (x ++ c :: u)).toNat = s.act + x.length := by omega
  have hcut : cutItem s.copy s.act (itemLen (x ++ c :: u)) = some (s.copy.set (s.act + x.length) '\x00') := by
    rw [cutItem, if_neg hnonzero, if_pos ⟨by omega, by omega⟩, hplace]
  have hdrop : (s.copy.set (s.act + x.length) '\x00').drop s.act = x ++ '\x00' :: (u ++ ['\x00']) := by
    rw [List.drop_set, if_neg (by omega), h.copy, Nat.add_sub_cancel_left, List.append_assoc, List.set_append_right _ _ (Nat.le_refl _),
      Nat.sub_self]
    rfl
  have hitem : cString ((s.copy.set (s.act + x.length) '\x00').drop s.act) = some x := by
    rw [hdrop]
    exact cString_append fun hx => h.text (List.mem_append_left _ hx)
  have hturn := @queryLoop_turn choices s _ x k fuel _ h hcut hitem hnodup
  refine ⟨fun hx => by rw [hturn, if_neg hx], fun hx hk => by rw [hturn, if_pos hx, if_neg hk], fun hx hk => ?_⟩
  refine ⟨_, ?_, ?_, ?_, by rw [hturn, if_pos hx, if_pos hk, if_neg hnonzero]⟩
  · constructor
    · show (s.copy.set (s.act + x.length) '\x00').drop (s.act + itemLen (x ++ c :: u) + 1).toNat = u ++ ['\x00']
      rw [show (s.act + itemLen (x ++ c :: u) + 1).toNat = s.act + (x.length + 1) by omega, ← List.drop_drop, hdrop]
      have hsplit : x ++ '\x00' :: (u ++ ['\x00']) = (x ++ ['\x00']) ++ (u ++ ['\x00']) := by
        rw [List.append_assoc]
        rfl
      rw [hsplit]
      exact List.drop_left' List.length_append
    · exact fun hu => h.text (List.mem_append_right _ (List.mem_cons_of_mem c hu))
    · show (s.idx ++ [_]).length = k + 1
      rw [List.length_append, h.count]
      rfl
    · rfl
    · omega
  · show (s.act + itemLen (x ++ c :: u) + 1).toNat = s.act + x.length + 1
    omega
  · rfl

/-- A comma whose distance as an `int` leads out of the copy. -/
theorem queryLoop_outside (h : Reads s t k) (hout : s.act + itemLen t < 0) : queryLoop choices (fuel + 1) s = none := by
  have htext : cString (s.copy.drop s.act) = some t := by
    rw [h.copy]
    exact cString_append h.text
  have hcut : cutItem s.copy s.act (itemLen t) = none := by
    rw [cutItem, if_neg (by omega), if_neg (by omega)]
  rw [queryLoop, htext]
  dsimp only
  rw [hcut]

end

/-! ## The whole list -/

/-- The array for a list of choices. -/
def positionsOf (choices l : List (List Char)) : IndexArray := l.map fun x => some (BitVec.ofNat 8 (choices.idxOf x))

/-- What the loop does from an item on, with this many characters and so many choices before. -/
structure Outcome (choices : List (List Char)) (items : List (List Char)) (act k : Nat) (idx : IndexArray)
    (r : Option (Int × IndexArray)) : Prop where
  valid : QueryFine choices act k items → (∀ x ∈ items, x ∈ choices) → r = some ((k : Int) + items.length, idx ++ positionsOf choices items)
  invalid : QueryFine choices act k items → (¬∀ x ∈ items, x ∈ choices) → r = some (-1, [])
  unfine : ¬QueryFine choices act k items → r = none ∨ (∀ x ∈ items, x ∈ choices) ∧ r = some (-1, [])

section

variable {choices items : List (List Char)} {x y : List Char} {act k : Nat} {idx : IndexArray} {s : QueryState} {fuel : Nat}

theorem Outcome.of_not_mem (hfine : QueryFine choices act k items) (hx : x ∈ items) (hno : x ∉ choices) :
    Outcome choices items act k idx (some (-1, [])) where
  valid := fun _ hall => absurd (hall x hx) hno
  invalid := fun _ _ => rfl
  unfine := fun hnot => absurd hfine hnot

theorem outcome_last (h : Reads s x k) (hcomma : ',' ∉ x) (hnodup : choices.Nodup) :
    Outcome choices [x] s.act k s.idx (queryLoop choices (fuel + 1) s) := by
  rw [queryLoop_last h hcomma hnodup]
  by_cases hx : x ∈ choices
  · have hall : ∀ z ∈ [x], z ∈ choices := fun z hz => by
      rw [List.mem_singleton.1 hz]
      exact hx
    rw [if_pos hx]
    by_cases hk : k < 127
    · rw [if_pos hk]
      exact ⟨fun _ _ => rfl, fun _ hno => absurd hall hno, fun hnot => absurd (fun _ => hk) hnot⟩
    · rw [if_neg hk]
      exact ⟨fun hfine => absurd (hfine hx) hk, fun hfine => absurd (hfine hx) hk, fun _ => .inl rfl⟩
  · rw [if_neg hx]
    exact .of_not_mem (fun hin => absurd hin hx) (List.mem_singleton_self x) hx

theorem intLen_short {d : Nat} (hd : d < 2 ^ 31) : (BitVec.ofNat 32 d).toInt = d := by
  rw [BitVec.toInt_ofNat']
  exact Int.bmod_eq_of_le (by omega) (by omega)

/-- An item before another one, with a length that fits an `int`. -/
theorem outcome_short {u : List Char} (h : Reads s (x ++ ',' :: u) k) (hcomma : ',' ∉ x) (hshort : x.length < 2 ^ 31)
    (hnodup : choices.Nodup) (hempty : [] ∉ choices) (hfree : ∀ c ∈ choices, ',' ∉ c)
    (ih : ∀ s', Reads s' u (k + 1) → s'.act = s.act + x.length + 1 →
      Outcome choices (y :: items) s'.act (k + 1) s'.idx (queryLoop choices fuel s')) :
    Outcome choices (x :: y :: items) s.act k s.idx (queryLoop choices (fuel + 1) s) := by
  have hfine : QueryFine choices s.act k (x :: y :: items) ↔
      (x ∈ choices → k < 127 ∧ QueryFine choices (s.act + x.length + 1) (k + 1) (y :: items)) := by
    rw [QueryFine, if_pos hshort]
  have hlen : itemLen (x ++ ',' :: u) = x.length := by rw [itemLen_append hcomma, intLen_short hshort]
  by_cases hx : x ∈ choices
  swap
  · have hstop : queryLoop choices (fuel + 1) s = some (-1, []) := by
      by_cases hnil : x = []
      · -- An empty item: the text is taken with its comma.
        subst hnil
        exact queryLoop_uncut h (List.mem_append_right _ List.mem_cons_self) (by rw [hlen]; rfl) (by rw [hlen]; exact Int.natCast_nonneg _)
          hnodup hfree
      · exact (queryLoop_cut h hlen (List.length_pos_of_ne_nil hnil) hnodup).1 hx
    rw [hstop]
    exact .of_not_mem (hfine.2 fun hin => absurd hin hx) List.mem_cons_self hx
  have hpos : 0 < x.length := List.length_pos_of_ne_nil fun hnil => hempty (hnil ▸ hx)
  obtain ⟨-, hfull, hnext⟩ := @queryLoop_cut choices s x u k fuel ',' h hlen hpos hnodup
  by_cases hk : k < 127
  swap
  · rw [hfull hx hk]
    exact ⟨fun hf => absurd (hfine.1 hf hx).1 hk, fun hf => absurd (hfine.1 hf hx).1 hk, fun _ => .inl rfl⟩
  obtain ⟨s', hreads, hact, hidx, hloop⟩ := hnext hx hk
  have hrest := ih s' hreads hact
  rw [hact, hidx] at hrest
  rw [hloop]
  have hall : (∀ z ∈ x :: y :: items, z ∈ choices) ↔ ∀ z ∈ y :: items, z ∈ choices := by
    rw [List.forall_mem_cons, and_iff_right hx]
  constructor
  · intro hf hvalid
    have hcount : ((k + 1 : Nat) : Int) + (y :: items).length = k + (x :: y :: items).length := by
      rw [List.length_cons, List.length_cons, List.length_cons]
      omega
    rw [hrest.valid (hfine.1 hf hx).2 (hall.1 hvalid), hcount, List.append_assoc]
    rfl
  · intro hf hinvalid
    exact hrest.invalid (hfine.1 hf hx).2 fun hv => hinvalid (hall.2 hv)
  · intro hnot
    rw [hall]
    exact hrest.unfine fun hf => hnot (hfine.2 fun _ => ⟨hk, hf⟩)

/-- A longer one: the loop ends with this item or with the next one, whether they are choices or not. -/
theorem outcome_long {u : List Char} (h : Reads s (x ++ ',' :: u) k) (hcomma : ',' ∉ x) (hlong : ¬x.length < 2 ^ 31) (hfuel : 0 < fuel)
    (hnodup : choices.Nodup) (hfree : ∀ c ∈ choices, ',' ∉ c) :
    Outcome choices (x :: y :: items) s.act k s.idx (queryLoop choices (fuel + 1) s) := by
  have hlen : itemLen (x ++ ',' :: u) = (BitVec.ofNat 32 x.length).toInt := itemLen_append hcomma
  have hfine : QueryFine choices s.act k (x :: y :: items) ↔
      0 ≤ s.act + (BitVec.ofNat 32 x.length).toInt ∧
        (0 < (BitVec.ofNat 32 x.length).toInt → x.take (BitVec.ofNat 32 x.length).toInt.toNat ∈ choices → k < 127) ∧
        ¬∀ z ∈ x :: y :: items, z ∈ choices := by
    rw [QueryFine, if_neg hlong]
  rw [← hlen] at hfine
  -- Where the loop ends with -1, that is right if the text is no list of choices.
  have hstop : queryLoop choices (fuel + 1) s = some (-1, []) → 0 ≤ s.act + itemLen (x ++ ',' :: u) →
      (0 < itemLen (x ++ ',' :: u) → x.take (itemLen (x ++ ',' :: u)).toNat ∈ choices → k < 127) →
      Outcome choices (x :: y :: items) s.act k s.idx (queryLoop choices (fuel + 1) s) := by
    intro hr hin hroom
    refine ⟨fun hf hall => absurd hall (hfine.1 hf).2.2, fun _ _ => hr, fun hnot => .inr ⟨?_, hr⟩⟩
    by_contra hno
    exact hnot (hfine.2 ⟨hin, hroom, hno⟩)
  by_cases hin : 0 ≤ s.act + itemLen (x ++ ',' :: u)
  swap
  · rw [queryLoop_outside h (not_le.1 hin)]
    exact ⟨fun hf => absurd (hfine.1 hf).1 hin, fun hf => absurd (hfine.1 hf).1 hin, fun _ => .inl rfl⟩
  have hmem : ',' ∈ x ++ ',' :: u := List.mem_append_right _ List.mem_cons_self
  by_cases hpos : 0 < itemLen (x ++ ',' :: u)
  swap
  · exact hstop (queryLoop_uncut h hmem (not_lt.1 hpos) hin hnodup hfree) hin fun hp => absurd hp hpos
  -- The item is cut too early, and the comma behind what is left of it is at a distance of -1.
  rw [BitVec.toInt_ofNat', Int.bmod] at hlen
  obtain ⟨n, hn⟩ := Int.eq_ofNat_of_zero_le hpos.le
  have hlt : n < x.length := by
    split at hlen
    · omega
    · omega
  obtain ⟨c, v, hx⟩ : ∃ c v, x = x.take n ++ c :: v :=
    ⟨x[n], x.drop (n + 1), by rw [← List.drop_eq_getElem_cons hlt, List.take_append_drop]⟩
  have htake : (x.take n).length = n := List.length_take_of_le hlt.le
  have hv : v.length + n + 1 = x.length := by
    have hl := congrArg List.length hx
    rw [List.length_append, htake, List.length_cons] at hl
    omega
  have hsplit : x ++ ',' :: u = x.take n ++ c :: (v ++ ',' :: u) := by
    conv_lhs => rw [hx]
    rw [List.append_assoc]
    rfl
  have hnat : (itemLen (x ++ ',' :: u)).toNat = n := by rw [hn]; rfl
  have hlen' : itemLen (x.take n ++ c :: (v ++ ',' :: u)) = (x.take n).length := by rw [← hsplit, hn, htake]
  rw [hnat] at hstop hfine
  have hreads := h
  rw [hsplit] at hreads
  obtain ⟨hno, hfull, hnext⟩ := @queryLoop_cut choices s (x.take n) (v ++ ',' :: u) k fuel c hreads hlen' (by omega) hnodup
  by_cases hcut : x.take n ∈ choices
  swap
  · exact hstop (hno hcut) hin fun _ hp => absurd hp hcut
  by_cases hk : k < 127
  swap
  · rw [hfull hcut hk]
    exact ⟨fun hf => absurd ((hfine.1 hf).2.1 hpos hcut) hk, fun hf => absurd ((hfine.1 hf).2.1 hpos hcut) hk, fun _ => .inl rfl⟩
  obtain ⟨s', hreads', hact, -, hloop⟩ := hnext hcut hk
  obtain ⟨fuel, rfl⟩ := Nat.exists_eq_add_one_of_ne_zero hfuel.ne'
  have hcomma' : ',' ∉ v := fun hv => hcomma (hx ▸ List.mem_append_right _ (List.mem_cons_of_mem c hv))
  have hback : itemLen (v ++ ',' :: u) = -1 := by
    rw [itemLen_append hcomma', BitVec.toInt_ofNat', Int.bmod]
    split at hlen
    · split
      · omega
      · omega
    · omega
  refine hstop ?_ hin fun _ _ => hk
  rw [hloop]
  exact queryLoop_uncut hreads' (List.mem_append_right _ List.mem_cons_self) (by omega) (by omega) hnodup hfree

theorem loop_outcome (hnodup : choices.Nodup) (hempty : [] ∉ choices) (hfree : ∀ c ∈ choices, ',' ∉ c) (hne : items ≠ [])
    (hcomma : ∀ x ∈ items, ',' ∉ x) (h : Reads s ([','].intercalate items) k) (hfuel : ([','].intercalate items).length < fuel) :
    Outcome choices items s.act k s.idx (queryLoop choices fuel s) := by
  obtain ⟨fuel, rfl⟩ := Nat.exists_eq_add_one_of_ne_zero (Nat.ne_zero_of_lt hfuel)
  induction items generalizing fuel s k with
  | nil => exact absurd rfl hne
  | cons x items ih =>
    cases items with
    | nil =>
      rw [List.intercalate_singleton] at h
      exact outcome_last h (hcomma x List.mem_cons_self) hnodup
    | cons y items =>
      have htext : [','].intercalate (x :: y :: items) = x ++ ',' :: [','].intercalate (y :: items) := by
        rw [List.intercalate_cons_cons, List.append_assoc]
        rfl
      rw [htext] at h hfuel
      rw [List.length_append, List.length_cons] at hfuel
      have hx := hcomma x List.mem_cons_self
      by_cases hshort : x.length < 2 ^ 31
      · refine outcome_short h hx hshort hnodup hempty hfree fun s' hs' hact => ?_
        obtain ⟨fuel, rfl⟩ := Nat.exists_eq_add_one_of_ne_zero (show fuel ≠ 0 by omega)
        exact ih (List.cons_ne_nil _ _) (fun z hz => hcomma z (List.mem_cons_of_mem x hz)) hs' fuel (by omega)
      · exact outcome_long h hx hshort (by omega) hnodup hfree

end

/-! ## The list of the query -/

theorem comma_not_mem_item {s : List Char} : ∀ x ∈ s.splitOn ',', ',' ∉ x := by
  induction s with
  | nil =>
    intro x hx
    rw [List.splitOn_nil, List.mem_singleton] at hx
    rw [hx]
    exact List.not_mem_nil
  | cons c s ih =>
    intro x hx
    rw [List.splitOn_cons_eq_if_modifyHead] at hx
    obtain ⟨y, items, hitems⟩ := List.exists_cons_of_ne_nil (List.splitOn_ne_nil ',' s)
    rw [hitems] at hx ih
    by_cases hc : (c == ',') = true
    · rw [if_pos hc] at hx
      rcases List.mem_cons.1 hx with rfl | hx
      · exact List.not_mem_nil
      · exact ih x hx
    · rw [if_neg hc] at hx
      rcases List.mem_cons.1 hx with rfl | hx
      · intro hm
        rcases List.mem_cons.1 hm with rfl | hm
        · exact hc rfl
        · exact ih y List.mem_cons_self hm
      · exact ih x (List.mem_cons_of_mem y hx)

variable {l : List (List Char)}

section

variable {choices : List (List Char)} {query : CText}

theorem isQuery_iff (hfree : ∀ c ∈ choices, ',' ∉ c) {s : List Char} :
    IsQuery choices s l ↔ l = s.splitOn ',' ∧ ∀ x ∈ s.splitOn ',', x ∈ choices := by
  constructor
  · rintro ⟨hne, hall, rfl⟩
    rw [List.splitOn_intercalate ',' (fun x hx => hfree x (hall x hx)) hne]
    exact ⟨rfl, hall⟩
  · rintro ⟨rfl, hall⟩
    exact ⟨List.splitOn_ne_nil _ _, hall, (List.intercalate_splitOn ',').symm⟩

theorem query_outcome (hnodup : choices.Nodup) (hempty : [] ∉ choices) (hfree : ∀ c ∈ choices, ',' ∉ c) :
    Outcome choices (query.val.splitOn ',') 0 0 [] (ncQueryParse choices query) := by
  have hjoin : [','].intercalate (query.val.splitOn ',') = query.val := List.intercalate_splitOn ','
  refine loop_outcome hnodup hempty hfree (List.splitOn_ne_nil _ _) comma_not_mem_item (s := ⟨query.val ++ ['\x00'], 0, [], 0⟩) ?_ ?_
  · rw [hjoin]
    exact ⟨rfl, query.property, rfl, rfl, Nat.zero_le _⟩
  · rw [hjoin]
    exact Nat.lt_succ_self _

/-- Positions up to 127 fit a `char`. -/
theorem isPosition_iff {x : List Char} : IsPosition choices (some (BitVec.ofNat 8 (choices.idxOf x))) x ↔ choices.idxOf x ≤ 127 := by
  constructor
  · rintro ⟨v, -, hv⟩
    have hlt := BitVec.toInt_lt (x := v)
    omega
  · intro hle
    refine ⟨_, rfl, ?_⟩
    rw [BitVec.toInt_ofNat']
    exact Int.bmod_eq_of_le (by omega) (by omega)

theorem positionsOf_iff : List.Forall₂ (IsPosition choices) (positionsOf choices l) l ↔ ∀ x ∈ l, choices.idxOf x ≤ 127 := by
  induction l with
  | nil => exact ⟨fun _ _ hx => (nomatch hx), fun _ => .nil⟩
  | cons x l ih =>
    rw [List.forall_mem_cons, ← ih, ← isPosition_iff]
    exact List.forall₂_cons

theorem QueryRight.fine (h : QueryRight choices query) (hnodup : choices.Nodup) (hempty : [] ∉ choices)
    (hfree : ∀ c ∈ choices, ',' ∉ c) : QueryFine choices 0 0 (query.val.splitOn ',') := by
  by_contra hnot
  rcases (query_outcome hnodup hempty hfree).unfine hnot with hnone | ⟨hall, hreject⟩
  · obtain ⟨r, hr⟩ := h.inside
    rw [hnone] at hr
    cases hr
  · obtain ⟨idx, hr, -⟩ := h.accepts _ ((isQuery_iff hfree).2 ⟨rfl, hall⟩)
    rw [hreject] at hr
    have hlen := congrArg Prod.fst (Option.some.inj hr)
    dsimp only at hlen
    omega

theorem QueryFine.length_le {items : List (List Char)} {act k : Nat} (h : QueryFine choices act k items) (hne : items ≠ [])
    (hall : ∀ x ∈ items, x ∈ choices) : k + items.length ≤ 127 := by
  induction items generalizing act k with
  | nil => exact absurd rfl hne
  | cons x items ih =>
    have hx := hall x List.mem_cons_self
    cases items with
    | nil => exact h hx
    | cons y items =>
      rw [QueryFine] at h
      by_cases hshort : x.length < 2 ^ 31
      · rw [if_pos hshort] at h
        have hrest := ih (h hx).2 (List.cons_ne_nil _ _) fun z hz => hall z (List.mem_cons_of_mem x hz)
        rw [List.length_cons]
        omega
      · rw [if_neg hshort] at h
        exact absurd hall h.2.2

end

/-- The query is parsed as it should be if and only if it fits. -/
theorem query_right_iff {choices : List (List Char)} (query : CText) (hnodup : choices.Nodup) (hempty : [] ∉ choices)
    (hfree : ∀ c ∈ choices, ',' ∉ c) : QueryRight choices query ↔ QueryFits choices query.val := by
  have hout : Outcome choices (query.val.splitOn ',') 0 0 [] (ncQueryParse choices query) := query_outcome hnodup hempty hfree
  constructor
  · intro h
    have hfine := h.fine hnodup hempty hfree
    refine ⟨hfine, fun hall => ?_⟩
    obtain ⟨idx, hr, hpos⟩ := h.accepts _ ((isQuery_iff hfree).2 ⟨rfl, hall⟩)
    rw [hout.valid hfine hall] at hr
    obtain rfl : positionsOf choices (query.val.splitOn ',') = idx := congrArg Prod.snd (Option.some.inj hr)
    exact positionsOf_iff.1 hpos
  · rintro ⟨hfine, hpos⟩
    have haccepts : (∀ x ∈ query.val.splitOn ',', x ∈ choices) →
        ncQueryParse choices query = some (((query.val.splitOn ',').length : Int), positionsOf choices (query.val.splitOn ',')) := by
      intro hall
      rw [hout.valid hfine hall, List.nil_append]
      congr 2
      exact Int.zero_add _
    refine ⟨?_, ?_, ?_⟩
    · by_cases hall : ∀ x ∈ query.val.splitOn ',', x ∈ choices
      · exact ⟨_, haccepts hall⟩
      · exact ⟨_, hout.invalid hfine hall⟩
    · intro l hl
      obtain ⟨rfl, hall⟩ := (isQuery_iff hfree).1 hl
      exact ⟨_, haccepts hall, positionsOf_iff.2 (hpos hall)⟩
    · intro hno
      exact ⟨_, hout.invalid hfine fun hall => hno _ ((isQuery_iff hfree).2 ⟨rfl, hall⟩)⟩

theorem query_right_two :
    QueryRight [['t', 'y', 'p', 'e'], ['i', 'd']] ⟨['i', 'd', ',', 't', 'y', 'p', 'e', ',', 'i', 'd'], by decide⟩ ∧
      QueryRight [['t', 'y', 'p', 'e'], ['i', 'd']] ⟨['i', 'd', ',', 'x'], by decide⟩ := by
  have hthree : ['i', 'd', ',', 't', 'y', 'p', 'e', ',', 'i', 'd'].splitOn ',' = [['i', 'd'], ['t', 'y', 'p', 'e'], ['i', 'd']] := by decide
  have htwo : ['i', 'd', ',', 'x'].splitOn ',' = [['i', 'd'], ['x']] := by decide
  constructor
  · refine (query_right_iff ⟨['i', 'd', ',', 't', 'y', 'p', 'e', ',', 'i', 'd'], by decide⟩ (by decide) (by decide) (by decide)).2 ?_
    simp only [QueryFits, hthree]
    exact ⟨by simp [QueryFine], fun _ => by decide⟩
  · refine (query_right_iff ⟨['i', 'd', ',', 'x'], by decide⟩ (by decide) (by decide) (by decide)).2 ?_
    simp only [QueryFits, htwo]
    exact ⟨by simp [QueryFine], fun _ => by decide⟩

theorem terminator_not_mem (h : ∀ x ∈ l, '\x00' ∉ x) : '\x00' ∉ [','].intercalate l := by
  induction l with
  | nil => exact List.not_mem_nil
  | cons x l ih =>
    cases l with
    | nil =>
      rw [List.intercalate_singleton]
      exact h x List.mem_cons_self
    | cons y l =>
      rw [List.intercalate_cons_cons, List.mem_append, List.mem_append, List.mem_singleton]
      rintro ((hx | hcomma) | hl)
      · exact h x List.mem_cons_self hx
      · cases hcomma
      · exact ih (fun z hz => h z (List.mem_cons_of_mem x hz)) hl

/-- A choice, 128 times. -/
def longQuery : CText :=
  ⟨[','].intercalate (List.replicate 128 ['a']), terminator_not_mem fun _ hx => List.eq_of_mem_replicate hx ▸ by decide⟩

/-- The 128th item is written in front of the address 0. -/
theorem long_query_outside : ¬QueryRight [['a']] longQuery := by
  intro h
  have hsame : ∀ x ∈ List.replicate 128 ['a'], x = ['a'] := fun x hx => List.eq_of_mem_replicate hx
  have hitems : longQuery.val.splitOn ',' = List.replicate 128 ['a'] := by
    apply List.splitOn_intercalate
    · intro x hx
      rw [hsame x hx]
      decide
    · exact List.cons_ne_nil _ _
  have hfine := h.fine (by decide) (by decide) (by decide)
  rw [hitems] at hfine
  have hle := hfine.length_le (List.cons_ne_nil _ _) fun x hx => by
    rw [hsame x hx]
    exact List.mem_cons_self
  rw [List.length_replicate] at hle
  omega

end NdkSw.Tools

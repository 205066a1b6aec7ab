/-
The formats of file names (`str_expand_format` of `netcope/nccommon.h`): every `%` with a letter of a list becomes a conversion of
`printf` with the position of the letter. The loop is kept with what each turn takes from the source and what it writes.
-/
import Mathlib.Tactic

namespace NdkSw.Tools

/-! ## The loop -/

/-- What a turn of the loop takes from the source. -/
inductive FormatPiece where
  | plain (c : Char)
  | arg (letter : Char)
  deriving DecidableEq, Repr

def FormatPiece.text : FormatPiece → List Char
  | .plain c => [c]
  | .arg letter => ['%', letter]

/-- A turn: what it takes, the number of characters written before it, and what it writes. -/
structure ExpandStep where
  piece : FormatPiece
  start : Nat
  emitted : List Char
  deriving DecidableEq, Repr

/-- `posArgIndex`: the index of the letter; 0 as well if the letter is not in the list. -/
def posArgIndex (posArgs : List Char) (letter : Char) : Nat := (posArgs.findIdx? (· = letter)).getD 0

/-- The four characters that are written for a letter. -/
def positional (posArgsType : List Char) (index : Nat) : List Char :=
  ['%', Char.ofNat (index + 1 + '0'.toNat), '$', posArgsType[index]?.getD '\x00']

section

variable (n : Nat) (posArgs posArgsType : List Char)

/-- What a turn writes for a letter, with this many characters written. -/
def expandArg (letter : Char) (used : Nat) : List Char :=
  let index := posArgIndex posArgs letter
  if index ≠ posArgs.length ∧ used + 4 < n - 1 then positional posArgsType index else []

/-- The loop, from a place of the source on; none if it reads behind the terminator. That is so after a percent sign at the end: the
cursor skips the terminator with it, and the condition of the loop reads on. -/
def expandLoop : List Char → Nat → Option (List ExpandStep)
  | [], _ => some []
  | c :: rest, used =>
    if used < n - 1 then
      if c = '%' then
        match rest with
        | [] => none
        | letter :: rest =>
          let emitted := expandArg n posArgs posArgsType letter used
          (expandLoop rest (used + emitted.length)).map ({ piece := .arg letter, start := used, emitted } :: ·)
      else (expandLoop rest (used + 1)).map ({ piece := .plain c, start := used, emitted := [c] } :: ·)
    else some []

/-- `str_expand_format`. -/
def strExpandFormat (src : List Char) : Option (List ExpandStep) := expandLoop n posArgs posArgsType src 0

/-- What the turns write, one after the other. -/
def emittedBy (steps : List ExpandStep) : List Char := steps.flatMap ExpandStep.emitted

/-- What they take. -/
def takenBy (steps : List ExpandStep) : List Char := steps.flatMap fun s => s.piece.text

/-- The bytes of the destination that are written. -/
def writtenBy (steps : List ExpandStep) : List Char := emittedBy steps ++ ['\x00']

/-! ## What the expansion is for -/

/-- The positional conversion of an index, of the type that belongs to it. -/
def IsConversion (index : Nat) (s : List Char) : Prop :=
  ∃ t, posArgsType[index]? = some t ∧ s = '%' :: (Nat.toDigits 10 (index + 1) ++ ['$', t])

/-- A plain character is copied. For a letter of the list its conversion is written if that and a terminator fit, and for any other
letter nothing is written. -/
def ExpandStep.Right (s : ExpandStep) : Prop :=
  match s.piece with
  | .plain c => s.emitted = [c]
  | .arg letter =>
    (∀ index, posArgs.findIdx? (· = letter) = some index → s.start + 4 + 1 ≤ n → IsConversion posArgsType index s.emitted) ∧
      (letter ∉ posArgs → s.emitted = [])

/-- No byte behind the terminator is read, a terminated string that fits is written, every turn does what it should, and the whole source
is taken unless the destination is full. -/
def ExpandsRight (src : List Char) : Prop :=
  ∃ steps, strExpandFormat n posArgs posArgsType src = some steps ∧ (writtenBy steps).length ≤ n ∧
    takenBy steps <+: src ∧ (takenBy steps = src ∨ (writtenBy steps).length = n) ∧ ∀ s ∈ steps, s.Right n posArgs posArgsType

/-- Where the expansion is right, with this many characters written before: no percent sign at the end; for a letter of the list there
are not just four places and that of the terminator; for another letter there are no more than these, or the list is empty. From where
the destination is full on, all sources are fine. -/
def Expandable : List Char → Nat → Prop
  | [], _ => True
  | c :: rest, used =>
    used + 1 < n →
      if c = '%' then
        match rest with
        | [] => False
        | letter :: rest =>
          if letter ∈ posArgs then used + 5 ≠ n ∧ Expandable rest (if used + 5 < n then used + 4 else used)
          else (posArgs = [] ∨ n ≤ used + 5) ∧ Expandable rest used
      else Expandable rest (used + 1)

end

/-! ## A turn for a letter -/

section

variable {n used : Nat} {posArgs posArgsType : List Char} {letter : Char} {index : Nat}

theorem isConversion_positional (hlen : posArgs.length = posArgsType.length) (hten : posArgs.length < 10)
    (hindex : index < posArgs.length) :
    IsConversion posArgsType index (positional posArgsType index) := by
  have htype : index < posArgsType.length := hlen ▸ hindex
  refine ⟨posArgsType[index], List.getElem?_eq_getElem htype, ?_⟩
  have hdigit : Nat.toDigits 10 (index + 1) = [Char.ofNat (index + 1 + '0'.toNat)] := by
    have hsmall : index < 9 := by omega
    interval_cases index <;> rfl
  rw [hdigit, positional, List.getElem?_eq_getElem htype]
  rfl

theorem not_isConversion_nil : ¬IsConversion posArgsType index [] := by
  rintro ⟨t, -, h⟩
  cases h

theorem expandArg_listed (hindex : posArgs.findIdx? (· = letter) = some index) :
    expandArg n posArgs posArgsType letter used = if used + 5 < n then positional posArgsType index else [] := by
  have hlt : index < posArgs.length := (List.findIdx?_eq_some_iff_getElem.1 hindex).1
  unfold expandArg posArgIndex
  rw [hindex]
  dsimp only [Option.getD_some]
  by_cases hroom : used + 5 < n
  · rw [if_pos hroom, if_pos ⟨by omega, by omega⟩]
  · rw [if_neg hroom, if_neg fun h => hroom (by omega)]

theorem expandArg_unlisted (hletter : letter ∉ posArgs) :
    expandArg n posArgs posArgsType letter used = if posArgs ≠ [] ∧ used + 5 < n then positional posArgsType 0 else [] := by
  have hnone : posArgs.findIdx? (· = letter) = none := by
    rw [List.findIdx?_eq_none_iff]
    intro c hc
    exact decide_eq_false fun h => hletter (h ▸ hc)
  unfold expandArg posArgIndex
  rw [hnone]
  dsimp only [Option.getD_none]
  have hlen : 0 ≠ posArgs.length ↔ posArgs ≠ [] := by
    rw [ne_comm]
    exact not_congr List.length_eq_zero_iff
  have hroom : used + 4 < n - 1 ↔ used + 5 < n := by omega
  simp only [hlen, hroom]

theorem exists_index (hletter : letter ∈ posArgs) : ∃ index, posArgs.findIdx? (· = letter) = some index := by
  cases hfind : posArgs.findIdx? (· = letter) with
  | some index => exact ⟨index, rfl⟩
  | none =>
    rw [List.findIdx?_eq_none_iff] at hfind
    exact absurd rfl (of_decide_eq_false (hfind letter hletter))

theorem right_listed_iff (hlen : posArgs.length = posArgsType.length) (hten : posArgs.length < 10) (hletter : letter ∈ posArgs) :
    ExpandStep.Right n posArgs posArgsType ⟨.arg letter, used, expandArg n posArgs posArgsType letter used⟩ ↔ used + 5 ≠ n := by
  obtain ⟨index, hindex⟩ := exists_index hletter
  have hlt : index < posArgs.length := (List.findIdx?_eq_some_iff_getElem.1 hindex).1
  show (∀ i, posArgs.findIdx? (· = letter) = some i → used + 4 + 1 ≤ n → IsConversion posArgsType i _) ∧ (letter ∉ posArgs → _) ↔ _
  rw [expandArg_listed hindex]
  constructor
  · rintro ⟨hconversion, -⟩ rfl
    have hnil := hconversion index hindex (by omega)
    rw [if_neg (by omega)] at hnil
    exact not_isConversion_nil hnil
  · intro hne
    refine ⟨fun i hi hroom => ?_, fun hno => absurd hletter hno⟩
    obtain rfl : index = i := Option.some.inj (hindex.symm.trans hi)
    rw [if_pos (by omega)]
    exact isConversion_positional hlen hten hlt

theorem right_unlisted_iff (hletter : letter ∉ posArgs) :
    ExpandStep.Right n posArgs posArgsType ⟨.arg letter, used, expandArg n posArgs posArgsType letter used⟩ ↔
      posArgs = [] ∨ n ≤ used + 5 := by
  show (∀ i, posArgs.findIdx? (· = letter) = some i → used + 4 + 1 ≤ n → IsConversion posArgsType i _) ∧ (letter ∉ posArgs → _ = []) ↔ _
  rw [expandArg_unlisted hletter]
  constructor
  · rintro ⟨-, hnil⟩
    by_contra hno
    rw [not_or] at hno
    have h := hnil hletter
    rw [if_pos ⟨hno.1, not_le.1 hno.2⟩] at h
    cases h
  · intro h
    refine ⟨fun i hi _ => ?_, fun _ => if_neg ?_⟩
    · obtain ⟨hlt, hc, -⟩ := List.findIdx?_eq_some_iff_getElem.1 hi
      exact absurd (of_decide_eq_true hc ▸ List.getElem_mem hlt) hletter
    · rintro ⟨hne, hroom⟩
      rcases h with h | h
      · exact hne h
      · omega

theorem expandArg_length (hlt : used + 1 < n) : used + (expandArg n posArgs posArgsType letter used).length < n := by
  unfold expandArg
  dsimp only
  split
  · rename_i h
    show used + 4 < n
    omega
  · show used + 0 < n
    omega

end

/-! ## The whole run -/

section

variable {n used : Nat} {posArgs posArgsType src : List Char} {steps : List ExpandStep}

theorem exists_cons_right_iff {o : Option (List ExpandStep)} {s : ExpandStep} :
    (∃ steps, o.map (s :: ·) = some steps ∧ ∀ t ∈ steps, t.Right n posArgs posArgsType) ↔
      s.Right n posArgs posArgsType ∧ ∃ steps, o = some steps ∧ ∀ t ∈ steps, t.Right n posArgs posArgsType := by
  constructor
  · rintro ⟨steps, h, hall⟩
    obtain ⟨steps', rfl, rfl⟩ := Option.map_eq_some_iff.1 h
    exact ⟨hall s List.mem_cons_self, steps', rfl, fun t ht => hall t (List.mem_cons_of_mem s ht)⟩
  · rintro ⟨hs, steps, rfl, hall⟩
    refine ⟨s :: steps, rfl, fun t ht => ?_⟩
    rcases List.mem_cons.1 ht with rfl | ht
    · exact hs
    · exact hall t ht

/-- A run that stays in the source takes it from its start, up to where the destination is full. -/
theorem expandLoop_taken : used < n → ∀ {steps}, expandLoop n posArgs posArgsType src used = some steps →
    used + (emittedBy steps).length < n ∧ takenBy steps <+: src ∧
      (takenBy steps = src ∨ used + (emittedBy steps).length + 1 = n) := by
  fun_induction expandLoop n posArgs posArgsType src used with
  | case1 used =>
    intro hused steps h
    cases h
    exact ⟨hused, List.prefix_refl _, .inl rfl⟩
  | case2 used hroom => exact fun _ _ h => nomatch h
  | case3 used hroom letter rest emitted ih =>
    intro hused steps h
    obtain ⟨steps', hsteps, rfl⟩ := Option.map_eq_some_iff.1 h
    obtain ⟨hfits, hstart, hall⟩ := ih (expandArg_length (by omega)) hsteps
    have htaken : takenBy ({ piece := .arg letter, start := used, emitted } :: steps') = '%' :: letter :: takenBy steps' := rfl
    have hlen : (emittedBy ({ piece := .arg letter, start := used, emitted } :: steps')).length =
        emitted.length + (emittedBy steps').length := List.length_append
    rw [htaken, hlen]
    refine ⟨by omega, ?_, ?_⟩
    · exact List.cons_prefix_cons.2 ⟨rfl, List.cons_prefix_cons.2 ⟨rfl, hstart⟩⟩
    · rcases hall with hall | hfull
      · exact .inl (by rw [hall])
      · exact .inr (by omega)
  | case4 c rest used hroom hc ih =>
    intro hused steps h
    obtain ⟨steps', hsteps, rfl⟩ := Option.map_eq_some_iff.1 h
    obtain ⟨hfits, hstart, hall⟩ := ih (by omega) hsteps
    have htaken : takenBy ({ piece := .plain c, start := used, emitted := [c] } :: steps') = c :: takenBy steps' := rfl
    have hlen : (emittedBy ({ piece := .plain c, start := used, emitted := [c] } :: steps')).length = 1 + (emittedBy steps').length :=
      List.length_append
    rw [htaken, hlen]
    refine ⟨by omega, List.cons_prefix_cons.2 ⟨rfl, hstart⟩, ?_⟩
    rcases hall with hall | hfull
    · exact .inl (by rw [hall])
    · exact .inr (by omega)
  | case5 c rest used hfull =>
    intro hused steps h
    cases h
    refine ⟨hused, List.nil_prefix, .inr ?_⟩
    show used + 0 + 1 = n
    omega

theorem expandable_plain {c : Char} {rest : List Char} (hc : c ≠ '%') :
    Expandable n posArgs (c :: rest) used ↔ (used + 1 < n → Expandable n posArgs rest (used + 1)) := by
  rw [Expandable.eq_def]
  dsimp only
  rw [if_neg hc]

theorem expandable_full (h : ¬used + 1 < n) : Expandable n posArgs src used := by
  rw [Expandable.eq_def]
  cases src with
  | nil => exact trivial
  | cons c rest => exact fun hplace => absurd hplace h

/-- The turns are right and the source is not left exactly on an expandable source. -/
theorem expandLoop_right_iff (hlen : posArgs.length = posArgsType.length) (hten : posArgs.length < 10) :
    used < n → ((∃ steps, expandLoop n posArgs posArgsType src used = some steps ∧ ∀ s ∈ steps, s.Right n posArgs posArgsType) ↔
      Expandable n posArgs src used) := by
  fun_induction expandLoop n posArgs posArgsType src used with
  | case1 used => exact fun _ => ⟨fun _ => trivial, fun _ => ⟨[], rfl, nofun⟩⟩
  | case2 used hroom =>
    intro _
    constructor
    · rintro ⟨steps, h, -⟩
      cases h
    · intro h
      exact (h (by omega)).elim
  | case3 used hroom letter rest emitted ih =>
    intro _
    rw [exists_cons_right_iff, ih (expandArg_length (by omega)), Expandable]
    have hplace : used + 1 < n := by omega
    simp only [hplace, forall_const, if_true]
    by_cases hletter : letter ∈ posArgs
    · obtain ⟨index, hindex⟩ := exists_index hletter
      have hnext : used + emitted.length = if used + 5 < n then used + 4 else used := by
        show used + (expandArg n posArgs posArgsType letter used).length = _
        rw [expandArg_listed hindex]
        split
        · rfl
        · rfl
      rw [if_pos hletter, hnext]
      exact and_congr_left fun _ => right_listed_iff hlen hten hletter
    · rw [if_neg hletter]
      refine Iff.trans (and_congr_left fun _ => right_unlisted_iff hletter) (and_congr_right fun hnone => ?_)
      have hnext : emitted = [] := by
        show expandArg n posArgs posArgsType letter used = []
        rw [expandArg_unlisted hletter, if_neg]
        rintro ⟨hne, hfits⟩
        rcases hnone with h | h
        · exact hne h
        · omega
      rw [hnext]
      rfl
  | case4 c rest used hroom hc ih =>
    intro _
    have hplace : used + 1 < n := by omega
    rw [exists_cons_right_iff, ih (by omega), expandable_plain hc]
    exact ⟨fun h _ => h.2, fun h => ⟨rfl, h hplace⟩⟩
  | case5 c rest used hfull =>
    intro _
    exact ⟨fun _ => expandable_full (by omega), fun _ => ⟨[], rfl, nofun⟩⟩

end

/-- The expansion is right exactly for an expandable source. -/
theorem expands_right_iff {n : Nat} {posArgs posArgsType : List Char} (src : List Char) (hn : 1 ≤ n)
    (hlen : posArgs.length = posArgsType.length) (hten : posArgs.length < 10) :
    ExpandsRight n posArgs posArgsType src ↔ Expandable n posArgs src 0 := by
  rw [← expandLoop_right_iff hlen hten hn]
  constructor
  · rintro ⟨steps, h, -, -, -, hall⟩
    exact ⟨steps, h, hall⟩
  · rintro ⟨steps, h, hall⟩
    obtain ⟨hfits, hstart, htaken⟩ := expandLoop_taken hn h
    have hwritten : (writtenBy steps).length = (emittedBy steps).length + 1 := List.length_append
    refine ⟨steps, h, by omega, hstart, htaken.imp_right fun hfull => by omega, hall⟩

theorem expands_right_capture : ExpandsRight 36 ['t', 'd'] ['d', 'd'] ['p', '/', '%', 't', '.', '%', 'd'] := by
  have hiff : ExpandsRight 36 ['t', 'd'] ['d', 'd'] ['p', '/', '%', 't', '.', '%', 'd'] ↔
      Expandable 36 ['t', 'd'] ['p', '/', '%', 't', '.', '%', 'd'] 0 := expands_right_iff _ (by decide) rfl (by decide)
  rw [hiff]
  simp [Expandable]

/-- The letter x has no position and is printed as the first one. -/
theorem unlisted_letter_expanded : ¬ExpandsRight 34 ['t', 'd'] ['d', 'd'] ['%', 'x'] := by
  rintro ⟨steps, h, -, -, -, hall⟩
  have hrun : strExpandFormat 34 ['t', 'd'] ['d', 'd'] ['%', 'x'] = some [⟨.arg 'x', 0, ['%', '1', '$', 'd']⟩] := by decide
  obtain rfl : [⟨.arg 'x', 0, ['%', '1', '$', 'd']⟩] = steps := Option.some.inj (hrun.symm.trans h)
  have hnothing := (hall _ List.mem_cons_self).2 (by decide)
  cases hnothing

end NdkSw.Tools

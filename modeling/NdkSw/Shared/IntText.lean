/-
The texts of decimal integers that `strtol` reads: blanks, a sign or none, digits. The reader takes such a text from the start of a
string if and only if it stands there and no digit follows, so that a string starts with one such text at most.
-/
import NdkSw.Shared.OptionText

namespace Shared

/-- Blanks, or nothing. -/
def Blanks (b : List Char) : Prop := ∀ c ∈ b, isBlank c = true

def IsSign (sign : List Char) : Prop := sign = [] ∨ sign = ['-'] ∨ sign = ['+']

/-- The value of a sign and digits. -/
def signedValue (sign digits : List Char) : Int := if sign = ['-'] then -(numberIn 10 digits : Int) else numberIn 10 digits

/-- The text of an integer. -/
inductive IntText : List Char → Int → Prop
  | mk {b sign digits : List Char} (blanks : Blanks b) (isSign : IsSign sign) (ne : digits ≠ []) (all : ∀ c ∈ digits, c.isDigit = true) :
    IntText (b ++ (sign ++ digits)) (signedValue sign digits)

/-- No digit follows. -/
def NoDigit (s : List Char) : Prop := ∀ c, s.head? = some c → c.isDigit = false

/-- The integer at the start of a string, and what stands behind it; none if there are no digits. -/
def readInt (s : List Char) : Option (Int × List Char) :=
  let s := s.dropWhile isBlank
  let signed := s.head? = some '-' ∨ s.head? = some '+'
  let u := if signed then s.tail else s
  let digits := digitsIn 10 u
  if digits = [] then none
  else some (if s.head? = some '-' then -(numberIn 10 digits : Int) else numberIn 10 digits, u.drop digits.length)

section

variable {s t rest b sign digits : List Char} {c : Char} {z : Int}

/-! ## Characters -/

/-- The digits in base 10 are the decimal digits. -/
theorem any_lt_ten (c : Char) : (xdigitValue c).any (· < 10) = c.isDigit := by
  cases hc : c.isDigit with
  | true =>
    obtain ⟨hv, hlt⟩ := xdigitValue_of_isDigit hc
    rw [hv, Option.any_some]
    exact decide_eq_true hlt
  | false =>
    have hno : ¬('0' ≤ c ∧ c ≤ '9') := by
      intro h
      have hdigit : c.isDigit = true := by
        rw [Char.isDigit, Bool.and_eq_true, decide_eq_true_eq, decide_eq_true_eq]
        exact h
      rw [hdigit] at hc
      cases hc
    rw [xdigitValue, if_neg hno]
    split
    · rw [Option.any_some]
      exact decide_eq_false (by omega)
    · split
      · rw [Option.any_some]
        exact decide_eq_false (by omega)
      · rfl

theorem not_blank_of_isDigit (hc : c.isDigit = true) : isBlank c = false := by
  cases hb : isBlank c with
  | false => rfl
  | true =>
    simp only [isBlank, Bool.or_eq_true, decide_eq_true_eq] at hb
    rcases hb with ((((hb | hb) | hb) | hb) | hb) | hb <;> rw [hb] at hc <;> cases hc

/-- Blanks at the start are skipped. -/
theorem Blanks.dropWhile_append (h : Blanks b) (s : List Char) : (b ++ s).dropWhile isBlank = s.dropWhile isBlank :=
  List.dropWhile_append_of_pos h

theorem Blanks.dropWhile_eq (hb : Blanks b) (hs : ∀ c, s.head? = some c → isBlank c = false) : (b ++ s).dropWhile isBlank = s := by
  rw [hb.dropWhile_append]
  cases s with
  | nil => rfl
  | cons c s => exact List.dropWhile_cons_of_neg (by rw [hs c rfl]; exact Bool.false_ne_true)

/-- Blanks are no digits. -/
theorem Blanks.noDigit (hb : Blanks b) (hs : NoDigit s) : NoDigit (b ++ s) := by
  intro c hc
  cases b with
  | nil => exact hs c hc
  | cons d b =>
    obtain rfl : d = c := Option.some.inj hc
    by_contra hdigit
    have hblank := hb d List.mem_cons_self
    rw [not_blank_of_isDigit (Bool.eq_true_of_not_eq_false hdigit)] at hblank
    cases hblank

/-- What is skipped are blanks. -/
theorem exists_blanks (s : List Char) : ∃ b, Blanks b ∧ s = b ++ s.dropWhile isBlank :=
  ⟨s.takeWhile isBlank, fun _ hc => List.mem_takeWhile_imp hc, List.takeWhile_append_dropWhile.symm⟩

/-! ## Reading -/

theorem digitsIn_append (hall : ∀ c ∈ digits, c.isDigit = true) (hrest : NoDigit rest) : digitsIn 10 (digits ++ rest) = digits := by
  unfold digitsIn
  rw [List.takeWhile_append_of_pos fun c hc => (any_lt_ten c).trans (hall c hc)]
  cases rest with
  | nil => exact List.append_nil _
  | cons c rest =>
    rw [List.takeWhile_cons_of_neg, List.append_nil]
    rw [any_lt_ten, hrest c rfl]
    exact Bool.false_ne_true

/-- What stands behind the digits. -/
theorem drop_digitsIn (s : List Char) : digitsIn 10 s ++ s.drop (digitsIn 10 s).length = s ∧ NoDigit (s.drop (digitsIn 10 s).length) := by
  have hsplit : digitsIn 10 s ++ s.dropWhile (fun c => (xdigitValue c).any (· < 10)) = s := List.takeWhile_append_dropWhile
  have hdrop : s.drop (digitsIn 10 s).length = s.dropWhile fun c => (xdigitValue c).any (· < 10) := by
    have hleft := congrArg (List.drop (digitsIn 10 s).length) hsplit
    rw [List.drop_left] at hleft
    exact hleft.symm
  rw [hdrop]
  refine ⟨hsplit, fun c hc => ?_⟩
  have hnot := List.head?_dropWhile_not (fun c => (xdigitValue c).any (· < 10)) s
  rw [hc] at hnot
  rw [← any_lt_ten]
  simpa using hnot

theorem readInt_dropWhile (s : List Char) : readInt (s.dropWhile isBlank) = readInt s := by
  have hagain : (s.dropWhile isBlank).dropWhile isBlank = s.dropWhile isBlank := by
    apply List.dropWhile_eq_self_iff.2
    intro hl hc
    have hnot := List.head?_dropWhile_not isBlank s
    rw [List.head?_eq_getElem?, List.getElem?_eq_getElem hl] at hnot
    exact absurd hc (ne_true_of_eq_false hnot)
  unfold readInt
  rw [hagain]

/-- The text of an integer is read if no digit follows. -/
theorem readInt_complete (h : IntText t z) (hrest : NoDigit rest) : readInt (t ++ rest) = some (z, rest) := by
  obtain ⟨hb, hsign, hne, hall⟩ := h
  rename_i b sign digits
  obtain ⟨d, l, rfl⟩ := List.exists_cons_of_ne_nil hne
  have hd : d.isDigit = true := hall d List.mem_cons_self
  have hminus : d ≠ '-' := by rintro rfl; cases hd
  have hplus : d ≠ '+' := by rintro rfl; cases hd
  have hskip : (b ++ (sign ++ d :: l) ++ rest).dropWhile isBlank = sign ++ (d :: l ++ rest) := by
    rw [List.append_assoc, List.append_assoc]
    apply hb.dropWhile_eq
    intro c hc
    rcases hsign with rfl | rfl | rfl
    · obtain rfl : d = c := Option.some.inj hc
      exact not_blank_of_isDigit hd
    · obtain rfl : '-' = c := Option.some.inj hc
      rfl
    · obtain rfl : '+' = c := Option.some.inj hc
      rfl
  have hdigits := digitsIn_append hall hrest
  unfold readInt
  rw [hskip]
  dsimp only
  rcases hsign with rfl | rfl | rfl
  · rw [List.nil_append, List.cons_append, List.head?_cons]
    simp only [Option.some.injEq, hminus, hplus, or_self, if_false]
    rw [← List.cons_append, hdigits, if_neg hne, List.drop_left]
    rfl
  · rw [List.singleton_append, List.head?_cons, List.tail_cons]
    rw [if_pos (Or.inl rfl), hdigits, if_neg hne, List.drop_left, if_pos rfl]
    rfl
  · rw [List.singleton_append, List.head?_cons, List.tail_cons]
    rw [if_pos (Or.inr rfl), hdigits, if_neg hne, List.drop_left]
    rfl

/-- What is read is the text of an integer that no digit follows. -/
theorem readInt_sound (h : readInt s = some (z, rest)) : NoDigit rest ∧ ∃ t, s = t ++ rest ∧ IntText t z := by
  obtain ⟨b, hb, hs⟩ := exists_blanks s
  unfold readInt at h
  generalize s.dropWhile isBlank = u at h hs
  dsimp only at h
  -- The sign, and what stands behind it.
  obtain ⟨sign, v, hsign, hu, hv, hvalue⟩ : ∃ sign v, IsSign sign ∧ u = sign ++ v ∧
      (if u.head? = some '-' ∨ u.head? = some '+' then u.tail else u) = v ∧ (u.head? = some '-' ↔ sign = ['-']) := by
    cases u with
    | nil => exact ⟨[], [], .inl rfl, rfl, rfl, ⟨nofun, nofun⟩⟩
    | cons c u =>
      by_cases hminus : c = '-'
      · subst hminus
        exact ⟨['-'], u, .inr (.inl rfl), rfl, if_pos (.inl rfl), ⟨fun _ => rfl, fun _ => rfl⟩⟩
      · have hno : (c :: u).head? ≠ some '-' := fun hc => hminus (Option.some.inj hc)
        by_cases hplus : c = '+'
        · subst hplus
          exact ⟨['+'], u, .inr (.inr rfl), rfl, if_pos (.inr rfl), ⟨nofun, nofun⟩⟩
        · refine ⟨[], c :: u, .inl rfl, rfl, if_neg ?_, ⟨fun hc => absurd hc hno, nofun⟩⟩
          rintro (hc | hc)
          · exact hno hc
          · exact hplus (Option.some.inj hc)
  rw [hv] at h
  by_cases hne : digitsIn 10 v = []
  · rw [if_pos hne] at h
    cases h
  rw [if_neg hne] at h
  obtain ⟨rfl, rfl⟩ := Prod.mk.inj (Option.some.inj h)
  obtain ⟨hsplit, hnodigit⟩ := drop_digitsIn v
  refine ⟨hnodigit, b ++ (sign ++ digitsIn 10 v), ?_, ?_⟩
  · rw [List.append_assoc, List.append_assoc, hsplit, ← hu]
    exact hs
  · have hall : ∀ c ∈ digitsIn 10 v, c.isDigit = true := by
      intro c hc
      rw [← any_lt_ten]
      exact List.mem_takeWhile_imp (p := fun c => (xdigitValue c).any (· < 10)) hc
    have htext := IntText.mk hb hsign hne hall
    simp only [hvalue]
    exact htext

end

end Shared

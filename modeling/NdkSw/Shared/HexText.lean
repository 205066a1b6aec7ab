/-
Numbers as `printf` writes them with a conversion `%0wx`: hexadecimal digits, filled up with zeros to a width. A conversion `%x` of the
same width in `scanf` takes such a text back, whatever follows it.
-/
import NdkSw.Shared.TextScan

namespace Shared

/-- The text of a number, at least `width` characters. -/
def hexText (width n : Nat) : List Char := (Nat.toDigits 16 n).leftpad width '0'

section

variable {width n : Nat} {rest : List Char}

theorem xdigitValue_digitChar (hn : n < 16) : xdigitValue (Nat.digitChar n) = some n := by
  interval_cases n <;> rfl

theorem hexNumber_append (s t : List Char) : hexNumber (s ++ t) = t.foldl hexStep (hexNumber s) := List.foldl_append

/-- The digits of a number. -/
theorem hexNumber_toDigits : hexNumber (Nat.toDigits 16 n) = n := by
  induction n using Nat.strong_induction_on with
  | _ n ih =>
    rcases Nat.lt_or_ge n 16 with hlt | hge
    · rw [Nat.toDigits_of_lt_base hlt]
      simp only [hexNumber, hexStep, List.foldl_cons, List.foldl_nil, xdigitValue_digitChar hlt, Option.getD_some]
      omega
    · have hmod := Nat.mod_lt n (by decide : 16 > 0)
      rw [Nat.toDigits_of_base_le (by decide) hge, hexNumber_append, ih (n / 16) (by omega)]
      simp only [hexStep, List.foldl_cons, List.foldl_nil, xdigitValue_digitChar hmod, Option.getD_some]
      omega

theorem digits_toDigits : ∀ c ∈ Nat.toDigits 16 n, (xdigitValue c).isSome := by
  induction n using Nat.strong_induction_on with
  | _ n ih =>
    intro c hc
    rcases Nat.lt_or_ge n 16 with hlt | hge
    · rw [Nat.toDigits_of_lt_base hlt] at hc
      obtain rfl := List.mem_singleton.1 hc
      rw [xdigitValue_digitChar hlt]
      rfl
    · rw [Nat.toDigits_of_base_le (by decide) hge] at hc
      rcases List.mem_append.1 hc with hc | hc
      · exact ih (n / 16) (by omega) c hc
      · obtain rfl := List.mem_singleton.1 hc
        rw [xdigitValue_digitChar (Nat.mod_lt n (by decide))]
        rfl

/-- Zeros in front leave the number as it is. -/
theorem hexNumber_zeros (k : Nat) (s : List Char) : hexNumber (List.replicate k '0' ++ s) = hexNumber s := by
  induction k with
  | zero => rfl
  | succ k ih => exact ih

theorem hexNumber_hexText : hexNumber (hexText width n) = n := by
  rw [hexText, List.leftpad, hexNumber_zeros, hexNumber_toDigits]

theorem digits_hexText : ∀ c ∈ hexText width n, (xdigitValue c).isSome := by
  intro c hc
  rcases List.mem_append.1 hc with hc | hc
  · rw [List.eq_of_mem_replicate hc]
    rfl
  · exact digits_toDigits c hc

theorem length_hexText (hw : 0 < width) (hn : n < 16 ^ width) : (hexText width n).length = width := by
  have hle := (Nat.length_toDigits_le_iff (b := 16) (by decide) hw).2 hn
  rw [hexText, List.leftpad, List.length_append, List.length_replicate]
  omega

/-- What is printed is scanned back, and the scan stops behind it. -/
theorem scanfHex_hexText (hw : 2 ≤ width) (hn : n < 16 ^ width) :
    scanfHex width (hexText width n ++ rest) = some (BitVec.ofNat 32 n, rest) := by
  have hlen := length_hexText (by omega) hn
  rw [scanfHex_digits digits_hexText (by omega) hlen.le (Or.inl hlen), hexNumber_hexText]

/-- The text starts with no blank. -/
theorem hexText_head (hw : 0 < width) (hn : n < 16 ^ width) : ∃ c s, hexText width n = c :: s ∧ isBlank c = false := by
  have hlen := length_hexText hw hn
  obtain ⟨c, s, hs⟩ := List.exists_cons_of_length_pos (l := hexText width n) (by omega)
  refine ⟨c, s, hs, ?_⟩
  have hc : (xdigitValue c).isSome := digits_hexText c (by rw [hs]; exact List.mem_cons_self)
  simp only [isBlank, Bool.or_eq_false_iff, decide_eq_false_iff_not]
  exact ⟨⟨⟨⟨⟨ne_of_xdigitValue hc rfl, ne_of_xdigitValue hc rfl⟩, ne_of_xdigitValue hc rfl⟩, ne_of_xdigitValue hc rfl⟩,
    ne_of_xdigitValue hc rfl⟩, ne_of_xdigitValue hc rfl⟩

end

end Shared

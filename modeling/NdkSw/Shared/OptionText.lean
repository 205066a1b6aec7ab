/-
Lists of options in a text, the way kernel code reads them: words between separators, patterns with a literal part and a conversion, and
numbers in the base that their first characters tell.
-/
import NdkSw.Shared.TextScan

namespace Shared

/-! ## Numbers -/

/-- The digits of a base at the start of a text. -/
def digitsIn (base : Nat) (s : List Char) : List Char := s.takeWhile fun c => (xdigitValue c).any (· < base)

/-- The number that digits stand for. -/
def numberIn (base : Nat) (digits : List Char) : Nat := digits.foldl (fun v c => base * v + (xdigitValue c).getD 0) 0

/-- The base that `strtoull` finds for itself. -/
def autoBase (s : List Char) : Nat :=
  if s.head? = some '0' then
    if (s[1]? = some 'x' ∨ s[1]? = some 'X') ∧ (s[2]?.bind xdigitValue).isSome then 16 else 8
  else 10

/-- `simple_strtoull` without a base: the number and what stands behind it. -/
def strtoullAuto (s : List Char) : BitVec 64 × List Char :=
  let base := autoBase s
  let s := if base = 16 then s.drop 2 else s
  let digits := digitsIn base s
  (BitVec.ofNat 64 (numberIn base digits), s.drop digits.length)

/-- `simple_strtol` without a base. A sign alone counts as read. -/
def strtolAuto (s : List Char) : BitVec 64 × List Char :=
  if s.head? = some '-' then (-(strtoullAuto s.tail).1, (strtoullAuto s.tail).2) else strtoullAuto s

/-- The conversion `%u` of the `sscanf` in the kernel: white space and decimal digits. -/
def scanUnsigned (s : List Char) : Option (BitVec 32) :=
  let digits := digitsIn 10 (s.dropWhile isBlank)
  if digits = [] then none else some (BitVec.ofNat 32 (numberIn 10 digits))

section

variable {c : Char} {s : List Char} {n : Nat}

theorem xdigitValue_of_isDigit (hc : c.isDigit = true) : xdigitValue c = some (c.toNat - '0'.toNat) ∧ c.toNat - '0'.toNat < 10 := by
  rw [Char.isDigit, Bool.and_eq_true, decide_eq_true_eq, decide_eq_true_eq] at hc
  have hlow : '0' ≤ c := hc.1
  have hhigh : c ≤ '9' := hc.2
  refine ⟨by rw [xdigitValue, if_pos ⟨hlow, hhigh⟩], ?_⟩
  have h9 : c.toNat ≤ '9'.toNat := hhigh
  have e9 : '9'.toNat = 57 := rfl
  have e0 : '0'.toNat = 48 := rfl
  omega

theorem decimal_digit (hc : c ∈ Nat.toDigits 10 n) : c.isDigit = true :=
  Nat.isDigit_of_mem_toDigits (by decide) (by decide) hc

/-- A character that is no digit is in no decimal number. -/
theorem not_mem_decimal (hc : c.isDigit = false) : c ∉ Nat.toDigits 10 n := by
  intro hm
  rw [decimal_digit hm] at hc
  cases hc

theorem digitsIn_decimal : digitsIn 10 (Nat.toDigits 10 n) = Nat.toDigits 10 n := by
  apply List.takeWhile_eq_self_iff.2
  intro c hc
  obtain ⟨hv, hlt⟩ := xdigitValue_of_isDigit (decimal_digit hc)
  rw [hv, Option.any_some]
  exact decide_eq_true hlt

theorem numberIn_decimal : numberIn 10 (Nat.toDigits 10 n) = n := by
  have hfold : ∀ (l : List Char) (v : Nat), (∀ c ∈ l, c.isDigit = true) →
      l.foldl (fun v c => 10 * v + (xdigitValue c).getD 0) v = Nat.ofDigitChars 10 l v := by
    intro l
    induction l with
    | nil => exact fun v _ => Nat.ofDigitChars_nil.symm
    | cons c l ih =>
      intro v hl
      rw [List.foldl_cons, Nat.ofDigitChars_cons, ih _ fun d hd => hl d (List.mem_cons_of_mem c hd),
        (xdigitValue_of_isDigit (hl c (List.mem_cons_self ..))).1, Option.getD_some]
  rw [numberIn, hfold _ _ fun c hc => decimal_digit hc]
  exact Nat.ofDigitChars_ten_toDigits

/-- Only the number zero starts with a zero. -/
theorem decimal_head (hn : 0 < n) : (Nat.toDigits 10 n).head? ≠ some '0' := by
  induction n using Nat.strong_induction_on with
  | _ n ih =>
    by_cases hlt : n < 10
    · interval_cases n <;> decide
    · have hdiv : 0 < n / 10 := by omega
      have happ := Nat.toDigits_append_toDigits (b := 10) (by decide) hdiv (Nat.mod_lt n (by decide : 0 < 10))
      rw [Nat.div_add_mod] at happ
      rw [← happ, List.head?_append_of_ne_nil _ Nat.toDigits_ne_nil]
      exact ih (n / 10) (by omega) hdiv

theorem strtoullAuto_decimal : strtoullAuto (Nat.toDigits 10 n) = (BitVec.ofNat 64 n, []) := by
  rcases Nat.eq_zero_or_pos n with rfl | hn
  · decide
  · have hbase : autoBase (Nat.toDigits 10 n) = 10 := by rw [autoBase, if_neg (decimal_head hn)]
    unfold strtoullAuto
    rw [hbase]
    show (BitVec.ofNat 64 (numberIn 10 (digitsIn 10 (Nat.toDigits 10 n))),
      (Nat.toDigits 10 n).drop (digitsIn 10 (Nat.toDigits 10 n)).length) = _
    rw [digitsIn_decimal, numberIn_decimal, List.drop_length]

theorem strtolAuto_decimal : strtolAuto (Nat.toDigits 10 n) = (BitVec.ofNat 64 n, []) := by
  have hsign : (Nat.toDigits 10 n).head? ≠ some '-' := by
    intro h
    exact not_mem_decimal rfl (List.mem_of_mem_head? h)
  rw [strtolAuto, if_neg hsign, strtoullAuto_decimal]

theorem scanUnsigned_decimal : scanUnsigned (Nat.toDigits 10 n) = some (BitVec.ofNat 32 n) := by
  have hskip : (Nat.toDigits 10 n).dropWhile isBlank = Nat.toDigits 10 n := by
    apply List.dropWhile_eq_self_iff.2
    intro hl
    have hd := decimal_digit (List.getElem_mem hl)
    cases hb : isBlank (Nat.toDigits 10 n)[0] with
    | false => exact Bool.false_ne_true
    | true =>
      simp only [isBlank, Bool.or_eq_true, decide_eq_true_eq] at hb
      rcases hb with ((((hb | hb) | hb) | hb) | hb) | hb <;> rw [hb] at hd <;> cases hd
  unfold scanUnsigned
  rw [hskip, digitsIn_decimal]
  dsimp only
  rw [if_neg Nat.toDigits_ne_nil, numberIn_decimal]

end

/-! ## Patterns -/

/-- `match_one`: the arguments of a pattern with the conversions `%s`, which takes what is left but not an empty text, and `%d`. -/
def matchOne : List Char → List Char → Option (List (List Char))
  | [], s => if s = [] then some [] else none
  | '%' :: 's' :: p, s => if s = [] then none else (matchOne p []).map (s :: ·)
  | '%' :: 'd' :: p, s =>
    let rest := (strtolAuto s).2
    if rest.length = s.length then none else (matchOne p rest).map (s.take (s.length - rest.length) :: ·)
  | _ :: _, [] => none
  | c :: p, d :: s => if c = d then matchOne p s else none

/-- `match_token`: the first pattern of a table that fits, with its argument. -/
def matchToken {τ : Type} (table : List (τ × List Char)) (s : List Char) : Option (τ × List Char) :=
  table.findSome? fun (t, p) => (matchOne p s).map fun args => (t, args.headD [])

/-- `match_int`: a number that fits `int`, else an error. -/
def matchInt (eInval eRange : Int) (arg : List Char) : Except Int Int :=
  let (v, rest) := strtolAuto arg
  if rest.length = arg.length then .error eInval
  else if v.toInt < -2 ^ 31 ∨ 2 ^ 31 - 1 < v.toInt then .error eRange
  else .ok v.toInt

section

variable {c d : Char} {p s : List Char} {n : Nat}

theorem matchOne_literal (hc : c ≠ '%') : matchOne (c :: p) (c :: s) = matchOne p s := by
  rw [matchOne]
  · exact if_pos rfl
  · rintro q h
    exact absurd h hc
  · rintro q h
    exact absurd h hc

theorem matchOne_ne (hc : c ≠ '%') (hne : c ≠ d) : matchOne (c :: p) (d :: s) = none := by
  rw [matchOne]
  · exact if_neg hne
  · rintro q h
    exact absurd h hc
  · rintro q h
    exact absurd h hc

theorem matchOne_string (hs : s ≠ []) : matchOne ['%', 's'] s = some [s] := by
  rw [matchOne, if_neg hs]
  rfl

theorem matchOne_decimal : matchOne ['%', 'd'] (Nat.toDigits 10 n) = some [Nat.toDigits 10 n] := by
  have hlen : ([] : List Char).length ≠ (Nat.toDigits 10 n).length := (Nat.length_toDigits_pos).ne
  rw [matchOne]
  simp only [strtolAuto_decimal]
  rw [if_neg hlen, matchOne, if_pos rfl, List.length_nil, Nat.sub_zero, List.take_length]
  rfl

theorem matchToken_skip {τ : Type} {t : τ} {table : List (τ × List Char)} (h : matchOne p s = none) :
    matchToken ((t, p) :: table) s = matchToken table s := by
  unfold matchToken
  rw [List.findSome?_cons]
  dsimp only
  rw [h]
  rfl

theorem matchToken_hit {τ : Type} {t : τ} {table : List (τ × List Char)} {args : List (List Char)} (h : matchOne p s = some args) :
    matchToken ((t, p) :: table) s = some (t, args.headD []) := by
  unfold matchToken
  rw [List.findSome?_cons]
  dsimp only
  rw [h]
  rfl

theorem matchInt_decimal {eInval eRange : Int} (hn : n < 2 ^ 31) : matchInt eInval eRange (Nat.toDigits 10 n) = .ok (n : Int) := by
  have hlen : ([] : List Char).length ≠ (Nat.toDigits 10 n).length := (Nat.length_toDigits_pos).ne
  have hv : (BitVec.ofNat 64 n).toInt = n := by
    rw [BitVec.toInt_ofNat']
    exact Int.bmod_eq_of_le (by omega) (by omega)
  unfold matchInt
  rw [strtolAuto_decimal]
  dsimp only
  rw [if_neg hlen, hv, if_neg (by omega)]

end

end Shared

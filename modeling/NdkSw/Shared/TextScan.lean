/-
Text the way C programs read it: `fgets` fills a buffer with at most one line, and `sscanf` reads hexadecimal numbers from a string in
the buffer. A buffer is the list of its characters that are defined.
-/
import Mathlib.Data.List.TakeDrop
import Mathlib.Data.List.TakeWhile
import Mathlib.Tactic

namespace Shared

/-! ## Lines -/

/-- What one call of `fgets` takes, at most `n` characters, and what is left of the file. -/
def takeLine : Nat → List Char → List Char × List Char
  | 0, s => ([], s)
  | _ + 1, [] => ([], [])
  | n + 1, c :: s => if c = '\n' then ([c], s) else (c :: (takeLine n s).1, (takeLine n s).2)

/-- What the first calls of `fgets` take. -/
def readsFrom (n : Nat) : Nat → List Char → List (List Char)
  | 0, _ => []
  | fuel + 1, s => if s = [] then [] else (takeLine n s).1 :: readsFrom n fuel (takeLine n s).2

/-- What `fgets` takes from a file until it gives none; no call takes less than a character. -/
def reads (n : Nat) (s : List Char) : List (List Char) := readsFrom n s.length s

/-- `fgets` ends what it took with a zero; what stood behind stays. -/
def putLine (buffer line : List Char) : List Char := line ++ '\x00' :: buffer.drop (line.length + 1)

/-- The string at the start of a buffer; none if no zero ends it. -/
def cString : List Char → Option (List Char)
  | [] => none
  | c :: l => if c = '\x00' then some [] else (cString l).map (c :: ·)

/-- A line in a file: no line break inside, and one at its end unless nothing follows. -/
structure IsLine (l rest : List Char) : Prop where
  inner : '\n' ∉ l.dropLast
  ended : l.getLast? = some '\n' ∨ rest = []

section

variable {n : Nat} {l rest s : List Char}

theorem takeLine_append : ∀ {n : Nat} {l : List Char}, l ≠ [] → IsLine l rest →
    takeLine n (l ++ rest) = (l.take n, l.drop n ++ rest)
  | 0, _, _, _ => rfl
  | n + 1, [], hne, _ => absurd rfl hne
  | n + 1, [c], _, h => by
    rcases h.ended with hc | rfl
    · obtain rfl : c = '\n' := Option.some.inj hc
      simp [takeLine]
    · cases n <;> by_cases hc : c = '\n' <;> simp [takeLine, hc]
  | n + 1, c :: d :: l, _, h => by
    have hc : c ≠ '\n' := fun hc => h.inner (by simp [hc])
    have htail : IsLine (d :: l) rest := ⟨fun hm => h.inner (List.mem_cons_of_mem c hm), h.ended⟩
    have ih := takeLine_append (n := n) (List.cons_ne_nil d l) htail
    rw [List.cons_append, takeLine, if_neg hc, ih]
    rfl

theorem takeLine_snd_length (hn : 0 < n) (hs : s ≠ []) : (takeLine n s).2.length < s.length := by
  induction s generalizing n with
  | nil => exact absurd rfl hs
  | cons c s ih =>
    obtain ⟨m, rfl⟩ := Nat.exists_eq_succ_of_ne_zero (Nat.pos_iff_ne_zero.1 hn)
    rw [takeLine]
    split
    · exact Nat.lt_succ_self s.length
    · rcases Nat.eq_zero_or_pos m with rfl | hm
      · exact Nat.lt_succ_self s.length
      · by_cases hs : s = []
        · subst hs
          obtain ⟨k, rfl⟩ := Nat.exists_eq_succ_of_ne_zero (Nat.pos_iff_ne_zero.1 hm)
          exact Nat.zero_lt_one
        · exact lt_trans (ih hm hs) (Nat.lt_succ_self s.length)

theorem takeLine_fst_length : ∀ {n : Nat} {s : List Char}, (takeLine n s).1.length ≤ n
  | 0, _ => le_rfl
  | n + 1, [] => Nat.zero_le _
  | n + 1, c :: s => by
    rw [takeLine]
    split
    · exact Nat.succ_le_succ (Nat.zero_le n)
    · exact Nat.succ_le_succ takeLine_fst_length

/-- No call takes more than there is room for. -/
theorem length_le_of_mem_readsFrom {fuel : Nat} (hl : l ∈ readsFrom n fuel s) : l.length ≤ n := by
  induction fuel generalizing s with
  | zero => exact absurd hl List.not_mem_nil
  | succ fuel ih =>
    rw [readsFrom] at hl
    split at hl
    · exact absurd hl List.not_mem_nil
    · rcases List.mem_cons.1 hl with rfl | hl
      · exact takeLine_fst_length
      · exact ih hl

/-- More calls take nothing more. -/
theorem readsFrom_eq (hn : 0 < n) : ∀ {f g : Nat} {s : List Char}, s.length ≤ f → s.length ≤ g → readsFrom n f s = readsFrom n g s
  | 0, 0, _, _, _ => rfl
  | 0, _ + 1, [], _, _ => rfl
  | _ + 1, 0, [], _, _ => rfl
  | _ + 1, _ + 1, [], _, _ => rfl
  | f + 1, g + 1, c :: s, hf, hg => by
    have hlen := takeLine_snd_length hn (List.cons_ne_nil c s)
    rw [readsFrom, readsFrom, if_neg (List.cons_ne_nil c s), if_neg (List.cons_ne_nil c s),
      readsFrom_eq hn (Nat.le_of_lt_succ (lt_of_lt_of_le hlen hf)) (Nat.le_of_lt_succ (lt_of_lt_of_le hlen hg))]

theorem reads_cons (hn : 0 < n) (hs : s ≠ []) : reads n s = (takeLine n s).1 :: reads n (takeLine n s).2 := by
  obtain ⟨c, t, rfl⟩ := List.exists_cons_of_ne_nil hs
  have hlen := takeLine_snd_length hn hs
  conv_lhs => rw [reads, List.length_cons, readsFrom, if_neg hs]
  rw [readsFrom_eq hn (Nat.le_of_lt_succ hlen) le_rfl, reads]

theorem IsLine.drop (h : IsLine l rest) (hd : l.drop n ≠ []) : IsLine (l.drop n) rest := by
  have hlen : n < l.length := by
    by_contra hge
    exact hd (List.drop_eq_nil_iff.2 (Nat.le_of_not_lt hge))
  constructor
  · rw [List.dropLast_drop_eq_drop_dropLast]
    exact fun hm => h.inner (List.mem_of_mem_drop hm)
  · rw [List.getLast?_drop, if_neg (Nat.not_le.2 hlen)]
    exact h.ended

theorem IsLine.alone (h : IsLine l rest) : IsLine l [] := ⟨h.inner, .inr rfl⟩

/-- A line is taken in pieces. -/
theorem IsLine.reads_eq (hn : 0 < n) (h : IsLine l rest) (hl : l ≠ []) : reads n l = l.take n :: reads n (l.drop n) := by
  have htake := takeLine_append (n := n) hl h.alone
  rw [List.append_nil, List.append_nil] at htake
  rw [reads_cons hn hl, htake]

/-- No piece reaches into the next line. -/
theorem IsLine.reads_append (hn : 0 < n) (h : IsLine l rest) : reads n (l ++ rest) = reads n l ++ reads n rest := by
  induction hk : l.length using Nat.strong_induction_on generalizing l with
  | _ k ih =>
    subst hk
    by_cases hl : l = []
    · rw [hl]; rfl
    · have hne : l ++ rest ≠ [] := fun he => hl (List.append_eq_nil_iff.1 he).1
      rw [reads_cons hn hne, takeLine_append hl h, h.reads_eq hn hl, List.cons_append]
      congr 1
      by_cases hd : l.drop n = []
      · rw [hd]; rfl
      · have hlt : (l.drop n).length < l.length := by
          have := List.length_pos_of_ne_nil hl
          rw [List.length_drop]
          omega
        exact ih _ hlt (h.drop hd) rfl

theorem reads_nil : reads n [] = [] := rfl

/-- A line that fits is taken in one piece. -/
theorem IsLine.reads_short (hn : 0 < n) (h : IsLine l rest) (hl : l ≠ []) (hlen : l.length ≤ n) : reads n l = [l] := by
  rw [h.reads_eq hn hl, List.take_of_length_le hlen, List.drop_eq_nil_of_le hlen, reads_nil]

theorem cString_append (h : '\x00' ∉ l) : cString (l ++ '\x00' :: rest) = some l := by
  induction l with
  | nil => rfl
  | cons c l ih =>
    have hc : c ≠ '\x00' := fun hc => h (by simp [hc])
    rw [List.cons_append, cString, if_neg hc, ih fun hm => h (List.mem_cons_of_mem c hm), Option.map_some]

/-- The string from a place in the line on. -/
theorem cString_putLine {p : Nat} (h : '\x00' ∉ l) (hp : p ≤ l.length) : cString ((putLine s l).drop p) = some (l.drop p) := by
  rw [putLine, List.drop_append_of_le_length hp]
  exact cString_append fun hm => h (List.mem_of_mem_drop hm)

theorem getElem?_putLine {p : Nat} (hp : p < l.length) : (putLine s l)[p]? = l[p]? := List.getElem?_append_left hp

/-- What stands behind the new line is the old buffer. -/
theorem getElem?_putLine_behind {p : Nat} (hp : l.length < p) : (putLine s l)[p]? = s[p]? := by
  obtain ⟨q, rfl⟩ := Nat.exists_eq_add_of_lt hp
  rw [putLine, List.getElem?_append_right (by omega), Nat.add_assoc, Nat.add_sub_cancel_left, List.getElem?_cons_succ,
    List.getElem?_drop]
  congr 1
  omega

/-- A line as long as the buffer leaves nothing of the old one. -/
theorem putLine_full (h : s.length ≤ l.length + 1) : putLine s l = l ++ ['\x00'] := by
  rw [putLine, List.drop_eq_nil_of_le h]

theorem length_putLine : (putLine s l).length = max (l.length + 1) s.length := by
  rw [putLine, List.length_append, List.length_cons, List.length_drop]
  omega

end

/-! ## Numbers -/

/-- The value of a hexadecimal digit. -/
def xdigitValue (c : Char) : Option Nat :=
  if '0' ≤ c ∧ c ≤ '9' then some (c.toNat - '0'.toNat)
  else if 'A' ≤ c ∧ c ≤ 'F' then some (c.toNat - 'A'.toNat + 10)
  else if 'a' ≤ c ∧ c ≤ 'f' then some (c.toNat - 'a'.toNat + 10)
  else none

def isBlank (c : Char) : Bool := c = ' ' || c = '\t' || c = '\n' || c = '\x0b' || c = '\x0c' || c = '\r'

def hexStep (v : Nat) (c : Char) : Nat := 16 * v + (xdigitValue c).getD 0

/-- The number a list of digits stands for. -/
def hexNumber (digits : List Char) : Nat := digits.foldl hexStep 0

/-- The conversion `%X` with a field width: white space, a sign, a mark `0x`, then digits; the number and what is left, or none if no
digit is there. -/
def scanfHex (width : Nat) (s : List Char) : Option (BitVec 32 × List Char) :=
  let s := s.dropWhile isBlank
  let neg := s.head? = some '-'
  let signed := neg ∨ s.head? = some '+'
  let w := if signed then width - 1 else width
  let s := if signed then s.tail else s
  let marked := 2 ≤ w ∧ s.head? = some '0' ∧ (s[1]? = some 'x' ∨ s[1]? = some 'X')
  let w := if marked then w - 2 else w
  let s := if marked then s.drop 2 else s
  let digits := (s.take w).takeWhile fun c => (xdigitValue c).isSome
  if digits = [] then none
  else
    let v := BitVec.ofNat 32 (hexNumber digits)
    some (if neg then -v else v, s.drop digits.length)

/-- Characters that spell bytes, two digits each. -/
inductive Spells : List Char → List (BitVec 8) → Prop
  | nil : Spells [] []
  | cons {hi lo : Char} {b : BitVec 8} {cs : List Char} {bs : List (BitVec 8)} (h₁ : xdigitValue hi = some (b.toNat / 16))
      (h₀ : xdigitValue lo = some (b.toNat % 16)) (h : Spells cs bs) : Spells (hi :: lo :: cs) (b :: bs)

/-- The number that bytes stand for, the first one highest. -/
def bigEndian (bs : List (BitVec 8)) : Nat := bs.foldl (fun v b => 256 * v + b.toNat) 0

section

variable {c : Char} {cs rest : List Char} {bs : List (BitVec 8)} {width : Nat}

theorem ne_of_xdigitValue {d : Char} (hc : (xdigitValue c).isSome) (hd : xdigitValue d = none) : c ≠ d := by
  rintro rfl
  rw [hd] at hc
  exact Bool.noConfusion hc

/-- Digits up to the width, or to the end of the string, are read. -/
theorem scanfHex_digits (hcs : ∀ c ∈ cs, (xdigitValue c).isSome) (htwo : 2 ≤ cs.length) (hw : cs.length ≤ width)
    (hstop : cs.length = width ∨ rest = []) :
    scanfHex width (cs ++ rest) = some (BitVec.ofNat 32 (hexNumber cs), rest) := by
  obtain ⟨a, b, t, rfl⟩ : ∃ a b t, cs = a :: b :: t := by
    match cs, htwo with
    | a :: b :: t, _ => exact ⟨a, b, t, rfl⟩
  have ha : (xdigitValue a).isSome := hcs a (by simp)
  have hb : (xdigitValue b).isSome := hcs b (by simp)
  have hspace : isBlank a = false := by
    simp only [isBlank, Bool.or_eq_false_iff, decide_eq_false_iff_not]
    exact ⟨⟨⟨⟨⟨ne_of_xdigitValue ha rfl, ne_of_xdigitValue ha rfl⟩, ne_of_xdigitValue ha rfl⟩, ne_of_xdigitValue ha rfl⟩,
      ne_of_xdigitValue ha rfl⟩, ne_of_xdigitValue ha rfl⟩
  have htake : ((a :: b :: t) ++ rest).take width = a :: b :: t := by
    rcases hstop with hlen | rfl
    · rw [← hlen, List.take_left]
    · rw [List.append_nil, List.take_of_length_le hw]
  have hdigits : (a :: b :: t).takeWhile (fun c => (xdigitValue c).isSome) = a :: b :: t := List.takeWhile_eq_self_iff.2 hcs
  have hskip : ((a :: b :: t) ++ rest).dropWhile isBlank = (a :: b :: t) ++ rest := by
    rw [List.cons_append, List.dropWhile_cons_of_neg (by rw [hspace]; exact Bool.false_ne_true)]
  have hminus : a ≠ '-' := ne_of_xdigitValue ha rfl
  have hplus : a ≠ '+' := ne_of_xdigitValue ha rfl
  have hx : b ≠ 'x' := ne_of_xdigitValue hb rfl
  have hX : b ≠ 'X' := ne_of_xdigitValue hb rfl
  unfold scanfHex
  rw [hskip]
  simp only [List.cons_append, List.head?_cons, Option.some.injEq, hminus, hplus, or_self, if_false, List.getElem?_cons_succ,
    List.getElem?_cons_zero, hx, hX, and_false]
  rw [← List.cons_append, ← List.cons_append, htake, hdigits, if_neg (List.cons_ne_nil a _), List.drop_left]

theorem Spells.length (h : Spells cs bs) : cs.length = 2 * bs.length := by
  induction h with
  | nil => rfl
  | cons _ _ _ ih => simp only [List.length_cons, ih]; omega

theorem Spells.digits (h : Spells cs bs) : ∀ c ∈ cs, (xdigitValue c).isSome := by
  induction h with
  | nil => exact fun _ hc => absurd hc List.not_mem_nil
  | cons h₁ h₀ _ ih =>
    intro c hc
    rcases List.mem_cons.1 hc with rfl | hc
    · rw [h₁]; rfl
    · rcases List.mem_cons.1 hc with rfl | hc
      · rw [h₀]; rfl
      · exact ih c hc

theorem Spells.drop (h : Spells cs bs) (k : Nat) : Spells (cs.drop (2 * k)) (bs.drop k) := by
  induction k generalizing cs bs with
  | zero => exact h
  | succ k ih =>
    cases h with
    | nil => simpa using Spells.nil
    | cons _ _ h => exact ih h

theorem Spells.take (h : Spells cs bs) (k : Nat) : Spells (cs.take (2 * k)) (bs.take k) := by
  induction k generalizing cs bs with
  | zero => exact .nil
  | succ k ih =>
    cases h with
    | nil => simpa using Spells.nil
    | cons h₁ h₀ h => exact .cons h₁ h₀ (ih h)

theorem Spells.not_mem {d : Char} (h : Spells cs bs) (hd : xdigitValue d = none) : d ∉ cs :=
  fun hm => ne_of_xdigitValue (h.digits d hm) hd rfl

/-- The digits and the bytes are the same number. -/
theorem Spells.number (h : Spells cs bs) : hexNumber cs = bigEndian bs := by
  suffices hfold : ∀ v, cs.foldl hexStep v = bs.foldl (fun v b => 256 * v + b.toNat) v from hfold 0
  induction h with
  | nil => exact fun _ => rfl
  | @cons hi lo b cs bs h₁ h₀ _ ih =>
    intro v
    have hstep : hexStep (hexStep v hi) lo = 256 * v + b.toNat := by
      simp only [hexStep, h₁, h₀, Option.getD_some]
      omega
    rw [List.foldl_cons, List.foldl_cons, List.foldl_cons, hstep, ih]

/-- A field of the line is read as the number of its bytes. -/
theorem Spells.scanfHex (h : Spells cs bs) (hne : bs ≠ []) (hw : 2 * bs.length ≤ width) (hstop : 2 * bs.length = width ∨ rest = []) :
    scanfHex width (cs ++ rest) = some (BitVec.ofNat 32 (bigEndian bs), rest) := by
  have hpos := List.length_pos_of_ne_nil hne
  rw [← h.length] at hw hstop
  rw [scanfHex_digits h.digits (by rw [h.length]; omega) hw hstop, h.number]

end

end Shared

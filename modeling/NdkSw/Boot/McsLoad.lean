/-
What the MCS loader makes of a file of records: a line of it is read in one piece or more, of which each is taken for a line. The image
is right exactly if all data are in whole words and no piece after the first one counts.
-/
import NdkSw.Boot.Mcs

namespace NdkSw.Boot.Mcs

open Ndp Shared

/-! ## Lines -/

/-- The text of a line. -/
def lineOf (cs eol : List Char) : List Char := ':' :: (cs ++ eol)

/-- A line holds a record. -/
structure Holds (r : HexRecord) (cs eol : List Char) : Prop where
  spelt : r.SpeltBy cs
  ends : eol = [] ∨ eol = ['\n'] ∨ eol = ['\r', '\n']

/-- The first piece of a line. -/
def firstPiece (cs eol : List Char) : List Char := (lineOf cs eol).take (bufferSize - 1)

/-- What follows the first piece. -/
def laterPieces (cs eol : List Char) : List (List Char) := fileReads ((lineOf cs eol).drop (bufferSize - 1))

theorem xdigitValue_eq_zero {c : Char} : xdigitValue c = some 0 ↔ c = '0' := by
  constructor
  · intro h
    unfold xdigitValue at h
    split at h
    · rename_i hc
      have hge : '0'.toNat ≤ c.toNat := hc.1
      have hsub := Option.some.inj h
      exact Char.toNat_inj.1 (by omega)
    · split at h
      · exact absurd (Option.some.inj h) (Nat.succ_ne_zero _)
      · split at h
        · exact absurd (Option.some.inj h) (Nat.succ_ne_zero _)
        · exact nomatch h
  · rintro rfl
    rfl

section

variable {r : HexRecord} {cs eol : List Char}

theorem length_fields (r : HexRecord) : r.fields.length = 4 + r.bytes.length := by
  rw [HexRecord.fields, List.length_append]
  rfl

theorem count_le (r : HexRecord) : r.bytes.length ≤ 255 := by
  have hcount := r.hasCount
  cases ht : r.type <;> rw [ht] at hcount <;> simp only [RecordType.HasCount] at hcount <;> omega

theorem count_le_of_other (hr : r.type ≠ .data) : r.bytes.length ≤ 4 := by
  have hcount := r.hasCount
  cases ht : r.type <;> rw [ht] at hcount hr <;> simp only [RecordType.HasCount] at hcount <;> first | omega | exact absurd rfl hr

theorem drop_fields {p : Nat} (hp : p ≤ r.bytes.length) :
    (r.fields ++ [r.checksum]).drop (4 + p) = r.bytes.drop p ++ [r.checksum] := by
  rw [HexRecord.fields, List.append_assoc, ← List.drop_drop]
  show (r.bytes ++ [r.checksum]).drop p = _
  exact List.drop_append_of_le_length hp

namespace Holds

variable (h : Holds r cs eol)
include h

theorem length_digits : cs.length = 10 + 2 * r.bytes.length := by
  rw [Spells.length h.spelt, List.length_append, length_fields, List.length_singleton]
  omega

theorem length_line : (lineOf cs eol).length = 11 + 2 * r.bytes.length + eol.length := by
  rw [lineOf, List.length_cons, List.length_append, h.length_digits]
  omega

theorem eol_le : eol.length ≤ 2 := by
  rcases h.ends with rfl | rfl | rfl <;> decide

theorem no_zero : '\x00' ∉ lineOf cs eol := by
  intro hm
  rcases List.mem_cons.1 hm with heq | hm
  · exact absurd heq (by decide)
  · rcases List.mem_append.1 hm with hm | hm
    · exact Spells.not_mem h.spelt rfl hm
    · rcases h.ends with rfl | rfl | rfl <;> exact absurd hm (by decide)

theorem isLine (rest : List Char) (hend : eol = [] → rest = []) : IsLine (lineOf cs eol) rest := by
  have hcs : '\n' ∉ ':' :: cs := fun hm => (List.mem_cons.1 hm).elim (by decide) (Spells.not_mem h.spelt rfl)
  rcases h.ends with rfl | rfl | rfl
  · refine ⟨fun hm => ?_, .inr (hend rfl)⟩
    rw [lineOf, List.append_nil] at hm
    exact hcs (List.dropLast_subset _ hm)
  · refine ⟨?_, .inl ?_⟩
    · rw [lineOf, ← List.cons_append, List.dropLast_concat]
      exact hcs
    · rw [lineOf, ← List.cons_append, List.getLast?_concat]
  · have hsplit : lineOf cs ['\r', '\n'] = (':' :: cs ++ ['\r']) ++ ['\n'] := by simp [lineOf]
    rw [hsplit]
    refine ⟨?_, .inl List.getLast?_concat⟩
    rw [List.dropLast_concat]
    intro hm
    rcases List.mem_append.1 hm with hm | hm
    · exact hcs hm
    · exact absurd hm (by decide)

theorem reads_line : fileReads (lineOf cs eol) = firstPiece cs eol :: laterPieces cs eol :=
  (h.isLine [] fun _ => rfl).reads_eq (by decide) (List.cons_ne_nil _ _)

theorem later_short (hlen : r.bytes.length ≤ 57) : laterPieces cs eol = [] := by
  have heol := h.eol_le
  rw [laterPieces, List.drop_eq_nil_of_le (by rw [h.length_line]; simp only [bufferSize]; omega)]
  rfl

theorem length_firstPiece : (firstPiece cs eol).length = min 127 (11 + 2 * r.bytes.length + eol.length) := by
  rw [firstPiece, List.length_take, h.length_line]
  rfl

theorem piece_split {k m : Nat} (hin : k + m ≤ 5 + r.bytes.length) (hlen : 1 + 2 * (k + m) ≤ 127) :
    (firstPiece cs eol).drop (1 + 2 * k) =
      (cs.drop (2 * k)).take (2 * m) ++ (firstPiece cs eol).drop (1 + 2 * (k + m)) := by
  have hcs := h.length_digits
  have htake : ((firstPiece cs eol).drop (1 + 2 * k)).take (2 * m) = (cs.drop (2 * k)).take (2 * m) := by
    rw [firstPiece, lineOf, Nat.add_comm 1, bufferSize, List.take_succ_cons, List.drop_succ_cons, List.drop_take, List.take_take,
      Nat.min_eq_left (by omega), List.drop_append_of_le_length (by omega),
      List.take_append_of_le_length (by rw [List.length_drop]; omega)]
  have hdrop : (firstPiece cs eol).drop (1 + 2 * (k + m)) = ((firstPiece cs eol).drop (1 + 2 * k)).drop (2 * m) := by
    rw [List.drop_drop, Nat.mul_add, Nat.add_assoc]
  rw [← htake, hdrop, List.take_append_drop]

theorem piece_spells {k m : Nat} : Spells ((cs.drop (2 * k)).take (2 * m)) (((r.fields ++ [r.checksum]).drop k).take m) :=
  (Spells.drop h.spelt k).take m

theorem scanfHex_field (k m width : Nat) (hm : 0 < m) (hin : k + m ≤ 5 + r.bytes.length) (hlen : 1 + 2 * (k + m) ≤ 127)
    (hw : 2 * m ≤ width) (hstop : 2 * m = width ∨ 1 + 2 * (k + m) = 127) :
    scanfHex width ((firstPiece cs eol).drop (1 + 2 * k)) =
      some (BitVec.ofNat 32 (bigEndian (((r.fields ++ [r.checksum]).drop k).take m)), (firstPiece cs eol).drop (1 + 2 * (k + m))) := by
  have hbytes : (((r.fields ++ [r.checksum]).drop k).take m).length = m := by
    rw [List.length_take, List.length_drop, List.length_append, length_fields, List.length_singleton]
    omega
  have hrest : 2 * m = width ∨ (firstPiece cs eol).drop (1 + 2 * (k + m)) = [] := by
    refine hstop.imp id fun hend => List.drop_eq_nil_of_le ?_
    rw [h.length_firstPiece, hend]
    exact Nat.min_le_left _ _
  have hne : ((r.fields ++ [r.checksum]).drop k).take m ≠ [] := by
    intro he
    rw [he] at hbytes
    exact absurd hbytes (Nat.ne_of_lt hm)
  rw [h.piece_split hin hlen]
  exact Spells.scanfHex h.piece_spells hne (by rw [hbytes]; exact hw) (by rw [hbytes]; exact hrest)

theorem no_zero_first : '\x00' ∉ firstPiece cs eol := fun hm => h.no_zero (List.mem_of_mem_take hm)

theorem scanAt_field (buffer : List Char) (k m width : Nat) (hm : 0 < m) (hin : k + m ≤ 5 + r.bytes.length)
    (hlen : 1 + 2 * (k + m) ≤ 127) (hw : 2 * m ≤ width) (hstop : 2 * m = width ∨ 1 + 2 * (k + m) = 127) :
    scanAt (putLine buffer (firstPiece cs eol)) (1 + 2 * k) width =
      some (some (BitVec.ofNat 32 (bigEndian (((r.fields ++ [r.checksum]).drop k).take m)))) := by
  have hplace : 1 + 2 * k ≤ (firstPiece cs eol).length := by
    rw [h.length_firstPiece]
    omega
  rw [scanAt, cString_putLine h.no_zero_first hplace, Option.map_some, h.scanfHex_field k m width hm hin hlen hw hstop, Option.map_some]

theorem startsRecord_first : startsRecord (firstPiece cs eol) = true := by
  have hcount := h.scanfHex_field 0 1 2 (by decide) (by omega) (by decide) le_rfl (.inl rfl)
  have haddr := h.scanfHex_field 1 2 4 (by decide) (by omega) (by decide) le_rfl (.inl rfl)
  have htype := h.scanfHex_field 3 1 2 (by decide) (by omega) (by decide) le_rfl (.inl rfl)
  have hfirst := h.scanfHex_field 4 1 2 (by decide) (by omega) (by decide) le_rfl (.inl rfl)
  have hcons : firstPiece cs eol = ':' :: (firstPiece cs eol).drop 1 := rfl
  rw [hcons, startsRecord, decide_eq_true rfl, Bool.true_and, hcount, Option.bind_some, haddr, Option.bind_some, htype,
    Option.bind_some, hfirst]
  rfl

theorem digits_at (buffer : List Char) {k : Nat} {b : U8} (hb : (r.fields ++ [r.checksum])[k]? = some b) (hlen : 2 + 2 * k < 127) :
    ∃ hi lo, (putLine buffer (firstPiece cs eol))[1 + 2 * k]? = some hi ∧
      (putLine buffer (firstPiece cs eol))[1 + 2 * k + 1]? = some lo ∧
      xdigitValue hi = some (b.toNat / 16) ∧ xdigitValue lo = some (b.toNat % 16) := by
  have hk : k < (r.fields ++ [r.checksum]).length := (List.getElem?_eq_some_iff.1 hb).1
  rw [List.length_append, length_fields, List.length_singleton] at hk
  have hfull := h.piece_split (k := k) (m := 1) (by omega) (by omega)
  have hspells := h.piece_spells (k := k) (m := 1)
  have hone : ((r.fields ++ [r.checksum]).drop k).take 1 = [b] := by
    rw [List.drop_eq_getElem?_toList_append, hb]
    rfl
  have hpiece : 2 + 2 * k < (firstPiece cs eol).length := by
    rw [h.length_firstPiece]
    omega
  rw [hone] at hspells
  generalize (cs.drop (2 * k)).take (2 * 1) = two at hspells hfull
  cases hspells with
  | @cons hi lo _ _ _ h₁ h₀ hnil =>
    cases hnil
    refine ⟨hi, lo, ?_, ?_, h₁, h₀⟩
    · rw [getElem?_putLine (by omega), ← Nat.add_zero (1 + 2 * k), ← List.getElem?_drop, hfull]
      rfl
    · rw [getElem?_putLine (by omega), ← List.getElem?_drop, hfull]
      rfl

theorem isData_first (buffer : List Char) : isData (putLine buffer (firstPiece cs eol)) = some (decide (r.type = .data)) := by
  have htype : (r.fields ++ [r.checksum])[3]? = some r.type.code := rfl
  obtain ⟨hi, lo, hhi, hlo, h₁, h₀⟩ := h.digits_at buffer htype (by decide)
  have hzero : hi = '0' := by
    rw [← xdigitValue_eq_zero, h₁]
    cases r.type <;> rfl
  have hdata : lo = '0' ↔ r.type = .data := by
    rw [← xdigitValue_eq_zero, h₀]
    cases r.type <;> decide
  rw [isData, hhi, Option.bind_some, if_pos hzero, hlo, Option.map_some]
  congr 1
  exact decide_eq_decide.2 hdata

theorem nextRecord_data (hr : r.type = .data) (s : Scan) : nextRecord s (firstPiece cs eol) =
    some (⟨putLine s.buffer (firstPiece cs eol), BitVec.ofNat 32 r.bytes.length⟩, true) := by
  have hcount : BitVec.ofNat 32 (bigEndian (((r.fields ++ [r.checksum]).drop 0).take 1)) = BitVec.ofNat 32 r.bytes.length := by
    show BitVec.ofNat 32 (256 * 0 + (BitVec.ofNat 8 r.bytes.length).toNat) = _
    rw [BitVec.toNat_ofNat, Nat.mod_eq_of_lt (Nat.lt_succ_of_le (count_le r)), Nat.mul_zero, Nat.zero_add]
  have hscan := h.scanAt_field s.buffer 0 1 2 (by decide) (by omega) (by decide) le_rfl (.inl rfl)
  rw [hcount, Nat.mul_zero, Nat.add_zero] at hscan
  rw [nextRecord, h.isData_first, Option.bind_some, hr, decide_eq_true rfl, if_pos rfl, hscan]
  rfl

theorem nextRecord_other (hr : r.type ≠ .data) (s : Scan) : nextRecord s (firstPiece cs eol) =
    some (⟨putLine s.buffer (firstPiece cs eol), s.wordSize⟩, false) := by
  rw [nextRecord, h.isData_first, Option.bind_some, decide_eq_false hr]
  rfl

theorem readWords_first (buffer : List Char) {x n : Nat} (hin : 4 * (x + n) ≤ r.bytes.length) (hlen : 9 + 8 * (x + n) ≤ 127) :
    ∃ ws, readWords (putLine buffer (firstPiece cs eol)) x n = some ws ∧
      bytesOf ws = ((r.bytes.drop (4 * x)).take (4 * n)).map some := by
  induction n generalizing x with
  | zero => exact ⟨[], rfl, rfl⟩
  | succ n ih =>
    obtain ⟨ws, hws, hbytes⟩ := ih (x := x + 1) (by omega) (by omega)
    obtain ⟨b₀, b₁, b₂, b₃, t, hfour⟩ : ∃ b₀ b₁ b₂ b₃ t, r.bytes.drop (4 * x) = b₀ :: b₁ :: b₂ :: b₃ :: t := by
      have hlong : 4 ≤ (r.bytes.drop (4 * x)).length := by rw [List.length_drop]; omega
      match r.bytes.drop (4 * x), hlong with
      | b₀ :: b₁ :: b₂ :: b₃ :: t, _ => exact ⟨b₀, b₁, b₂, b₃, t, rfl⟩
    have hscan := h.scanAt_field buffer (4 + 4 * x) 4 8 (by decide) (by omega) (by omega) le_rfl
      (.inl rfl)
    rw [drop_fields (by omega), hfour, show 1 + 2 * (4 + 4 * x) = 9 + x * 8 by omega] at hscan
    have hnext : r.bytes.drop (4 * (x + 1)) = t := by
      rw [Nat.mul_succ, ← List.drop_drop, hfour]
      rfl
    refine ⟨some (bswap32 (BitVec.ofNat 32 (bigEndian [b₀, b₁, b₂, b₃]))) :: ws, ?_, ?_⟩
    · rw [readWords, hscan, Option.bind_some, hws]
      rfl
    · rw [bytesOf, List.flatMap_cons, ← bytesOf, hbytes, hnext, hfour, Option.map_some, Option.getD_some, le32_bigEndian]
      rfl

theorem readWords_fifteen (buffer : List Char) (hlen : r.bytes.length = 60) :
    ∃ ws, readWords (putLine buffer (firstPiece cs eol)) 0 15 = some ws ∧
      bytesOf ws = (r.bytes.take 56 ++ 0 :: (r.bytes.drop 56).take 3).map some := by
  obtain ⟨ws, hws, hbytes⟩ := h.readWords_first buffer (x := 0) (n := 14) (by omega) (by decide)
  obtain ⟨b₀, b₁, b₂, b₃, hfour⟩ : ∃ b₀ b₁ b₂ b₃, r.bytes.drop 56 = [b₀, b₁, b₂, b₃] := by
    have hlong : (r.bytes.drop 56).length = 4 := by rw [List.length_drop, hlen]
    match r.bytes.drop 56, hlong with
    | [b₀, b₁, b₂, b₃], _ => exact ⟨b₀, b₁, b₂, b₃, rfl⟩
  have hscan := h.scanAt_field buffer (4 + 56) 3 8 (by decide) (by omega) (by decide) (by decide)
    (.inr rfl)
  rw [drop_fields (by omega), hfour] at hscan
  have hthree : bigEndian (([b₀, b₁, b₂, b₃] ++ [r.checksum]).take 3) = bigEndian [0, b₀, b₁, b₂] := by
    simp [bigEndian]
  rw [hthree] at hscan
  refine ⟨ws ++ [some (bswap32 (BitVec.ofNat 32 (bigEndian [0, b₀, b₁, b₂])))], ?_, ?_⟩
  · rw [show 15 = 14 + 1 from rfl, readWords_add, hws, Option.bind_some, Nat.zero_add, readWords, hscan]
    rfl
  · rw [bytesOf_append, hbytes, hfour, List.map_append]
    congr 1
    rw [bytesOf, List.flatMap_singleton, Option.map_some, Option.getD_some, le32_bigEndian]
    rfl

/-- The end of a line of sixty bytes counts as well: what stood at the type is still there. -/
theorem nextRecord_end (hr : r.type = .data) (hlen : r.bytes.length = 60) {last : U8} (hlast : r.bytes[59]? = some last)
    (buffer : List Char) (w : U32) :
    ∃ piece buffer', laterPieces cs eol = [piece] ∧ nextRecord ⟨putLine buffer (firstPiece cs eol), w⟩ piece =
      some (⟨buffer', BitVec.ofNat 32 (16 * (last.toNat % 16) + r.checksum.toNat / 16)⟩, true) := by
  have hcs := h.length_digits
  have htwo : (r.fields ++ [r.checksum]).drop 63 = [last, r.checksum] := by
    rw [show 63 = 4 + 59 from rfl, drop_fields (by omega), List.drop_eq_getElem?_toList_append, hlast,
      List.drop_eq_nil_of_le (by omega)]
    rfl
  have hspells := Spells.drop h.spelt 63
  rw [htwo] at hspells
  have hdrop : (lineOf cs eol).drop (bufferSize - 1) = cs.drop (2 * 63) ++ eol := by
    show (cs ++ eol).drop 126 = _
    exact List.drop_append_of_le_length (by omega)
  generalize hfour : cs.drop (2 * 63) = four at hspells hdrop
  cases hspells with
  | @cons hi lo _ _ _ h₁ h₀ hspells =>
    cases hspells with
    | @cons chi clo _ _ _ h₃ h₂ hnil =>
      cases hnil
      have heol := h.eol_le
      have hpieces : laterPieces cs eol = [(lineOf cs eol).drop (bufferSize - 1)] := by
        have hline := h.isLine [] fun _ => rfl
        have hne : (lineOf cs eol).drop (bufferSize - 1) ≠ [] := by
          rw [hdrop]
          exact List.cons_ne_nil _ _
        exact (hline.drop hne).reads_short (by decide) hne (by rw [hdrop]; simp [bufferSize]; omega)
      have hno : '\x00' ∉ (lineOf cs eol).drop (bufferSize - 1) := fun hm => h.no_zero (List.mem_of_mem_drop hm)
      rw [hdrop] at hpieces hno
      refine ⟨_, putLine (putLine buffer (firstPiece cs eol)) ([hi, lo, chi, clo] ++ eol), hpieces, ?_⟩
      have hshort : ([hi, lo, chi, clo] ++ eol).length < 7 := by
        rw [List.length_append]
        exact Nat.lt_succ_of_le (Nat.add_le_add_left heol 4)
      -- The second part of the line is too short to reach the type: that of the first part is still in the buffer.
      have hstale : isData (putLine (putLine buffer (firstPiece cs eol)) ([hi, lo, chi, clo] ++ eol)) = some true := by
        rw [isData, getElem?_putLine_behind hshort, getElem?_putLine_behind (lt_trans hshort (by decide)), ← isData, h.isData_first, hr]
        rfl
      -- what is scanned as a word straddles the last byte and the checksum
      have hscan : scanfHex 2 (([hi, lo, chi, clo] ++ eol).drop 1) =
          some (BitVec.ofNat 32 (hexNumber [lo, chi]), clo :: eol) := by
        show scanfHex 2 ([lo, chi] ++ (clo :: eol)) = _
        refine scanfHex_digits ?_ le_rfl le_rfl (.inl rfl)
        intro c hc
        rcases List.mem_pair.1 hc with rfl | rfl
        · rw [h₀]; rfl
        · rw [h₃]; rfl
      have hnumber : hexNumber [lo, chi] = 16 * (last.toNat % 16) + r.checksum.toNat / 16 := by
        simp [hexNumber, hexStep, h₀, h₃]
      rw [nextRecord, hstale, Option.bind_some, if_pos rfl, scanAt, cString_putLine hno (by simp), Option.map_some, hscan, hnumber]
      rfl

end Holds

end

/-! ## One line -/

/-- What the loops make of some records: the size is not too small, and if it is right, then there are not too many words, and they are
right only if the records fit. -/
structure Effect (image : List U8) (k : Nat) (ws : List (Option U32)) (fits : Prop) : Prop where
  size : image.length ≤ k
  words : k = image.length → 4 * ws.length ≤ image.length
  fits : k = image.length → bytesOf ws = image.map some → fits

theorem Effect.append {l l' : List U8} {k k' : Nat} {ws ws' : List (Option U32)} {p p' : Prop} (h : Effect l k ws p)
    (h' : Effect l' k' ws' p') : Effect (l ++ l') (k + k') (ws ++ ws') (p ∧ p') := by
  have hsize := h.size
  have hsize' := h'.size
  have hsplit : k + k' = (l ++ l').length → k = l.length ∧ k' = l'.length := by
    intro hk
    rw [List.length_append] at hk
    omega
  constructor
  · rw [List.length_append]
    omega
  · intro hk
    have hw := h.words (hsplit hk).1
    have hw' := h'.words (hsplit hk).2
    rw [List.length_append, List.length_append]
    omega
  · intro hk hbytes
    obtain ⟨h₁, h₂⟩ := hsplit hk
    have hw := h.words h₁
    have hw' := h'.words h₂
    have hlen := congrArg List.length hbytes
    rw [bytesOf_append, List.map_append] at hbytes
    rw [length_bytesOf, List.length_append, List.length_map, List.length_append] at hlen
    have hhalf : (bytesOf ws).length = (l.map some).length := by
      rw [length_bytesOf, List.length_map]
      omega
    obtain ⟨hb, hb'⟩ := List.append_inj hbytes hhalf
    exact ⟨h.fits h₁ hb, h'.fits h₂ hb'⟩

section

variable {r : HexRecord} {cs eol : List Char} {s s' t t' : Scan} {k : Nat} {ws : List (Option U32)}

theorem Holds.sizeLoop_data (h : Holds r cs eol) (hr : r.type = .data) (s : Scan) :
    sizeLoop s 0 (fileReads (lineOf cs eol)) =
      (sizeLoop ⟨putLine s.buffer (firstPiece cs eol), BitVec.ofNat 32 r.bytes.length⟩ 0 (laterPieces cs eol)).map
        fun t => (t.1, r.bytes.length + t.2) := by
  have hcount : (BitVec.ofNat 32 r.bytes.length).toNat = r.bytes.length := by
    rw [BitVec.toNat_ofNat]
    exact Nat.mod_eq_of_lt (lt_of_le_of_lt (count_le r) (by decide))
  rw [h.reads_line, sizeLoop, h.nextRecord_data hr, Option.bind_some, if_pos rfl, ← sizeLoop_add, Nat.zero_add, hcount, Nat.add_zero]

theorem Holds.dataLoop_data (h : Holds r cs eol) (hr : r.type = .data) (s : Scan) :
    dataLoop s (fileReads (lineOf cs eol)) =
      (readWords (putLine s.buffer (firstPiece cs eol)) 0 (r.bytes.length / 4)).bind fun ws =>
        (dataLoop ⟨putLine s.buffer (firstPiece cs eol), BitVec.ofNat 32 r.bytes.length⟩ (laterPieces cs eol)).map
          fun t => (t.1, ws ++ t.2) := by
  have hcount : (BitVec.ofNat 32 r.bytes.length).toNat = r.bytes.length := by
    rw [BitVec.toNat_ofNat]
    exact Nat.mod_eq_of_lt (lt_of_le_of_lt (count_le r) (by decide))
  rw [h.reads_line, dataLoop, h.nextRecord_data hr, Option.bind_some, if_pos rfl, hcount]

theorem Holds.loops_other (h : Holds r cs eol) (hr : r.type ≠ .data) (s : Scan) :
    ∃ t, sizeLoop s 0 (fileReads (lineOf cs eol)) = some (t, 0) ∧ dataLoop s (fileReads (lineOf cs eol)) = some (t, []) := by
  have hshort : r.bytes.length ≤ 57 := le_trans (count_le_of_other hr) (by decide)
  refine ⟨⟨putLine s.buffer (firstPiece cs eol), s.wordSize⟩, ?_, ?_⟩
  · rw [h.reads_line, h.later_short hshort, sizeLoop, h.nextRecord_other hr]
    rfl
  · rw [h.reads_line, h.later_short hshort, dataLoop, h.nextRecord_other hr]
    rfl

theorem Holds.loops_end (h : Holds r cs eol) (hr : r.type = .data) (hlen : r.bytes.length = 60) {last : U8}
    (hlast : r.bytes[59]? = some last) (buffer : List Char) (w : U32) :
    ∃ t, sizeLoop ⟨putLine buffer (firstPiece cs eol), w⟩ 0 (laterPieces cs eol) =
        some (t, 16 * (last.toNat % 16) + r.checksum.toNat / 16) ∧
      (16 * (last.toNat % 16) + r.checksum.toNat / 16 = 0 →
        dataLoop ⟨putLine buffer (firstPiece cs eol), w⟩ (laterPieces cs eol) = some (t, [])) := by
  obtain ⟨piece, buffer', hpieces, hnext⟩ := h.nextRecord_end hr hlen hlast buffer w
  have hlt := r.checksum.isLt
  have hcount : (BitVec.ofNat 32 (16 * (last.toNat % 16) + r.checksum.toNat / 16)).toNat =
      16 * (last.toNat % 16) + r.checksum.toNat / 16 := by
    rw [BitVec.toNat_ofNat]
    exact Nat.mod_eq_of_lt (by omega)
  refine ⟨⟨buffer', BitVec.ofNat 32 (16 * (last.toNat % 16) + r.checksum.toNat / 16)⟩, ?_, fun hzero => ?_⟩
  · rw [hpieces, sizeLoop, hnext, Option.bind_some, if_pos rfl, hcount, Nat.zero_add]
    rfl
  · rw [hpieces, dataLoop, hnext, Option.bind_some, if_pos rfl, hcount, hzero]
    rfl

theorem shifted_iff {l : List U8} (hlen : l.length = 60) :
    l.take 56 ++ 0 :: (l.drop 56).take 3 = l ↔ l.drop 56 = [0, 0, 0, 0] := by
  obtain ⟨b₀, b₁, b₂, b₃, hfour⟩ : ∃ b₀ b₁ b₂ b₃, l.drop 56 = [b₀, b₁, b₂, b₃] := by
    have hlong : (l.drop 56).length = 4 := by rw [List.length_drop, hlen]
    match l.drop 56, hlong with
    | [b₀, b₁, b₂, b₃], _ => exact ⟨b₀, b₁, b₂, b₃, rfl⟩
  have hsplit := List.take_append_drop 56 l
  rw [hfour] at hsplit ⊢
  conv_lhs => rhs; rw [← hsplit]
  rw [List.append_cancel_left_eq]
  simp only [List.take_succ_cons, List.take_zero, List.cons.injEq, and_true]
  constructor
  · rintro ⟨rfl, rfl, rfl, rfl⟩
    exact ⟨rfl, rfl, rfl, rfl⟩
  · rintro ⟨rfl, rfl, rfl, rfl⟩
    exact ⟨rfl, rfl, rfl, rfl⟩

theorem getElem?_last {l : List U8} (hdrop : l.drop 56 = [0, 0, 0, 0]) : l[59]? = some 0 := by
  rw [show 59 = 56 + 3 from rfl, ← List.getElem?_drop, hdrop]
  rfl

/-- A line of data that is loaded. -/
theorem Holds.effect_data (h : Holds r cs eol) (hr : r.type = .data) (hb : s.buffer.length ≤ bufferSize)
    (hb' : s'.buffer.length ≤ bufferSize) (hs : sizeLoop s 0 (fileReads (lineOf cs eol)) = some (t, k))
    (hd : dataLoop s' (fileReads (lineOf cs eol)) = some (t', ws)) : Effect r.bytes k ws r.Fits := by
  rw [h.sizeLoop_data hr, Option.map_eq_some_iff] at hs
  obtain ⟨⟨u, e⟩, hlater, heq⟩ := hs
  obtain rfl : r.bytes.length + e = k := (Prod.mk.inj heq).2
  rw [h.dataLoop_data hr, Option.bind_eq_some_iff] at hd
  obtain ⟨ws₀, hread, hd⟩ := hd
  rw [Option.map_eq_some_iff] at hd
  obtain ⟨⟨u', ws₁⟩, hdata, heq'⟩ := hd
  obtain rfl : ws₀ ++ ws₁ = ws := (Prod.mk.inj heq').2
  have hwords := readWords_length hread
  -- The sixteenth word is past the end of the buffer.
  have hlt : r.bytes.length < 64 := by
    by_contra hge
    have hlen : (putLine s'.buffer (firstPiece cs eol)).length ≤ 9 + (0 + 15) * 8 := by
      rw [length_putLine, h.length_firstPiece]
      simp only [bufferSize] at hb'
      omega
    have hnone := readWords_outside (m := r.bytes.length / 4 - 16) hlen
    rw [show 15 + (r.bytes.length / 4 - 16 + 1) = r.bytes.length / 4 by omega, hread] at hnone
    exact nomatch hnone
  -- Behind a full piece both loops see the same buffer.
  have hno : e = 0 → ws₁ = [] := by
    rintro rfl
    by_cases hlong : (lineOf cs eol).length ≤ bufferSize - 1
    · rw [laterPieces, List.drop_eq_nil_of_le hlong] at hdata
      exact (congrArg Prod.snd (Option.some.inj hdata)).symm
    · have hfull : (firstPiece cs eol).length + 1 = bufferSize := by
        rw [h.length_line] at hlong
        rw [h.length_firstPiece]
        simp only [bufferSize] at hlong ⊢
        omega
      rw [putLine_full (by rw [hfull]; exact hb)] at hlater
      rw [putLine_full (by rw [hfull]; exact hb')] at hdata
      exact dataLoop_of_sizeLoop_zero hlater hdata
  refine ⟨Nat.le_add_right _ _, fun hk => ?_, fun hk hbytes _ => ?_⟩
  · rw [hno (by omega), List.append_nil, hwords]
    omega
  · have he : e = 0 := by omega
    rw [hno he, List.append_nil] at hbytes
    have hlen := congrArg List.length hbytes
    rw [length_bytesOf, List.length_map, hwords] at hlen
    refine ⟨Dvd.intro _ hlen, ?_⟩
    by_cases hsixty : r.bytes.length = 60
    · obtain ⟨ws', hread', hbytes'⟩ := h.readWords_fifteen s'.buffer hsixty
      rw [hsixty, show 60 / 4 = 15 from rfl, hread'] at hread
      rw [← Option.some.inj hread, hbytes'] at hbytes
      have hdrop := (shifted_iff hsixty).1 (List.map_injective_iff.2 (Option.some_injective _) hbytes)
      obtain ⟨u'', hend, -⟩ := h.loops_end hr hsixty (getElem?_last hdrop) s.buffer (BitVec.ofNat 32 r.bytes.length)
      rw [hend, he] at hlater
      have hzero : 16 * ((0 : U8).toNat % 16) + r.checksum.toNat / 16 = 0 := (Prod.mk.inj (Option.some.inj hlater)).2
      exact .inr ⟨hsixty, hdrop, by omega⟩
    · exact .inl (by omega)

theorem Holds.loops_short (h : Holds r cs eol) (hr : r.type = .data) (hdvd : 4 ∣ r.bytes.length) (hlen : r.bytes.length ≤ 56)
    (s s' : Scan) :
    ∃ t t' ws, sizeLoop s 0 (fileReads (lineOf cs eol)) = some (t, r.bytes.length) ∧
      dataLoop s' (fileReads (lineOf cs eol)) = some (t', ws) ∧ bytesOf ws = r.bytes.map some := by
  have hlater := h.later_short (by omega)
  obtain ⟨ws, hws, hbytes⟩ := h.readWords_first s'.buffer (x := 0) (n := r.bytes.length / 4) (by omega) (by omega)
  rw [Nat.mul_zero, List.drop_zero, Nat.mul_div_cancel' hdvd, List.take_length] at hbytes
  refine ⟨⟨putLine s.buffer (firstPiece cs eol), BitVec.ofNat 32 r.bytes.length⟩,
    ⟨putLine s'.buffer (firstPiece cs eol), BitVec.ofNat 32 r.bytes.length⟩, ws, ?_, ?_, hbytes⟩
  · rw [h.sizeLoop_data hr, hlater]
    rfl
  · rw [h.dataLoop_data hr, hws, hlater, Option.bind_some, dataLoop, Option.map_some, List.append_nil]

theorem Holds.loops_long (h : Holds r cs eol) (hr : r.type = .data) (hlen : r.bytes.length = 60)
    (hdrop : r.bytes.drop 56 = [0, 0, 0, 0]) (hsum : r.checksum.toNat < 16) (s s' : Scan) :
    ∃ t t' ws, sizeLoop s 0 (fileReads (lineOf cs eol)) = some (t, r.bytes.length) ∧
      dataLoop s' (fileReads (lineOf cs eol)) = some (t', ws) ∧ bytesOf ws = r.bytes.map some := by
  have hzero : 16 * ((0 : U8).toNat % 16) + r.checksum.toNat / 16 = 0 := by
    rw [Nat.div_eq_of_lt hsum]
    rfl
  obtain ⟨t, hsize, -⟩ := h.loops_end hr hlen (getElem?_last hdrop) s.buffer (BitVec.ofNat 32 r.bytes.length)
  obtain ⟨t', -, hdata⟩ := h.loops_end hr hlen (getElem?_last hdrop) s'.buffer (BitVec.ofNat 32 r.bytes.length)
  obtain ⟨ws, hws, hbytes⟩ := h.readWords_fifteen s'.buffer hlen
  rw [(shifted_iff hlen).2 hdrop] at hbytes
  refine ⟨t, t', ws, ?_, ?_, hbytes⟩
  · rw [h.sizeLoop_data hr, hsize, hzero]
    rfl
  · rw [h.dataLoop_data hr, hdata hzero, hlen, hws, Option.bind_some, Option.map_some, List.append_nil]

theorem Holds.loops_fits (h : Holds r cs eol) (hfits : r.Fits) (s s' : Scan) :
    ∃ t t' ws, sizeLoop s 0 (fileReads (lineOf cs eol)) = some (t, r.payload.length) ∧
      dataLoop s' (fileReads (lineOf cs eol)) = some (t', ws) ∧ bytesOf ws = r.payload.map some := by
  by_cases hr : r.type = .data
  · rw [HexRecord.payload, if_pos hr]
    obtain ⟨hdvd, hlen | ⟨hlen, hdrop, hsum⟩⟩ := hfits hr
    · exact h.loops_short hr hdvd hlen s s'
    · exact h.loops_long hr hlen hdrop hsum s s'
  · rw [HexRecord.payload, if_neg hr]
    obtain ⟨t, hsize, -⟩ := h.loops_other hr s
    obtain ⟨t', -, hdata⟩ := h.loops_other hr s'
    exact ⟨t, t', [], hsize, hdata, rfl⟩

theorem Holds.effect (h : Holds r cs eol) (hb : s.buffer.length ≤ bufferSize) (hb' : s'.buffer.length ≤ bufferSize)
    (hs : sizeLoop s 0 (fileReads (lineOf cs eol)) = some (t, k))
    (hd : dataLoop s' (fileReads (lineOf cs eol)) = some (t', ws)) : Effect r.payload k ws r.Fits := by
  by_cases hr : r.type = .data
  · rw [HexRecord.payload, if_pos hr]
    exact h.effect_data hr hb hb' hs hd
  · rw [HexRecord.payload, if_neg hr]
    obtain ⟨u, hsize, -⟩ := h.loops_other hr s
    obtain ⟨u', -, hdata⟩ := h.loops_other hr s'
    obtain rfl : 0 = k := (Prod.mk.inj (Option.some.inj (hsize.symm.trans hs))).2
    obtain rfl : [] = ws := (Prod.mk.inj (Option.some.inj (hdata.symm.trans hd))).2
    exact ⟨le_rfl, fun _ => le_rfl, fun _ _ hr' => absurd hr' hr⟩

end

/-! ## Files -/

section

variable {r : HexRecord} {records : List HexRecord} {file cs eol : List Char} {s s' t t' : Scan} {k : Nat} {ws : List (Option U32)}

theorem payload_cons (r : HexRecord) (records : List HexRecord) : payload (r :: records) = r.payload ++ payload records :=
  List.flatMap_cons

theorem Holds.fileReads_append (h : Holds r cs eol) (heol : eol ≠ []) :
    fileReads (lineOf cs eol ++ file) = fileReads (lineOf cs eol) ++ fileReads file :=
  (h.isLine file fun he => absurd he heol).reads_append (by decide)

theorem Effect.cons {a : List (List Char)} (h : Holds r cs eol)
    (hb : s.buffer.length ≤ bufferSize) (hb' : s'.buffer.length ≤ bufferSize)
    (hs : sizeLoop s 0 (fileReads (lineOf cs eol) ++ a) = some (t, k)) (hd : dataLoop s' (fileReads (lineOf cs eol) ++ a) = some (t', ws))
    (hrest : ∀ {u u' : Scan} {k : Nat} {ws : List (Option U32)}, u.buffer.length ≤ bufferSize → u'.buffer.length ≤ bufferSize →
      sizeLoop u 0 a = some (t, k) → dataLoop u' a = some (t', ws) → Effect (payload records) k ws (∀ r ∈ records, r.Fits)) :
    Effect (payload (r :: records)) k ws (∀ q ∈ r :: records, q.Fits) := by
  rw [sizeLoop_append, Option.bind_eq_some_iff] at hs
  obtain ⟨⟨u, k₁⟩, hs₁, hs⟩ := hs
  rw [← Nat.add_zero k₁, sizeLoop_add, Option.map_eq_some_iff] at hs
  obtain ⟨⟨t₁, k₂⟩, hs₂, heq⟩ := hs
  obtain ⟨rfl, rfl⟩ := Prod.mk.inj heq
  rw [dataLoop_append, Option.bind_eq_some_iff] at hd
  obtain ⟨⟨u', ws₁⟩, hd₁, hd⟩ := hd
  rw [Option.map_eq_some_iff] at hd
  obtain ⟨⟨t₂, ws₂⟩, hd₂, heq⟩ := hd
  obtain ⟨rfl, rfl⟩ := Prod.mk.inj heq
  have hshort : ∀ l ∈ fileReads (lineOf cs eol), l.length < bufferSize := fun l => length_lt_of_mem_fileReads
  have hline := h.effect hb hb' hs₁ hd₁
  have htail := hrest (sizeLoop_bounded hshort hb hs₁) (dataLoop_bounded hshort hb' hd₁) hs₂ hd₂
  rw [payload_cons, List.forall_mem_cons]
  exact hline.append htail

theorem HexFile.effect (h : HexFile records file) (hb : s.buffer.length ≤ bufferSize) (hb' : s'.buffer.length ≤ bufferSize)
    (hs : sizeLoop s 0 (fileReads file) = some (t, k)) (hd : dataLoop s' (fileReads file) = some (t', ws)) :
    Effect (payload records) k ws (∀ r ∈ records, r.Fits) := by
  have hnil : ∀ {u u' : Scan} {k : Nat} {ws : List (Option U32)}, sizeLoop u 0 [] = some (t, k) → dataLoop u' [] = some (t', ws) →
      Effect (payload []) k ws (∀ r ∈ ([] : List HexRecord), r.Fits) := by
    intro u u' k ws hs hd
    obtain rfl : 0 = k := (Prod.mk.inj (Option.some.inj hs)).2
    obtain rfl : [] = ws := (Prod.mk.inj (Option.some.inj hd)).2
    exact ⟨le_rfl, fun _ => le_rfl, fun _ _ r hr => absurd hr List.not_mem_nil⟩
  induction h generalizing s s' k ws with
  | nil => exact hnil hs hd
  | @last r cs spelt =>
    have hline : Holds r cs [] := ⟨spelt, .inl rfl⟩
    have hfile : fileReads (':' :: cs) = fileReads (lineOf cs []) ++ [] := by rw [lineOf, List.append_nil, List.append_nil]
    rw [hfile] at hs hd
    exact Effect.cons hline hb hb' hs hd fun _ _ => hnil
  | @cons r cs eol records file spelt ends rest ih =>
    have hline : Holds r cs eol := ⟨spelt, .inr ends⟩
    have heol : eol ≠ [] := by rcases ends with rfl | rfl <;> exact List.cons_ne_nil _ _
    have hfile : fileReads (':' :: (cs ++ eol) ++ file) = fileReads (lineOf cs eol) ++ fileReads file := hline.fileReads_append heol
    rw [hfile] at hs hd
    exact Effect.cons hline hb hb' hs hd ih

/-- A file of records that fit is loaded. -/
theorem HexFile.loops_fits (h : HexFile records file) (hfits : ∀ r ∈ records, r.Fits) (s s' : Scan) :
    ∃ t t' ws, sizeLoop s 0 (fileReads file) = some (t, (payload records).length) ∧
      dataLoop s' (fileReads file) = some (t', ws) ∧ bytesOf ws = (payload records).map some := by
  induction h generalizing s s' with
  | nil => exact ⟨s, s', [], rfl, rfl, rfl⟩
  | @last r cs spelt =>
    have hline : Holds r cs [] := ⟨spelt, .inl rfl⟩
    obtain ⟨t, t', ws, hs, hd, hbytes⟩ := hline.loops_fits (hfits r List.mem_cons_self) s s'
    rw [lineOf, List.append_nil] at hs hd
    rw [payload_cons, show payload [] = [] from rfl, List.append_nil]
    exact ⟨t, t', ws, hs, hd, hbytes⟩
  | @cons r cs eol records file spelt ends rest ih =>
    have hline : Holds r cs eol := ⟨spelt, .inr ends⟩
    have heol : eol ≠ [] := by rcases ends with rfl | rfl <;> exact List.cons_ne_nil _ _
    obtain ⟨u, u', ws, hs, hd, hbytes⟩ := hline.loops_fits (hfits r List.mem_cons_self) s s'
    obtain ⟨t, t', ws', hs', hd', hbytes'⟩ := ih (fun q hq => hfits q (List.mem_cons_of_mem r hq)) u u'
    have hfile : fileReads (':' :: (cs ++ eol) ++ file) = fileReads (lineOf cs eol) ++ fileReads file := hline.fileReads_append heol
    refine ⟨t, t', ws ++ ws', ?_, ?_, ?_⟩
    · rw [hfile, sizeLoop_append, hs, Option.bind_some, payload_cons, List.length_append]
      show sizeLoop u (r.payload.length + 0) (fileReads file) = _
      rw [sizeLoop_add, hs', Option.map_some]
    · rw [hfile, dataLoop_append, hd, Option.bind_some, hd', Option.map_some]
    · rw [bytesOf_append, hbytes, hbytes', payload_cons, List.map_append]

theorem HexFile.first (h : HexFile records file) (hne : records ≠ []) :
    ∃ first rest, fileReads file = first :: rest ∧ cString (putLine [] first) = some first ∧ startsRecord first = true := by
  have hline : ∀ {r : HexRecord} {cs eol : List Char}, Holds r cs eol → ∀ a, ∃ first rest,
      fileReads (lineOf cs eol) ++ a = first :: rest ∧ cString (putLine [] first) = some first ∧ startsRecord first = true := by
    intro r cs eol hline a
    refine ⟨firstPiece cs eol, laterPieces cs eol ++ a, ?_, cString_putLine (p := 0) hline.no_zero_first (Nat.zero_le _),
      hline.startsRecord_first⟩
    rw [hline.reads_line, List.cons_append]
  cases h with
  | nil => exact absurd rfl hne
  | @last r cs spelt =>
    have hholds : Holds r cs [] := ⟨spelt, .inl rfl⟩
    have hfirst := hline hholds []
    rwa [lineOf, List.append_nil, List.append_nil] at hfirst
  | @cons r cs eol records file spelt ends rest =>
    have hholds : Holds r cs eol := ⟨spelt, .inr ends⟩
    have heol : eol ≠ [] := by rcases ends with rfl | rfl <;> exact List.cons_ne_nil _ _
    have hfirst := hline hholds (fileReads file)
    rw [← hholds.fileReads_append heol] at hfirst
    exact hfirst

theorem HexFile.run_eq (h : HexFile records file) (hne : records ≠ []) (alloc : Nat → Bool) :
    ∃ s, s.buffer.length ≤ bufferSize ∧ nfbFwOpenMcs alloc file =
      (sizeLoop s 0 (fileReads file)).bind fun r =>
        if alloc r.2 = false then some ⟨-1, []⟩ else (dataLoop r.1 (fileReads file)).map fun t => ⟨r.2, t.2⟩ := by
  obtain ⟨first, rest, hreads, hstring, hstart⟩ := h.first hne
  have hlen : first.length < bufferSize := length_lt_of_mem_fileReads (hreads ▸ List.mem_cons_self)
  refine ⟨⟨putLine [] first, 0⟩, ?_, ?_⟩
  · show (putLine [] first).length ≤ bufferSize
    rw [length_putLine]
    exact max_le hlen (Nat.zero_le _)
  · rw [nfbFwOpenMcs, hreads]
    dsimp only
    rw [hstring, Option.bind_some, hstart, if_neg (by decide)]

end

/-- The loader returns the image of a file of records exactly if there is one and each data record is of whole words and short enough. -/
theorem mcs_loaded_iff {records : List HexRecord} {file : List Char} (h : HexFile records file) {alloc : Nat → Bool}
    (halloc : alloc (payload records).length = true) :
    (∃ run, nfbFwOpenMcs alloc file = some run ∧ Loads records run) ↔ records ≠ [] ∧ ∀ r ∈ records, r.Fits := by
  constructor
  · rintro ⟨run, hrun, hloads⟩
    have hret := hloads.ret
    have hne : records ≠ [] := by
      rintro rfl
      cases h
      obtain rfl := Option.some.inj hrun
      exact absurd hret (by decide)
    refine ⟨hne, ?_⟩
    obtain ⟨s, hs, heq⟩ := h.run_eq hne alloc
    rw [heq, Option.bind_eq_some_iff] at hrun
    obtain ⟨⟨t, k⟩, hsize, hrun⟩ := hrun
    split at hrun
    · obtain rfl := Option.some.inj hrun
      have hneg : (-1 : Int) = (payload records).length := hret
      omega
    · rw [Option.map_eq_some_iff] at hrun
      obtain ⟨⟨t', ws⟩, hdata, rfl⟩ := hrun
      have hk : k = (payload records).length := Int.ofNat.inj hret
      have ht := sizeLoop_bounded (fun l => length_lt_of_mem_fileReads) hs hsize
      have heffect := h.effect hs ht hsize hdata
      exact heffect.fits hk (bytesOf_eq (heffect.words hk) hloads.bytes)
  · rintro ⟨hne, hfits⟩
    obtain ⟨s, -, heq⟩ := h.run_eq hne alloc
    obtain ⟨t, -, -, hsize, -, -⟩ := h.loops_fits hfits s s
    obtain ⟨-, t', ws, -, hdata, hbytes⟩ := h.loops_fits hfits t t
    refine ⟨⟨(payload records).length, ws⟩, ?_, rfl, fun j hj => ?_⟩
    · rw [heq, hsize, Option.bind_some, if_neg (by rw [halloc]; decide), hdata]
      rfl
    · rw [McsRun.byte, hbytes, List.getElem?_map, List.getElem?_eq_getElem hj]
      rfl

def endRecord : HexRecord := ⟨.endOfFile, 0, [], by decide⟩

def endText : List Char := [':', '0', '0', '0', '0', '0', '0', '0', '1', 'F', 'F']

theorem end_file : HexFile [endRecord] endText := by
  refine .last ?_
  repeat (first | exact .nil | refine .cons rfl rfl ?_)

def wordRecord : HexRecord := ⟨.data, 0, [0xDE, 0xAD, 0xBE, 0xEF], by decide⟩

def wordText : List Char := [':', '0', '4', '0', '0', '0', '0', '0', '0', 'D', 'E', 'A', 'D', 'B', 'E', 'E', 'F', 'C', '4', '\n']

theorem word_file : HexFile [wordRecord, endRecord] (wordText ++ endText) := by
  refine @HexFile.cons _ (wordText.tail.take 18) ['\n'] _ _ ?_ (.inl rfl) end_file
  repeat (first | exact .nil | refine .cons rfl rfl ?_)

theorem word_loaded :
    ∃ run, nfbFwOpenMcs (fun _ => true) (wordText ++ endText) = some run ∧ Loads [wordRecord, endRecord] run := by
  refine (mcs_loaded_iff word_file rfl).2 ⟨List.cons_ne_nil _ _, ?_⟩
  intro r hr
  rcases List.mem_pair.1 hr with rfl | rfl
  · exact fun _ => ⟨by decide, .inl (by decide)⟩
  · exact fun ht => absurd ht (by decide)

def twoRecord : HexRecord := ⟨.data, 0, [0xAB, 0xCD], by decide⟩

def twoText : List Char := [':', '0', '2', '0', '0', '0', '0', '0', '0', 'A', 'B', 'C', 'D', '8', '6', '\n']

theorem two_file : HexFile [twoRecord, endRecord] (twoText ++ endText) := by
  refine @HexFile.cons _ (twoText.tail.take 14) ['\n'] _ _ ?_ (.inl rfl) end_file
  repeat (first | exact .nil | refine .cons rfl rfl ?_)

/-- Two bytes are counted, and not read. -/
theorem two_bytes_undefined :
    HexFile [twoRecord, endRecord] (twoText ++ endText) ∧
      ¬∃ run, nfbFwOpenMcs (fun _ => true) (twoText ++ endText) = some run ∧ Loads [twoRecord, endRecord] run := by
  refine ⟨two_file, ?_⟩
  rintro ⟨run, hrun, hloads⟩
  have hdata : (nfbFwOpenMcs (fun _ => true) (twoText ++ endText)).map McsRun.data = some [] := by decide
  have hnil : run.data = [] := by
    rw [hrun] at hdata
    exact Option.some.inj hdata
  have hbyte := hloads.bytes 0 (by decide)
  rw [McsRun.byte, hnil] at hbyte
  exact absurd hbyte (by decide)

end NdkSw.Boot.Mcs

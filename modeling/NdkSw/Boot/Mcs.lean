/-
The loader of MCS files (`nfb_fw_open_mcs` of `filetype_mcs.c`): Intel HEX records, one a line. A first pass adds up the byte counts of
the data records, a second one copies the data in words of four bytes.
-/
import Mathlib.Data.BitVec
import NdkSw.Boot.BmcSpi
import NdkSw.Shared.TextScan

namespace NdkSw.Boot.Mcs

open Ndp Shared

/-! ## The loader -/

/-- `BUFFER_SIZE`. -/
def bufferSize : Nat := 128

/-- What `fgets(buffer, BUFFER_SIZE, fd)` gives, call by call. -/
def fileReads (file : List Char) : List (List Char) := reads (bufferSize - 1) file

/-- The locals `buffer` and `word_size`. -/
structure Scan where
  buffer : List Char
  wordSize : U32

/-- `sscanf(buffer + pos, "%X", &v)` with a field width: the number, or none if nothing is converted. No run if no string starts there. -/
def scanAt (buffer : List Char) (pos width : Nat) : Option (Option U32) :=
  (cString (buffer.drop pos)).map fun s => (scanfHex width s).map Prod.fst

/-- `buffer[7] == '0' && buffer[8] == '0'`. -/
def isData (buffer : List Char) : Option Bool :=
  buffer[7]?.bind fun c => if c = '0' then buffer[8]?.map fun d => d = '0' else some false

/-- The start of both loops: the next line, whether it is a data record, and then its byte count. -/
def nextRecord (s : Scan) (line : List Char) : Option (Scan × Bool) :=
  let buffer := putLine s.buffer line
  (isData buffer).bind fun data =>
    if data then (scanAt buffer 1 2).map fun v => (⟨buffer, v.getD s.wordSize⟩, true)
    else some (⟨buffer, s.wordSize⟩, false)

/-- The loop that finds the size. -/
def sizeLoop : Scan → Nat → List (List Char) → Option (Scan × Nat)
  | s, size, [] => some (s, size)
  | s, size, line :: lines =>
    (nextRecord s line).bind fun r => sizeLoop r.1 (if r.2 then size + r.1.wordSize.toNat else size) lines

/-- `bswap_32`. -/
def bswap32 (x : U32) : U32 :=
  (x.setWidth 8 ++ (x >>> 8).setWidth 8 ++ (x >>> 16).setWidth 8 ++ (x >>> 24).setWidth 8 : BitVec (8 + 8 + 8 + 8))

/-- `n` words of a record, from number `x` on. A word that is not converted is not defined. -/
def readWords (buffer : List Char) : Nat → Nat → Option (List (Option U32))
  | _, 0 => some []
  | x, n + 1 => (scanAt buffer (9 + x * 8) 8).bind fun v => (readWords buffer (x + 1) n).map (v.map bswap32 :: ·)

/-- The loop that reads the data. -/
def dataLoop : Scan → List (List Char) → Option (Scan × List (Option U32))
  | s, [] => some (s, [])
  | s, line :: lines =>
    (nextRecord s line).bind fun r =>
      (if r.2 then readWords r.1.buffer 0 (r.1.wordSize.toNat / 4) else some []).bind fun ws =>
        (dataLoop r.1 lines).map fun t => (t.1, ws ++ t.2)

/-- `sscanf(buffer, ":%02x%04x%02x%02x", ..) == 4`. -/
def startsRecord : List Char → Bool
  | [] => false
  | c :: s =>
    c = ':' && ((scanfHex 2 s).bind fun r => (scanfHex 4 r.2).bind fun r => (scanfHex 2 r.2).bind fun r => scanfHex 2 r.2).isSome

/-- What a call leaves: its result and the words of the buffer. -/
structure McsRun where
  ret : Int
  data : List (Option U32)

/-- `nfb_fw_open_mcs`; no run where the code reads outside of what is defined. -/
def nfbFwOpenMcs (alloc : Nat → Bool) (file : List Char) : Option McsRun :=
  match fileReads file with
  | [] => some ⟨-1, []⟩
  | first :: rest =>
    let buffer := putLine [] first
    (cString buffer).bind fun s =>
      if startsRecord s = false then some ⟨-1, []⟩
      else
        (sizeLoop ⟨buffer, 0⟩ 0 (first :: rest)).bind fun r =>
          if alloc r.2 = false then some ⟨-1, []⟩
          else (dataLoop r.1 (first :: rest)).map fun t => ⟨r.2, t.2⟩

/-! ## Intel HEX -/

/-- The record types. -/
inductive RecordType where
  | data
  | endOfFile
  | extendedSegmentAddress
  | startSegmentAddress
  | extendedLinearAddress
  | startLinearAddress
  deriving DecidableEq

def RecordType.code : RecordType → U8
  | data => 0
  | endOfFile => 1
  | extendedSegmentAddress => 2
  | startSegmentAddress => 3
  | extendedLinearAddress => 4
  | startLinearAddress => 5

/-- The byte counts a type has. -/
def RecordType.HasCount : RecordType → Nat → Prop
  | data, n => n ≤ 255
  | endOfFile, n => n = 0
  | extendedSegmentAddress, n => n = 2
  | startSegmentAddress, n => n = 4
  | extendedLinearAddress, n => n = 2
  | startLinearAddress, n => n = 4

instance (type : RecordType) (n : Nat) : Decidable (type.HasCount n) :=
  match type with
  | .data => inferInstanceAs (Decidable (n ≤ 255))
  | .endOfFile => inferInstanceAs (Decidable (n = 0))
  | .extendedSegmentAddress => inferInstanceAs (Decidable (n = 2))
  | .startSegmentAddress => inferInstanceAs (Decidable (n = 4))
  | .extendedLinearAddress => inferInstanceAs (Decidable (n = 2))
  | .startLinearAddress => inferInstanceAs (Decidable (n = 4))

/-- A record: its type, the address, and its data. -/
structure HexRecord where
  type : RecordType
  address : BitVec 16
  bytes : List U8
  hasCount : type.HasCount bytes.length

/-- The bytes before the checksum. -/
def HexRecord.fields (r : HexRecord) : List U8 :=
  [BitVec.ofNat 8 r.bytes.length, (r.address >>> 8).setWidth 8, r.address.setWidth 8, r.type.code] ++ r.bytes

/-- All bytes of a record add up to zero. -/
def HexRecord.checksum (r : HexRecord) : U8 := -r.fields.sum

/-- What a record adds to the image. -/
def HexRecord.payload (r : HexRecord) : List U8 := if r.type = .data then r.bytes else []

/-- The digits of a record, in upper or lower case. -/
def HexRecord.SpeltBy (r : HexRecord) (cs : List Char) : Prop := Spells cs (r.fields ++ [r.checksum])

/-- A file of records. A line ends with a line feed, or a carriage return before it; the last one may have no end. -/
inductive HexFile : List HexRecord → List Char → Prop
  | nil : HexFile [] []
  | last {r : HexRecord} {cs : List Char} (spelt : r.SpeltBy cs) : HexFile [r] (':' :: cs)
  | cons {r : HexRecord} {cs eol : List Char} {records : List HexRecord} {file : List Char} (spelt : r.SpeltBy cs)
      (ends : eol = ['\n'] ∨ eol = ['\r', '\n']) (rest : HexFile records file) :
      HexFile (r :: records) (':' :: (cs ++ eol) ++ file)

/-- The image of the records. -/
def payload (records : List HexRecord) : List U8 := records.flatMap HexRecord.payload

/-- The bytes of the words that a call leaves. -/
def bytesOf (ws : List (Option U32)) : List (Option U8) :=
  ws.flatMap fun w => (w.map fun x => (le32 x).map some).getD (List.replicate 4 none)

/-- A byte of the buffer. -/
def McsRun.byte (run : McsRun) (j : Nat) : Option U8 := ((bytesOf run.data)[j]?).join

/-- The size is the one of the image, and the buffer is the image. -/
structure Loads (records : List HexRecord) (run : McsRun) : Prop where
  ret : run.ret = (payload records).length
  bytes : ∀ j < (payload records).length, run.byte j = (payload records)[j]?

/-- What a record has to be for the loops: whole words that are in one piece of the buffer; or one word more, all of it zero, with a
checksum whose first digit is zero. -/
def HexRecord.Fits (r : HexRecord) : Prop :=
  r.type = .data →
    4 ∣ r.bytes.length ∧
      (r.bytes.length ≤ 56 ∨ r.bytes.length = 60 ∧ r.bytes.drop 56 = [0, 0, 0, 0] ∧ r.checksum.toNat < 16)

/-! ## The loops -/

section

variable {s s₁ s₂ : Scan} {a b : List (List Char)} {ws : List (Option U32)} {buffer : List Char} {x n m : Nat}

theorem sizeLoop_add (z : Nat) : sizeLoop s (z + n) a = (sizeLoop s n a).map fun r => (r.1, z + r.2) := by
  induction a generalizing s n with
  | nil => rfl
  | cons line lines ih =>
    rw [sizeLoop, sizeLoop]
    cases nextRecord s line with
    | none => rfl
    | some r =>
      rw [Option.bind_some, Option.bind_some]
      split
      · rw [Nat.add_assoc, ih]
      · rw [ih]

theorem sizeLoop_append : sizeLoop s n (a ++ b) = (sizeLoop s n a).bind fun r => sizeLoop r.1 r.2 b := by
  induction a generalizing s n with
  | nil => rfl
  | cons line lines ih =>
    rw [List.cons_append, sizeLoop, sizeLoop]
    cases nextRecord s line with
    | none => rfl
    | some r => exact ih

theorem dataLoop_append :
    dataLoop s (a ++ b) = (dataLoop s a).bind fun r => (dataLoop r.1 b).map fun t => (t.1, r.2 ++ t.2) := by
  induction a generalizing s with
  | nil =>
    rw [List.nil_append, dataLoop, Option.bind_some]
    cases dataLoop s b <;> rfl
  | cons line lines ih =>
    rw [List.cons_append, dataLoop, dataLoop]
    cases nextRecord s line with
    | none => rfl
    | some r =>
      rw [Option.bind_some, Option.bind_some]
      cases (if r.2 then readWords r.1.buffer 0 (r.1.wordSize.toNat / 4) else some [] : Option (List (Option U32))) with
      | none => rfl
      | some ws =>
        rw [Option.bind_some, Option.bind_some, ih]
        cases dataLoop r.1 lines with
        | none => rfl
        | some t =>
          rw [Option.bind_some, Option.map_some, Option.bind_some]
          cases dataLoop t.1 b with
          | none => rfl
          | some u => rw [Option.map_some, Option.map_some, Option.map_some, List.append_assoc]

theorem length_lt_of_mem_fileReads {file l : List Char} (hl : l ∈ fileReads file) : l.length < bufferSize :=
  Nat.lt_succ_of_le (length_le_of_mem_readsFrom hl)

/-- `buffer` never grows over its size. -/
theorem nextRecord_bounded {line : List Char} {r : Scan × Bool} (hline : line.length < bufferSize) (hs : s.buffer.length ≤ bufferSize)
    (hr : nextRecord s line = some r) : r.1.buffer.length ≤ bufferSize := by
  have hbuffer : r.1.buffer = putLine s.buffer line := by
    rw [nextRecord, Option.bind_eq_some_iff] at hr
    obtain ⟨data, -, hr⟩ := hr
    cases data with
    | true =>
      rw [if_pos rfl, Option.map_eq_some_iff] at hr
      obtain ⟨v, -, rfl⟩ := hr
      rfl
    | false => rw [← Option.some.inj hr]
  rw [hbuffer, length_putLine]
  exact max_le hline hs

theorem sizeLoop_bounded {k : Nat} (ha : ∀ l ∈ a, l.length < bufferSize) (hs : s.buffer.length ≤ bufferSize)
    (h : sizeLoop s n a = some (s₁, k)) : s₁.buffer.length ≤ bufferSize := by
  induction a generalizing s n with
  | nil => exact (Prod.mk.inj (Option.some.inj h)).1 ▸ hs
  | cons line lines ih =>
    rw [sizeLoop, Option.bind_eq_some_iff] at h
    obtain ⟨r, hr, h⟩ := h
    exact ih (fun l hl => ha l (List.mem_cons_of_mem line hl)) (nextRecord_bounded (ha line List.mem_cons_self) hs hr) h

theorem dataLoop_bounded (ha : ∀ l ∈ a, l.length < bufferSize) (hs : s.buffer.length ≤ bufferSize)
    (h : dataLoop s a = some (s₁, ws)) : s₁.buffer.length ≤ bufferSize := by
  induction a generalizing s ws with
  | nil => exact (Prod.mk.inj (Option.some.inj h)).1 ▸ hs
  | cons line lines ih =>
    rw [dataLoop, Option.bind_eq_some_iff] at h
    obtain ⟨r, hr, h⟩ := h
    rw [Option.bind_eq_some_iff] at h
    obtain ⟨ws', -, h⟩ := h
    rw [Option.map_eq_some_iff] at h
    obtain ⟨t, ht, heq⟩ := h
    have hlast : dataLoop r.1 lines = some (s₁, t.2) := (Prod.mk.inj heq).1 ▸ ht
    exact ih (fun l hl => ha l (List.mem_cons_of_mem line hl)) (nextRecord_bounded (ha line List.mem_cons_self) hs hr) hlast

theorem dataLoop_of_sizeLoop_zero (hs : sizeLoop s 0 a = some (s₁, 0)) (hd : dataLoop s a = some (s₂, ws)) : ws = [] := by
  induction a generalizing s ws with
  | nil => exact (congrArg Prod.snd (Option.some.inj hd)).symm
  | cons line lines ih =>
    rw [sizeLoop] at hs
    rw [dataLoop] at hd
    cases hr : nextRecord s line with
    | none => rw [hr] at hs; exact nomatch hs
    | some r =>
      rw [hr, Option.bind_some] at hs hd
      have hadd : ∀ k, sizeLoop r.1 k lines = some (s₁, 0) → k = 0 ∧ sizeLoop r.1 0 lines = some (s₁, 0) := by
        intro k hk
        rw [← Nat.add_zero k, sizeLoop_add, Option.map_eq_some_iff] at hk
        obtain ⟨t, ht, heq⟩ := hk
        obtain ⟨h₁, h₂⟩ := Prod.mk.inj heq
        have hk₀ : k = 0 := (Nat.add_eq_zero_iff.1 h₂).1
        have ht₀ : t.2 = 0 := (Nat.add_eq_zero_iff.1 h₂).2
        exact ⟨hk₀, by rw [ht, ← h₁, ← ht₀]⟩
      obtain ⟨hzero, hs⟩ := hadd _ hs
      have hread : (if r.2 then readWords r.1.buffer 0 (r.1.wordSize.toNat / 4) else some []) = some [] := by
        cases hr₂ : r.2 with
        | false => rfl
        | true =>
          rw [hr₂, if_pos rfl, Nat.zero_add] at hzero
          rw [if_pos rfl, hzero]
          rfl
      rw [hread, Option.bind_some, Option.map_eq_some_iff] at hd
      obtain ⟨t, ht, heq⟩ := hd
      obtain ⟨h₁, h₂⟩ := Prod.mk.inj heq
      rw [← h₂, List.nil_append]
      exact ih hs (h₁ ▸ ht)

theorem readWords_length (h : readWords buffer x n = some ws) : ws.length = n := by
  induction n generalizing x ws with
  | zero => rw [← Option.some.inj h]; rfl
  | succ n ih =>
    rw [readWords, Option.bind_eq_some_iff] at h
    obtain ⟨v, -, h⟩ := h
    rw [Option.map_eq_some_iff] at h
    obtain ⟨t, ht, rfl⟩ := h
    rw [List.length_cons, ih ht]

theorem readWords_add :
    readWords buffer x (n + m) = (readWords buffer x n).bind fun ws => (readWords buffer (x + n) m).map (ws ++ ·) := by
  induction n generalizing x with
  | zero =>
    rw [Nat.zero_add, readWords, Option.bind_some, Nat.add_zero]
    cases readWords buffer x m <;> rfl
  | succ n ih =>
    have hnext : x + (n + 1) = x + 1 + n := by omega
    rw [Nat.succ_add, readWords, readWords, ih]
    cases hscan : scanAt buffer (9 + x * 8) 8 with
    | none => rfl
    | some v =>
      rw [Option.bind_some, Option.bind_some]
      cases readWords buffer (x + 1) n with
      | none => rfl
      | some ws =>
        rw [Option.bind_some, Option.map_some, Option.bind_some, Option.map_map, hnext]
        rfl

theorem readWords_outside (hx : buffer.length ≤ 9 + (x + n) * 8) : readWords buffer x (n + (m + 1)) = none := by
  have hscan : scanAt buffer (9 + (x + n) * 8) 8 = none := by
    rw [scanAt, List.drop_eq_nil_of_le hx]
    rfl
  rw [readWords_add, readWords, hscan]
  cases readWords buffer x n <;> rfl

theorem length_bytesOf : (bytesOf ws).length = 4 * ws.length := by
  induction ws with
  | nil => rfl
  | cons w ws ih =>
    have hw : ((w.map fun x => (le32 x).map some).getD (List.replicate 4 none) : List (Option U8)).length = 4 := by
      cases w <;> rfl
    rw [bytesOf, List.flatMap_cons, List.length_append, hw, ← bytesOf, ih, List.length_cons]
    omega

theorem bytesOf_append {ws' : List (Option U32)} : bytesOf (ws ++ ws') = bytesOf ws ++ bytesOf ws' := List.flatMap_append

theorem bytesOf_eq {l : List U8} (hlen : 4 * ws.length ≤ l.length) (h : ∀ j < l.length, ((bytesOf ws)[j]?).join = l[j]?) :
    bytesOf ws = l.map some := by
  rw [← length_bytesOf] at hlen
  apply List.ext_getElem?
  intro j
  rw [List.getElem?_map]
  rcases Nat.lt_or_ge j l.length with hj | hj
  · have hbyte := h j hj
    rw [List.getElem?_eq_getElem hj] at hbyte ⊢
    rw [Option.map_some]
    exact Option.join_eq_some_iff.1 hbyte
  · rw [List.getElem?_eq_none_iff.2 hj, List.getElem?_eq_none_iff.2 (le_trans hlen hj)]
    rfl

theorem le32_eq {x : U32} {b₀ b₁ b₂ b₃ : U8} (h : x.toNat = bigEndian [b₃, b₂, b₁, b₀]) : le32 x = [b₀, b₁, b₂, b₃] := by
  have hbyte : ∀ (k : Nat) (b : U8), x.toNat / 2 ^ k % 2 ^ 8 = b.toNat → (x >>> k).setWidth 8 = b := by
    intro k b hb
    apply BitVec.eq_of_toNat_eq
    rw [BitVec.toNat_setWidth, BitVec.toNat_ushiftRight, Nat.shiftRight_eq_div_pow, hb]
  have hlt := b₀.isLt
  have hlt₁ := b₁.isLt
  have hlt₂ := b₂.isLt
  have hlt₃ := b₃.isLt
  simp only [bigEndian, List.foldl_cons, List.foldl_nil] at h
  rw [le32, hbyte 8 b₁ (by omega), hbyte 16 b₂ (by omega), hbyte 24 b₃ (by omega)]
  congr 1
  exact hbyte 0 b₀ (by omega)

theorem toNat_append_byte {w : Nat} (x : BitVec w) (b : U8) : (x ++ b).toNat = 256 * x.toNat + b.toNat := by
  rw [BitVec.toNat_append, ← Nat.shiftLeft_add_eq_or_of_lt b.isLt, Nat.shiftLeft_eq]
  omega

theorem le32_bswap32 (x : U32) : le32 (bswap32 x) = (le32 x).reverse := by
  refine le32_eq ?_
  simp only [bswap32, bigEndian, List.foldl_cons, List.foldl_nil]
  rw [toNat_append_byte, toNat_append_byte, toNat_append_byte]
  omega

theorem le32_bigEndian (b₀ b₁ b₂ b₃ : U8) : le32 (bswap32 (BitVec.ofNat 32 (bigEndian [b₀, b₁, b₂, b₃]))) = [b₀, b₁, b₂, b₃] := by
  have hlt : bigEndian [b₀, b₁, b₂, b₃] < 2 ^ 32 := by
    have h₀ := b₀.isLt
    have h₁ := b₁.isLt
    have h₂ := b₂.isLt
    have h₃ := b₃.isLt
    simp only [bigEndian, List.foldl_cons, List.foldl_nil]
    omega
  rw [le32_bswap32, le32_eq (BitVec.toNat_ofNat _ 32 ▸ Nat.mod_eq_of_lt hlt)]
  rfl

end

end NdkSw.Boot.Mcs

/-
Bus records to a file and back (`busdump.c` and `busreplay.c` of `tools-debug`): the dump tool empties the storage of a dump component
into a text, and the replay tool fills the storage of a replay component from one.
-/
import NdkSw.Ndp.Channel
import NdkSw.Shared.HexText
import NdkSw.Shared.IntText

namespace NdkSw.BusDump

open Ndp Shared

/-! ## Registers -/

def startCmd : U32 := 0x1

def stopCmd : U32 := 0x2

/-- `READ_CMD` of the dump component and `WRITE_CMD` of the replay component. -/
def readCmd : U32 := 0x4

def writeCmd : U32 := 0x4

def readyMask : U32 := 0x1000000

def activeMask : U32 := 0x2000000

def fullMask : U32 := 0x4000000

/-- `DATA_WIDTH_GET`. -/
def dataWidthGet (x : U32) : U32 := x &&& 0xFFFF

/-- `DATA_REGS`. -/
def dataRegs (dw : U32) : U32 := ((dw - 1) >>> 5) + 2

/-- The words in `buffer`. -/
def bufferLen : Nat := 1024

/-- The status register at address 0 of either component. -/
def statusWord (width : U16) (ready active full : Bool) : U32 :=
  width.setWidth 32 ||| (if ready then readyMask else 0) ||| (if active then activeMask else 0) ||| (if full then fullMask else 0)

/-- A dump component: the records it still holds, and the words of its data registers. Each record has the words of the bus. -/
structure Dumper where
  width : U16
  active : Bool
  full : Bool
  records : List (List U32)
  data : List U32
  words : ∀ r ∈ records, r.length = (dataRegs (width.setWidth 32)).toNat

def Dumper.status (d : Dumper) : U32 := statusWord d.width (decide (d.records ≠ [])) d.active d.full

/-- A write to the command register; the read command moves the oldest record to the data registers. -/
def Dumper.command (d : Dumper) (cmd : U32) : Dumper :=
  if cmd = startCmd then { d with active := true }
  else if cmd = stopCmd then { d with active := false }
  else if cmd = readCmd then
    { d with
      records := d.records.tail
      data := d.records.headD d.data
      words := fun r hr => d.words r (List.mem_of_mem_tail hr) }
  else d

/-- A replay component: `room` tells at which of the looks at its status there is room for a record, `looks` counts them. -/
structure Replayer where
  width : U16
  active : Bool
  ready : Bool
  room : Nat → Bool
  looks : Nat
  data : List U32
  stored : List (List U32)

def Replayer.status (r : Replayer) : U32 := statusWord r.width r.ready r.active (!r.room r.looks)

def Replayer.look (r : Replayer) : Replayer := { r with looks := r.looks + 1 }

/-- A write to the data registers. -/
def Replayer.load (r : Replayer) (buffer : List U32) : Replayer := { r with data := buffer }

/-- A write to the command register; the write command stores the data registers as a record. -/
def Replayer.command (r : Replayer) (cmd : U32) : Replayer :=
  if cmd = startCmd then { r with active := true }
  else if cmd = stopCmd then { r with active := false }
  else if cmd = writeCmd then { r with stored := r.stored ++ [r.data], ready := true }
  else r

/-! ## The dump tool -/

/-- The line of a record, the last word of the buffer first. -/
def recordText (buffer : List U32) : List Char :=
  buffer.reverse.flatMap (fun word => hexText 8 word.toNat ++ [' ']) ++ ['\n']

/-- The loop of `-r`: what is printed and how many records. `none` where it runs longer than `fuel`. -/
def dumpLoop (regs : Nat) : Nat → Dumper → Option (List Char × Nat × Dumper)
  | 0, _ => none
  | fuel + 1, d =>
    if d.status &&& readyMask = 0 then some ([], 0, d)
    else
      let d := d.command readCmd
      (dumpLoop regs fuel d).map fun (out, cnt, d') => (recordText (d.data.take regs) ++ out, cnt + 1, d')

/-- `busdump -r`: the file, and the number of records it reports. `none` where it leaves its buffer. -/
def busdump (fuel : Nat) (d : Dumper) : Option (List Char × Nat × Dumper) :=
  let width := dataWidthGet d.status
  let regs := (dataRegs width).toNat
  if bufferLen < regs then none
  else (dumpLoop regs fuel d).map fun (out, cnt, d') => (Nat.toDigits 10 width.toNat ++ '\n' :: out, cnt, d')

/-! ## The replay tool -/

/-- How the replay tool ends. -/
inductive ReplayEnd where
  | written (cnt : Nat)
  | storageFull (cnt : Nat)
  | wrongHeader
  | wrongData
  | overrun
  deriving DecidableEq, Repr

/-- The number that `strtoul` makes of a text, as `unsigned`. -/
def toUnsigned (z : Int) : U32 := if 2 ^ 64 ≤ z.natAbs then -1 else BitVec.ofInt 32 z

/-- `fscanf` with `"%u\n"`: the number, and the file behind it and the blanks. -/
def scanWidth (s : List Char) : Option (U32 × List Char) :=
  (readInt s).map fun (z, rest) => (toUnsigned z, rest.dropWhile isBlank)

/-- `fscanf` with `"%08x "`. -/
def scanWord (s : List Char) : Option (U32 × List Char) := (scanfHex 8 s).map fun (word, rest) => (word, rest.dropWhile isBlank)

/-- The words of a record, from `buffer[n - 1]` down. -/
def scanRecord : Nat → List Char → Option (List U32 × List Char)
  | 0, s => some ([], s)
  | n + 1, s =>
    (scanWord s).bind fun (word, rest) => (scanRecord n rest).map fun (buffer, rest) => (buffer ++ [word], rest)

/-- The loop of `-w`. What is left of the file is empty when a blank was looked for at its end. -/
def replayLoop (regs : Nat) : Nat → List Char → Replayer → Nat → Option (ReplayEnd × Replayer)
  | 0, _, _, _ => none
  | fuel + 1, s, r, cnt =>
    if s = [] then some (.written cnt, r)
    else
      match scanRecord regs s with
      | none => some (.wrongData, r)
      | some (buffer, rest) =>
        if r.status &&& fullMask ≠ 0 then some (.storageFull cnt, r.look)
        else replayLoop regs fuel rest ((r.look.load buffer).command writeCmd) (cnt + 1)

/-- `busreplay -w`. -/
def busreplay (fuel : Nat) (file : List Char) (r : Replayer) : Option (ReplayEnd × Replayer) :=
  let width := dataWidthGet r.status
  let regs := (dataRegs width).toNat
  let r := r.look
  match scanWidth file with
  | none => some (.wrongHeader, r)
  | some (dw, rest) =>
    if dw ≠ width then some (.wrongHeader, r)
    else if bufferLen < regs ∧ rest ≠ [] then some (.overrun, r)
    else replayLoop regs fuel rest r 0

/-! ## The status word -/

section

variable {width : U16}

theorem width_and_low (width : U16) : width.setWidth 32 &&& (0xFFFF : U32) = width.setWidth 32 := by
  apply BitVec.eq_of_toNat_eq
  rw [BitVec.toNat_and, BitVec.toNat_setWidth]
  have := width.isLt
  show width.toNat % 2 ^ 32 &&& (2 ^ 16 - 1) = width.toNat % 2 ^ 32
  rw [Nat.and_two_pow_sub_one_eq_mod]
  omega

theorem width_and_high (width : U16) {mask : U32} (hmask : mask &&& 0xFFFF = 0) : width.setWidth 32 &&& mask = 0 := by
  rw [← width_and_low, BitVec.and_assoc, BitVec.and_comm 0xFFFF, hmask]
  exact BitVec.and_zero

theorem dataWidthGet_statusWord (width : U16) (ready active full : Bool) :
    dataWidthGet (statusWord width ready active full) = width.setWidth 32 := by
  have hready : (if ready then readyMask else 0) &&& 0xFFFF = 0 := by cases ready <;> decide
  have hactive : (if active then activeMask else 0) &&& 0xFFFF = 0 := by cases active <;> decide
  have hfull : (if full then fullMask else 0) &&& 0xFFFF = 0 := by cases full <;> decide
  rw [dataWidthGet, statusWord, BitVec.and_or_distrib_right, BitVec.and_or_distrib_right, BitVec.and_or_distrib_right, width_and_low,
    hready, hactive, hfull]
  simp

theorem statusWord_ready (width : U16) (ready active full : Bool) :
    statusWord width ready active full &&& readyMask = if ready then readyMask else 0 := by
  rw [statusWord, BitVec.and_or_distrib_right, BitVec.and_or_distrib_right, BitVec.and_or_distrib_right, width_and_high width (by decide)]
  cases ready <;> cases active <;> cases full <;> decide

theorem statusWord_full (width : U16) (ready active full : Bool) :
    statusWord width ready active full &&& fullMask = if full then fullMask else 0 := by
  rw [statusWord, BitVec.and_or_distrib_right, BitVec.and_or_distrib_right, BitVec.and_or_distrib_right, width_and_high width (by decide)]
  cases ready <;> cases active <;> cases full <;> decide

/-- The widths whose records fit in the buffer. -/
def Fits (width : U16) : Prop := 1 ≤ width.toNat ∧ width.toNat ≤ 32736

theorem toNat_dataRegs (hwidth : 1 ≤ width.toNat) : (dataRegs (width.setWidth 32)).toNat = (width.toNat - 1) / 32 + 2 := by
  have hlt := width.isLt
  have hone : (1 : U32) ≤ width.setWidth 32 := by
    rw [BitVec.le_def, BitVec.toNat_setWidth_of_le (by decide)]
    exact hwidth
  rw [dataRegs, BitVec.toNat_add, BitVec.toNat_ushiftRight, BitVec.toNat_sub_of_le hone, BitVec.toNat_setWidth_of_le (by decide),
    Nat.shiftRight_eq_div_pow]
  show ((width.toNat - 1) / 2 ^ 5 + 2) % 2 ^ 32 = (width.toNat - 1) / 32 + 2
  omega

theorem Fits.regs (h : Fits width) :
    2 ≤ (dataRegs (width.setWidth 32)).toNat ∧ (dataRegs (width.setWidth 32)).toNat ≤ bufferLen := by
  rw [toNat_dataRegs h.1, bufferLen]
  have := h.2
  omega

end

/-! ## Words and records -/

section

variable {t : List Char} {word : U32} {buffer l : List U32}

/-- A word in the file. -/
def wordText (word : U32) : List Char := hexText 8 word.toNat ++ [' ']

theorem wordText_head (word : U32) (t : List Char) : (wordText word ++ t).dropWhile isBlank = wordText word ++ t := by
  have hlt : word.toNat < 16 ^ 8 := word.isLt
  obtain ⟨c, s, hs, hc⟩ := hexText_head (by decide) hlt
  rw [wordText, hs]
  exact List.dropWhile_cons_of_neg (by rw [hc]; exact Bool.false_ne_true)

theorem words_head (hl : l ≠ []) (t : List Char) : (l.flatMap wordText ++ t).dropWhile isBlank = l.flatMap wordText ++ t := by
  obtain ⟨word, l, rfl⟩ := List.exists_cons_of_ne_nil hl
  rw [List.flatMap_cons, List.append_assoc]
  exact wordText_head word _

theorem scanWord_text (word : U32) (t : List Char) : scanWord (wordText word ++ t) = some (word, t.dropWhile isBlank) := by
  have hlt : word.toNat < 16 ^ 8 := word.isLt
  have hscan : scanfHex 8 (hexText 8 word.toNat ++ ' ' :: t) = some (BitVec.ofNat 32 word.toNat, ' ' :: t) :=
    scanfHex_hexText (by decide) hlt
  rw [scanWord, wordText, List.append_assoc, List.singleton_append, hscan, Option.map_some, BitVec.ofNat_toNat, BitVec.setWidth_eq]
  dsimp only
  rw [List.dropWhile_cons_of_pos (by decide)]

theorem scanRecord_words (hl : l ≠ []) (t : List Char) :
    scanRecord l.length (l.flatMap wordText ++ t) = some (l.reverse, t.dropWhile isBlank) := by
  induction l with
  | nil => exact absurd rfl hl
  | cons word l ih =>
    rw [List.flatMap_cons, List.append_assoc, List.length_cons, scanRecord, scanWord_text, Option.bind_some]
    by_cases hl : l = []
    · subst hl
      rfl
    · rw [words_head hl]
      dsimp only
      rw [ih hl, Option.map_some, List.reverse_cons]

theorem recordText_eq (buffer : List U32) : recordText buffer = buffer.reverse.flatMap wordText ++ ['\n'] := rfl

theorem records_head (records : List (List U32)) (hne : ∀ r ∈ records, r ≠ []) :
    (records.flatMap recordText).dropWhile isBlank = records.flatMap recordText := by
  cases records with
  | nil => rfl
  | cons r records =>
    rw [List.flatMap_cons, recordText_eq, List.append_assoc]
    exact words_head (List.reverse_ne_nil_iff.2 (hne r List.mem_cons_self)) _

theorem recordText_ne_nil (buffer : List U32) (t : List Char) : recordText buffer ++ t ≠ [] := by
  rw [recordText_eq]
  simp

theorem scanRecord_text {records : List (List U32)} (hbuffer : buffer ≠ []) (hne : ∀ r ∈ records, r ≠ []) :
    scanRecord buffer.length (recordText buffer ++ records.flatMap recordText) = some (buffer, records.flatMap recordText) := by
  have hscan := scanRecord_words (List.reverse_ne_nil_iff.2 hbuffer) ('\n' :: records.flatMap recordText)
  rw [List.length_reverse, List.reverse_reverse, List.dropWhile_cons_of_pos (by decide), records_head records hne] at hscan
  rw [recordText_eq, List.append_assoc]
  exact hscan

end

/-! ## The tools -/

section

variable {d : Dumper} {r : Replayer} {fuel : Nat} {records : List (List U32)}

theorem Dumper.status_ready (d : Dumper) : d.status &&& readyMask = 0 ↔ d.records = [] := by
  rw [Dumper.status, statusWord_ready]
  cases d.records with
  | nil => decide
  | cons r l => simp [readyMask]

theorem Replayer.status_full (r : Replayer) : r.status &&& fullMask ≠ 0 ↔ r.room r.looks = false := by
  rw [Replayer.status, statusWord_full]
  cases r.room r.looks <;> decide

theorem Dumper.command_read (d : Dumper) :
    (d.command readCmd).records = d.records.tail ∧ (d.command readCmd).data = d.records.headD d.data ∧
      (d.command readCmd).width = d.width := ⟨rfl, rfl, rfl⟩

theorem dumpLoop_records : ∀ {fuel : Nat} {d : Dumper}, d.records.length < fuel →
    ∃ d', dumpLoop (dataRegs (d.width.setWidth 32)).toNat fuel d = some (d.records.flatMap recordText, d.records.length, d') ∧
      d'.records = []
  | 0, _, h => absurd h (Nat.not_lt_zero _)
  | fuel + 1, d, h => by
    rw [dumpLoop]
    cases hrecords : d.records with
    | nil =>
      rw [if_pos (d.status_ready.2 hrecords)]
      exact ⟨d, rfl, hrecords⟩
    | cons r records =>
      have hready : ¬(d.status &&& readyMask = 0) := by
        rw [d.status_ready, hrecords]
        exact List.cons_ne_nil r records
      obtain ⟨htail, hdata, hwidth⟩ := d.command_read
      rw [hrecords, List.tail_cons] at htail
      rw [hrecords, List.headD_cons] at hdata
      have hlen : (d.command readCmd).records.length < fuel := by
        rw [hrecords, List.length_cons] at h
        rw [htail]
        omega
      obtain ⟨d', hloop, hempty⟩ := dumpLoop_records hlen
      rw [htail, hwidth] at hloop
      have hfull : r.length = (dataRegs (d.width.setWidth 32)).toNat := d.words r (by rw [hrecords]; exact List.mem_cons_self)
      rw [if_neg hready]
      dsimp only
      rw [hloop, Option.map_some, hdata, ← hfull, List.take_length, List.flatMap_cons, List.length_cons]
      exact ⟨d', rfl, hempty⟩

/-- Of `n` records `k` are stored: there is room for each of them, and none for the next. -/
structure Taken (r : Replayer) (n k : Nat) : Prop where
  le : k ≤ n
  room : ∀ i < k, r.room (r.looks + i) = true
  stop : k < n → r.room (r.looks + k) = false

/-- How a replay ends that has stored `k` of `n` records. -/
def endOf (cnt n k : Nat) : ReplayEnd := if k = n then .written (cnt + k) else .storageFull (cnt + k)

/-- The loop stores the records in their order, until there is no room. -/
theorem replayLoop_records {regs : Nat} (hregs : 2 ≤ regs) : ∀ {records : List (List U32)} {fuel : Nat} (r : Replayer) (cnt : Nat),
    (∀ b ∈ records, b.length = regs) → records.length < fuel →
    ∃ k r', replayLoop regs fuel (records.flatMap recordText) r cnt = some (endOf cnt records.length k, r') ∧
      Taken r records.length k ∧ r'.stored = r.stored ++ records.take k
  | _, 0, _, _, _, h => absurd h (Nat.not_lt_zero _)
  | [], fuel + 1, r, cnt, _, _ =>
    ⟨0, r, rfl, ⟨le_rfl, fun _ h => absurd h (Nat.not_lt_zero _), fun h => absurd h (Nat.not_lt_zero _)⟩, (List.append_nil _).symm⟩
  | b :: records, fuel + 1, r, cnt, hwords, h => by
    have hlen : ∀ b ∈ records, b.length = regs := fun b hb => hwords b (List.mem_cons_of_mem _ hb)
    have hne : ∀ {b : List U32}, b.length = regs → b ≠ [] := by
      rintro b hb rfl
      rw [List.length_nil] at hb
      omega
    have hb : b.length = regs := hwords b List.mem_cons_self
    have hscan := scanRecord_text (hne hb) fun b hb => hne (hlen b hb)
    rw [hb] at hscan
    rw [List.flatMap_cons, replayLoop, if_neg (recordText_ne_nil b _), hscan]
    dsimp only
    by_cases hfull : r.room r.looks = false
    · -- The storage is full.
      rw [if_pos (r.status_full.2 hfull)]
      refine ⟨0, r.look, rfl, ⟨Nat.zero_le _, fun _ h => absurd h (Nat.not_lt_zero _), fun _ => hfull⟩, ?_⟩
      exact (List.append_nil _).symm
    · have hroom : r.room r.looks = true := by simpa using hfull
      have hstored : ((r.look.load b).command writeCmd).stored = r.stored ++ [b] := rfl
      have hlt : records.length < fuel := by
        rw [List.length_cons] at h
        omega
      obtain ⟨k, r', hloop, htaken, hrest⟩ := replayLoop_records hregs ((r.look.load b).command writeCmd) (cnt + 1) hlen hlt
      rw [if_neg fun hf => hfull (r.status_full.1 hf), hloop]
      refine ⟨k + 1, r', ?_, ?_, ?_⟩
      · simp only [endOf, List.length_cons, Nat.add_right_cancel_iff, Nat.add_assoc, Nat.add_comm 1 k]
      · constructor
        case le => exact Nat.succ_le_succ htaken.le
        case room =>
          intro i hi
          cases i with
          | zero => exact hroom
          | succ i =>
            have hnext := htaken.room i (Nat.lt_of_succ_lt_succ hi)
            rw [Nat.add_comm i 1, ← Nat.add_assoc]
            exact hnext
        case stop =>
          intro hk
          have hnext := htaken.stop (Nat.lt_of_succ_lt_succ hk)
          rw [Nat.add_comm k 1, ← Nat.add_assoc]
          exact hnext
      · rw [hrest, hstored, List.take_succ_cons, List.append_assoc]
        rfl

theorem scanWidth_text (width : U16) (t : List Char) :
    scanWidth (Nat.toDigits 10 (width.setWidth 32).toNat ++ '\n' :: t) = some (width.setWidth 32, t.dropWhile isBlank) := by
  have htext : IntText (Nat.toDigits 10 width.toNat) (signedValue [] (Nat.toDigits 10 width.toNat)) :=
    IntText.mk (b := []) (fun _ h => absurd h List.not_mem_nil) (Or.inl rfl) Nat.toDigits_ne_nil fun c hc => decimal_digit hc
  have hrest : NoDigit ('\n' :: t) := fun c hc => by
    obtain rfl : '\n' = c := Option.some.inj hc
    rfl
  have hread := readInt_complete htext hrest
  have hvalue : signedValue [] (Nat.toDigits 10 width.toNat) = width.toNat := by
    rw [signedValue, if_neg (by decide), numberIn_decimal]
  have hlt := width.isLt
  have hunsigned : toUnsigned (width.toNat : Int) = width.setWidth 32 := by
    rw [toUnsigned, Int.natAbs_natCast, if_neg (by omega), BitVec.ofInt_natCast]
    apply BitVec.eq_of_toNat_eq
    rw [BitVec.toNat_ofNat, BitVec.toNat_setWidth]
  rw [BitVec.toNat_setWidth_of_le (by decide), scanWidth, hread, Option.map_some, hvalue]
  dsimp only
  rw [hunsigned, List.dropWhile_cons_of_pos (by decide)]

theorem busdump_records (hfits : Fits d.width) (hfuel : d.records.length < fuel) :
    ∃ d', busdump fuel d = some (Nat.toDigits 10 (d.width.setWidth 32).toNat ++ '\n' :: d.records.flatMap recordText, d.records.length, d') ∧
      d'.records = [] := by
  obtain ⟨d', hloop, hempty⟩ := dumpLoop_records hfuel
  have hwidth : dataWidthGet d.status = d.width.setWidth 32 := dataWidthGet_statusWord ..
  unfold busdump
  rw [hwidth]
  dsimp only
  rw [if_neg (Nat.not_lt.2 hfits.regs.2), hloop]
  exact ⟨d', rfl, hempty⟩

/-- A dump replayed into a component of the same width stores the records that were dumped, word for word and in their order, up to the
first for which there is no room; a component of another width refuses it. -/
theorem busreplay_busdump (d : Dumper) (r : Replayer) (fuel : Nat) (hfits : Fits d.width) (hfuel : d.records.length < fuel) :
    ∃ file d', busdump fuel d = some (file, d.records.length, d') ∧ d'.records = [] ∧
      (r.width = d.width → ∃ k r', busreplay fuel file r = some (endOf 0 d.records.length k, r') ∧ Taken r.look d.records.length k ∧
        r'.stored = r.stored ++ d.records.take k) ∧
      (r.width ≠ d.width → busreplay fuel file r = some (.wrongHeader, r.look)) := by
  obtain ⟨d', hdump, hempty⟩ := busdump_records hfits hfuel
  refine ⟨_, d', hdump, hempty, ?_, ?_⟩
  · intro hwidth
    have hne : ∀ b ∈ d.records, b ≠ [] := by
      rintro b hb rfl
      have := d.words [] hb
      have := hfits.regs.1
      rw [List.length_nil] at *
      omega
    have hstatus : dataWidthGet r.status = d.width.setWidth 32 := by
      rw [← hwidth]
      exact dataWidthGet_statusWord ..
    obtain ⟨k, r', hloop, htaken, hstored⟩ := replayLoop_records hfits.regs.1 r.look 0 d.words hfuel
    unfold busreplay
    rw [hstatus, scanWidth_text, records_head _ hne]
    dsimp only
    rw [if_neg fun h => h rfl, if_neg fun h => absurd h.1 (Nat.not_lt.2 hfits.regs.2), hloop]
    exact ⟨k, r', rfl, htaken, hstored⟩
  · intro hwidth
    have hstatus : dataWidthGet r.status = r.width.setWidth 32 := dataWidthGet_statusWord ..
    have hother : d.width.setWidth 32 ≠ r.width.setWidth 32 := by
      intro h
      apply hwidth
      have := congrArg BitVec.toNat h
      rw [BitVec.toNat_setWidth_of_le (by decide), BitVec.toNat_setWidth_of_le (by decide)] at this
      exact (BitVec.eq_of_toNat_eq this).symm
    unfold busreplay
    rw [hstatus, scanWidth_text]
    dsimp only
    rw [if_pos hother]

end

/-! ## An 8-bit bus -/

def byteDumper : Dumper := ⟨8, false, false, [[0x12, 0xabcdef01], [0, 7]], [], by decide⟩

def byteReplayer : Replayer := ⟨8, false, false, fun n => decide (n < 2), 0, [], []⟩

theorem busreplay_busdump_byte :
    ∃ file d', busdump 3 byteDumper = some (file, 2, d') ∧ d'.records = [] ∧
      (byteReplayer.width = byteDumper.width → ∃ k r', busreplay 3 file byteReplayer = some (endOf 0 2 k, r') ∧
        Taken byteReplayer.look 2 k ∧ r'.stored = byteReplayer.stored ++ byteDumper.records.take k) ∧
      (byteReplayer.width ≠ byteDumper.width → busreplay 3 file byteReplayer = some (.wrongHeader, byteReplayer.look)) :=
  busreplay_busdump byteDumper byteReplayer 3 ⟨by decide, by decide⟩ (by decide)

end NdkSw.BusDump

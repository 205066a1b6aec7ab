/-
The command that `nfb-dma -N` writes (`cmd_ndp_netdev` of `dma/dma.c`) and how the file of the XDP driver reads it (`cmd_store` of
`xdp/sysfs.c`): the text between the two.
-/
import NdkSw.Shared.OptionText
import NdkSw.Tools.ListRange
import NdkSw.Xdp.Ethdev
import NdkSw.Shared.Words

namespace NdkSw.Xdp

open Ndp Shared Tools

/-! ## The tool -/

/-- The string in memory of `len` bytes, with room for its zero. -/
structure CBuffer where
  len : U32
  text : List Char
  fits : text.length < len.toNat

/-- How the tool stops without a write to the file: with an error number, or after it left its buffer. -/
inductive ToolError where
  | errno (e : Int)
  | overrun
  | overread
  deriving DecidableEq

/-- `strcat`. -/
def CBuffer.strcat (b : CBuffer) (t : List Char) : Except ToolError CBuffer :=
  if h : (b.text ++ t).length < b.len.toNat then .ok { len := b.len, text := b.text ++ t, fits := h } else .error .overrun

/-- `realloc`, with the sizes there is memory for; none of size zero. Less memory than the string needs cuts its zero off. -/
def CBuffer.realloc (mem : U32 → Bool) (b : CBuffer) (len : U32) : Except ToolError CBuffer :=
  if len = 0 ∨ mem len = false then .error (.errno eNomem)
  else if h : b.text.length < len.toNat then .ok { len := len, text := b.text, fits := h }
  else .error .overrun

/-- The text of an index in the list. -/
def indexText (i : Nat) : List Char := Nat.toDigits 10 i ++ [':']

/-- An index is printed into `idx_buff` and put behind the text, in twice the memory if it does not fit. -/
def appendIndex (mem : U32 → Bool) (b : CBuffer) (i : Nat) : Except ToolError CBuffer :=
  if 16 ≤ (indexText i).length then .error (.errno eInval)
  else if b.len.toNat ≤ b.text.length + (indexText i).length then
    (b.realloc mem (b.len * 2)).bind (·.strcat (indexText i))
  else b.strcat (indexText i)

/-- The largest index, or -1. -/
def maxIndex (lr : ListRange) : U32 := lr.foldl (fun max r => if max.slt r.max then r.max else max) (-1)

/-- How often the loop over the indexes runs: while `i < max + 1` holds of two `int` values. -/
def indexBound (lr : ListRange) : Nat := (maxIndex lr + 1).toInt.toNat

/-- The loop over the indexes. -/
def appendIndexes (mem : U32 → Bool) (lr : ListRange) (b : CBuffer) : Except ToolError CBuffer :=
  (List.range (indexBound lr)).foldlM (fun b i => if listRangeContains lr (BitVec.ofNat 32 i) then appendIndex mem b i else .ok b) b

/-- The directory of the file, which tells the drivers apart. -/
inductive Ndd where
  | ndpNetdev
  | nfbXdp
  | other
  deriving DecidableEq

/-- The conversion `%d`. -/
def intText (z : Int) : List Char := if z < 0 then '-' :: Nat.toDigits 10 z.natAbs else Nat.toDigits 10 z.natAbs

/-- `cmd_ndp_netdev` behind the opening of the file: what it writes, its zero included. -/
def cmdNdpNetdev (mem : U32 → Bool) (ndd : Ndd) (cmd : List Char) (lr : ListRange) : Except ToolError (List Char) :=
  match ndd with
  | .ndpNetdev =>
    match lr with
    | [r] =>
      if r.min = r.max then
        let text := "cmd=".toList ++ cmd ++ ",index=".toList ++ intText r.min.toInt
        -- `snprintf` keeps to the buffer, but the length it returns is that of the whole text.
        if 256 ≤ text.length then .error .overread else .ok (text ++ ['\x00'])
      else .error (.errno eNxio)
    | _ => .error (.errno eNxio)
  | .nfbXdp =>
    let text := "cmd=".toList ++ cmd ++ ",qidxs=".toList
    if h : text.length < 256 then
      (appendIndexes mem lr { len := 256, text := text, fits := h }).map fun b => b.text ++ ['\x00']
    else .error (.errno eInval)
  | .other => .error (.errno eNxio)

/-! ## The file -/

inductive CmdToken where
  | cmd
  | id
  | qidxs
  deriving DecidableEq

/-- `tokens` of `cmd_store`. -/
def cmdTokens : List (CmdToken × List Char) :=
  [(.cmd, "cmd=%s".toList), (.id, "id=%d".toList), (.qidxs, "qidxs=%s".toList)]

/-- What the options of a command set. -/
structure CmdOptions where
  cmd : Option (List Char)
  index : Int
  queueString : Option (List Char)
  deriving DecidableEq

/-- One option; what no pattern fits is passed over. -/
def storeOption (o : CmdOptions) (p : List Char) : Except Int CmdOptions :=
  if p = [] then .ok o
  else
    match matchToken cmdTokens p with
    | some (.id, arg) => (matchInt eInval eRange arg).map fun i => { o with index := i }
    | some (.cmd, arg) => .ok { o with cmd := some arg }
    | some (.qidxs, arg) => .ok { o with queueString := some arg }
    | none => .ok o

/-- The loop over the options. -/
def readOptions (s : List Char) : Except Int CmdOptions :=
  (s.splitOn ',').foldlM storeOption { cmd := none, index := -1, queueString := none }

def cmdWord (s : List Char) : CmdWord := if s = "add".toList then .add else if s = "del".toList then .del else .other

/-- A word of the list of queues. -/
def queueWord (q : List Char) : QueueWord :=
  if q = [] then .empty
  else
    match scanUnsigned q with
    | some v => .num v
    | none => .bad

/-- The options as `cmd_store` goes on with them. -/
def CmdOptions.toWrite (o : CmdOptions) (env : AddEnv) : CmdWrite where
  cmd := o.cmd.map cmdWord
  index := o.index
  queueString := o.queueString.map fun s => (s.splitOn ':').map queueWord
  env := env

/-- `cmd_store` of the bytes of a write. -/
def cmdStoreText (env : AddEnv) (buf : List Char) (m : NfbXdp) : NfbXdp × Int :=
  if buf.getLast? ≠ some '\x00' then (m, eInval)
  else
    match readOptions ((cString buf).getD []) with
    | .error e => (m, e)
    | .ok o =>
      let r := cmdStore (o.toWrite env) m
      (r.1, if r.2 ≠ 0 then r.2 else buf.length)

/-- What a write makes `cmd_store` call `create_ethdev` with. -/
def storeCall (buf : List Char) (m : NfbXdp) : Option (U16 × List U32) :=
  if buf.getLast? ≠ some '\x00' then none
  else
    match readOptions ((cString buf).getD []) with
    | .error _ => none
    | .ok o =>
      if o.index = -1 ∨ o.cmd.map cmdWord ≠ some .add then none
      else
        match o.queueString with
        | some s => (parseQueues ((s.splitOn ':').map queueWord)).map fun l => (BitVec.ofInt 16 o.index, l)
        | none => some (BitVec.ofInt 16 o.index, (List.range m.channelc.toNat).map (BitVec.ofNat 32))

/-! ## The buffer -/

section

variable {mem : U32 → Bool} {lr : ListRange} {b : CBuffer} {i : Nat}

theorem indexText_length (hi : i < 2 ^ 31) : (indexText i).length ≤ 11 := by
  have hlen : (Nat.toDigits 10 i).length ≤ 10 := (Nat.length_toDigits_le_iff (by decide) (by decide)).2 (by omega)
  rw [indexText, List.length_append, List.length_singleton]
  omega

/-- The memory is a power of two, and never less than at the start. -/
def CBuffer.PowTwo (b : CBuffer) : Prop := ∃ k, 8 ≤ k ∧ b.len.toNat = 2 ^ k

theorem CBuffer.PowTwo.le (h : b.PowTwo) : 256 ≤ b.len.toNat := by
  obtain ⟨k, hk, hlen⟩ := h
  rw [hlen]
  exact Nat.pow_le_pow_right (n := 2) (by decide) hk

theorem CBuffer.PowTwo.double (h : b.PowTwo) :
    b.len * 2 = 0 ∧ b.len.toNat = 2 ^ 31 ∨ (b.len * 2).toNat = 2 * b.len.toNat ∧ ∃ k, 8 ≤ k ∧ (b.len * 2).toNat = 2 ^ k := by
  obtain ⟨k, hk, hlen⟩ := h
  have htwo : (b.len * 2).toNat = b.len.toNat * 2 % 2 ^ 32 := BitVec.toNat_mul _ _
  have hlt : k < 32 := by
    by_contra hge
    have := Nat.pow_le_pow_right (n := 2) (by decide) (Nat.le_of_not_lt hge)
    have := b.len.isLt
    omega
  rcases Nat.lt_or_ge k 31 with h31 | h31
  · have hsucc : (2 : Nat) ^ (k + 1) < 2 ^ 32 := Nat.pow_lt_pow_right (by decide) (by omega)
    rw [Nat.pow_succ] at hsucc
    have heq : (b.len * 2).toNat = 2 * b.len.toNat := by
      rw [htwo, hlen, Nat.mod_eq_of_lt hsucc, Nat.mul_comm]
    exact Or.inr ⟨heq, k + 1, by omega, by rw [heq, hlen, Nat.pow_succ, Nat.mul_comm]⟩
  · obtain rfl : k = 31 := by omega
    refine Or.inl ⟨BitVec.eq_of_toNat_eq ?_, hlen⟩
    rw [htwo, hlen]
    rfl

theorem strcat_fits {t : List Char} (h : (b.text ++ t).length < b.len.toNat) :
    b.strcat t = .ok { len := b.len, text := b.text ++ t, fits := h } := dif_pos h

/-- An index is put behind the text, unless memory is asked for that there is not. -/
theorem appendIndex_spec (hb : b.PowTwo) (hi : i < 2 ^ 31) :
    (∃ b', appendIndex mem b i = .ok b' ∧ b'.PowTwo ∧ b'.text = b.text ++ indexText i) ∨
      appendIndex mem b i = .error (.errno eNomem) ∧ b.len.toNat ≤ (b.text ++ indexText i).length ∧
        (mem (b.len * 2) = false ∨ b.len.toNat = 2 ^ 31) := by
  have hidx := indexText_length hi
  have hfits := b.fits
  have hle := hb.le
  unfold appendIndex
  rw [if_neg (by omega), List.length_append]
  by_cases hlen : b.len.toNat ≤ b.text.length + (indexText i).length
  · rw [if_pos hlen]
    unfold CBuffer.realloc
    rcases hb.double with ⟨h0, h31⟩ | ⟨htwo, hpow⟩
    · rw [if_pos (Or.inl h0)]
      exact Or.inr ⟨rfl, hlen, Or.inr h31⟩
    · cases hmem : mem (b.len * 2) with
      | false =>
        rw [if_pos (Or.inr rfl)]
        exact Or.inr ⟨rfl, hlen, Or.inl rfl⟩
      | true =>
        have hne : ¬ (b.len * 2 = 0 ∨ true = false) := by
          rintro (h0 | h)
          · rw [h0] at htwo
            have hz : (0 : U32).toNat = 0 := rfl
            omega
          · cases h
        have hroom : b.text.length < (b.len * 2).toNat := by omega
        have hcat : (b.text ++ indexText i).length < (b.len * 2).toNat := by
          rw [List.length_append]
          omega
        rw [if_neg hne, dif_pos hroom]
        exact Or.inl ⟨_, strcat_fits hcat, hpow, rfl⟩
  · have hcat : (b.text ++ indexText i).length < b.len.toNat := by
      rw [List.length_append]
      omega
    rw [if_neg hlen]
    exact Or.inl ⟨_, strcat_fits hcat, hb, rfl⟩

/-- The indexes that the loop finds in the list. -/
def foundIndexes (lr : ListRange) : List Nat := (List.range (indexBound lr)).filter fun i => listRangeContains lr (BitVec.ofNat 32 i)

theorem indexBound_lt (lr : ListRange) : indexBound lr < 2 ^ 31 := by
  have h := BitVec.toInt_lt (x := maxIndex lr + 1)
  unfold indexBound
  omega

theorem appendIndexes_eq (b : CBuffer) : appendIndexes mem lr b = (foundIndexes lr).foldlM (appendIndex mem) b := by
  unfold appendIndexes foundIndexes
  rw [List.foldlM_filter]
  rfl

/-- All indexes are put behind the text, unless memory is missing for a text that is not short. -/
theorem append_all {l : List Nat} (hl : ∀ i ∈ l, i < 2 ^ 31) (hb : b.PowTwo) :
    (∃ b', l.foldlM (appendIndex mem) b = .ok b' ∧ b'.text = b.text ++ l.flatMap indexText) ∨
      l.foldlM (appendIndex mem) b = .error (.errno eNomem) ∧
        ((∀ len : U32, 0 < len.toNat → len.toNat ≤ 2 * (b.text ++ l.flatMap indexText).length → mem len = true) →
          2 ^ 31 ≤ (b.text ++ l.flatMap indexText).length) := by
  induction l generalizing b with
  | nil => exact Or.inl ⟨b, rfl, (List.append_nil _).symm⟩
  | cons i l ih =>
    have htail : ∀ j ∈ l, j < 2 ^ 31 := fun j hj => hl j (List.mem_cons_of_mem i hj)
    have htext : b.text ++ (i :: l).flatMap indexText = b.text ++ indexText i ++ l.flatMap indexText := by
      rw [List.flatMap_cons, List.append_assoc]
    rw [htext]
    rcases @appendIndex_spec mem b i hb (hl i (List.mem_cons_self ..)) with ⟨b', hok, hpow, hb'⟩ | ⟨herr, hlen, hwhy⟩
    · rw [List.foldlM_cons, hok, ← hb']
      exact ih htail hpow
    · refine Or.inr ⟨by rw [List.foldlM_cons, herr]; rfl, fun hmem => ?_⟩
      have hsum : (b.text ++ indexText i ++ l.flatMap indexText).length =
          (b.text ++ indexText i).length + (l.flatMap indexText).length := List.length_append
      rw [hsum] at hmem ⊢
      rcases hwhy with hno | h31
      · -- The memory that is missing is at most twice the text.
        rcases hb.double with ⟨-, h31⟩ | ⟨htwo, -⟩
        · omega
        · have hle := hb.le
          rw [hmem _ (by omega) (by omega)] at hno
          cases hno
      · omega

end

/-! ## The indexes -/

section

variable {lr : ListRange} {i : Nat}

/-- A list of queues: no index is negative, and the loop over them can pass the largest one. -/
def QueueList (lr : ListRange) : Prop := ∀ r ∈ lr, 0 ≤ r.min.toInt ∧ r.max.toInt < 2 ^ 31 - 1

theorem maxIndex_spec (lr : ListRange) :
    -1 ≤ (maxIndex lr).toInt ∧ (∀ r ∈ lr, r.max.toInt ≤ (maxIndex lr).toInt) ∧
      (maxIndex lr = -1 ∨ ∃ r ∈ lr, maxIndex lr = r.max) := by
  unfold maxIndex
  suffices h : ∀ (lr : ListRange) (max : U32), max.toInt ≤ (lr.foldl (fun max r => if max.slt r.max then r.max else max) max).toInt ∧
      (∀ r ∈ lr, r.max.toInt ≤ (lr.foldl (fun max r => if max.slt r.max then r.max else max) max).toInt) ∧
      (lr.foldl (fun max r => if max.slt r.max then r.max else max) max = max ∨
        ∃ r ∈ lr, lr.foldl (fun max r => if max.slt r.max then r.max else max) max = r.max) from h lr (-1)
  intro lr
  induction lr with
  | nil => exact fun max => ⟨Int.le_refl _, fun r hr => absurd hr List.not_mem_nil, Or.inl rfl⟩
  | cons r lr ih =>
    intro max
    rw [List.foldl_cons]
    have hstep : max.toInt ≤ (if max.slt r.max then r.max else max).toInt ∧
        r.max.toInt ≤ (if max.slt r.max then r.max else max).toInt ∧
        ((if max.slt r.max then r.max else max) = max ∨ (if max.slt r.max then r.max else max) = r.max) := by
      by_cases hlt : max.slt r.max = true
      · rw [if_pos hlt]
        rw [BitVec.slt_eq_decide, decide_eq_true_eq] at hlt
        exact ⟨Int.le_of_lt hlt, Int.le_refl _, Or.inr rfl⟩
      · rw [if_neg hlt]
        rw [BitVec.slt_eq_decide, decide_eq_true_eq] at hlt
        exact ⟨Int.le_refl _, Int.le_of_not_gt hlt, Or.inl rfl⟩
    obtain ⟨hle, hall, hfrom⟩ := ih (if max.slt r.max then r.max else max)
    refine ⟨Int.le_trans hstep.1 hle, ?_, ?_⟩
    · intro q hq
      rcases List.mem_cons.1 hq with rfl | hq
      · exact Int.le_trans hstep.2.1 hle
      · exact hall q hq
    · rcases hfrom with h | ⟨q, hq, h⟩
      · rw [h]
        rcases hstep.2.2 with h' | h'
        · exact Or.inl h'
        · exact Or.inr ⟨r, List.mem_cons_self .., h'⟩
      · exact Or.inr ⟨q, List.mem_cons_of_mem r hq, h⟩

theorem indexBound_eq (h : QueueList lr) : (indexBound lr : Int) = (maxIndex lr).toInt + 1 := by
  obtain ⟨hlow, -, hfrom⟩ := maxIndex_spec lr
  have hhigh : (maxIndex lr).toInt < 2 ^ 31 - 1 := by
    rcases hfrom with he | ⟨r, hr, he⟩
    · rw [he]
      decide
    · rw [he]
      exact (h r hr).2
  have hone : (1 : U32).toInt = 1 := rfl
  have hsum : (maxIndex lr + 1).toInt = (maxIndex lr).toInt + 1 := by
    rw [BitVec.toInt_add, hone]
    exact Int.bmod_eq_of_le (by omega) (by omega)
  unfold indexBound
  rw [hsum]
  omega

theorem toInt_ofNat_index (hi : i < 2 ^ 31) : (BitVec.ofNat 32 i).toInt = i := by
  rw [BitVec.toInt_ofNat']
  exact Int.bmod_eq_of_le (by omega) (by omega)

theorem mem_foundIndexes (h : QueueList lr) : i ∈ foundIndexes lr ↔ Listed lr i := by
  have hbound := indexBound_eq h
  have hlt := indexBound_lt lr
  unfold foundIndexes
  rw [List.mem_filter, List.mem_range, contains_iff]
  constructor
  · rintro ⟨hi, hin⟩
    rwa [toInt_ofNat_index (by omega)] at hin
  · rintro ⟨r, hr, hin⟩
    have hmax := (maxIndex_spec lr).2.1 r hr
    have hi : i < indexBound lr := by omega
    refine ⟨hi, r, hr, ?_⟩
    rw [toInt_ofNat_index (by omega)]
    exact hin

theorem foundIndexes_sorted (lr : ListRange) : (foundIndexes lr).Pairwise (· < ·) := List.pairwise_lt_range.filter _

theorem foundIndexes_lt (hi : i ∈ foundIndexes lr) : i < 2 ^ 31 := by
  have hlt := indexBound_lt lr
  have hr := List.mem_range.1 (List.mem_filter.1 hi).1
  omega

theorem foundIndexes_ne_nil (h : QueueList lr) (hne : lr ≠ []) : foundIndexes lr ≠ [] := by
  obtain ⟨r, lr, rfl⟩ := List.exists_cons_of_ne_nil hne
  have hmin := (h r (List.mem_cons_self ..)).1
  have hord := r.ordered
  have hmem : r.min.toInt.toNat ∈ foundIndexes (r :: lr) := by
    rw [mem_foundIndexes h]
    exact ⟨r, List.mem_cons_self .., by omega, by omega⟩
  exact List.ne_nil_of_mem hmem

end

/-! ## The text -/

/-- The command `add` with the index of the device, as the tool takes it. -/
def addCommand (id : Nat) : List Char := "add,id=".toList ++ Nat.toDigits 10 id

/-- The text of a list of queues. -/
def queueText (lr : ListRange) : List Char := (foundIndexes lr).flatMap indexText

/-- The text that is to be written for the command. -/
def addText (id : Nat) (lr : ListRange) : List Char := "cmd=".toList ++ addCommand id ++ ",qidxs=".toList ++ queueText lr

section

variable {mem : U32 → Bool} {lr : ListRange} {id : Nat} {cmd : List Char}

/-- The tool writes its text with a zero behind it, or it is out of memory, which needs a long text if all memory is there that is
asked for. -/
theorem nfbXdp_spec (hcmd : ("cmd=".toList ++ cmd ++ ",qidxs=".toList).length < 256) :
    cmdNdpNetdev mem .nfbXdp cmd lr = .ok ("cmd=".toList ++ cmd ++ ",qidxs=".toList ++ queueText lr ++ ['\x00']) ∨
      cmdNdpNetdev mem .nfbXdp cmd lr = .error (.errno eNomem) ∧
        ((∀ len : U32, 0 < len.toNat →
            len.toNat ≤ 2 * ("cmd=".toList ++ cmd ++ ",qidxs=".toList ++ queueText lr).length → mem len = true) →
          2 ^ 31 ≤ ("cmd=".toList ++ cmd ++ ",qidxs=".toList ++ queueText lr).length) := by
  have hpow : CBuffer.PowTwo { len := 256, text := "cmd=".toList ++ cmd ++ ",qidxs=".toList, fits := hcmd } := ⟨8, by decide, rfl⟩
  have hrun := @append_all mem _ (foundIndexes lr) (fun i hi => foundIndexes_lt hi) hpow
  unfold cmdNdpNetdev
  dsimp only
  rw [dif_pos hcmd, appendIndexes_eq]
  rcases hrun with ⟨b, hok, htext⟩ | ⟨herr, hwhy⟩
  · rw [hok]
    exact Or.inl (congrArg (fun t => Except.ok (t ++ ['\x00'])) htext)
  · rw [herr]
    exact Or.inr ⟨rfl, hwhy⟩

theorem never_overrun (ndd : Ndd) (cmd : List Char) (lr : ListRange) : cmdNdpNetdev mem ndd cmd lr ≠ .error .overrun := by
  cases ndd with
  | ndpNetdev =>
    unfold cmdNdpNetdev
    dsimp only
    split
    · split_ifs <;> intro h <;> cases h
    · intro h
      cases h
  | nfbXdp =>
    by_cases hcmd : ("cmd=".toList ++ cmd ++ ",qidxs=".toList).length < 256
    · rcases @nfbXdp_spec mem lr _ hcmd with hok | ⟨herr, -⟩
      · rw [hok]
        exact fun h => nomatch h
      · rw [herr]
        exact fun h => nomatch h
    · unfold cmdNdpNetdev
      dsimp only
      rw [dif_neg hcmd]
      exact fun h => nomatch h
  | other => exact fun h => nomatch h

/-! ### Reading it -/

theorem parse_queueText (l : List Nat) :
    parseQueues (((l.flatMap indexText).splitOn ':').map queueWord) = some (l.map (BitVec.ofNat 32)) := by
  induction l with
  | nil => rfl
  | cons i l ih =>
    have htext : (i :: l).flatMap indexText = Nat.toDigits 10 i ++ ':' :: l.flatMap indexText := by
      rw [List.flatMap_cons, indexText, List.append_assoc]
      rfl
    have hword : queueWord (Nat.toDigits 10 i) = .num (BitVec.ofNat 32 i) := by
      rw [queueWord, if_neg Nat.toDigits_ne_nil, scanUnsigned_decimal]
    rw [htext, List.splitOn_append_cons_self_of_not_mem (not_mem_decimal rfl), List.map_cons, hword, parseQueues, ih]
    rfl

theorem not_mem_queueText {c : Char} (hc : c.isDigit = false) (hcolon : c ≠ ':') : c ∉ queueText lr := by
  unfold queueText
  rw [List.mem_flatMap]
  rintro ⟨i, -, hm⟩
  rcases List.mem_append.1 hm with hm | hm
  · exact not_mem_decimal hc hm
  · exact hcolon (List.mem_singleton.1 hm)

theorem match_id : matchToken cmdTokens ("id=".toList ++ Nat.toDigits 10 id) = some (.id, Nat.toDigits 10 id) := by
  have hcmd : matchOne "cmd=%s".toList ("id=".toList ++ Nat.toDigits 10 id) = none := matchOne_ne (by decide) (by decide)
  have hid : matchOne "id=%d".toList ("id=".toList ++ Nat.toDigits 10 id) = some [Nat.toDigits 10 id] := by
    show matchOne ('i' :: 'd' :: '=' :: ['%', 'd']) ('i' :: 'd' :: '=' :: Nat.toDigits 10 id) = _
    rw [matchOne_literal (by decide), matchOne_literal (by decide), matchOne_literal (by decide), matchOne_decimal]
  exact (matchToken_skip hcmd).trans (matchToken_hit hid)

theorem match_qidxs {s : List Char} :
    matchToken cmdTokens ("qidxs=".toList ++ s) = if s = [] then none else some (.qidxs, s) := by
  have hcmd : matchOne "cmd=%s".toList ("qidxs=".toList ++ s) = none := matchOne_ne (by decide) (by decide)
  have hid : matchOne "id=%d".toList ("qidxs=".toList ++ s) = none := matchOne_ne (by decide) (by decide)
  have hq : matchOne "qidxs=%s".toList ("qidxs=".toList ++ s) = matchOne ['%', 's'] s := by
    show matchOne ('q' :: 'i' :: 'd' :: 'x' :: 's' :: '=' :: ['%', 's']) ('q' :: 'i' :: 'd' :: 'x' :: 's' :: '=' :: s) = _
    rw [matchOne_literal (by decide), matchOne_literal (by decide), matchOne_literal (by decide), matchOne_literal (by decide),
      matchOne_literal (by decide), matchOne_literal (by decide)]
  refine (matchToken_skip hcmd).trans ((matchToken_skip hid).trans ?_)
  by_cases hs : s = []
  · rw [if_pos hs]
    subst hs
    rfl
  · rw [if_neg hs]
    rw [matchOne_string hs] at hq
    exact matchToken_hit hq

theorem storeOption_cmd (o : CmdOptions) : storeOption o "cmd=add".toList = .ok { o with cmd := some "add".toList } := rfl

theorem storeOption_id (o : CmdOptions) (hid : id < 2 ^ 31) :
    storeOption o ("id=".toList ++ Nat.toDigits 10 id) = .ok { o with index := id } := by
  have hne : "id=".toList ++ Nat.toDigits 10 id ≠ [] := List.append_ne_nil_of_left_ne_nil (by decide) _
  rw [storeOption, if_neg hne, match_id]
  dsimp only
  rw [matchInt_decimal hid]
  rfl

theorem storeOption_qidxs (o : CmdOptions) (s : List Char) :
    storeOption o ("qidxs=".toList ++ s) = .ok (if s = [] then o else { o with queueString := some s }) := by
  have hne : "qidxs=".toList ++ s ≠ [] := List.append_ne_nil_of_left_ne_nil (by decide) _
  rw [storeOption, if_neg hne, match_qidxs]
  by_cases hs : s = []
  · rw [if_pos hs, if_pos hs]
  · rw [if_neg hs, if_neg hs]

theorem readOptions_addText (hid : id < 2 ^ 31) :
    readOptions (addText id lr) =
      .ok { cmd := some "add".toList, index := id, queueString := if queueText lr = [] then none else some (queueText lr) } := by
  have hsplit : addText id lr =
      "cmd=add".toList ++ ',' :: ("id=".toList ++ Nat.toDigits 10 id ++ ',' :: ("qidxs=".toList ++ queueText lr)) := by
    unfold addText addCommand
    simp
  have hcomma : ',' ∉ "id=".toList ++ Nat.toDigits 10 id := by
    intro hm
    rcases List.mem_append.1 hm with hm | hm
    · exact absurd hm (by decide)
    · exact not_mem_decimal rfl hm
  have hlast : ',' ∉ "qidxs=".toList ++ queueText lr := by
    intro hm
    rcases List.mem_append.1 hm with hm | hm
    · exact absurd hm (by decide)
    · exact not_mem_queueText rfl (by decide) hm
  unfold readOptions
  rw [hsplit, List.splitOn_append_cons_self_of_not_mem (by decide), List.splitOn_append_cons_self_of_not_mem hcomma,
    List.splitOn_eq_singleton hlast, List.foldlM_cons, storeOption_cmd]
  show (storeOption _ ("id=".toList ++ Nat.toDigits 10 id)).bind (fun o => (storeOption o ("qidxs=".toList ++ queueText lr)).bind .ok) = _
  rw [storeOption_id _ hid]
  show (storeOption _ ("qidxs=".toList ++ queueText lr)).bind .ok = _
  rw [storeOption_qidxs]
  by_cases hs : queueText lr = []
  · rw [if_pos hs, if_pos hs]
    rfl
  · rw [if_neg hs, if_neg hs]
    rfl

theorem cString_addText : cString (addText id lr ++ ['\x00']) = some (addText id lr) := by
  apply cString_append
  unfold addText addCommand
  intro hm
  rcases List.mem_append.1 hm with hm | hm
  · rcases List.mem_append.1 hm with hm | hm
    · rcases List.mem_append.1 hm with hm | hm
      · exact absurd hm (by decide)
      · rcases List.mem_append.1 hm with hm | hm
        · exact absurd hm (by decide)
        · exact not_mem_decimal rfl hm
    · exact absurd hm (by decide)
  · exact not_mem_queueText rfl (by decide) hm

theorem addCommand_fits (hid : id < 2 ^ 31) : ("cmd=".toList ++ addCommand id ++ ",qidxs=".toList).length < 256 := by
  have hlen : (Nat.toDigits 10 id).length ≤ 10 := (Nat.length_toDigits_le_iff (by decide) (by decide)).2 (by omega)
  unfold addCommand
  rw [List.length_append, List.length_append, List.length_append]
  have h1 : "cmd=".toList.length = 4 := rfl
  have h2 : "add,id=".toList.length = 7 := rfl
  have h3 : ",qidxs=".toList.length = 7 := rfl
  omega

end

/-! ## Both together -/

/-- The list that the device is to be created with: each listed queue once in increasing order, or all queues for the empty list. -/
structure Requests (lr : ListRange) (m : NfbXdp) (l : List U32) : Prop where
  sorted : l.Pairwise fun a b => a.toNat < b.toNat
  all : lr = [] → ∀ q, q ∈ l ↔ q.toNat < m.channelc.toNat
  listed : lr ≠ [] → ∀ q, q ∈ l ↔ Listed lr q.toNat

def pageSize : Nat := 4096

/-- A write to a file in sysfs hands over a page at most. -/
def sysfsBytes (buf : List Char) : List Char := buf.take pageSize

section

variable {mem : U32 → Bool} {lr : ListRange} {id : Nat} {m : NfbXdp} {buf : List Char} {env : AddEnv}

theorem mem_map_ofNat {l : List Nat} (hl : ∀ i ∈ l, i < 2 ^ 32) (q : U32) : q ∈ l.map (BitVec.ofNat 32) ↔ q.toNat ∈ l := by
  rw [List.mem_map]
  constructor
  · rintro ⟨i, hi, rfl⟩
    rwa [BitVec.toNat_ofNat, Nat.mod_eq_of_lt (hl i hi)]
  · intro hq
    exact ⟨q.toNat, hq, by simp⟩

theorem sorted_map_ofNat {l : List Nat} (hl : ∀ i ∈ l, i < 2 ^ 32) (h : l.Pairwise (· < ·)) :
    (l.map (BitVec.ofNat 32)).Pairwise fun a b => a.toNat < b.toNat := by
  rw [List.pairwise_map]
  refine h.imp_of_mem ?_
  intro a b ha hb hab
  rw [BitVec.toNat_ofNat, BitVec.toNat_ofNat, Nat.mod_eq_of_lt (hl a ha), Nat.mod_eq_of_lt (hl b hb)]
  exact hab

/-- The written text makes the driver call `create_ethdev` with the listed queues. -/
theorem storeCall_addText (hid : id < 2 ^ 31) (hlr : QueueList lr) :
    ∃ l, storeCall (addText id lr ++ ['\x00']) m = some (BitVec.ofNat 16 id, l) ∧ Requests lr m l := by
  have hzero : (addText id lr ++ ['\x00']).getLast? = some '\x00' := List.getLast?_concat
  have hid0 : (id : Int) ≠ -1 := by omega
  have hword : cmdWord "add".toList = .add := rfl
  unfold storeCall
  rw [if_neg (not_not_intro hzero), cString_addText, Option.getD_some, readOptions_addText hid]
  dsimp only
  rw [Option.map_some, hword, if_neg (by rintro (h | h); exacts [hid0 h, h rfl])]
  by_cases hlist : lr = []
  · subst hlist
    have hr : ∀ i ∈ List.range m.channelc.toNat, i < 2 ^ 32 := by
      intro i hi
      have := List.mem_range.1 hi
      have := m.channelc.isLt
      omega
    refine ⟨_, rfl, sorted_map_ofNat hr List.pairwise_lt_range, ?_, fun h => absurd rfl h⟩
    intro _ q
    rw [mem_map_ofNat hr, List.mem_range]
  · have hfound : ∀ i ∈ foundIndexes lr, i < 2 ^ 32 := fun i hi => by have := foundIndexes_lt hi; omega
    have htext : queueText lr ≠ [] := by
      obtain ⟨i, l, hl⟩ := List.exists_cons_of_ne_nil (foundIndexes_ne_nil hlr hlist)
      unfold queueText
      rw [hl, List.flatMap_cons, indexText]
      simp
    rw [if_neg htext]
    dsimp only
    rw [show queueText lr = (foundIndexes lr).flatMap indexText from rfl, parse_queueText]
    refine ⟨_, rfl, sorted_map_ofNat hfound (foundIndexes_sorted lr), fun h => absurd h hlist, ?_⟩
    intro _ q
    rw [mem_map_ofNat hfound, mem_foundIndexes hlr]

/-- With memory for the list, the call is made and its result is the result of the write. -/
theorem cmdStoreText_of_call {index : U16} {l : List U32} (h : storeCall buf m = some (index, l)) (henv : env.queues = true) :
    cmdStoreText env buf m = ((createEthdev env index l m).1,
      if (createEthdev env index l m).2 ≠ 0 then (createEthdev env index l m).2 else buf.length) := by
  unfold storeCall at h
  by_cases hzero : buf.getLast? ≠ some '\x00'
  · rw [if_pos hzero] at h
    cases h
  · rw [if_neg hzero] at h
    cases ho : readOptions ((cString buf).getD []) with
    | error e =>
      rw [ho] at h
      cases h
    | ok o =>
      rw [ho] at h
      dsimp only at h
      by_cases hcmd : o.index = -1 ∨ o.cmd.map cmdWord ≠ some .add
      · rw [if_pos hcmd] at h
        cases h
      · rw [if_neg hcmd] at h
        rw [not_or, not_not] at hcmd
        have hstore : cmdStore (o.toWrite env) m = createEthdev env index l m := by
          unfold cmdStore CmdOptions.toWrite
          dsimp only
          rw [hcmd.2, if_neg (by rintro (h' | h'); exacts [Option.some_ne_none _ h', hcmd.1 h'])]
          dsimp only
          cases hq : o.queueString with
          | none =>
            rw [hq] at h
            cases h
            dsimp only [Option.map_none]
            rw [henv, if_neg (by decide)]
          | some s =>
            rw [hq] at h
            dsimp only at h
            obtain ⟨k, hk, hkl⟩ := Option.map_eq_some_iff.1 h
            cases hkl
            dsimp only [Option.map_some]
            rw [hk]
            dsimp only
            rw [henv, if_neg (fun h' => absurd rfl h'.1)]
        unfold cmdStoreText
        rw [if_neg hzero, ho]
        dsimp only
        rw [hstore]

end

/-- With an id in its command, the tool keeps to its buffer; what it writes within a page makes the driver create a device of that id with
the listed queues; and it writes its text if that fits a page and there is memory for two. -/
theorem netdev_add_creates (mem : U32 → Bool) {id : Nat} {lr : ListRange} (hid : id < 2 ^ 31) (hlr : QueueList lr) (m : NfbXdp) :
    (∀ ndd cmd l, cmdNdpNetdev mem ndd cmd l ≠ .error .overrun) ∧
      (∀ buf, cmdNdpNetdev mem .nfbXdp (addCommand id) lr = .ok buf → buf.length ≤ pageSize →
        ∃ l, storeCall (sysfsBytes buf) m = some (BitVec.ofNat 16 id, l) ∧ Requests lr m l) ∧
      ((∀ len : U32, 0 < len.toNat → len.toNat ≤ 2 * pageSize → mem len = true) → (addText id lr).length < pageSize →
        cmdNdpNetdev mem .nfbXdp (addCommand id) lr = .ok (addText id lr ++ ['\x00'])) := by
  have hspec := @nfbXdp_spec mem lr _ (addCommand_fits hid)
  refine ⟨never_overrun, ?_, ?_⟩
  · intro buf hbuf hpage
    rcases hspec with hok | ⟨herr, -⟩
    · rw [hok] at hbuf
      cases hbuf
      rw [sysfsBytes, List.take_of_length_le hpage]
      exact storeCall_addText hid hlr
    · rw [herr] at hbuf
      cases hbuf
  · intro hmem hlen
    rcases hspec with hok | ⟨-, hwhy⟩
    · exact hok
    · have hlong : 2 ^ 31 ≤ (addText id lr).length := by
        apply hwhy
        intro len hpos hle
        apply hmem len hpos
        have hle' : len.toNat ≤ 2 * (addText id lr).length := hle
        omega
      unfold pageSize at hlen
      omega

def oneTwo : ListRange := [{ min := 1, max := 2, ordered := by decide }]

theorem netdev_add_one_two :
    ∃ l, storeCall (sysfsBytes ("cmd=add,id=7,qidxs=1:2:".toList ++ ['\x00'])) { channelc := 4, listDevices := [] } = some (7, l) ∧
      Requests oneTwo { channelc := 4, listDevices := [] } l := by
  have hlr : QueueList oneTwo := by unfold QueueList oneTwo; decide
  exact (@netdev_add_creates (fun _ => true) 7 oneTwo (by decide) hlr _).2.1 _ rfl (by decide)

def goodEnv : AddEnv := { queues := true, etherdev := true, channels := true, macs := true, openMacs := true, register := 0 }

/-- Without an id the command is refused, whatever the list; and with one, an index that is negative is dropped, so that all queues are
taken. -/
theorem netdev_add_refused :
    (cmdNdpNetdev (fun _ => true) .nfbXdp "add".toList oneTwo = .ok ("cmd=add,qidxs=1:2:".toList ++ ['\x00']) ∧
        (cmdStoreText goodEnv (sysfsBytes ("cmd=add,qidxs=1:2:".toList ++ ['\x00'])) { channelc := 4, listDevices := [] }).2 = eInval) ∧
      cmdNdpNetdev (fun _ => true) .nfbXdp (addCommand 7) [{ min := -1, max := -1, ordered := by decide }] =
          .ok ("cmd=add,id=7,qidxs=".toList ++ ['\x00']) ∧
        storeCall (sysfsBytes ("cmd=add,id=7,qidxs=".toList ++ ['\x00'])) { channelc := 4, listDevices := [] } = some (7, [0, 1, 2, 3]) := by
  refine ⟨⟨rfl, by decide⟩, rfl, by decide⟩

end NdkSw.Xdp

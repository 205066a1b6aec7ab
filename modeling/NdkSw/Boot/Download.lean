/-
Downloading a file from the BMC (`nc_bw_bmc_download_file`): each round asks for 512 bytes from an offset on and takes as many as the answer
says, but not more than there is room for. The minimum of the two is signed, and the check of the received length adds it in 32 bits, so that
a negative number of bytes may pass.
-/
import NdkSw.Boot.FileUpload
import NdkSw.Bits.Narrow

namespace NdkSw.Boot

open Ndp Shared

/-! ## A round -/

/-- A number in the bytes of an answer. -/
def u32At (bytes : List U8) (pos : Nat) : U32 :=
  let byte (i : Nat) : U32 := (bytes.getD (pos + i) 0).setWidth 32
  byte 0 ||| (byte 1 <<< 8) ||| (byte 2 <<< 16) ||| (byte 3 <<< 24)

/-- `nc_bw_bmc_pop_uint32`, with the value that is there so far. -/
def popUint32 (spi : BwBmc) (val : U32) : Int × U32 × BwBmc :=
  if spi.recvLen < (spi.pos + 4) % 2 ^ 32 then (eNomem, val, spi)
  else (0, u32At spi.buffer spi.pos, { spi with pos := (spi.pos + 4) % 2 ^ 32 })

/-- A copy of received bytes: where it starts in the buffer of the caller and in the answer, its length, and the length of the answer. -/
structure Copy where
  dst : Nat
  src : Nat
  count : Nat
  received : Nat
  deriving DecidableEq, Repr

/-- `nc_bw_bmc_pop` of so many bytes to an offset of the caller's buffer. -/
def popData (spi : BwBmc) (offset count : U32) : Int × Option Copy × BwBmc :=
  if spi.recvLen < (spi.pos + count.toNat) % 2 ^ 32 then (eNomem, none, spi)
  else (0, some ⟨offset.toNat, spi.pos, count.toNat, spi.recvLen⟩, { spi with pos := (spi.pos + count.toNat) % 2 ^ 32 })

/-- A copy inside the buffer of the caller and inside the answer. -/
def Copy.Inside (len : Nat) (c : Copy) : Prop := c.dst + c.count ≤ len ∧ c.src + c.count ≤ c.received

instance (len : Nat) (c : Copy) : Decidable (c.Inside len) := inferInstanceAs (Decidable (_ ∧ _))

/-- The headers and numbers of an answer: the result, the completion code and the count of the bytes, with the count that is there so far. -/
def popNumbers (spi : BwBmc) (count : U32) : Int × U8 × U32 × BwBmc :=
  let r₁ := popMctpHeader spi
  let r₂ := popPldmHeader r₁.2
  let r₃ := popUint8 r₂.2 0
  -- the offset of the answer is not looked at
  let r₄ := popUint32 r₃.2.2 (BitVec.allOnes 32)
  let r₅ := popUint32 r₄.2.2 count
  (orRet (orRet (orRet (orRet r₁.1 r₂.1) r₃.1) r₄.1) r₅.1, r₃.2.1, r₅.2.1, r₅.2.2)

/-- Fields one after the other, with the result of all of them. -/
def putChecked (spi : BwBmc) (fields : List (List U8)) : Int × BwBmc :=
  fields.foldl (fun r bytes => (orRet r.1 (push r.2 bytes).1, (push r.2 bytes).2)) (mctpHeaderDefault spi)

/-- The fields of a request. -/
def downloadFields (path : List U8) (offset : U32) : List (List U8) :=
  [pldmVndr 0x14, le32 offset, le32 512, le32 (BitVec.ofNat 32 path.length), path.take (BitVec.ofNat 32 path.length).toNat]

/-- How a download ends: with a return, or with a copy to or from other places, behind which nothing is modelled. -/
inductive Ending where
  | returned (ret : Int)
  | outside
  deriving DecidableEq, Repr

/-- What a round leaves. -/
structure Round where
  copies : List Copy
  held : Nat → Option U8
  count : U32
  spi : BwBmc
  ending : Option Ending

/-- A round, up to the test of the completion code. -/
def downloadRound (path : List U8) (len : U32) (reply : Reply) (spi : BwBmc) (offset count : U32) (held : Nat → Option U8) : Round :=
  let msg := putChecked spi (downloadFields path offset)
  if msg.1 ≠ 0 then ⟨[], held, count, msg.2, some (.returned msg.1)⟩
  else if reply.send ≠ 0 then ⟨[], held, count, msg.2, some (.returned reply.send)⟩
  else
    let r := receiveMctp msg.2 reply
    if r.1 ≠ 0 then ⟨[], held, count, r.2, some (.returned r.1)⟩
    else
      let a := popNumbers r.2 count
      let p := popData a.2.2.2 offset (bmcMin (len - offset) a.2.2.1)
      let ret := orRet a.1 p.1
      let ending := if ret ≠ 0 then some (Ending.returned ret) else if a.2.1 ≠ 0 then some (.returned eCanceled) else none
      match p.2.1 with
      | none => ⟨[], held, a.2.2.1, p.2.2, ending⟩
      | some c =>
        if c.Inside len.toNat then
          ⟨[c], storeList held c.dst ((a.2.2.2.buffer.drop c.src).take c.count), a.2.2.1, p.2.2, ending⟩
        else ⟨[c], held, a.2.2.1, p.2.2, some .outside⟩

/-! ## The loop -/

/-- A download: its copies, the buffer, how it ends, and how many answers were taken in full. -/
structure DownloadRun where
  copies : List Copy
  held : Nat → Option U8
  ending : Ending
  answers : Nat

section

variable (path : List U8) (len : U32) (replies : Nat → Reply)

/-- The loop, from round `k` on; no run if it needs more rounds. -/
def downloadLoop : Nat → Nat → BwBmc → U32 → U32 → (Nat → Option U8) → Option DownloadRun
  | 0, _, _, _, _, _ => none
  | fuel + 1, k, spi, offset, count, held =>
    let r := downloadRound path len (replies k) spi offset count held
    match r.ending with
    | some ending => some ⟨r.copies, r.held, ending, k⟩
    | none =>
      let offset := offset + r.count
      if r.count = 512 then
        (downloadLoop fuel (k + 1) r.spi offset r.count r.held).map fun run => { run with copies := r.copies ++ run.copies }
      else some ⟨r.copies, r.held, .returned offset.toInt, k + 1⟩

/-- `nc_bw_bmc_download_file`; the count of the answer has some value before the first one. -/
def downloadFile (fuel : Nat) (spi : BwBmc) (count : U32) : Option DownloadRun :=
  downloadLoop path len replies fuel 0 spi 0 count fun _ => none

end

/-! ## What is asked of a download -/

/-- The data of an answer. -/
def payload (response : List U8) : List U8 := (response.drop 17).take (u32At response 13).toNat

/-- The data of the first answers. -/
def payloads (replies : Nat → Reply) (n : Nat) : List U8 := (List.range n).flatMap fun k => payload (replies k).response

/-- All copies are inside, and if as many bytes are returned as fit, they are the data of the answers. -/
structure DownloadOk (len : Nat) (replies : Nat → Reply) (run : DownloadRun) : Prop where
  copies : ∀ c ∈ run.copies, c.Inside len
  bytes : ∀ n : Nat, run.ending = .returned n → n ≤ len → (payloads replies run.answers).length = n ∧
    ∀ i < n, run.held i = (payloads replies run.answers)[i]?

/-! ## When it is right -/

/-- The position behind the numbers of an answer of `n` bytes; a number that is not there moves nothing. -/
def answerPos (pathLen n : Nat) : Nat :=
  if n < 4 then 20 + pathLen else if n < 5 then 4 else if n < 8 then 5 else if n < 9 then 8 else if n < 13 then 9 else if n < 17 then 13 else 17

/-- The count of an answer; a short answer leaves the one before it. -/
def answerCount (response : List U8) (count : U32) : U32 := if response.length < 17 then count else u32At response 13

/-- The offset of a round. -/
def offsetAt (k : Nat) : U32 := BitVec.ofNat 32 (512 * k)

/-- The count before a round. -/
def countBefore (count : U32) (k : Nat) : U32 := if k = 0 then count else 512

/-- The result of the send and of the receive. -/
def exchangeResult (bufLen : Nat) (reply : Reply) : Int :=
  if reply.send ≠ 0 then reply.send
  else if reply.recv ≠ 0 then reply.recv
  else if bufLen < reply.response.length then reply.response.length - bufLen else 0

/-- The room for the bytes of round `k` and the count of its answer, of which the smaller one is taken. -/
def amountAt (len : U32) (k : Nat) (count : U32) : U32 := bmcMin (len - offsetAt k) count

/-- An answer behind which another round follows. -/
structure FullAnswer (bufLen : Nat) (len : U32) (k : Nat) (reply : Reply) : Prop where
  exchange : exchangeResult bufLen reply = 0
  code : reply.response.getD 8 0 = 0
  count : u32At reply.response 13 = 512
  nonneg : 0 ≤ (amountAt len k 512).toInt
  long : 17 + (amountAt len k 512).toNat ≤ reply.response.length

/-- A negative number of bytes passes the check of the received length. -/
def NegativePasses (amount : U32) (pos received : Nat) : Prop := amount.toInt < 0 ∧ (pos + amount.toNat) % 2 ^ 32 ≤ received

/-- What is asked of round `k`: no positive result of the exchange that is taken for another length, and no negative number of bytes. -/
structure RoundFits (pathLen bufLen : Nat) (len count : U32) (replies : Nat → Reply) (k : Nat) : Prop where
  exchange : 0 < exchangeResult bufLen (replies k) → exchangeResult bufLen (replies k) ≤ len.toNat →
    exchangeResult bufLen (replies k) = (payloads replies k).length
  amount : exchangeResult bufLen (replies k) = 0 →
    ¬ NegativePasses (amountAt len k (answerCount (replies k).response (countBefore count k)))
      (answerPos pathLen (replies k).response.length) (replies k).response.length

/-- This of every round that is reached, if the request fits into the buffer. -/
def DownloadFits (path : List U8) (bufLen : Nat) (len count : U32) (replies : Nat → Reply) : Prop :=
  20 + path.length ≤ bufLen → ∀ k, (∀ j < k, FullAnswer bufLen len j (replies j)) → RoundFits path.length bufLen len count replies k

/-! ## Requests -/

variable {pathLen n : Nat} {response : List U8}

section

variable {path buffer : List U8} {spi : BwBmc}

/-- Fields that fit give no error, others do. -/
theorem foldl_checked : ∀ (fields : List (List U8)) (ret : Int) (spi : BwBmc), (∀ b ∈ fields, b.length < 2 ^ 31) →
    spi.pos ≤ spi.buffer.length → spi.buffer.length < 2 ^ 31 →
    ∃ ret' spi', fields.foldl (fun r bytes => (orRet r.1 (push r.2 bytes).1, (push r.2 bytes).2)) (ret, spi) = (ret', spi') ∧
      spi'.buffer.length = spi.buffer.length ∧
      (ret = 0 → spi.pos + fields.flatten.length ≤ spi.buffer.length → ret' = 0 ∧ spi'.pos = spi.pos + fields.flatten.length) ∧
      (ret = 0 → spi.buffer.length < spi.pos + fields.flatten.length → ret' = eNomem) ∧ (ret ≠ 0 → ret' = ret) := by
  intro fields
  induction fields with
  | nil =>
    intro ret spi _ _ _
    refine ⟨ret, spi, rfl, rfl, fun h _ => ⟨h, rfl⟩, ?_, fun _ => rfl⟩
    intro _ hlt
    rw [List.flatten_nil, List.length_nil] at hlt
    omega
  | cons b fields ih =>
    intro ret spi hshort hpos hbuf
    have hb := hshort b List.mem_cons_self
    have hshort' : ∀ b ∈ fields, b.length < 2 ^ 31 := fun b hb => hshort b (List.mem_cons_of_mem _ hb)
    have hmod : (spi.pos + b.length) % 2 ^ 32 = spi.pos + b.length := Nat.mod_eq_of_lt (by omega)
    rw [List.foldl_cons, List.flatten_cons, List.length_append]
    by_cases hfits : spi.buffer.length < spi.pos + b.length
    · have hpush : push spi b = (eNomem, spi) := by
        unfold push
        rw [hmod, if_pos hfits]
      rw [hpush]
      -- the first field that does not fit decides the result
      obtain ⟨ret', spi', hrun, hlen, -, -, hret⟩ := ih (orRet ret eNomem) spi hshort' hpos hbuf
      have hne : orRet ret eNomem ≠ 0 := by
        unfold orRet
        split_ifs with h
        · decide
        · exact h
      refine ⟨ret', spi', hrun, hlen, fun _ h => by omega, ?_, ?_⟩
      · intro h _
        rw [hret hne, h]
        rfl
      · intro h
        rw [hret hne]
        exact if_neg h
    · have hpush : push spi b = (0, { spi with buffer := storeBytes spi.buffer spi.pos b, pos := spi.pos + b.length }) := by
        unfold push
        rw [hmod, if_neg hfits]
      have hret : orRet ret 0 = ret := by
        unfold orRet
        split_ifs with h
        · exact h.symm
        · rfl
      have hstored := length_storeBytes spi.buffer spi.pos b
      rw [hpush, hret]
      obtain ⟨ret', spi', hrun, hlen, hok, herr, hkeep⟩ := ih ret { spi with buffer := storeBytes spi.buffer spi.pos b, pos := spi.pos + b.length }
        hshort' (by dsimp only; omega) (by dsimp only; omega)
      dsimp only at hlen hok herr
      rw [hstored] at hlen hok herr
      refine ⟨ret', spi', hrun, hlen, ?_, ?_, hkeep⟩
      · intro h hle
        obtain ⟨hzero, hpos'⟩ := hok h (by omega)
        exact ⟨hzero, by omega⟩
      · exact fun h hlt => herr h (by omega)

/-- A request that fits is put together; another one is an error. -/
theorem putChecked_download (offset : U32) (hpath : path.length < 2 ^ 31) (hbuf : spi.buffer.length < 2 ^ 31) :
    (20 + path.length ≤ spi.buffer.length → ∃ spi', putChecked spi (downloadFields path offset) = (0, spi') ∧
      spi'.buffer.length = spi.buffer.length ∧ spi'.pos = 20 + path.length) ∧
      (spi.buffer.length < 20 + path.length → (putChecked spi (downloadFields path offset)).1 = eNomem) := by
  have htake : path.take (BitVec.ofNat 32 path.length).toNat = path := by
    rw [BitVec.toNat_ofNat, Nat.mod_eq_of_lt (by omega), List.take_length]
  have hfields : downloadFields path offset = [pldmVndr 0x14, le32 offset, le32 512, le32 (BitVec.ofNat 32 path.length), path] := by
    unfold downloadFields
    rw [htake]
  have hflat : (downloadFields path offset).flatten.length = 16 + path.length := by
    rw [hfields]
    simp [pldmVndr, le32]
    omega
  have hshort : ∀ b ∈ downloadFields path offset, b.length < 2 ^ 31 := by
    rw [hfields]
    simpa [pldmVndr, le32] using hpath
  unfold putChecked
  by_cases hsmall : spi.buffer.length < 4
  · have hheader : mctpHeaderDefault spi = (eNomem, spi) := if_pos hsmall
    refine ⟨fun h => by omega, fun _ => ?_⟩
    -- the result is never taken back
    have hkeep : ∀ (fields : List (List U8)) (spi : BwBmc), (fields.foldl (fun r bytes => (orRet r.1 (push r.2 bytes).1, (push r.2 bytes).2))
        (eNomem, spi)).1 = eNomem := by
      intro fields
      induction fields with
      | nil => exact fun _ => rfl
      | cons b fields ih =>
        intro spi
        exact ih (push spi b).2
    rw [hheader]
    exact hkeep _ spi
  · have hheader : mctpHeaderDefault spi = (0, { spi with buffer := storeBytes spi.buffer 0 mctpHeader, pos := 4 }) := if_neg hsmall
    have hstored := length_storeBytes spi.buffer 0 mctpHeader
    rw [hheader]
    obtain ⟨ret', spi', hrun, hlen, hok, herr, -⟩ := foldl_checked (downloadFields path offset) 0
      { spi with buffer := storeBytes spi.buffer 0 mctpHeader, pos := 4 } hshort (by dsimp only; omega) (by dsimp only; omega)
    dsimp only at hlen hok herr
    rw [hstored, hflat] at hok herr
    rw [hrun]
    constructor
    · intro hle
      obtain ⟨rfl, hpos⟩ := hok rfl (by omega)
      exact ⟨spi', rfl, hlen.trans hstored, by omega⟩
    · exact fun hlt => herr rfl (by omega)

/-! ## Answers -/

theorem popNumbers_long (h : 17 ≤ spi.recvLen) (count : U32) :
    popNumbers spi count = (0, spi.buffer.getD 8 0, u32At spi.buffer 13, { spi with pos := 17 }) := by
  have h₁ : popMctpHeader spi = (0, { spi with pos := 4 }) := if_neg (by omega)
  have h₂ : popPldmHeader { spi with pos := 4 } = (0, { spi with pos := 8 }) := if_neg (by dsimp only; omega)
  have h₃ : popUint8 { spi with pos := 8 } 0 = (0, spi.buffer.getD 8 0, { spi with pos := 9 }) := if_neg (by dsimp only; omega)
  have h₄ : popUint32 { spi with pos := 9 } (BitVec.allOnes 32) = (0, u32At spi.buffer 9, { spi with pos := 13 }) :=
    if_neg (by dsimp only; omega)
  have h₅ : popUint32 { spi with pos := 13 } count = (0, u32At spi.buffer 13, { spi with pos := 17 }) := if_neg (by dsimp only; omega)
  unfold popNumbers
  simp only [h₁, h₂, h₃, h₄, h₅]
  rfl

/-- A shorter answer is an error, at the position of the first number that is not there. -/
theorem popNumbers_short (h : spi.recvLen < 17) (hpos : spi.pos = 20 + pathLen) (hpath : pathLen < 2 ^ 31) (count : U32) :
    (popNumbers spi count).1 = eNomem ∧ (popNumbers spi count).2.2.1 = count ∧
      (popNumbers spi count).2.2.2 = { spi with pos := answerPos pathLen spi.recvLen } := by
  obtain ⟨buffer, recvLen, pos⟩ := spi
  dsimp only at h hpos ⊢
  rw [hpos]
  by_cases hmctp : recvLen < 4
  · have h₁ : ¬ (20 + pathLen + 1) % 2 ^ 32 ≤ recvLen := by omega
    have h₄ : ¬ (20 + pathLen + 4) % 2 ^ 32 ≤ recvLen := by omega
    have hpos : answerPos pathLen recvLen = 20 + pathLen := if_pos hmctp
    rw [hpos]
    simp only [popNumbers, popMctpHeader, if_pos hmctp, popPldmHeader, if_pos (not_le.1 h₄), popUint8, if_pos (not_le.1 h₁), popUint32]
    exact ⟨rfl, trivial, trivial⟩
  · -- the first number that is missing decides, and all that follow are missing too
    rcases lt_or_ge recvLen 5 with h₅ | h₅
    · have h₈ : recvLen < 8 := by omega
      simp [popNumbers, popMctpHeader, popPldmHeader, popUint8, popUint32, answerPos, orRet, eNomem, hmctp, h₅, h₈]
    · rcases lt_or_ge recvLen 8 with h₈ | h₈
      · have h₉ : recvLen < 9 := by omega
        simp [popNumbers, popMctpHeader, popPldmHeader, popUint8, popUint32, answerPos, orRet, eNomem, hmctp, not_lt.2 h₅, h₈, h₉]
      · rcases lt_or_ge recvLen 9 with h₉ | h₉
        · have h₁₂ : recvLen < 12 := by omega
          simp [popNumbers, popMctpHeader, popPldmHeader, popUint8, popUint32, answerPos, orRet, eNomem, hmctp, not_lt.2 h₅, not_lt.2 h₈, h₉, h₁₂]
        · rcases lt_or_ge recvLen 13 with h₁₃ | h₁₃
          · simp [popNumbers, popMctpHeader, popPldmHeader, popUint8, popUint32, answerPos, orRet, eNomem, hmctp, not_lt.2 h₅, not_lt.2 h₈,
              not_lt.2 h₉, h₁₃]
          · simp [popNumbers, popMctpHeader, popPldmHeader, popUint8, popUint32, answerPos, orRet, eNomem, hmctp, not_lt.2 h₅, not_lt.2 h₈,
              not_lt.2 h₉, not_lt.2 h₁₃, h]

theorem receiveMctp_ok {reply : Reply} (hrecv : reply.recv = 0) (hfits : reply.response.length ≤ spi.buffer.length) :
    receiveMctp spi reply = (0, { spi with buffer := storeBytes spi.buffer 0 reply.response, recvLen := reply.response.length }) := by
  unfold receiveMctp
  rw [if_neg (not_not.2 hrecv), if_neg (not_lt.2 hfits)]

theorem getD_storeBytes (hfits : response.length ≤ buffer.length) {i : Nat} (hi : i < response.length) :
    (storeBytes buffer 0 response).getD i 0 = response.getD i 0 := by
  have hstored := take_storeBytes buffer 0 response (by omega)
  have hbyte : (storeBytes buffer 0 response)[i]? = response[i]? := by
    rw [← List.getElem?_take_of_lt (show i < 0 + response.length by omega), hstored]
    rfl
  rw [List.getD_eq_getElem?_getD, hbyte, List.getD_eq_getElem?_getD]

theorem u32At_storeBytes (hfits : response.length ≤ buffer.length) {pos : Nat} (hpos : pos + 4 ≤ response.length) :
    u32At (storeBytes buffer 0 response) pos = u32At response pos := by
  unfold u32At
  dsimp only
  rw [getD_storeBytes hfits (by omega), getD_storeBytes hfits (by omega), getD_storeBytes hfits (by omega), getD_storeBytes hfits (by omega)]

theorem drop_take_storeBytes (hfits : response.length ≤ buffer.length) {pos : Nat} (h : pos + n ≤ response.length) :
    ((storeBytes buffer 0 response).drop pos).take n = (response.drop pos).take n := by
  have hstored := take_storeBytes buffer 0 response (by omega)
  rw [Nat.zero_add, List.take_zero, List.nil_append] at hstored
  have htake : (storeBytes buffer 0 response).take (pos + n) = response.take (pos + n) :=
    calc (storeBytes buffer 0 response).take (pos + n)
        _ = ((storeBytes buffer 0 response).take response.length).take (pos + n) := by rw [List.take_take, Nat.min_eq_left h]
        _ = response.take (pos + n) := by rw [hstored]
  rw [List.take_drop, htake, ← List.take_drop]

/-! ## A round -/

variable {len count : U32} {reply : Reply} {offset : U32} {held : Nat → Option U8}

theorem downloadRound_failed (hpath : path.length < 2 ^ 31) (hbuf : spi.buffer.length < 2 ^ 31) (hfits : 20 + path.length ≤ spi.buffer.length)
    (hne : exchangeResult spi.buffer.length reply ≠ 0) : ∃ spi', downloadRound path len reply spi offset count held =
      ⟨[], held, count, spi', some (.returned (exchangeResult spi.buffer.length reply))⟩ := by
  obtain ⟨spi₁, hmsg, hlen, -⟩ := (putChecked_download offset hpath hbuf).1 hfits
  have hzero : ¬ ((0 : Int) ≠ 0) := not_not.2 rfl
  by_cases hsend : reply.send ≠ 0
  · have hres : exchangeResult spi.buffer.length reply = reply.send := if_pos hsend
    refine ⟨spi₁, ?_⟩
    rw [hres]
    unfold downloadRound
    rw [hmsg]
    dsimp only
    rw [if_neg hzero, if_pos hsend]
  · have hreceive : (receiveMctp spi₁ reply).1 = exchangeResult spi.buffer.length reply := by
      unfold receiveMctp exchangeResult
      rw [hlen, if_neg hsend]
      split_ifs
      · rfl
      · rfl
      · rfl
    refine ⟨(receiveMctp spi₁ reply).2, ?_⟩
    rw [← hreceive] at hne ⊢
    unfold downloadRound
    rw [hmsg]
    dsimp only
    rw [if_neg hzero, if_neg hsend, if_pos hne]

/-- The end of a round behind its copy. -/
def answerEnding (response : List U8) : Option Ending :=
  if response.length < 17 then some (.returned eNomem) else if response.getD 8 0 ≠ 0 then some (.returned eCanceled) else none

/-- The copy of a round. -/
def answerCopy (pathLen : Nat) (offset amount : U32) (response : List U8) : Copy :=
  ⟨offset.toNat, answerPos pathLen response.length, amount.toNat, response.length⟩

theorem exchangeResult_eq_zero {bufLen : Nat} (h : exchangeResult bufLen reply = 0) :
    reply.send = 0 ∧ reply.recv = 0 ∧ reply.response.length ≤ bufLen := by
  unfold exchangeResult at h
  split_ifs at h with hsend hrecv hlong
  · exact absurd h hsend
  · exact absurd h hrecv
  · omega
  · exact ⟨not_not.1 hsend, not_not.1 hrecv, not_lt.1 hlong⟩

/-- The numbers of an answer that was received. -/
theorem popNumbers_received (hpath : pathLen < 2 ^ 31) (hpos : spi.pos = 20 + pathLen) (hfits : reply.response.length ≤ spi.buffer.length)
    {received : BwBmc}
    (hreceived : received = { spi with buffer := storeBytes spi.buffer 0 reply.response, recvLen := reply.response.length }) (count : U32) :
    (popNumbers received count).2.2.1 = answerCount reply.response count ∧
      (popNumbers received count).2.2.2 = { received with pos := answerPos pathLen reply.response.length } ∧
      (reply.response.length < 17 → (popNumbers received count).1 = eNomem) ∧
      (17 ≤ reply.response.length → (popNumbers received count).1 = 0 ∧ (popNumbers received count).2.1 = reply.response.getD 8 0) := by
  have hrecv : received.recvLen = reply.response.length := by rw [hreceived]
  have hbytes : received.buffer = storeBytes spi.buffer 0 reply.response := by rw [hreceived]
  unfold answerCount
  rcases lt_or_ge reply.response.length 17 with hshort | hlong
  · obtain ⟨hret, hcount, hspi⟩ := popNumbers_short (hrecv ▸ hshort) (show received.pos = 20 + pathLen by rw [hreceived]; exact hpos) hpath count
    rw [if_pos hshort, ← hrecv]
    exact ⟨hcount, hspi, fun _ => hret, fun h => absurd hshort (not_lt.2 (hrecv ▸ h))⟩
  · have hlast : answerPos pathLen reply.response.length = 17 := by
      unfold answerPos
      rw [if_neg (by omega), if_neg (by omega), if_neg (by omega), if_neg (by omega), if_neg (by omega), if_neg (by omega)]
    rw [popNumbers_long (hrecv ▸ hlong), hlast, if_neg (not_lt.2 hlong), hbytes]
    dsimp only
    rw [getD_storeBytes hfits (by omega), u32At_storeBytes hfits (by omega)]
    exact ⟨rfl, rfl, fun h => absurd h (not_lt.2 hlong), fun _ => ⟨rfl, rfl⟩⟩

/-- A round with an answer. -/
theorem downloadRound_answer (hpath : path.length < 2 ^ 31) (hbuf : spi.buffer.length < 2 ^ 31) (hfits : 20 + path.length ≤ spi.buffer.length)
    (hok : exchangeResult spi.buffer.length reply = 0) {n : U32} (hn : n = bmcMin (len - offset) (answerCount reply.response count))
    {c : Copy} (hc : c = answerCopy path.length offset n reply.response) :
    ∃ spi', spi'.buffer.length = spi.buffer.length ∧ downloadRound path len reply spi offset count held =
      if reply.response.length < (c.src + c.count) % 2 ^ 32 then ⟨[], held, answerCount reply.response count, spi', some (.returned eNomem)⟩
      else if c.Inside len.toNat then
        ⟨[c], storeList held c.dst ((reply.response.drop c.src).take c.count), answerCount reply.response count, spi', answerEnding reply.response⟩
      else ⟨[c], held, answerCount reply.response count, spi', some .outside⟩ := by
  obtain ⟨spi₁, hmsg, hlen, hpos⟩ := (putChecked_download offset hpath hbuf).1 hfits
  obtain ⟨hsend, hrecv, hlong⟩ := exchangeResult_eq_zero hok
  rw [← hlen] at hlong
  obtain ⟨received, hreceived⟩ : ∃ received : BwBmc,
    received = { spi₁ with buffer := storeBytes spi₁.buffer 0 reply.response, recvLen := reply.response.length } := ⟨_, rfl⟩
  have hreceive : receiveMctp spi₁ reply = (0, received) := by rw [receiveMctp_ok hrecv hlong, hreceived]
  obtain ⟨hcount, hspi, hshort, hcode⟩ := popNumbers_received hpath hpos hlong hreceived count
  have hzero : ¬ ((0 : Int) ≠ 0) := not_not.2 rfl
  have hbytes : received.buffer.length = spi.buffer.length := by
    rw [hreceived, ← hlen]
    exact length_storeBytes _ _ _
  unfold downloadRound
  rw [hmsg]
  dsimp only
  rw [if_neg hzero, if_neg (not_not.2 hsend), hreceive]
  dsimp only
  rw [if_neg hzero]
  generalize popNumbers received count = a at hcount hspi hshort hcode ⊢
  obtain ⟨ret, cc, count', spi₂⟩ := a
  dsimp only at hcount hspi hshort hcode ⊢
  rw [hcount, hspi, ← hn]
  unfold popData
  subst hreceived
  dsimp only
  have hcsrc : c.src = answerPos path.length reply.response.length := by rw [hc]; rfl
  have hccount : c.count = n.toNat := by rw [hc]; rfl
  have hcdst : c.dst = offset.toNat := by rw [hc]; rfl
  rw [hcsrc, hccount, hcdst]
  -- the check adds the position and the amount in 32 bits
  by_cases hcheck : reply.response.length < (answerPos path.length reply.response.length + n.toNat) % 2 ^ 32
  · have hret : orRet ret eNomem = eNomem := by
      unfold orRet
      split_ifs with h
      · rfl
      · exact hshort (lt_of_not_ge fun hge => h (hcode hge).1)
    refine ⟨{ spi₁ with buffer := storeBytes spi₁.buffer 0 reply.response, recvLen := reply.response.length,
                        pos := answerPos path.length reply.response.length }, hbytes, ?_⟩
    rw [if_pos hcheck, if_pos hcheck]
    dsimp only
    rw [hret]
    rfl
  · have hcopy : c = ⟨offset.toNat, answerPos path.length reply.response.length, n.toNat, reply.response.length⟩ := hc
    have hending : (if orRet ret 0 ≠ 0 then some (Ending.returned (orRet ret 0)) else if cc ≠ 0 then some (.returned eCanceled) else none) =
        answerEnding reply.response := by
      have hret : orRet ret 0 = ret := by
        unfold orRet
        split_ifs with h
        · exact h.symm
        · rfl
      unfold answerEnding
      rw [hret]
      rcases lt_or_ge reply.response.length 17 with hlt | hge
      · rw [if_pos hlt, hshort hlt]
        rfl
      · rw [if_neg (not_lt.2 hge), (hcode hge).1, (hcode hge).2, if_neg hzero]
    refine ⟨{ spi₁ with buffer := storeBytes spi₁.buffer 0 reply.response, recvLen := reply.response.length,
                        pos := (answerPos path.length reply.response.length + n.toNat) % 2 ^ 32 }, hbytes, ?_⟩
    rw [if_neg hcheck, if_neg hcheck]
    dsimp only
    rw [← hcopy, hending]
    by_cases hinside : c.Inside len.toNat
    · have hsrc : answerPos path.length reply.response.length + n.toNat ≤ reply.response.length := by
        have h := hinside.2
        rw [hcopy] at h
        exact h
      rw [if_pos hinside, if_pos hinside, drop_take_storeBytes hlong hsrc]
    · rw [if_neg hinside, if_neg hinside]

end

/-! ## Amounts -/

section

variable {bufLen : Nat} {len count : U32} {replies : Nat → Reply} {k : Nat} {spi : BwBmc} {held : Nat → Option U8}

theorem toInt_bmcMin (a b : U32) : (bmcMin a b).toInt = min a.toInt b.toInt := by
  unfold bmcMin
  split_ifs with h
  · exact (min_eq_left (le_of_lt h)).symm
  · exact (min_eq_right (not_lt.1 h)).symm

/-- What holds before round `k`: how far the offset can be, and that the buffer holds the data of the answers as far as it goes. -/
structure RoundStart (bufLen : Nat) (len : U32) (replies : Nat → Reply) (k : Nat) (spi : BwBmc) (held : Nat → Option U8) : Prop where
  buffer : spi.buffer.length = bufLen
  room : k = 0 ∨ (len.toNat < 2 ^ 31 ∧ 512 * (k - 1) ≤ len.toNat)
  least : min (512 * k) len.toNat ≤ (payloads replies k).length
  most : (payloads replies k).length ≤ 512 * k
  held : ∀ i < min (512 * k) len.toNat, held i = (payloads replies k)[i]?

theorem RoundStart.toNat_offsetAt (h : RoundStart bufLen len replies k spi held) : (offsetAt k).toNat = 512 * k := by
  have hroom := h.room
  unfold offsetAt
  rw [BitVec.toNat_ofNat]
  omega

theorem RoundStart.amount_le (h : RoundStart bufLen len replies k spi held) {c : U32} (hnonneg : 0 ≤ (amountAt len k c).toInt) :
    512 * k ≤ len.toNat ∧ len.toNat < 2 ^ 31 ∧ c.toNat < 2 ^ 31 ∧ (amountAt len k c).toNat = min (len.toNat - 512 * k) c.toNat := by
  have hroom := h.room
  have hoff := h.toNat_offsetAt
  have hmin := toInt_bmcMin (len - offsetAt k) c
  have hlen := len.isLt
  have hsub : (len - offsetAt k).toNat = (2 ^ 32 - 512 * k + len.toNat) % 2 ^ 32 := by
    rw [BitVec.toNat_sub, hoff]
  unfold amountAt at hnonneg ⊢
  have h₁ := Bits.toNat_of_nonneg hnonneg
  have h₂ : 0 ≤ (len - offsetAt k).toInt := by omega
  have h₃ : 0 ≤ c.toInt := by omega
  have h₄ := Bits.toNat_of_nonneg h₂
  have h₅ := Bits.toNat_of_nonneg h₃
  have h₆ := BitVec.toInt_lt (x := len - offsetAt k)
  have h₇ := BitVec.toInt_lt (x := c)
  omega

theorem answerPos_le (pathLen n : Nat) : answerPos pathLen n ≤ 20 + pathLen := by
  unfold answerPos
  split_ifs
  · exact le_refl _
  · omega
  · omega
  · omega
  · omega
  · omega
  · omega

theorem RoundStart.inside_iff (h : RoundStart bufLen len replies k spi held) (hfits : 20 + pathLen ≤ bufLen) (hbuf : bufLen < 2 ^ 31)
    (hlong : response.length ≤ bufLen) {c : U32}
    (hpass : (answerPos pathLen response.length + (amountAt len k c).toNat) % 2 ^ 32 ≤ response.length) :
    (answerCopy pathLen (offsetAt k) (amountAt len k c) response).Inside len.toNat ↔ 0 ≤ (amountAt len k c).toInt := by
  have hpos := answerPos_le pathLen response.length
  have hoff := h.toNat_offsetAt
  unfold Copy.Inside answerCopy
  dsimp only
  rw [hoff]
  constructor
  · rintro ⟨-, hsrc⟩
    have hsmall : (amountAt len k c).toNat < 2 ^ 31 := by omega
    rw [BitVec.toInt_eq_toNat_cond, if_pos (by omega)]
    exact Int.natCast_nonneg _
  · intro hnonneg
    obtain ⟨hle, -, hc, hamount⟩ := h.amount_le hnonneg
    omega

theorem payloads_succ (replies : Nat → Reply) (k : Nat) : payloads replies (k + 1) = payloads replies k ++ payload (replies k).response := by
  unfold payloads
  rw [List.range_succ, List.flatMap_append, List.flatMap_singleton]

theorem offsetAt_succ (k : Nat) : offsetAt k + 512 = offsetAt (k + 1) := by
  unfold offsetAt
  rw [Nat.mul_succ, BitVec.ofNat_add]
  rfl

theorem RoundStart.held_after (h : RoundStart bufLen len replies k spi held) (hle : 512 * k ≤ len.toNat)
    (hn : n ≤ (u32At (replies k).response 13).toNat) (hlong : 17 + n ≤ (replies k).response.length) :
    ∀ i < 512 * k + n, storeList held (512 * k) (((replies k).response.drop 17).take n) i = (payloads replies (k + 1))[i]? := by
  have hleast := h.least
  have hmost := h.most
  have hlen : (payloads replies k).length = 512 * k := by omega
  have htaken : (((replies k).response.drop 17).take n).length = n := by
    rw [List.length_take, List.length_drop]
    omega
  intro i hi
  rw [payloads_succ]
  rcases lt_or_ge i (512 * k) with hbefore | hbehind
  · rw [storeList_before hbefore, List.getElem?_append_left (by omega)]
    exact h.held i (by omega)
  · obtain ⟨j, rfl⟩ := Nat.exists_eq_add_of_le hbehind
    rw [storeList_inside (by omega), List.getElem?_append_right (by omega), hlen, Nat.add_sub_cancel_left]
    unfold payload
    rw [List.getElem?_take_of_lt (by omega), List.getElem?_take_of_lt (by omega)]

/-! ## Rounds that end -/

theorem downloadOk_error {answers : Nat} {copies : List Copy} {ret : Int} (hcopies : ∀ c ∈ copies, c.Inside n) (hret : ret < 0) :
    DownloadOk n replies ⟨copies, held, .returned ret, answers⟩ := by
  refine ⟨hcopies, ?_⟩
  intro m hm
  obtain rfl : ret = m := Ending.returned.inj hm
  omega

variable {path : List U8} {offset : U32}

theorem downloadLoop_ended {r : Round} (hr : downloadRound path len (replies k) spi offset count held = r) {e : Ending} (he : r.ending = some e)
    (fuel : Nat) : downloadLoop path len replies (fuel + 1) k spi offset count held = some ⟨r.copies, r.held, e, k⟩ := by
  rw [downloadLoop]
  dsimp only
  rw [hr, he]

theorem RoundStart.failed (h : RoundStart bufLen len replies k spi held) (hpath : path.length < 2 ^ 31) (hbuf : bufLen < 2 ^ 31)
    (hfits : 20 + path.length ≤ bufLen) (hne : exchangeResult bufLen (replies k) ≠ 0) :
    ∃ run, (∀ fuel, downloadLoop path len replies (fuel + 1) k spi offset count held = some run) ∧
      ∀ before, DownloadOk len.toNat replies run ↔ RoundFits path.length bufLen len before replies k := by
  have hbytes := h.buffer
  subst hbytes
  obtain ⟨spi', hround⟩ := @downloadRound_failed path spi len count (replies k) offset held hpath hbuf hfits hne
  refine ⟨_, downloadLoop_ended hround rfl, ?_⟩
  intro before
  have hleast := h.least
  have hmost := h.most
  constructor
  · rintro ⟨-, hlen⟩
    refine ⟨?_, fun hzero => absurd hzero hne⟩
    intro hpositive hle
    obtain ⟨n, hn⟩ := Int.eq_ofNat_of_zero_le (le_of_lt hpositive)
    rw [hn] at hle hpositive
    have hright := hlen n (congrArg Ending.returned hn) (by omega)
    rw [hn, hright.1]
  · rintro ⟨hexchange, -⟩
    refine ⟨fun c hc => absurd hc List.not_mem_nil, ?_⟩
    intro n hn hle
    have hn' := Ending.returned.inj hn
    rw [hn'] at hexchange hne
    have hlen : (n : Int) = (payloads replies k).length := hexchange (by omega) (by omega)
    refine ⟨by show (payloads replies k).length = n; omega, ?_⟩
    intro i hi
    exact h.held i (by omega)

theorem answerEnding_cases (response : List U8) : (∃ ret, answerEnding response = some (.returned ret) ∧ ret < 0) ∨
    (answerEnding response = none ∧ 17 ≤ response.length ∧ response.getD 8 0 = 0) := by
  unfold answerEnding
  split_ifs with hshort hcode
  · exact Or.inl ⟨_, rfl, by decide⟩
  · exact Or.inl ⟨_, rfl, by decide⟩
  · exact Or.inr ⟨rfl, not_lt.1 hshort, not_not.1 hcode⟩

theorem answerPos_long (h : 17 ≤ n) : answerPos pathLen n = 17 := by
  unfold answerPos
  rw [if_neg (by omega), if_neg (by omega), if_neg (by omega), if_neg (by omega), if_neg (by omega), if_neg (by omega)]

theorem RoundStart.last_bytes (h : RoundStart bufLen len replies k spi held)
    (hnonneg : 0 ≤ (amountAt len k (u32At (replies k).response 13)).toInt)
    (hlong : 17 + (amountAt len k (u32At (replies k).response 13)).toNat ≤ (replies k).response.length)
    (hn : (offsetAt k + u32At (replies k).response 13).toInt = n) (hle : n ≤ len.toNat) :
    (payloads replies (k + 1)).length = n ∧ ∀ i < n, storeList held (512 * k)
      (((replies k).response.drop 17).take (amountAt len k (u32At (replies k).response 13)).toNat) i = (payloads replies (k + 1))[i]? := by
  obtain ⟨hstart, hlen, hcount, hamount⟩ := h.amount_le hnonneg
  have hleast := h.least
  have hmost := h.most
  have hoff := h.toNat_offsetAt
  generalize hcnt : u32At (replies k).response 13 = cnt at *
  have hsum : (offsetAt k + cnt).toNat = 512 * k + cnt.toNat := by
    rw [BitVec.toNat_add, hoff]
    exact Nat.mod_eq_of_lt (by omega)
  have hnat := Bits.toNat_of_nonneg (show 0 ≤ (offsetAt k + cnt).toInt by omega)
  have hpayload : (payload (replies k).response).length = cnt.toNat := by
    unfold payload
    rw [List.length_take, List.length_drop, hcnt]
    omega
  have hbytes := h.held_after hstart (show (amountAt len k cnt).toNat ≤ (u32At (replies k).response 13).toNat by rw [hcnt]; omega) hlong
  refine ⟨?_, fun i hi => hbytes i (by omega)⟩
  rw [payloads_succ, List.length_append, hpayload]
  omega

/-- A round whose answer does not bring another one ends the download, and is right if no negative amount passes the check. -/
theorem RoundStart.answered (h : RoundStart bufLen len replies k spi held) (hpath : path.length < 2 ^ 31) (hbuf : bufLen < 2 ^ 31)
    (hfits : 20 + path.length ≤ bufLen) (hok : exchangeResult bufLen (replies k) = 0) (hfull : ¬ FullAnswer bufLen len k (replies k)) :
    ∃ run, (∀ fuel, downloadLoop path len replies (fuel + 1) k spi (offsetAt k) (countBefore count k) held = some run) ∧
      (DownloadOk len.toNat replies run ↔ RoundFits path.length bufLen len count replies k) := by
  have hlong := (exchangeResult_eq_zero hok).2.2
  have hbytes := h.buffer
  subst hbytes
  obtain ⟨cnt, hcnt⟩ : ∃ cnt, cnt = answerCount (replies k).response (countBefore count k) := ⟨_, rfl⟩
  obtain ⟨c, hc⟩ : ∃ c, c = answerCopy path.length (offsetAt k) (amountAt len k cnt) (replies k).response := ⟨_, rfl⟩
  have hn : amountAt len k cnt = bmcMin (len - offsetAt k) (answerCount (replies k).response (countBefore count k)) := by rw [hcnt]; rfl
  obtain ⟨spi', -, hround⟩ := @downloadRound_answer path spi len (countBefore count k) (replies k) (offsetAt k) held hpath hbuf hfits hok _ hn _ hc
  have hcsrc : c.src = answerPos path.length (replies k).response.length := by rw [hc]; rfl
  have hccount : c.count = (amountAt len k cnt).toNat := by rw [hc]; rfl
  have hfitsIff : RoundFits path.length spi.buffer.length len count replies k ↔
      ¬ NegativePasses (amountAt len k cnt) c.src (replies k).response.length := by
    rw [hcsrc, hcnt]
    refine ⟨fun hr => hr.amount hok, fun hr => ⟨fun hpos => ?_, fun _ => hr⟩⟩
    omega
  rw [hfitsIff]
  unfold NegativePasses
  rw [← hccount]
  -- the answer is too short for its amount: an error, and nothing is copied
  by_cases hcheck : (replies k).response.length < (c.src + c.count) % 2 ^ 32
  · rw [if_pos hcheck] at hround
    refine ⟨_, downloadLoop_ended hround rfl, ?_⟩
    exact iff_of_true (downloadOk_error (fun c hc => absurd hc List.not_mem_nil) (by decide)) fun hpass => absurd hpass.2 (by omega)
  · rw [if_neg hcheck] at hround
    have hinside := h.inside_iff hfits hbuf hlong (c := cnt) (by rw [← hcsrc, ← hccount]; omega)
    rw [← hc] at hinside
    -- past the check the copy stays inside unless the amount is negative
    by_cases hin : c.Inside len.toNat
    · have hnonneg := hinside.1 hin
      have hcopies : ∀ c' ∈ [c], c'.Inside len.toNat := fun c' hc' => List.mem_singleton.1 hc' ▸ hin
      have hright : ¬ ((amountAt len k cnt).toInt < 0 ∧ (c.src + c.count) % 2 ^ 32 ≤ (replies k).response.length) :=
        fun hpass => absurd hpass.1 (not_lt.2 hnonneg)
      rw [if_pos hin] at hround
      rcases answerEnding_cases (replies k).response with ⟨ret, hending, hret⟩ | ⟨hending, hlen, hcode⟩
      · exact ⟨_, downloadLoop_ended hround hending, iff_of_true (downloadOk_error hcopies hret) hright⟩
      · have hcount : cnt = u32At (replies k).response 13 := by
          rw [hcnt]
          exact if_neg (not_lt.2 hlen)
        have hsrc : 17 + c.count ≤ (replies k).response.length := by
          have hle := hin.2
          rw [hcsrc, answerPos_long hlen, hc] at hle
          rw [hc]
          exact hle
        have hother : cnt ≠ 512 := by
          intro h512
          rw [h512] at hnonneg hccount
          exact hfull ⟨hok, hcode, by rw [← hcount, h512], hnonneg, by rw [← hccount]; exact hsrc⟩
        have hrun : ∀ fuel, downloadLoop path len replies (fuel + 1) k spi (offsetAt k) (countBefore count k) held =
            some ⟨[c], storeList held c.dst (((replies k).response.drop c.src).take c.count), .returned (offsetAt k + cnt).toInt, k + 1⟩ := by
          intro fuel
          rw [downloadLoop]
          dsimp only
          rw [hround, hending]
          dsimp only
          rw [← hcnt, if_neg hother]
        refine ⟨_, hrun, iff_of_true ⟨hcopies, ?_⟩ hright⟩
        intro n hn hle
        have hcdst : c.dst = 512 * k := by
          rw [← h.toNat_offsetAt, hc]
          rfl
        rw [hcount] at hnonneg hccount hn
        rw [hccount] at hsrc
        dsimp only
        rw [hcdst, hcsrc, answerPos_long hlen, hccount]
        exact h.last_bytes hnonneg hsrc (Ending.returned.inj hn) hle
    · rw [if_neg hin] at hround
      refine ⟨_, downloadLoop_ended hround rfl, ?_⟩
      have hneg : (amountAt len k cnt).toInt < 0 := not_le.1 (mt hinside.2 hin)
      refine iff_of_false ?_ (not_not.2 ⟨hneg, by omega⟩)
      intro hright
      exact hin (hright.copies c List.mem_cons_self)

/-- A full answer is right, and another round follows. -/
theorem RoundStart.full (h : RoundStart bufLen len replies k spi held) (count : U32) (hpath : path.length < 2 ^ 31) (hbuf : bufLen < 2 ^ 31)
    (hfits : 20 + path.length ≤ bufLen) (hfull : FullAnswer bufLen len k (replies k)) :
    RoundFits path.length bufLen len count replies k ∧ ∃ c spi' held', c.Inside len.toNat ∧ RoundStart bufLen len replies (k + 1) spi' held' ∧
      ∀ fuel, downloadLoop path len replies (fuel + 1) k spi (offsetAt k) (countBefore count k) held =
        (downloadLoop path len replies fuel (k + 1) spi' (offsetAt (k + 1)) (countBefore count (k + 1)) held').map
          fun run => { run with copies := [c] ++ run.copies } := by
  obtain ⟨hok, hcode, hcount, hnonneg, hsrc⟩ := hfull
  have hlong := (exchangeResult_eq_zero hok).2.2
  have hlen : 17 ≤ (replies k).response.length := by omega
  have hcnt : answerCount (replies k).response (countBefore count k) = 512 := by
    rw [← hcount]
    exact if_neg (not_lt.2 hlen)
  have hbytes := h.buffer
  subst hbytes
  obtain ⟨c, hc⟩ : ∃ c, c = answerCopy path.length (offsetAt k) (amountAt len k 512) (replies k).response := ⟨_, rfl⟩
  have hn : amountAt len k 512 = bmcMin (len - offsetAt k) (answerCount (replies k).response (countBefore count k)) := by rw [hcnt]; rfl
  obtain ⟨spi', hspi', hround⟩ := @downloadRound_answer path spi len (countBefore count k) (replies k) (offsetAt k) held hpath hbuf hfits hok _ hn _ hc
  have hcsrc : c.src = 17 := by
    rw [hc]
    exact answerPos_long hlen
  have hccount : c.count = (amountAt len k 512).toNat := by rw [hc]; rfl
  have hcdst : c.dst = 512 * k := by
    rw [← h.toNat_offsetAt, hc]
    rfl
  obtain ⟨hstart, hlt, -, hamount⟩ := h.amount_le hnonneg
  have hcheck : ¬ (replies k).response.length < (c.src + c.count) % 2 ^ 32 := by
    rw [hcsrc, hccount]
    omega
  have hin : c.Inside len.toNat := by
    rw [hc]
    refine (h.inside_iff hfits hbuf hlong ?_).2 hnonneg
    rw [answerPos_long hlen]
    omega
  have hending : answerEnding (replies k).response = none := by
    unfold answerEnding
    rw [if_neg (not_lt.2 hlen), if_neg (not_not.2 hcode)]
  have h512 : (512 : U32).toNat = 512 := rfl
  have hleast := h.least
  have hmost := h.most
  have hpayload : (payload (replies k).response).length = min 512 ((replies k).response.length - 17) := by
    unfold payload
    rw [List.length_take, List.length_drop, hcount, h512]
  rw [if_neg hcheck, if_pos hin, hcdst, hcsrc, hccount] at hround
  refine ⟨⟨fun hpos => by omega, fun _ hpass => ?_⟩, c, spi',
    storeList held (512 * k) (((replies k).response.drop 17).take (amountAt len k 512).toNat), hin, ⟨hspi', ?_, ?_, ?_, ?_⟩, ?_⟩
  · rw [hcnt] at hpass
    exact absurd hpass.1 (not_lt.2 hnonneg)
  · exact Or.inr ⟨hlt, hstart⟩
  · rw [payloads_succ, List.length_append, hpayload]
    omega
  · rw [payloads_succ, List.length_append, hpayload]
    omega
  · intro i hi
    exact h.held_after hstart (by rw [hcount]; omega) hsrc i (by omega)
  · intro fuel
    rw [downloadLoop]
    dsimp only
    rw [hround, hending]
    dsimp only
    rw [hcnt, if_pos rfl, offsetAt_succ]
    rfl

theorem downloadOk_cons {c : Copy} {run : DownloadRun} (hc : c.Inside n) :
    DownloadOk n replies { run with copies := [c] ++ run.copies } ↔ DownloadOk n replies run := by
  constructor
  · rintro ⟨hcopies, hbytes⟩
    exact ⟨fun c' hc' => hcopies c' (List.mem_cons_of_mem c hc'), hbytes⟩
  · rintro ⟨hcopies, hbytes⟩
    exact ⟨List.forall_mem_cons.2 ⟨hc, hcopies⟩, hbytes⟩

theorem RoundStart.ended (h : RoundStart bufLen len replies k spi held) (hpath : path.length < 2 ^ 31) (hbuf : bufLen < 2 ^ 31)
    (hfits : 20 + path.length ≤ bufLen) (hbefore : ∀ j < k, FullAnswer bufLen len j (replies j)) (hfull : ¬ FullAnswer bufLen len k (replies k)) :
    ∃ F run, (∀ fuel ≥ F, downloadLoop path len replies fuel k spi (offsetAt k) (countBefore count k) held = some run) ∧
      (DownloadOk len.toNat replies run ↔ ∀ k' ≥ k, (∀ j < k', FullAnswer bufLen len j (replies j)) →
        RoundFits path.length bufLen len count replies k') := by
  have hrun : ∃ run, (∀ fuel, downloadLoop path len replies (fuel + 1) k spi (offsetAt k) (countBefore count k) held = some run) ∧
      (DownloadOk len.toNat replies run ↔ RoundFits path.length bufLen len count replies k) := by
    by_cases hok : exchangeResult bufLen (replies k) = 0
    · exact h.answered hpath hbuf hfits hok hfull
    · obtain ⟨run, hrun, hiff⟩ := h.failed hpath hbuf hfits hok
      exact ⟨run, hrun, hiff count⟩
  obtain ⟨run, hrun, hiff⟩ := hrun
  refine ⟨1, run, ?_, ?_⟩
  · intro fuel hfuel
    obtain ⟨fuel, rfl⟩ := Nat.exists_eq_add_of_le' hfuel
    exact hrun fuel
  · rw [hiff]
    constructor
    · intro hright k' hk' hreached
      rcases eq_or_lt_of_le hk' with rfl | hlt
      · exact hright
      · exact absurd (hreached k hlt) hfull
    · exact fun hall => hall k (le_refl k) hbefore

/-- From any round on the loop ends, and it is right if and only if all rounds that are reached fit. -/
theorem RoundStart.ok_iff (h : RoundStart bufLen len replies k spi held) (count : U32) (hpath : path.length < 2 ^ 31) (hbuf : bufLen < 2 ^ 31)
    (hfits : 20 + path.length ≤ bufLen) (hbefore : ∀ j < k, FullAnswer bufLen len j (replies j)) :
    ∃ F run, (∀ fuel ≥ F, downloadLoop path len replies fuel k spi (offsetAt k) (countBefore count k) held = some run) ∧
      (DownloadOk len.toNat replies run ↔ ∀ k' ≥ k, (∀ j < k', FullAnswer bufLen len j (replies j)) →
        RoundFits path.length bufLen len count replies k') := by
  obtain ⟨d, hd⟩ : ∃ d, len.toNat < 512 * (k + d) := ⟨len.toNat + 1, by omega⟩
  -- the induction is on the rounds that are left
  induction d generalizing k spi held with
  | zero =>
    refine h.ended hpath hbuf hfits hbefore ?_
    intro hfull
    have hstart := (h.amount_le hfull.nonneg).1
    omega
  | succ d ih =>
    by_cases hfull : FullAnswer bufLen len k (replies k)
    · obtain ⟨hright, c, spi', held', hin, hnext, hstep⟩ := h.full count hpath hbuf hfits hfull
      have hbefore' : ∀ j < k + 1, FullAnswer bufLen len j (replies j) := by
        intro j hj
        rcases Nat.lt_succ_iff_lt_or_eq.1 hj with hlt | rfl
        · exact hbefore j hlt
        · exact hfull
      obtain ⟨F, run, hrun, hiff⟩ := ih hnext hbefore' (by omega)
      refine ⟨F + 1, _, ?_, (downloadOk_cons hin).trans (hiff.trans ?_)⟩
      · intro fuel hfuel
        obtain ⟨fuel, rfl⟩ := Nat.exists_eq_add_of_le' (le_trans (Nat.le_add_left 1 F) hfuel)
        rw [hstep, hrun fuel (by omega)]
        rfl
      · constructor
        · intro hall k' hk' hreached
          rcases eq_or_lt_of_le hk' with rfl | hlt
          · exact hright
          · exact hall k' hlt hreached
        · exact fun hall k' hk' hreached => hall k' (by omega) hreached
    · exact h.ended hpath hbuf hfits hbefore hfull

theorem roundStart_zero (len : U32) (replies : Nat → Reply) (spi : BwBmc) : RoundStart spi.buffer.length len replies 0 spi fun _ => none :=
  ⟨rfl, Or.inl rfl, by simp, Nat.zero_le _, by simp⟩

theorem downloadFile_unfit (hpath : path.length < 2 ^ 31) (hbuf : spi.buffer.length < 2 ^ 31) (hfits : spi.buffer.length < 20 + path.length)
    (fuel : Nat) : downloadFile path len replies (fuel + 1) spi count = some ⟨[], fun _ => none, .returned eNomem, 0⟩ := by
  have hmsg := (putChecked_download 0 hpath hbuf).2 hfits
  have hne : eNomem ≠ 0 := by decide
  have hround : downloadRound path len (replies 0) spi 0 count (fun _ => none) =
      ⟨[], fun _ => none, count, (putChecked spi (downloadFields path 0)).2, some (.returned eNomem)⟩ := by
    unfold downloadRound
    dsimp only
    rw [hmsg, if_pos hne]
  exact downloadLoop_ended hround rfl fuel

end

/-! ## The download -/

/-- Whatever the answers are, a download ends; it copies inside the buffer and inside the answers, and a returned length that fits is that of
the data in the buffer, if and only if in every round that is reached no negative amount passes the check of the length and no positive
result of the exchange is taken for another length. -/
theorem download_ok_iff (path : List U8) (len count : U32) (replies : Nat → Reply) (spi : BwBmc) (hpath : path.length < 2 ^ 31)
    (hbuf : spi.buffer.length < 2 ^ 31) : ∃ F run, (∀ fuel ≥ F, downloadFile path len replies fuel spi count = some run) ∧
      (DownloadOk len.toNat replies run ↔ DownloadFits path spi.buffer.length len count replies) := by
  unfold DownloadFits
  by_cases hfits : 20 + path.length ≤ spi.buffer.length
  · obtain ⟨F, run, hrun, hiff⟩ := (roundStart_zero len replies spi).ok_iff count hpath hbuf hfits
      fun j hj => absurd hj (Nat.not_lt_zero j)
    refine ⟨F, run, hrun, hiff.trans ?_⟩
    exact ⟨fun hall _ k hreached => hall k (Nat.zero_le k) hreached, fun hall k _ hreached => hall hfits k hreached⟩
  · refine ⟨1, ⟨[], fun _ => none, .returned eNomem, 0⟩, ?_, ?_⟩
    · intro fuel hfuel
      obtain ⟨fuel, rfl⟩ := Nat.exists_eq_add_of_le' hfuel
      exact downloadFile_unfit hpath hbuf (not_le.1 hfits) fuel
    · exact iff_of_true (downloadOk_error (fun c hc => absurd hc List.not_mem_nil) (by decide)) fun h => absurd h hfits

def emptySpi : BwBmc := ⟨List.replicate 64 0, 0, 0⟩

/-- An answer with these numbers and data. -/
def answerOf (count : U32) (data : List U8) : Reply :=
  ⟨0, 0, [0x01, 0x69, 0x00, 0xc8, 0x01, 0x80, 0x3f, 0x14, 0x00, 0, 0, 0, 0] ++ le32 count ++ data⟩

theorem three_bytes_downloaded : ∃ F run, (∀ fuel ≥ F, downloadFile [0x2f, 0x61] 4 (fun _ => answerOf 3 [7, 8, 9]) fuel emptySpi 0 = some run) ∧
    DownloadOk 4 (fun _ => answerOf 3 [7, 8, 9]) run := by
  obtain ⟨F, run, hrun, hiff⟩ := download_ok_iff [0x2f, 0x61] 4 0 (fun _ => answerOf 3 [7, 8, 9]) emptySpi (by decide) (by decide)
  refine ⟨F, run, hrun, hiff.2 ?_⟩
  intro _ k hreached
  cases k with
  | zero =>
    refine ⟨fun hpos => absurd hpos (by decide), fun _ hpass => ?_⟩
    exact absurd hpass.1 (by decide)
  | succ k =>
    have hcount := (hreached 0 (Nat.succ_pos k)).count
    exact absurd hcount (by decide)

/-- An answer that says that it has 2 ^ 32 - 1 bytes makes the copy of as many bytes pass the check. -/
theorem huge_count_copied : ¬ ∀ (path : List U8) (len count : U32) (replies : Nat → Reply) (spi : BwBmc), path.length < 2 ^ 31 →
    spi.buffer.length < 2 ^ 31 → ∃ F run, (∀ fuel ≥ F, downloadFile path len replies fuel spi count = some run) ∧ DownloadOk len.toNat replies run := by
  intro h
  obtain ⟨F, run, hrun, hright⟩ := h [0x2f, 0x61] 4 0 (fun _ => answerOf 0xffffffff []) emptySpi (by decide) (by decide)
  obtain ⟨F', run', hrun', hiff⟩ := (roundStart_zero 4 (fun _ => answerOf 0xffffffff []) emptySpi).ok_iff 0 (show [0x2f, 0x61].length < 2 ^ 31 by decide)
    (by decide) (by decide) fun j hj => absurd hj (Nat.not_lt_zero j)
  obtain rfl : run = run' := Option.some.inj ((hrun (max F F') (le_max_left F F')).symm.trans (hrun' (max F F') (le_max_right F F')))
  have hround := hiff.1 hright 0 (le_refl 0) fun j hj => absurd hj (Nat.not_lt_zero j)
  exact hround.amount (by decide) ⟨by decide, by decide⟩

end NdkSw.Boot

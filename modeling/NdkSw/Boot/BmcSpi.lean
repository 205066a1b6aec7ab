/-
Messages to the BMC (`bittware_bmc_spi.h`): a message is put together in a buffer, sent, answered into the same buffer, and the
answer is taken apart. A field that does not fit is left out, and its error code is up to the caller.
-/
import NdkSw.Boot.MtdIoctl
import NdkSw.Shared.Chunks
import NdkSw.Shared.Words

namespace NdkSw.Boot

open Ndp

/-! ## Data model -/

/-- `struct nc_bw_bmc`; `buffer_len` is the length of the buffer. -/
structure BwBmc where
  buffer : List U8
  recvLen : Nat
  pos : Nat
  deriving DecidableEq, Repr

/-- What the BMC does with a message: the results of `nc_bw_bmc_send_mctp` and of the receive, and the bytes of its answer. -/
structure Reply where
  send : Int
  recv : Int
  response : List U8
  deriving DecidableEq, Repr

/-! ## Putting a message together -/

/-- `memcpy` into the buffer; what would lie behind its end is not modelled. -/
def storeBytes (buffer : List U8) (pos : Nat) (bytes : List U8) : List U8 :=
  (buffer.take pos ++ bytes ++ buffer.drop (pos + bytes.length)).take buffer.length

/-- `nc_bw_bmc_mctp_header_default`. -/
def mctpHeaderDefault (spi : BwBmc) : Int × BwBmc :=
  if spi.buffer.length < 4 then (eNomem, spi)
  else (0, { spi with buffer := storeBytes spi.buffer 0 [0x01, 0x00, 0x69, 0xc8], pos := 4 })

/-- `nc_bw_bmc_push`; the end is computed in 32 bits. -/
def push (spi : BwBmc) (bytes : List U8) : Int × BwBmc :=
  if spi.buffer.length < (spi.pos + bytes.length) % 2 ^ 32 then (eNomem, spi)
  else (0, { spi with buffer := storeBytes spi.buffer spi.pos bytes, pos := (spi.pos + bytes.length) % 2 ^ 32 })

/-- The bytes that `nc_bw_bmc_pldm_vndr` adds. -/
def pldmVndr (vndrType : U8) : List U8 := [0x01, 0x80, 0x3f, vndrType]

/-- The bytes of `nc_bw_bmc_push_uint16`. -/
def le16 (x : BitVec 16) : List U8 := [x.setWidth 8, (x >>> 8).setWidth 8]

/-- The bytes of `nc_bw_bmc_push_uint32`. -/
def le32 (x : U32) : List U8 := [x.setWidth 8, (x >>> 8).setWidth 8, (x >>> 16).setWidth 8, (x >>> 24).setWidth 8]

/-- A header and fields, one after the other, whatever becomes of them. -/
def putMessage (spi : BwBmc) (fields : List (List U8)) : BwBmc := fields.foldl (fun spi bytes => (push spi bytes).2) (mctpHeaderDefault spi).2

/-- What is sent. -/
def BwBmc.message (spi : BwBmc) : List U8 := spi.buffer.take spi.pos

/-! ## Taking an answer apart -/

/-- `nc_bw_bmc_receive_mctp`; an answer that is too long is an error, too. -/
def receiveMctp (spi : BwBmc) (reply : Reply) : Int × BwBmc :=
  if reply.recv ≠ 0 then (reply.recv, spi)
  else if spi.buffer.length < reply.response.length then ((reply.response.length - spi.buffer.length : Int), spi)
  else (0, { spi with buffer := storeBytes spi.buffer 0 reply.response, recvLen := reply.response.length })

/-- `nc_bw_bmc_pop_mctp_header`. -/
def popMctpHeader (spi : BwBmc) : Int × BwBmc := if spi.recvLen < 4 then (eNomem, spi) else (0, { spi with pos := 4 })

/-- `nc_bw_bmc_pop_pldm_header`. -/
def popPldmHeader (spi : BwBmc) : Int × BwBmc :=
  if spi.recvLen < (spi.pos + 4) % 2 ^ 32 then (eNomem, spi) else (0, { spi with pos := (spi.pos + 4) % 2 ^ 32 })

/-- `nc_bw_bmc_pop_uint8`, with the value that is there so far. -/
def popUint8 (spi : BwBmc) (val : U8) : Int × U8 × BwBmc :=
  if spi.recvLen < (spi.pos + 1) % 2 ^ 32 then (eNomem, val, spi)
  else (0, spi.buffer.getD spi.pos 0, { spi with pos := (spi.pos + 1) % 2 ^ 32 })

/-- `ret |= ..`; the only error here is `-ENOMEM`. -/
def orRet (a b : Int) : Int := if a = 0 then b else a

/-- The headers and the completion code of an answer. -/
def checkCode (spi : BwBmc) : Int × BwBmc :=
  let r₁ := popMctpHeader spi
  let r₂ := popPldmHeader r₁.2
  let r₃ := popUint8 r₂.2 0
  let ret := orRet (orRet r₁.1 r₂.1) r₃.1
  (if ret ≠ 0 then ret else if r₃.2.1 ≠ 0 then eCanceled else 0, r₃.2.2)

/-- From the send to the completion code: what a request does behind its message. -/
def exchange (spi : BwBmc) (reply : Reply) : Int × BwBmc :=
  if reply.send ≠ 0 then (reply.send, spi)
  else
    let r := receiveMctp spi reply
    if r.1 ≠ 0 then r else checkCode r.2

/-! ## Messages -/

/-- A message is accepted: it is sent and received, and the answer fits in the buffer and has the completion code zero. -/
structure ReplyOk (n : Nat) (reply : Reply) : Prop where
  send : reply.send = 0
  recv : reply.recv = 0
  long : 9 ≤ reply.response.length
  fits : reply.response.length ≤ n
  code : reply.response[8]? = some 0

section

variable {spi : BwBmc} {msg : List U8}

theorem length_storeBytes (buffer : List U8) (pos : Nat) (bytes : List U8) : (storeBytes buffer pos bytes).length = buffer.length := by
  unfold storeBytes
  rw [List.length_take, List.length_append, List.length_append, List.length_take, List.length_drop]
  omega

theorem take_storeBytes (buffer : List U8) (pos : Nat) (bytes : List U8) (h : pos + bytes.length ≤ buffer.length) :
    (storeBytes buffer pos bytes).take (pos + bytes.length) = buffer.take pos ++ bytes := by
  have hlen : (buffer.take pos ++ bytes).length = pos + bytes.length := by
    rw [List.length_append, List.length_take]
    omega
  unfold storeBytes
  rw [List.take_take, Nat.min_eq_left h, ← hlen, List.take_left']
  rfl

theorem length_message_le (spi : BwBmc) : spi.message.length ≤ spi.buffer.length := List.length_take_le' _ _

theorem length_header (spi : BwBmc) : (mctpHeaderDefault spi).2.buffer.length = spi.buffer.length := by
  unfold mctpHeaderDefault
  split
  · rfl
  · exact length_storeBytes _ _ _

theorem length_push (spi : BwBmc) (bytes : List U8) : (push spi bytes).2.buffer.length = spi.buffer.length := by
  unfold push
  split
  · rfl
  · exact length_storeBytes _ _ _

theorem length_foldl_push (fields : List (List U8)) : ∀ spi : BwBmc,
    (fields.foldl (fun spi bytes => (push spi bytes).2) spi).buffer.length = spi.buffer.length := by
  induction fields with
  | nil => exact fun _ => rfl
  | cons bytes fields ih =>
    intro spi
    rw [List.foldl_cons, ih, length_push]

theorem length_putMessage (spi : BwBmc) (fields : List (List U8)) : (putMessage spi fields).buffer.length = spi.buffer.length := by
  rw [putMessage, length_foldl_push, length_header]

/-- The buffer holds this message so far. -/
structure Holds (spi : BwBmc) (msg : List U8) : Prop where
  pos : spi.pos = msg.length
  bytes : spi.message = msg

/-- The four bytes of the MCTP header. -/
def mctpHeader : List U8 := [0x01, 0x00, 0x69, 0xc8]

theorem header_holds (h : 4 ≤ spi.buffer.length) : Holds (mctpHeaderDefault spi).2 mctpHeader := by
  unfold mctpHeaderDefault
  rw [if_neg (by omega)]
  exact ⟨rfl, take_storeBytes spi.buffer 0 mctpHeader h⟩

theorem push_holds (hmsg : Holds spi msg) (bytes : List U8) (h : msg.length + bytes.length ≤ spi.buffer.length) (hlt : spi.buffer.length < 2 ^ 32) :
    Holds (push spi bytes).2 (msg ++ bytes) := by
  obtain ⟨hpos, hbytes⟩ := hmsg
  have hmod : (spi.pos + bytes.length) % 2 ^ 32 = spi.pos + bytes.length := Nat.mod_eq_of_lt (by omega)
  unfold push
  rw [hmod, if_neg (by omega)]
  constructor
  · show spi.pos + bytes.length = _
    rw [List.length_append, hpos]
  · show (storeBytes spi.buffer spi.pos bytes).take (spi.pos + bytes.length) = _
    rw [take_storeBytes _ _ _ (by omega)]
    exact congrArg (· ++ bytes) hbytes

theorem foldl_push_holds (fields : List (List U8)) : ∀ {spi : BwBmc} {msg : List U8}, Holds spi msg →
    msg.length + fields.flatten.length ≤ spi.buffer.length → spi.buffer.length < 2 ^ 32 →
    Holds (fields.foldl (fun spi bytes => (push spi bytes).2) spi) (msg ++ fields.flatten) := by
  induction fields with
  | nil =>
    intro spi msg hmsg _ _
    rw [List.flatten_nil, List.append_nil]
    exact hmsg
  | cons bytes fields ih =>
    intro spi msg hmsg h hlt
    rw [List.flatten_cons, List.length_append] at h
    have hpush := push_holds hmsg bytes (by omega) hlt
    have hrest := ih hpush (by rw [length_push, List.length_append]; omega) (by rwa [length_push])
    rwa [List.foldl_cons, List.flatten_cons, ← List.append_assoc]

theorem putMessage_holds {fields : List (List U8)} (h : 4 + fields.flatten.length ≤ spi.buffer.length)
    (hlt : spi.buffer.length < 2 ^ 32) : Holds (putMessage spi fields) (mctpHeader ++ fields.flatten) := by
  have hlen : mctpHeader.length = 4 := rfl
  refine foldl_push_holds fields (header_holds (by omega)) ?_ ?_
  · rw [length_header]
    omega
  · rwa [length_header]

/-! ## Answers -/

theorem length_receiveMctp (spi : BwBmc) (reply : Reply) : (receiveMctp spi reply).2.buffer.length = spi.buffer.length := by
  unfold receiveMctp
  split
  · rfl
  · split
    · rfl
    · exact length_storeBytes _ _ _

theorem buffer_checkCode (spi : BwBmc) : (checkCode spi).2.buffer = spi.buffer := by
  have h₁ : ∀ spi, (popMctpHeader spi).2.buffer = spi.buffer := by
    intro spi
    unfold popMctpHeader
    split
    · rfl
    · rfl
  have h₂ : ∀ spi, (popPldmHeader spi).2.buffer = spi.buffer := by
    intro spi
    unfold popPldmHeader
    split
    · rfl
    · rfl
  have h₃ : ∀ spi val, (popUint8 spi val).2.2.buffer = spi.buffer := by
    intro spi val
    unfold popUint8
    split
    · rfl
    · rfl
  show (popUint8 _ 0).2.2.buffer = _
  rw [h₃, h₂, h₁]

theorem length_exchange (spi : BwBmc) (reply : Reply) : (exchange spi reply).2.buffer.length = spi.buffer.length := by
  unfold exchange
  split
  · rfl
  · dsimp only
    split
    · exact length_receiveMctp _ _
    · rw [buffer_checkCode, length_receiveMctp]

/-- An answer is good if its nine bytes are there and the last of them is zero. -/
theorem checkCode_eq_zero_iff (spi : BwBmc) : (checkCode spi).1 = 0 ↔ 9 ≤ spi.recvLen ∧ spi.buffer.getD 8 0 = 0 := by
  have hret : ∀ a b c : Int, orRet (orRet a b) c = 0 ↔ a = 0 ∧ b = 0 ∧ c = 0 := by
    intro a b c
    unfold orRet
    split
    · split
      · simp [*]
      · simp [*]
    · simp [*]
  have hcode : (checkCode spi).1 = 0 ↔ orRet (orRet (popMctpHeader spi).1 (popPldmHeader (popMctpHeader spi).2).1)
      (popUint8 (popPldmHeader (popMctpHeader spi).2).2 0).1 = 0 ∧ (popUint8 (popPldmHeader (popMctpHeader spi).2).2 0).2.1 = 0 := by
    unfold checkCode
    dsimp only
    split
    · next h => exact iff_of_false h fun hc => h hc.1
    · next h =>
      rw [not_not] at h
      split
      · next hc => exact iff_of_false (by decide) fun hz => hc hz.2
      · next hc => exact iff_of_true rfl ⟨h, not_not.1 hc⟩
  have hne : (eNomem : Int) ≠ 0 := by decide
  rw [hcode, hret]
  by_cases h₄ : spi.recvLen < 4
  · simp only [popMctpHeader, if_pos h₄, hne, false_and, false_iff]
    omega
  simp only [popMctpHeader, if_neg h₄, true_and]
  by_cases h₈ : spi.recvLen < 8
  · simp only [popPldmHeader, show (4 + 4) % 2 ^ 32 = 8 from rfl, if_pos h₈, hne, false_and, false_iff]
    omega
  simp only [popPldmHeader, show (4 + 4) % 2 ^ 32 = 8 from rfl, if_neg h₈, true_and]
  by_cases h₉ : spi.recvLen < 9
  · simp only [popUint8, show (8 + 1) % 2 ^ 32 = 9 from rfl, if_pos h₉, hne, false_and, false_iff]
    omega
  · simp only [popUint8, show (8 + 1) % 2 ^ 32 = 9 from rfl, if_neg h₉, true_and]
    exact (and_iff_right (by omega)).symm

/-- The exchange succeeds if and only if the message is accepted. -/
theorem exchange_eq_zero_iff (spi : BwBmc) (reply : Reply) : (exchange spi reply).1 = 0 ↔ ReplyOk spi.buffer.length reply := by
  unfold exchange
  by_cases hsend : reply.send = 0
  · rw [if_neg (not_not.2 hsend)]
    dsimp only
    unfold receiveMctp
    by_cases hrecv : reply.recv = 0
    · rw [if_neg (not_not.2 hrecv)]
      by_cases hfits : spi.buffer.length < reply.response.length
      · rw [if_pos hfits]
        have hne : (reply.response.length - spi.buffer.length : Int) ≠ 0 := by omega
        rw [if_pos hne]
        exact iff_of_false hne fun h => absurd h.fits (by omega)
      · rw [if_neg hfits, if_neg (by simp), checkCode_eq_zero_iff]
        dsimp only
        have hcode (hlong : 9 ≤ reply.response.length) :
            (storeBytes spi.buffer 0 reply.response).getD 8 0 = 0 ↔ reply.response[8]? = some 0 := by
          -- the answer lies at the start of the buffer
          have hstored := take_storeBytes spi.buffer 0 reply.response (by omega)
          have hbyte : (storeBytes spi.buffer 0 reply.response)[8]? = reply.response[8]? := by
            rw [← List.getElem?_take_of_lt (show 8 < 0 + reply.response.length by omega), hstored]
            rfl
          rw [List.getD_eq_getElem?_getD, hbyte, List.getElem?_eq_getElem (by omega)]
          simp
        constructor
        · rintro ⟨hlong, hzero⟩
          exact ⟨hsend, hrecv, hlong, by omega, (hcode hlong).1 hzero⟩
        · rintro ⟨-, -, hlong, -, hzero⟩
          exact ⟨hlong, (hcode hlong).2 hzero⟩
    · rw [if_pos hrecv, if_pos hrecv]
      exact iff_of_false hrecv fun h => hrecv h.recv
  · rw [if_pos hsend]
    exact iff_of_false hsend fun h => hsend h.send

end

end NdkSw.Boot

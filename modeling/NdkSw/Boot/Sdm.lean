/-
The commands of the SDM driver for the flash (`boot/sdm.c`): a header with the number of words that follow, and these words, of which the
last one goes to a register of its own. What the space register of the mailbox says and what the responses are is arbitrary; a send that
finds no space in time is given up, and its callers do not notice.
-/
import NdkSw.Boot.BmcSpi
import NdkSw.Boot.Load
import NdkSw.Shared.Words

namespace NdkSw.Boot

open Ndp

/-! ## Words -/

/-- What a word of a command is. -/
inductive Part where
  | header
  | argument
  | words
  | data
  deriving DecidableEq, Repr

/-- A word that is written, to the register `LAST_WORD` or to the FIFO. -/
structure Sent where
  part : Part
  word : U32
  last : Bool
  deriving DecidableEq, Repr

/-- `sdm_len_bytes_to_words`, of a `size_t`. -/
def sdmLenBytesToWords (bytes : U64) : U32 := ((bytes + 3) >>> 2).setWidth 32

/-- `MAX_WORDS`. -/
def maxWords : U32 := 1024

/-- The number of words of a read or write. -/
def wordsLen (len : U64) : U32 := if maxWords < sdmLenBytesToWords len then maxWords else sdmLenBytesToWords len

/-- The first word of `len` bytes of data, padded with zeros. -/
def wordOf (data : List U8) (len : Nat) : U32 :=
  let byte (i : Nat) : U32 := if i < len then (data.getD i 0).setWidth 32 else 0
  byte 0 ||| (byte 1 <<< 8) ||| (byte 2 <<< 16) ||| (byte 3 <<< 24)

/-- The first `n` words of `len` bytes of data. -/
def wordsFrom : Nat → List U8 → Nat → List U32
  | 0, _, _ => []
  | n + 1, data, len => wordOf data len :: wordsFrom n (data.drop 4) (len - 4)

/-- The words that `sdm_send_data` sends for data of length `len`, which is an `int`. -/
def wordsOf (data : List U8) (len : Int) : List U32 := wordsFrom ((len.toNat + 3) / 4) data len.toNat

/-! ## Sending -/

/-- The mailbox as the driver uses it: how often its space register was read, and the words of each command, the newest first. -/
structure Mailbox where
  reads : Nat
  commands : List (List Sent)
  deriving DecidableEq, Repr

/-- A call of `sdm_send_data` with its words. -/
structure Send where
  part : Part
  words : List U32
  last : Bool
  deriving DecidableEq, Repr

section

variable (space : Nat → U32)

/-- Waiting for space, with `n` more tries; `k` readings were made. -/
def waitSpace : Nat → Nat → Option U32 × Nat
  | 0, k => (none, k + 1)
  | n + 1, k => if space k ≠ 0 then (some (space k), k + 1) else waitSpace n (k + 1)

/-- The loop of `sdm_send_data`, with what is known about free space. -/
def sendLoop (part : Part) (last : Bool) : List U32 → U32 → Nat → List Sent × Nat × Int
  | [], _, k => ([], k, 0)
  | w :: ws, freeSpace, k =>
    let wait := if freeSpace = 0 then waitSpace space 10000 k else (some freeSpace, k)
    match wait.1 with
    | none => ([], wait.2, eBusy)
    | some freeSpace =>
      let r := sendLoop part last ws (freeSpace - 1) wait.2
      (⟨part, w, last && ws.isEmpty⟩ :: r.1, r.2)

/-- A new command. -/
def Mailbox.start (m : Mailbox) : Mailbox := { m with commands := [] :: m.commands }

/-- A send, as a part of the newest command. -/
def Mailbox.send (m : Mailbox) (x : Send) : Mailbox × Int :=
  let r := sendLoop space x.part x.last x.words 0 m.reads
  let commands :=
    match m.commands with
    | [] => [r.1]
    | command :: rest => (command ++ r.1) :: rest
  (⟨r.2.1, commands⟩, r.2.2)

end

/-! ## The driver -/

/-- `struct sdm`, with its mailbox and the number of responses that were read. -/
structure Sdm where
  mailbox : Mailbox
  gets : Nat
  locked : Bool
  deriving DecidableEq, Repr

/-- What a call meets: the readings of the space register, the results of `sdm_get_data` in their order, and whether the component can be
locked. -/
structure SdmEnv where
  space : Nat → U32
  getData : Nat → Int
  lock : Bool

def qspiOpenOp : U32 := 0x32

def qspiSetCsOp : U32 := 0x34

def qspiCloseOp : U32 := 0x33

def qspiReadOp : U32 := 0x3A

def qspiReadDeviceRegOp : U32 := 0x35

def qspiWriteOp : U32 := 0x39

def qspiWriteDeviceRegOp : U32 := 0x36

def qspiEraseOp : U32 := 0x38

/-- The header of a command; its id is never changed from zero. -/
def headerWord (code len : U32) : U32 := ((0 : U32) <<< 24) ||| (len <<< 12) ||| (code <<< 0)

section

variable (env : SdmEnv)

/-- `sdm_send_data`. -/
def sdmSendData (part : Part) (data : List U8) (len : Int) (last : Bool) (s : Sdm) : Sdm × Int :=
  let r := s.mailbox.send env.space ⟨part, wordsOf data len, last⟩
  ({ s with mailbox := r.1 }, r.2)

/-- `sdm_get_data`. -/
def sdmGetData (s : Sdm) : Sdm × Int := ({ s with gets := s.gets + 1 }, env.getData s.gets)

/-- `sdm_send_header`; the result of the send is not looked at. -/
def sdmSendHeader (code len : U32) (s : Sdm) : Sdm × Int :=
  if code >>> 11 ≠ 0 ∨ len >>> 11 ≠ 0 then (s, eInval)
  else
    ((sdmSendData env .header (le32 (headerWord code len)) 4 (len = 0) { s with mailbox := s.mailbox.start }).1, 0)

/-- The command `QSPI_CLOSE` and its response. -/
def sdmClose (s : Sdm) : Sdm := (sdmGetData env (sdmSendHeader env qspiCloseOp 0 s).1).1

/-- `sdm_qspi_prepare`. -/
def sdmQspiPrepare (s : Sdm) : Sdm × Int :=
  if env.lock = false then (s, eAgain)
  else
    let h := sdmSendHeader env qspiOpenOp 0 s
    let opened := if h.2 < 0 then h else sdmGetData env h.1
    if opened.2 < 0 then opened
    else
      let h := sdmSendHeader env qspiSetCsOp 1 opened.1
      let cs : Sdm × Int := if h.2 < 0 then h else sdmGetData env (sdmSendData env .argument (le32 0) 4 true h.1).1
      if cs.2 < 0 then (sdmClose env cs.1, cs.2) else ({ cs.1 with locked := true }, 0)

/-- `sdm_qspi_unprepare`. -/
def sdmQspiUnprepare (s : Sdm) : Sdm := { sdmClose env s with locked := false }

/-- `sdm_qspi_read`, without its data. -/
def sdmQspiRead (src len : U64) (s : Sdm) : Sdm × Int :=
  if src &&& 3 ≠ 0 then (s, eInval)
  else
    let h := sdmSendHeader env qspiReadOp 2 s
    if h.2 < 0 then h
    else
      let s := (sdmSendData env .argument (le32 (src.setWidth 32)) 4 false h.1).1
      let s := (sdmSendData env .argument (le32 (wordsLen len)) 4 true s).1
      sdmGetData env s

/-- The command of `sdm_qspi_read_reg`, without its data. -/
def readRegCommand (opcode : U8) (s : Sdm) : Sdm × Int :=
  let h := sdmSendHeader env qspiReadDeviceRegOp 2 s
  if h.2 < 0 then h
  else
    let opcode := if opcode = 0x9f then 0x9e else opcode
    let s := (sdmSendData env .argument [opcode] 1 false h.1).1
    let s := (sdmSendData env .argument (le32 8) 4 true s).1
    let r := sdmGetData env s
    if r.2 < 0 then r else (r.1, 0)

/-- `sdm_qspi_write`. -/
def sdmQspiWrite (dst len : U64) (buf : List U8) (s : Sdm) : Sdm × Int :=
  if dst &&& 3 ≠ 0 then (s, eInval)
  else
    let h := sdmSendHeader env qspiWriteOp (2 + wordsLen len) s
    if h.2 < 0 then h
    else
      let s := (sdmSendData env .argument (le32 (dst.setWidth 32)) 4 false h.1).1
      let s := (sdmSendData env .words (le32 (wordsLen len)) 4 false s).1
      -- the length is an `int` here
      let s := (sdmSendData env .data buf (len.setWidth 32).toInt true s).1
      let r := sdmGetData env s
      if r.2 < 0 then r else (r.1, len.toInt)

/-- The command of `sdm_qspi_write_reg`. -/
def writeRegCommand (opcode : U8) (buf : List U8) (len : U32) (s : Sdm) : Sdm × Int :=
  let h := sdmSendHeader env qspiWriteDeviceRegOp (2 + sdmLenBytesToWords (len.signExtend 64)) s
  if h.2 < 0 then h
  else
    let s := (sdmSendData env .argument [opcode] 1 false h.1).1
    let s :=
      if len = 0 then (sdmSendData env .argument (le32 len) 4 true s).1
      else (sdmSendData env .data buf len.toInt true (sdmSendData env .argument (le32 len) 4 false s).1).1
    let r := sdmGetData env s
    if r.2 < 0 then r else (r.1, 0)

/-- A register command, between `sdm_qspi_prepare` and `sdm_qspi_unprepare` if the component is not locked. -/
def withLock (command : Sdm → Sdm × Int) (s : Sdm) : Sdm × Int :=
  if s.locked then command s
  else
    let p := sdmQspiPrepare env s
    if p.2 < 0 then p
    else
      let r := command p.1
      (sdmQspiUnprepare env r.1, r.2)

/-- `sdm_qspi_read_reg`, without its data. -/
def sdmQspiReadReg (opcode : U8) : Sdm → Sdm × Int := withLock env (readRegCommand env opcode)

/-- `sdm_qspi_write_reg`. -/
def sdmQspiWriteReg (opcode : U8) (buf : List U8) (len : U32) : Sdm → Sdm × Int := withLock env (writeRegCommand env opcode buf len)

/-- `sdm_qspi_erase`. -/
def sdmQspiErase (off : U64) (s : Sdm) : Sdm × Int :=
  if off &&& 0x3fff ≠ 0 then (s, eInval)
  else
    let h := sdmSendHeader env qspiEraseOp 2 s
    if h.2 < 0 then h
    else
      let s := (sdmSendData env .argument (le32 (off.setWidth 32)) 4 false h.1).1
      let s := (sdmSendData env .argument (le32 0x4000) 4 true s).1
      let r := sdmGetData env s
      if r.2 < 0 then r else (r.1, 0)

end

/-- A call of the flash driver. -/
inductive FlashCall where
  | prepare
  | unprepare
  | read (src len : U64)
  | readReg (opcode : U8)
  | write (dst len : U64) (buf : List U8)
  | writeReg (opcode : U8) (buf : List U8) (len : U32)
  | erase (off : U64)
  deriving DecidableEq, Repr

def runCall (env : SdmEnv) (s : Sdm) : FlashCall → Sdm × Int
  | .prepare => sdmQspiPrepare env s
  | .unprepare => (sdmQspiUnprepare env s, 0)
  | .read src len => sdmQspiRead env src len s
  | .readReg opcode => sdmQspiReadReg env opcode s
  | .write dst len buf => sdmQspiWrite env dst len buf s
  | .writeReg opcode buf len => sdmQspiWriteReg env opcode buf len s
  | .erase off => sdmQspiErase env off s

/-! ## What is asked of a command -/

/-- The number of words that a header announces. -/
def lenField (header : U32) : Nat := ((header >>> 12).setWidth 11).toNat

/-- The command code of a header. -/
def codeField (header : U32) : BitVec 11 := header.setWidth 11

/-- A header and as many words as it says, of which only the last one goes to `LAST_WORD`; and a write says how many of them are data. -/
structure FrameOk (command : List Sent) : Prop where
  header : ∃ h rest, command = h :: rest ∧ h.part = .header ∧ rest.length = lenField h.word
  last : command.map Sent.last = List.replicate (command.length - 1) false ++ [true]
  write : ∀ h rest, command = h :: rest → codeField h.word = qspiWriteOp.setWidth 11 →
    ∃ address words data, rest = address :: words :: data ∧ words.part = .words ∧ words.word.toNat = data.length

/-! ## Words in time -/

section

variable (space : Nat → U32)

/-- The number of readings after which `n` words are sent; none if space is waited for too long. -/
def spaceAfter : Nat → U32 → Nat → Option Nat
  | 0, _, k => some k
  | n + 1, freeSpace, k =>
    let wait := if freeSpace = 0 then waitSpace space 10000 k else (some freeSpace, k)
    wait.1.bind fun freeSpace => spaceAfter n (freeSpace - 1) wait.2

/-- The same for sends of these numbers of words, one after the other. -/
def spaceAfterAll (sizes : List Nat) (k : Nat) : Option Nat := sizes.foldlM (fun k n => spaceAfter space n 0 k) k

/-- All words of these commands find space in time. -/
def Timely (commands : List (List Send)) (k : Nat) : Prop := spaceAfterAll space (commands.flatten.map fun x => x.words.length) k ≠ none

/-- What a send sends if it is not given up. -/
def fullSend (part : Part) (last : Bool) : List U32 → List Sent
  | [] => []
  | w :: ws => ⟨part, w, last && ws.isEmpty⟩ :: fullSend part last ws

/-- The words of several sends, and the number of readings. -/
def sendAll : List Send → Nat → List Sent × Nat
  | [], k => ([], k)
  | x :: xs, k =>
    let r := sendLoop space x.part x.last x.words 0 k
    (r.1 ++ (sendAll xs r.2.1).1, (sendAll xs r.2.1).2)

/-- A command: the newest one, with its sends. -/
def sendCommand (m : Mailbox) (command : List Send) : Mailbox := command.foldl (fun m x => (m.send space x).1) m.start

/-- The words of several commands. -/
def sendGroups : List (List Send) → Nat → List (List Sent)
  | [], _ => []
  | c :: cs, k => (sendAll space c k).1 :: sendGroups cs (sendAll space c k).2

end

section

variable {space : Nat → U32} {part : Part} {last : Bool} {ws : List U32} {k : Nat}

theorem length_fullSend (part : Part) (last : Bool) : ∀ ws, (fullSend part last ws).length = ws.length := by
  intro ws
  induction ws with
  | nil => rfl
  | cons w ws ih => rw [fullSend, List.length_cons, List.length_cons, ih]

/-- A send with space in time sends all its words, another one only some of them, and not the last one. -/
theorem sendLoop_spec (part : Part) (last : Bool) : ∀ (ws : List U32) (freeSpace : U32) (k : Nat),
    (∃ k', spaceAfter space ws.length freeSpace k = some k' ∧ sendLoop space part last ws freeSpace k = (fullSend part last ws, k', 0)) ∨
      (spaceAfter space ws.length freeSpace k = none ∧ ∃ sent k', sendLoop space part last ws freeSpace k = (sent, k', eBusy) ∧
        sent.length < ws.length ∧ ∀ x ∈ sent, x.part = part ∧ x.last = false) := by
  intro ws
  induction ws with
  | nil => exact fun _ k => Or.inl ⟨k, rfl, rfl⟩
  | cons w ws ih =>
    intro freeSpace k
    unfold sendLoop
    rw [List.length_cons, spaceAfter]
    dsimp only
    generalize (if freeSpace = 0 then waitSpace space 10000 k else (some freeSpace, k)) = wait
    obtain ⟨found, k₁⟩ := wait
    cases found with
    | none => exact Or.inr ⟨rfl, [], k₁, rfl, Nat.succ_pos _, fun x hx => absurd hx List.not_mem_nil⟩
    | some freeSpace =>
      rcases ih (freeSpace - 1) k₁ with ⟨k', hk', hrun⟩ | ⟨hnone, sent, k', hrun, hlen, hsent⟩
      · left
        refine ⟨k', hk', ?_⟩
        dsimp only
        rw [hrun]
        rfl
      · right
        refine ⟨hnone, ⟨part, w, last && ws.isEmpty⟩ :: sent, k', ?_, Nat.succ_lt_succ hlen, ?_⟩
        · dsimp only
          rw [hrun]
        · -- words are left, so that this one is not the last one
          have hws : ws.isEmpty = false := by
            cases ws with
            | nil => exact absurd hlen (Nat.not_lt_zero _)
            | cons => rfl
          intro x hx
          rcases List.mem_cons.1 hx with rfl | hx
          · exact ⟨rfl, by rw [hws, Bool.and_false]⟩
          · exact hsent x hx

theorem spaceAfterAll_cons (n : Nat) (sizes : List Nat) (k : Nat) :
    spaceAfterAll space (n :: sizes) k = (spaceAfter space n 0 k).bind (spaceAfterAll space sizes) := rfl

theorem spaceAfterAll_append (a b : List Nat) (k : Nat) :
    spaceAfterAll space (a ++ b) k = (spaceAfterAll space a k).bind (spaceAfterAll space b) := by
  unfold spaceAfterAll
  rw [List.foldlM_append]
  rfl

theorem sendAll_timely : ∀ {c : List Send} {k k' : Nat}, spaceAfterAll space (c.map fun x => x.words.length) k = some k' →
    sendAll space c k = (c.flatMap fun x => fullSend x.part x.last x.words, k') := by
  intro c
  induction c with
  | nil =>
    intro k k' h
    obtain rfl := Option.some.inj h
    rfl
  | cons x c ih =>
    intro k k' h
    rw [List.map_cons, spaceAfterAll_cons] at h
    rcases sendLoop_spec x.part x.last x.words 0 k with ⟨k₁, hk₁, hrun⟩ | ⟨hnone, -⟩
    · rw [hk₁, Option.bind_some] at h
      rw [sendAll, hrun]
      dsimp only
      rw [ih h]
      rfl
    · rw [hnone] at h
      cases h

theorem length_sendLoop_le (space : Nat → U32) (part : Part) (last : Bool) (ws : List U32) (k : Nat) :
    (sendLoop space part last ws 0 k).1.length ≤ ws.length := by
  rcases sendLoop_spec part last ws 0 k with ⟨k', -, hrun⟩ | ⟨-, sent, k', hrun, hlen, -⟩
  · rw [hrun, length_fullSend]
  · rw [hrun]
    exact le_of_lt hlen

/-- The number of words of a command. -/
def wordCount (c : List Send) : Nat := (c.map fun x => x.words.length).sum

theorem length_sendAll_le (space : Nat → U32) : ∀ (c : List Send) (k : Nat), (sendAll space c k).1.length ≤ wordCount c := by
  intro c
  induction c with
  | nil => exact fun _ => le_refl 0
  | cons x c ih =>
    intro k
    have hle := length_sendLoop_le space x.part x.last x.words k
    have hrest := ih (sendLoop space x.part x.last x.words 0 k).2.1
    rw [sendAll, List.length_append]
    unfold wordCount at hrest ⊢
    rw [List.map_cons, List.sum_cons]
    omega

theorem length_sendAll_lt : ∀ {c : List Send} {k : Nat}, spaceAfterAll space (c.map fun x => x.words.length) k = none →
    (sendAll space c k).1.length < wordCount c := by
  intro c
  induction c with
  | nil =>
    intro k h
    cases h
  | cons x c ih =>
    intro k h
    have hle := length_sendAll_le space c
    rw [List.map_cons, spaceAfterAll_cons] at h
    rw [sendAll, List.length_append]
    unfold wordCount at ih hle ⊢
    rw [List.map_cons, List.sum_cons]
    rcases sendLoop_spec x.part x.last x.words 0 k with ⟨k₁, hk₁, hrun⟩ | ⟨-, sent, k₁, hrun, hlen, -⟩
    · rw [hk₁, Option.bind_some] at h
      have hrest := ih h
      rw [hrun]
      dsimp only
      rw [length_fullSend]
      omega
    · have hrest := hle k₁
      rw [hrun]
      dsimp only
      omega

theorem part_sendLoop (part : Part) (last : Bool) : ∀ (ws : List U32) (freeSpace : U32) (k : Nat),
    ∀ x ∈ (sendLoop space part last ws freeSpace k).1, x.part = part ∧ x.word ∈ ws := by
  intro ws
  induction ws with
  | nil => exact fun _ _ x hx => absurd hx List.not_mem_nil
  | cons w ws ih =>
    intro freeSpace k x hx
    unfold sendLoop at hx
    dsimp only at hx
    split at hx
    · exact absurd hx List.not_mem_nil
    · rcases List.mem_cons.1 hx with rfl | hx
      · exact ⟨rfl, List.mem_cons_self⟩
      · have hrest := ih _ _ x hx
        exact ⟨hrest.1, List.mem_cons_of_mem w hrest.2⟩

theorem mem_sendAll : ∀ {c : List Send} {k : Nat} {x : Sent}, x ∈ (sendAll space c k).1 → ∃ y ∈ c, x.part = y.part ∧ x.word ∈ y.words := by
  intro c
  induction c with
  | nil => exact fun hx => absurd hx List.not_mem_nil
  | cons y c ih =>
    intro k x hx
    rw [sendAll] at hx
    rcases List.mem_append.1 hx with hx | hx
    · exact ⟨y, List.mem_cons_self, part_sendLoop y.part y.last y.words 0 k x hx⟩
    · obtain ⟨z, hz, h⟩ := ih hx
      exact ⟨z, List.mem_cons_of_mem y hz, h⟩

/-! ## Commands in the mailbox -/

theorem foldl_send (space : Nat → U32) : ∀ (c : List Send) (k : Nat) (g : List Sent) (rest : List (List Sent)),
    c.foldl (fun m x => (Mailbox.send space m x).1) ⟨k, g :: rest⟩ = ⟨(sendAll space c k).2, (g ++ (sendAll space c k).1) :: rest⟩ := by
  intro c
  induction c with
  | nil =>
    intro k g rest
    rw [sendAll, List.append_nil]
    rfl
  | cons x c ih =>
    intro k g rest
    rw [List.foldl_cons]
    show c.foldl _ (⟨(sendLoop space x.part x.last x.words 0 k).2.1, (g ++ (sendLoop space x.part x.last x.words 0 k).1) :: rest⟩ : Mailbox) = _
    rw [ih, sendAll, List.append_assoc]

theorem sendCommand_eq (space : Nat → U32) (m : Mailbox) (c : List Send) :
    sendCommand space m c = ⟨(sendAll space c m.reads).2, (sendAll space c m.reads).1 :: m.commands⟩ := foldl_send space c m.reads [] m.commands

theorem foldl_sendCommand (space : Nat → U32) : ∀ (cs : List (List Send)) (m : Mailbox),
    (cs.foldl (sendCommand space) m).commands = (sendGroups space cs m.reads).reverse ++ m.commands := by
  intro cs
  induction cs with
  | nil => exact fun _ => rfl
  | cons c cs ih =>
    intro m
    rw [List.foldl_cons, ih, sendCommand_eq, sendGroups, List.reverse_cons, List.append_assoc]
    rfl

theorem frames_iff {P : Prop} : ∀ {cs : List (List Send)}, (∀ c ∈ cs, ∀ k, FrameOk (sendAll space c k).1 ↔
      spaceAfterAll space (c.map fun x => x.words.length) k ≠ none ∧ P) →
    ∀ k, (∀ g ∈ sendGroups space cs k, FrameOk g) ↔ Timely space cs k ∧ (cs = [] ∨ P) := by
  intro cs
  induction cs with
  | nil => exact fun _ k => ⟨fun _ => ⟨Option.some_ne_none k, Or.inl rfl⟩, fun _ g hg => absurd hg List.not_mem_nil⟩
  | cons c cs ih =>
    intro h k
    have hc := h c List.mem_cons_self k
    have hrest := ih (fun c' hc' => h c' (List.mem_cons_of_mem c hc')) (sendAll space c k).2
    rw [sendGroups, List.forall_mem_cons, hc, hrest]
    unfold Timely
    rw [List.flatten_cons, List.map_append, spaceAfterAll_append]
    cases htime : spaceAfterAll space (c.map fun x => x.words.length) k with
    | none => simp
    | some k' =>
      rw [sendAll_timely htime, Option.bind_some]
      constructor
      · rintro ⟨⟨-, hp⟩, ht, -⟩
        exact ⟨ht, Or.inr hp⟩
      · rintro ⟨ht, hp⟩
        have hp' : P := hp.resolve_left (List.cons_ne_nil _ _)
        exact ⟨⟨Option.some_ne_none k', hp'⟩, ht, Or.inr hp'⟩

/-! ## Headers -/

theorem getLsbD_high {x : U32} {i : Nat} (hx : x.toNat < 2 ^ 11) (hi : 11 ≤ i) : x.getLsbD i = false :=
  Nat.testBit_lt_two_pow (lt_of_lt_of_le hx (Nat.pow_le_pow_right (by decide) hi))

theorem lenField_headerWord {code len : U32} (hcode : code.toNat < 2 ^ 11) (hlen : len.toNat < 2 ^ 11) : lenField (headerWord code len) = len.toNat := by
  have hfield : ((headerWord code len) >>> 12).setWidth 11 = len.setWidth 11 := by
    apply BitVec.eq_of_getLsbD_eq
    intro i hi
    have hhigh : code.getLsbD (12 + i) = false := getLsbD_high hcode (by omega)
    simp only [headerWord, BitVec.getLsbD_setWidth, BitVec.getLsbD_ushiftRight, BitVec.getLsbD_or, BitVec.getLsbD_shiftLeft, hi, decide_true,
      Bool.true_and, Nat.sub_zero, hhigh]
    simp
    omega
  unfold lenField
  rw [hfield, BitVec.toNat_setWidth, Nat.mod_eq_of_lt hlen]

theorem codeField_headerWord {code len : U32} : codeField (headerWord code len) = code.setWidth 11 := by
  unfold codeField
  apply BitVec.eq_of_getLsbD_eq
  intro i hi
  have hword : i < 32 := by omega
  simp [headerWord, BitVec.getLsbD_setWidth, hword]

theorem wordOf_le32 (x : U32) : wordOf (le32 x) 4 = x := by
  unfold wordOf le32
  apply BitVec.eq_of_getLsbD_eq
  intro i hi
  rcases Nat.lt_or_ge i 8 with h₁ | h₁
  · have h₂ : i < 16 := by omega
    have h₃ : i < 24 := by omega
    simp [hi, h₁, h₂, h₃]
  · rcases Nat.lt_or_ge i 16 with h₂ | h₂
    · have h₃ : i < 24 := by omega
      have h₄ : i - 8 < 8 := by omega
      have h₅ : 8 + (i - 8) = i := by omega
      have h₆ : i - 8 < 32 := by omega
      simp [hi, Nat.not_lt.2 h₁, h₂, h₃, h₄, h₅, h₆]
    · rcases Nat.lt_or_ge i 24 with h₃ | h₃
      · have h₄ : i - 16 < 8 := by omega
        have h₅ : 16 + (i - 16) = i := by omega
        have h₆ : ¬ i - 8 < 8 := by omega
        have h₇ : i - 16 < 32 := by omega
        simp [hi, Nat.not_lt.2 h₁, Nat.not_lt.2 h₂, h₃, h₄, h₅, h₆, h₇]
      · have h₄ : i - 24 < 8 := by omega
        have h₅ : 24 + (i - 24) = i := by omega
        have h₆ : ¬ i - 8 < 8 := by omega
        have h₇ : ¬ i - 16 < 8 := by omega
        have h₈ : i - 24 < 32 := by omega
        simp [hi, Nat.not_lt.2 h₁, Nat.not_lt.2 h₂, Nat.not_lt.2 h₃, h₄, h₅, h₆, h₇, h₈]

theorem wordsOf_le32 (x : U32) : wordsOf (le32 x) 4 = [x] := congrArg (fun w => [w]) (wordOf_le32 x)

theorem wordsOf_byte (x : U8) : wordsOf [x] 1 = [x.setWidth 32] := by
  show [wordOf [x] 1] = [x.setWidth 32]
  simp [wordOf]

end

end NdkSw.Boot

/-
Reading the flash through the SDM (`sdm_get_data` and `sdm_qspi_read` of `boot/sdm.c`): the response is a header and its words, which the
driver takes out of a FIFO as they arrive, the last one when the end of the response is there. The request is limited to 1024 words, while
the last word is cut by the low bits of the whole length.
-/
import NdkSw.Boot.SdmFrames
import NdkSw.Shared.Words

namespace NdkSw.Boot.SdmRead

open Ndp

/-! ## The registers of a response -/

/-- What a response shows: the valid bit at its readings, the fill level at its readings, of which each comes after so many words were taken,
and the words. -/
structure Response where
  valid : Nat → Bool
  level : Nat → Nat → U32
  word : Nat → U32

/-- The buffer of the caller: what was written at each offset. -/
abbrev Written := Nat → Option U8

/-- The byte of a word. -/
def byteOf (w : U32) (i : Nat) : U8 := (w >>> (8 * i)).setWidth 8

/-- The first `n` bytes of a word are written. -/
def putBytes (pos n : Nat) (w : U32) (buf : Written) : Written := fun i => if pos ≤ i ∧ i < pos + n then some (byteOf w (i - pos)) else buf i

/-- `ISR_TIMEOUT`. -/
def isrTimeout : Nat := 1000000

/-- The variables of `sdm_get_data`; `pos` is where its pointer to the data is. -/
structure Get where
  sop : Bool
  eop : Bool
  fill : Nat
  rlen : Int
  read : Int
  reads : Nat
  taken : Nat
  pos : Nat
  buf : Written

def Get.start : Get := ⟨false, false, 0, -1, 0, 0, 0, 0, fun _ => none⟩

section

variable (r : Response) (trim : Nat)

/-- Waiting for the valid bit, with `n` more tries. -/
def waitValid : Nat → Nat → Bool
  | 0, k => r.valid k
  | n + 1, k => r.valid k || waitValid n (k + 1)

/-- A reading of the fill level. -/
def Get.readLevel (g : Get) : Get :=
  let tmp := r.level g.reads g.taken
  { g with sop := g.sop || decide (tmp &&& 1 ≠ 0), eop := decide (tmp &&& 2 ≠ 0), fill := (tmp >>> 2).toNat, reads := g.reads + 1 }

/-- Waiting for the start of the response and a word that can be taken. -/
def waitLevel : Nat → Get → Option Get
  | 0, _ => none
  | fuel + 1, g => if g.fill = 0 ∨ g.sop = false ∨ (g.rlen = 1 ∧ g.eop = false) then waitLevel fuel (g.readLevel r) else some g

/-- The header, if it was not read yet; an error is a return. -/
def readHeader (g : Get) : Except Int Get :=
  if 0 ≤ g.rlen then .ok g
  else
    let tmp := r.word g.taken
    if codeField tmp ≠ 0 then .error (-(codeField tmp).toNat)
    else if lenField tmp = 0 then .error 0
    else .ok { g with taken := g.taken + 1, read := 0, rlen := lenField tmp, fill := g.fill - 1 }

/-- A word is taken, and `n` bytes of it are stored. -/
def Get.takeWord (n : Nat) (g : Get) : Get :=
  { g with buf := putBytes g.pos n (r.word g.taken) g.buf, read := g.read + n, rlen := g.rlen - 1, taken := g.taken + 1 }

/-- The words that are known to be there; the last one only with the end of the response, and not the whole of it if `trim` is not zero. -/
def drain : Nat → Get → Get
  | 0, g => { g with fill := 0 }
  | n + 1, g =>
    if g.rlen = 1 ∧ g.eop = false then { g with fill := n + 1 }
    else if g.rlen = 1 ∧ trim ≠ 0 then { g.takeWord r trim with fill := n + 1 }
    else drain n { g.takeWord r 4 with pos := g.pos + 4, fill := n }

/-- The loop of `sdm_get_data`. -/
def getLoop : Nat → Get → Option (Int × Written)
  | 0, _ => none
  | fuel + 1, g =>
    match waitLevel r fuel g with
    | none => none
    | some g =>
      match readHeader r g with
      | .error result => some (result, g.buf)
      | .ok g =>
        let g := drain r trim g.fill g
        if 0 < g.rlen then getLoop fuel g else some (g.read, g.buf)

end

/-- `sdm_get_data`. -/
def sdmGetData (r : Response) (len : U32) (fuel : Nat) : Option (Int × Written) :=
  if waitValid r isrTimeout 0 then getLoop r (len &&& 3).toNat fuel Get.start else some (eTime, fun _ => none)

/-- `sdm_qspi_read`, with the response that the command gets. -/
def sdmQspiRead (env : SdmEnv) (answer : List Sent → Response) (src len : U64) (s : Sdm) (fuel : Nat) : Option (Int × Written) :=
  if src &&& 3 ≠ 0 then some (eInval, fun _ => none)
  else
    let h := sdmSendHeader env qspiReadOp 2 s
    if h.2 < 0 then some (h.2, fun _ => none)
    else
      let s := (sdmSendData env .argument (le32 (src.setWidth 32)) 4 false h.1).1
      let s := (sdmSendData env .argument (le32 (wordsLen len)) 4 true s).1
      sdmGetData (answer (s.mailbox.commands.headD [])) (len.setWidth 32) fuel

/-! ## The device -/

/-- The response to a read of `n` words at `address`, which arrives in any number of fills. -/
structure Responds (flash : Nat → U8) (address n : Nat) (arrived : Nat → Nat) (r : Response) : Prop where
  valid : ∃ k ≤ isrTimeout, r.valid k = true
  code : codeField (r.word 0) = 0
  len : lenField (r.word 0) = n
  data : ∀ i < n, ∀ j < 4, byteOf (r.word (i + 1)) j = flash (address + 4 * i + j)
  grows : Monotone arrived
  most : ∀ k, arrived k ≤ n + 1
  fill : ∀ k p, p ≤ n → (r.level k p >>> 2).toNat = arrived k - p
  start : ∀ k, 0 < arrived k → r.level k 0 &&& 1 ≠ 0
  stop : ∀ k p, p ≤ n → r.level k p &&& 2 ≠ 0 → arrived k = n + 1
  ends : ∃ K, ∀ k ≥ K, arrived k = n + 1 ∧ ∀ p ≤ n, r.level k p &&& 2 ≠ 0

/-- The words of a read command. -/
def readFrame (address words : U32) : List Sent :=
  [⟨.header, headerWord qspiReadOp 2, false⟩, ⟨.argument, address, false⟩, ⟨.argument, words, true⟩]

/-- An SDM that answers the read of so many words with exactly these words. -/
def AnswersReads (flash : Nat → U8) (answer : List Sent → Response) : Prop :=
  ∀ address words : U32, words.toNat ≤ 1024 → ∃ arrived, Responds flash address.toNat words.toNat arrived (answer (readFrame address words))

/-! ## Waiting -/

/-- What is known to be in the FIFO: at most what is missing, and all of it with the end of the response. -/
structure Filled (n : Nat) (g : Get) : Prop where
  le : g.taken + g.fill ≤ n + 1
  all : g.eop = true → g.taken + g.fill = n + 1
  started : g.taken ≠ 0 → g.sop = true

/-- Only the readings of the fill level differ. -/
structure SameData (g g' : Get) : Prop where
  taken : g'.taken = g.taken
  rlen : g'.rlen = g.rlen
  read : g'.read = g.read
  pos : g'.pos = g.pos
  buf : g'.buf = g.buf

section

variable {flash : Nat → U8} {address n trim : Nat} {arrived : Nat → Nat} {r : Response} {g g' : Get} {buf : Written}

theorem waitValid_of : ∀ {m k : Nat}, (∃ i, k ≤ i ∧ i ≤ k + m ∧ r.valid i = true) → waitValid r m k = true := by
  intro m
  induction m with
  | zero =>
    rintro k ⟨i, hle, hge, hvalid⟩
    obtain rfl : i = k := by omega
    exact hvalid
  | succ m ih =>
    rintro k ⟨i, hle, hge, hvalid⟩
    rw [waitValid, Bool.or_eq_true]
    by_cases hi : i = k
    · left
      rw [← hi]
      exact hvalid
    · right
      exact ih ⟨i, by omega, by omega, hvalid⟩

theorem Responds.filled_readLevel (h : Responds flash address n arrived r) (hfilled : Filled n g) (hle : g.taken ≤ n) :
    Filled n (g.readLevel r) := by
  have hfill := h.fill g.reads g.taken hle
  have hmost := h.most g.reads
  unfold Get.readLevel
  refine ⟨?_, ?_, ?_⟩
  · dsimp only
    omega
  · intro heop
    have hall := h.stop g.reads g.taken hle (of_decide_eq_true heop)
    dsimp only
    omega
  · intro hne
    dsimp only at hne ⊢
    rw [hfilled.started hne, Bool.true_or]

theorem sameData_readLevel (r : Response) (g : Get) : SameData g (g.readLevel r) := ⟨rfl, rfl, rfl, rfl, rfl⟩

theorem SameData.trans {g'' : Get} (h : SameData g g') (h' : SameData g' g'') : SameData g g'' :=
  ⟨h'.taken.trans h.taken, h'.rlen.trans h.rlen, h'.read.trans h.read, h'.pos.trans h.pos, h'.buf.trans h.buf⟩

/-- The end of waiting: a word can be taken. -/
structure Ready (g : Get) : Prop where
  fill : 0 < g.fill
  sop : g.sop = true
  eop : g.rlen = 1 → g.eop = true

theorem ready_iff : Ready g ↔ ¬ (g.fill = 0 ∨ g.sop = false ∨ (g.rlen = 1 ∧ g.eop = false)) := by
  constructor
  · rintro h (hfill | hsop | ⟨hrlen, heop⟩)
    · exact absurd hfill (Nat.ne_of_gt h.fill)
    · exact absurd h.sop (by rw [hsop]; decide)
    · exact absurd (h.eop hrlen) (by rw [heop]; decide)
  · intro h
    refine ⟨Nat.pos_of_ne_zero fun hfill => h (Or.inl hfill), ?_, ?_⟩
    · rw [← Bool.not_eq_false]
      exact fun hsop => h (Or.inr (Or.inl hsop))
    · intro hrlen
      rw [← Bool.not_eq_false]
      exact fun heop => h (Or.inr (Or.inr ⟨hrlen, heop⟩))

theorem Responds.ready_readLevel (h : Responds flash address n arrived r) (hfilled : Filled n g) (hle : g.taken ≤ n)
    (hend : arrived g.reads = n + 1 ∧ ∀ p ≤ n, r.level g.reads p &&& 2 ≠ 0) : Ready (g.readLevel r) := by
  have hfill := h.fill g.reads g.taken hle
  unfold Get.readLevel
  refine ⟨?_, ?_, ?_⟩
  · dsimp only
    omega
  · dsimp only
    rw [Bool.or_eq_true, decide_eq_true_iff]
    by_cases hzero : g.taken = 0
    · right
      rw [hzero]
      exact h.start g.reads (by omega)
    · exact Or.inl (hfilled.started hzero)
  · intro _
    exact decide_eq_true (hend.2 g.taken hle)

theorem waitLevel_ready (h : Ready g) : ∀ fuel ≥ 1, waitLevel r fuel g = some g := by
  intro fuel hfuel
  obtain ⟨fuel, rfl⟩ := Nat.exists_eq_add_of_le' hfuel
  rw [waitLevel, if_neg (ready_iff.1 h)]

theorem waitLevel_read (h : ¬ Ready g) (fuel : Nat) : waitLevel r (fuel + 1) g = waitLevel r fuel (g.readLevel r) := by
  rw [waitLevel, if_pos (not_not.1 (mt ready_iff.2 h))]

theorem Responds.wait (h : Responds flash address n arrived r) (hfilled : Filled n g) (hle : g.taken ≤ n) :
    ∃ F g', (∀ fuel ≥ F, waitLevel r fuel g = some g') ∧ SameData g g' ∧ Filled n g' ∧ Ready g' := by
  obtain ⟨K, hK⟩ := h.ends
  obtain ⟨d, hd⟩ : ∃ d, K ≤ g.reads + d := ⟨K, Nat.le_add_left K g.reads⟩
  -- the induction is on the readings until all has arrived
  induction d generalizing g with
  | zero =>
    by_cases hready : Ready g
    · exact ⟨1, g, waitLevel_ready hready, ⟨rfl, rfl, rfl, rfl, rfl⟩, hfilled, hready⟩
    · have hready' := h.ready_readLevel hfilled hle (hK g.reads hd)
      refine ⟨2, g.readLevel r, ?_, sameData_readLevel r g, h.filled_readLevel hfilled hle, hready'⟩
      intro fuel hfuel
      obtain ⟨fuel, rfl⟩ := Nat.exists_eq_add_of_le' (le_trans (Nat.le_succ 1) hfuel)
      rw [waitLevel_read hready, waitLevel_ready hready' fuel (by omega)]
  | succ d ih =>
    by_cases hready : Ready g
    · exact ⟨1, g, waitLevel_ready hready, ⟨rfl, rfl, rfl, rfl, rfl⟩, hfilled, hready⟩
    · have hd' : K ≤ (g.readLevel r).reads + d := by
        show K ≤ g.reads + 1 + d
        omega
      obtain ⟨F, g', hrun, hsame, hfilled', hready'⟩ := ih (h.filled_readLevel hfilled hle) hle hd'
      refine ⟨F + 1, g', ?_, (sameData_readLevel r g).trans hsame, hfilled', hready'⟩
      intro fuel hfuel
      obtain ⟨fuel, rfl⟩ := Nat.exists_eq_add_of_le' (le_trans (Nat.le_add_left 1 F) hfuel)
      rw [waitLevel_read hready, hrun fuel (by omega)]

/-! ## Taking words -/

/-- The first bytes of the buffer are those of the flash, and no other ones were written. -/
def Stored (flash : Nat → U8) (address count : Nat) (buf : Written) : Prop :=
  (∀ i < count, buf i = some (flash (address + i))) ∧ ∀ i, count ≤ i → buf i = none

/-- The header and some words were taken, and the words are in the buffer. -/
structure Reading (flash : Nat → U8) (address n trim : Nat) (g : Get) : Prop where
  header : 1 ≤ g.taken
  more : g.taken ≤ n ∨ (g.taken = n + 1 ∧ trim = 0)
  rlen : g.rlen = n + 1 - g.taken
  pos : g.pos = 4 * (g.taken - 1)
  read : g.read = g.pos
  buf : Stored flash address g.pos g.buf
  filled : Filled n g

/-- The number of bytes of `n` words, the last of which is cut. -/
def byteCount (n trim : Nat) : Nat := if trim = 0 then 4 * n else 4 * (n - 1) + trim

/-- All words are in the buffer. -/
structure Done (flash : Nat → U8) (address n trim : Nat) (g : Get) : Prop where
  rlen : g.rlen = 0
  read : g.read = byteCount n trim
  buf : Stored flash address (byteCount n trim) g.buf

theorem putBytes_of_in {pos m i : Nat} {w : U32} (h : pos ≤ i ∧ i < pos + m) :
    putBytes pos m w buf i = some (byteOf w (i - pos)) := if_pos h

theorem putBytes_of_out {pos m i : Nat} {w : U32} (h : ¬ (pos ≤ i ∧ i < pos + m)) : putBytes pos m w buf i = buf i := if_neg h

theorem Stored.put {pos m : Nat} {w : U32} (h : Stored flash address pos buf) (hw : ∀ j < m, byteOf w j = flash (address + pos + j)) :
    Stored flash address (pos + m) (putBytes pos m w buf) := by
  constructor
  · intro i hi
    by_cases hlt : i < pos
    · rw [putBytes_of_out (by omega)]
      exact h.1 i hlt
    · have hbyte := hw (i - pos) (by omega)
      rw [putBytes_of_in (by omega), hbyte]
      congr 2
      omega
  · intro i hi
    rw [putBytes_of_out (by omega)]
    exact h.2 i (by omega)

theorem Responds.word (h : Responds flash address n arrived r) (hg : Reading flash address n trim g) (hle : g.taken ≤ n) :
    ∀ j < 4, byteOf (r.word g.taken) j = flash (address + g.pos + j) := by
  intro j hj
  have hheader := hg.header
  have hdata := h.data (g.taken - 1) (by omega) j hj
  rw [Nat.sub_add_cancel hheader] at hdata
  rw [hdata, hg.pos]

theorem Responds.reading_take (h : Responds flash address n arrived r) (hg : Reading flash address n trim g) (hle : g.taken ≤ n)
    (hmore : g.taken < n ∨ trim = 0) {m : Nat} (hm : g.fill = m + 1) :
    Reading flash address n trim { g.takeWord r 4 with pos := g.pos + 4, fill := m } := by
  have hheader := hg.header
  have hrlen := hg.rlen
  have hread := hg.read
  have hpos := hg.pos
  have hfilled := hg.filled
  have hword := hg.buf.put (h.word hg hle)
  constructor
  case header => exact Nat.le_add_left 1 _
  case more =>
    show g.taken + 1 ≤ n ∨ (g.taken + 1 = n + 1 ∧ trim = 0)
    omega
  case rlen =>
    show g.rlen - 1 = n + 1 - ((g.taken + 1 : Nat) : Int)
    omega
  case pos =>
    show g.pos + 4 = 4 * (g.taken + 1 - 1)
    omega
  case read =>
    show g.read + 4 = ((g.pos + 4 : Nat) : Int)
    omega
  case buf => exact hword
  case filled =>
    constructor
    case le =>
      have hall := hfilled.le
      show g.taken + 1 + m ≤ n + 1
      omega
    case all =>
      intro heop
      have hall := hfilled.all heop
      show g.taken + 1 + m = n + 1
      omega
    case started => exact fun _ => hfilled.started (by omega)

/-- Taking the words that are there takes at least one if it can, up to the end. -/
theorem Responds.drain (h : Responds flash address n arrived r) (htrim : trim < 4) : ∀ (m : Nat) (g : Get),
    Reading flash address n trim g → g.fill = m → Done flash address n trim (SdmRead.drain r trim m g) ∨
      (Reading flash address n trim (SdmRead.drain r trim m g) ∧ 0 < (SdmRead.drain r trim m g).rlen ∧ g.taken ≤ (SdmRead.drain r trim m g).taken ∧
        (Ready g → g.taken < (SdmRead.drain r trim m g).taken)) := by
  intro m
  induction m with
  | zero =>
    intro g hg hm
    have hrlen := hg.rlen
    have hread := hg.read
    have hpos := hg.pos
    have hsame : SdmRead.drain r trim 0 g = g := by
      show { g with fill := 0 } = g
      rw [← hm]
    rw [hsame]
    rcases hg.more with hle | ⟨hlast, hzero⟩
    · right
      refine ⟨hg, by omega, le_refl _, ?_⟩
      intro hready
      have hfill := hready.fill
      omega
    · left
      have hcount : byteCount n trim = g.pos := by
        unfold byteCount
        rw [if_pos hzero]
        omega
      exact ⟨by omega, by rw [hcount]; exact hread, by rw [hcount]; exact hg.buf⟩
  | succ m ih =>
    intro g hg hm
    have hrlen := hg.rlen
    have hheader := hg.header
    have hpos := hg.pos
    have hfill := hg.filled.le
    have hle : g.taken ≤ n := by omega
    rw [SdmRead.drain]
    by_cases hwait : g.rlen = 1 ∧ g.eop = false
    · -- the last word, without the end
      have hpositive : 0 < g.rlen := by omega
      rw [if_pos hwait, ← hm]
      right
      refine ⟨hg, hpositive, le_refl _, ?_⟩
      intro hready
      have heop := hready.eop hwait.1
      rw [hwait.2] at heop
      cases heop
    · rw [if_neg hwait]
      by_cases hcut : g.rlen = 1 ∧ trim ≠ 0
      · rw [if_pos hcut]
        left
        have hread := hg.read
        have hcount : byteCount n trim = g.pos + trim := by
          unfold byteCount
          rw [if_neg hcut.2]
          omega
        have hword := hg.buf.put fun j hj => h.word hg hle j (lt_trans hj htrim)
        refine ⟨?_, ?_, ?_⟩
        · show g.rlen - 1 = 0
          omega
        · rw [hcount]
          show g.read + trim = _
          omega
        · rw [hcount]
          exact hword
      · rw [if_neg hcut]
        have hmore : g.taken < n ∨ trim = 0 := by
          by_cases hzero : trim = 0
          · exact Or.inr hzero
          · have hrlen' : g.rlen ≠ 1 := fun he => hcut ⟨he, hzero⟩
            omega
        have htaken : (({ g.takeWord r 4 with pos := g.pos + 4, fill := m } : Get)).taken = g.taken + 1 := rfl
        rcases ih _ (h.reading_take hg hle hmore hm) rfl with hdone | ⟨hreading, hpositive, hprogress, -⟩
        · exact Or.inl hdone
        · rw [htaken] at hprogress
          exact Or.inr ⟨hreading, hpositive, by omega, fun _ => hprogress⟩

/-! ## The whole response -/

theorem SameData.reading (h : SameData g g') (hg : Reading flash address n trim g) (hfilled : Filled n g') : Reading flash address n trim g' := by
  constructor
  case header =>
    rw [h.taken]
    exact hg.header
  case more =>
    rw [h.taken]
    exact hg.more
  case rlen =>
    rw [h.rlen, h.taken]
    exact hg.rlen
  case pos =>
    rw [h.pos, h.taken]
    exact hg.pos
  case read =>
    rw [h.read, h.pos]
    exact hg.read
  case buf =>
    rw [h.pos, h.buf]
    exact hg.buf
  case filled => exact hfilled

theorem getLoop_succ {fuel : Nat} {g₁ : Get} (hwait : waitLevel r fuel g = some g₁) (hheader : readHeader r g₁ = .ok g') :
    getLoop r trim (fuel + 1) g = if 0 < (drain r trim g'.fill g').rlen then getLoop r trim fuel (drain r trim g'.fill g')
      else some ((drain r trim g'.fill g').read, (drain r trim g'.fill g').buf) := by
  rw [getLoop, hwait]
  dsimp only
  rw [hheader]

theorem Responds.getLoop_round (h : Responds flash address n arrived r) (htrim : trim < 4) {F : Nat} {g₁ g₂ : Get}
    (hwait : ∀ fuel ≥ F, waitLevel r fuel g = some g₁) (hheader : readHeader r g₁ = .ok g₂) (hg₂ : Reading flash address n trim g₂)
    (hrest : Reading flash address n trim (SdmRead.drain r trim g₂.fill g₂) → 0 < (SdmRead.drain r trim g₂.fill g₂).rlen →
      (Ready g₂ → g₂.taken < (SdmRead.drain r trim g₂.fill g₂).taken) →
      ∃ F buf, (∀ fuel ≥ F, SdmRead.getLoop r trim fuel (SdmRead.drain r trim g₂.fill g₂) = some ((byteCount n trim : Int), buf)) ∧
        Stored flash address (byteCount n trim) buf) :
    ∃ F buf, (∀ fuel ≥ F, SdmRead.getLoop r trim fuel g = some ((byteCount n trim : Int), buf)) ∧
      Stored flash address (byteCount n trim) buf := by
  rcases h.drain htrim g₂.fill g₂ hg₂ rfl with hdone | ⟨hreading, hpositive, -, hprogress⟩
  · refine ⟨F + 1, _, ?_, hdone.buf⟩
    intro fuel hfuel
    obtain ⟨fuel, rfl⟩ := Nat.exists_eq_add_of_le' (le_trans (Nat.le_add_left 1 F) hfuel)
    have hzero := hdone.rlen
    rw [getLoop_succ (hwait fuel (by omega)) hheader, if_neg (by omega), hdone.read]
  · obtain ⟨F', buf, hrun, hbuf⟩ := hrest hreading hpositive hprogress
    refine ⟨max F F' + 1, buf, ?_, hbuf⟩
    intro fuel hfuel
    obtain ⟨fuel, rfl⟩ := Nat.exists_eq_add_of_le' (le_trans (Nat.le_add_left 1 _) hfuel)
    rw [getLoop_succ (hwait fuel (by omega)) hheader, if_pos hpositive, hrun fuel (by omega)]

theorem Responds.getLoop (h : Responds flash address n arrived r) (htrim : trim < 4) (hg : Reading flash address n trim g) (hrlen : 0 < g.rlen) :
    ∃ F buf, (∀ fuel ≥ F, SdmRead.getLoop r trim fuel g = some ((byteCount n trim : Int), buf)) ∧
      Stored flash address (byteCount n trim) buf := by
  obtain ⟨d, hd⟩ : ∃ d, n + 1 ≤ g.taken + d := ⟨n + 1, Nat.le_add_left (n + 1) g.taken⟩
  -- the induction is on the words that are left
  induction d generalizing g with
  | zero =>
    have hleft := hg.rlen
    omega
  | succ d ih =>
    have hle : g.taken ≤ n := by
      have hleft := hg.rlen
      omega
    obtain ⟨F, g₁, hwait, hsame, hfilled, hready⟩ := h.wait hg.filled hle
    have hg₁ := hsame.reading hg hfilled
    have hheader : readHeader r g₁ = .ok g₁ := by
      unfold readHeader
      rw [hsame.rlen, if_pos (le_of_lt hrlen)]
    refine h.getLoop_round htrim hwait hheader hg₁ fun hreading hpositive hprogress => ?_
    have hmore := hprogress hready
    rw [hsame.taken] at hmore
    exact ih hreading hpositive (by omega)

/-- The bytes that a response of `n` words leaves in the buffer. -/
def responseCount (n trim : Nat) : Nat := if n = 0 then 0 else byteCount n trim

theorem filled_start (n : Nat) : Filled n Get.start := ⟨Nat.zero_le _, fun h => absurd h Bool.false_ne_true, fun h => absurd rfl h⟩

/-- From the start: the header, and then the words. -/
theorem Responds.getLoop_start (h : Responds flash address n arrived r) (htrim : trim < 4) :
    ∃ F buf, (∀ fuel ≥ F, SdmRead.getLoop r trim fuel Get.start = some ((responseCount n trim : Int), buf)) ∧
      Stored flash address (responseCount n trim) buf := by
  obtain ⟨F, g₁, hwait, hsame, hfilled, hready⟩ := h.wait (filled_start n) (Nat.zero_le n)
  have hnone : Stored flash address 0 g₁.buf := by
    rw [hsame.buf]
    exact ⟨fun i hi => absurd hi (Nat.not_lt_zero i), fun _ _ => rfl⟩
  have hneg : ¬ 0 ≤ g₁.rlen := by
    rw [hsame.rlen]
    decide
  have htaken : g₁.taken = 0 := hsame.taken
  by_cases hn : n = 0
  · have hheader : readHeader r g₁ = .error 0 := by
      unfold readHeader
      dsimp only
      rw [if_neg hneg, htaken, if_neg (not_not.2 h.code), h.len, if_pos hn]
    have hcount : responseCount n trim = 0 := if_pos hn
    rw [hcount]
    refine ⟨F + 1, g₁.buf, ?_, hnone⟩
    intro fuel hfuel
    obtain ⟨fuel, rfl⟩ := Nat.exists_eq_add_of_le' (le_trans (Nat.le_add_left 1 F) hfuel)
    rw [SdmRead.getLoop, hwait fuel (by omega)]
    dsimp only
    rw [hheader]
    rfl
  · obtain ⟨g₂, hg₂⟩ : ∃ g₂ : Get, g₂ = { g₁ with taken := g₁.taken + 1, read := 0, rlen := (n : Int), fill := g₁.fill - 1 } := ⟨_, rfl⟩
    have hheader : readHeader r g₁ = .ok g₂ := by
      unfold readHeader
      dsimp only
      rw [if_neg hneg, htaken, if_neg (not_not.2 h.code), h.len, if_neg hn, hg₂, htaken]
    have hfill := hready.fill
    have hreading : Reading flash address n trim g₂ := by
      have hle := hfilled.le
      rw [hg₂, htaken]
      refine ⟨le_refl 1, Or.inl (Nat.pos_of_ne_zero hn), ?_, hsame.pos, ?_, ?_, ?_, ?_, fun _ => hready.sop⟩
      · show (n : Int) = n + 1 - 1
        omega
      · show (0 : Int) = (g₁.pos : Int)
        rw [hsame.pos]
        rfl
      · show Stored flash address g₁.pos g₁.buf
        rw [hsame.pos]
        exact hnone
      · show 0 + 1 + (g₁.fill - 1) ≤ n + 1
        omega
      · intro heop
        have hall := hfilled.all heop
        show 0 + 1 + (g₁.fill - 1) = n + 1
        omega
    have hcount : responseCount n trim = byteCount n trim := if_neg hn
    rw [hcount]
    exact h.getLoop_round htrim hwait hheader hreading fun hrest hpositive _ => h.getLoop htrim hrest hpositive

/-- `sdm_get_data` ends, with the words of the response in the buffer. -/
theorem Responds.sdmGetData (h : Responds flash address n arrived r) (len : U32) :
    ∃ F buf, (∀ fuel ≥ F, SdmRead.sdmGetData r len fuel = some ((responseCount n (len.toNat % 4) : Int), buf)) ∧
      Stored flash address (responseCount n (len.toNat % 4)) buf := by
  have htrim : (len &&& 3).toNat = len.toNat % 4 := by
    rw [BitVec.toNat_and]
    exact Nat.and_two_pow_sub_one_eq_mod len.toNat 2
  obtain ⟨k, hk, hvalid⟩ := h.valid
  have hwait : waitValid r isrTimeout 0 = true := waitValid_of ⟨k, Nat.zero_le k, by omega, hvalid⟩
  obtain ⟨F, buf, hrun, hbuf⟩ := h.getLoop_start (Nat.mod_lt len.toNat (show 4 > 0 by decide))
  refine ⟨F, buf, ?_, hbuf⟩
  intro fuel hfuel
  unfold SdmRead.sdmGetData
  rw [if_pos hwait, htrim]
  exact hrun fuel hfuel

end

/-! ## A read -/

/-- What is asked of a read: some bytes, all of them in the buffer, so that a rest begins at a word. -/
def ReadsRight (flash : Nat → U8) (src len : Nat) (result : Int × Written) : Prop :=
  ∃ n : Nat, result.1 = n ∧ 1 ≤ n ∧ n ≤ len ∧ (∀ i < n, result.2 i = some (flash (src + i))) ∧ (∀ i, len ≤ i → result.2 i = none) ∧
    (n % 4 = 0 ∨ n = len)

/-- A length of which the last word is not cut at the wrong place. -/
def CutRight (len : Nat) : Prop := len ≤ 4096 ∨ (len % 4 = 0 ∧ len % 2 ^ 34 ≠ 0)

/-- The same bytes are at the address and at its low 32 bits. -/
def SameAtLow (flash : Nat → U8) (src len : Nat) : Prop := ∀ i < min (len % 2 ^ 34) 4096, flash (src % 2 ^ 32 + i) = flash (src + i)

section

variable {flash : Nat → U8} {answer : List Sent → Response} {env : SdmEnv} {s : Sdm} {src len : U64}

/-- The bytes that a read gets. -/
def readCount (len : U64) : Nat := responseCount (wordsLen len).toNat (len.toNat % 4)

theorem readCount_of_cutRight (hpos : 1 ≤ len.toNat) (h : CutRight len.toNat) : readCount len = min (len.toNat % 2 ^ 34) 4096 := by
  have hlt := len.isLt
  unfold CutRight at h
  unfold readCount responseCount byteCount
  rw [toNat_wordsLen]
  split_ifs with h₁ h₂
  · omega
  · omega
  · omega

theorem cutRight_iff (hpos : 1 ≤ len.toNat) :
    (1 ≤ readCount len ∧ readCount len ≤ len.toNat ∧ (readCount len % 4 = 0 ∨ readCount len = len.toNat)) ↔ CutRight len.toNat := by
  constructor
  · have hlt := len.isLt
    unfold CutRight readCount responseCount byteCount
    rw [toNat_wordsLen]
    split_ifs with h₁ h₂
    · omega
    · omega
    · omega
  · intro h
    have hcount := readCount_of_cutRight hpos h
    unfold CutRight at h
    omega

theorem sdmQspiRead_eq (halign : src &&& 3 = 0) (htime : Timely env.space [readSends src len] s.mailbox.reads) (fuel : Nat) :
    sdmQspiRead env answer src len s fuel = sdmGetData (answer (readFrame (src.setWidth 32) (wordsLen len))) (len.setWidth 32) fuel := by
  obtain ⟨k', hk'⟩ := Option.ne_none_iff_exists'.1 htime
  rw [List.flatten_singleton] at hk'
  have hcommands : (sendCommand env.space s.mailbox (readSends src len)).commands =
      readFrame (src.setWidth 32) (wordsLen len) :: s.mailbox.commands := by
    rw [sendCommand_eq, sendAll_timely hk']
    rfl
  unfold sdmQspiRead
  rw [if_neg (not_not.2 halign), sdmSendHeader_eq env s qspiReadOp 2 (by decide) (by decide)]
  dsimp only
  rw [if_neg (lt_irrefl _), sdmSendData_le32, sdmSendData_le32]
  show sdmGetData (answer ((sendCommand env.space s.mailbox (readSends src len)).commands.headD [])) _ fuel = _
  rw [hcommands]
  rfl

theorem sdmQspiRead_run (hdevice : AnswersReads flash answer) (halign : src &&& 3 = 0)
    (htime : Timely env.space [readSends src len] s.mailbox.reads) :
    ∃ F buf, (∀ fuel ≥ F, sdmQspiRead env answer src len s fuel = some ((readCount len : Int), buf)) ∧
      Stored flash (src.toNat % 2 ^ 32) (readCount len) buf := by
  obtain ⟨arrived, hresponds⟩ := hdevice (src.setWidth 32) (wordsLen len) (wordsLen_le len)
  have hrun := hresponds.sdmGetData (len.setWidth 32)
  have htrim : (len.setWidth 32).toNat % 4 = len.toNat % 4 := by
    rw [BitVec.toNat_setWidth]
    omega
  rw [htrim, BitVec.toNat_setWidth] at hrun
  obtain ⟨F, buf, hrun, hbuf⟩ := hrun
  refine ⟨F, buf, ?_, hbuf⟩
  intro fuel hfuel
  rw [sdmQspiRead_eq halign htime]
  exact hrun fuel hfuel

/-- A read of an SDM that answers it ends; it gives usable bytes of the flash if and only if the last word is not cut in the middle of the
range and the address is not cut to other bytes. -/
theorem reads_right_iff (hdevice : AnswersReads flash answer) (halign : src &&& 3 = 0)
    (htime : Timely env.space [readSends src len] s.mailbox.reads) (hlen : 1 ≤ len.toNat) :
    (∃ F result, (∀ fuel ≥ F, sdmQspiRead env answer src len s fuel = some result) ∧ ReadsRight flash src.toNat len.toNat result) ↔
      CutRight len.toNat ∧ SameAtLow flash src.toNat len.toNat := by
  obtain ⟨F, buf, hrun, hstored, hrest⟩ := sdmQspiRead_run hdevice halign htime
  have hcut := cutRight_iff hlen
  constructor
  · rintro ⟨F', result, hrun', n, hn, hpos, hle, hbytes, -, hword⟩
    obtain rfl : ((readCount len : Int), buf) = result :=
      Option.some.inj ((hrun (max F F') (le_max_left F F')).symm.trans (hrun' (max F F') (le_max_right F F')))
    obtain rfl : readCount len = n := Int.ofNat.inj hn
    have hright := hcut.1 ⟨hpos, hle, hword⟩
    refine ⟨hright, ?_⟩
    intro i hi
    rw [← readCount_of_cutRight hlen hright] at hi
    exact Option.some.inj ((hstored i hi).symm.trans (hbytes i hi))
  · rintro ⟨hright, hsame⟩
    obtain ⟨hpos, hle, hword⟩ := hcut.2 hright
    refine ⟨F, _, hrun, readCount len, rfl, hpos, hle, ?_, fun i hi => hrest i (le_trans hle hi), hword⟩
    intro i hi
    have hlow := hsame i (by rwa [← readCount_of_cutRight hlen hright])
    exact (hstored i hi).trans (congrArg some hlow)

end

/-! ## An erased flash -/

/-- The response with `n` words of an erased flash, which is all there at once. -/
def erasedResponse (n : U32) : Response where
  valid := fun _ => true
  level := fun _ p => BitVec.ofNat 32 (4 * (n.toNat + 1 - p) + 3)
  word := fun i => if i = 0 then headerWord 0 n else 0xffffffff

/-- An SDM with an erased flash. -/
def erasedSdm (command : List Sent) : Response := erasedResponse ((command.map Sent.word).getD 2 0)

theorem erased_flag {x i : Nat} (hi : i < 2) : (BitVec.ofNat 32 (4 * x + 3)).getLsbD i = true := by
  rw [BitVec.getLsbD_ofNat, decide_eq_true (show i < 32 by omega), Bool.true_and]
  rcases Nat.le_one_iff_eq_zero_or_eq_one.1 (Nat.le_of_lt_succ hi) with rfl | rfl
  · rw [Nat.testBit_zero, decide_eq_true_iff]
    omega
  · rw [Nat.testBit_succ, Nat.testBit_zero, decide_eq_true_iff]
    omega

theorem erasedResponse_responds {n : U32} (hn : n.toNat ≤ 1024) (address : Nat) :
    Responds (fun _ => 0xff) address n.toNat (fun _ => n.toNat + 1) (erasedResponse n) where
  valid := ⟨0, Nat.zero_le _, rfl⟩
  code := codeField_headerWord
  len := lenField_headerWord (by decide) (by omega)
  data := by
    intro i hi j hj
    have hbyte : ∀ j < 4, byteOf (0xffffffff : U32) j = 0xff := by decide
    exact hbyte j hj
  grows := fun _ _ _ => le_refl _
  most := fun _ => le_refl _
  fill := by
    intro k p hp
    show (BitVec.ofNat 32 (4 * (n.toNat + 1 - p) + 3) >>> 2).toNat = n.toNat + 1 - p
    rw [BitVec.toNat_ushiftRight, BitVec.toNat_ofNat, Nat.shiftRight_eq_div_pow]
    omega
  start := by
    intro k hk hzero
    have hbit := congrArg (fun x : U32 => x.getLsbD 0) hzero
    dsimp only [erasedResponse] at hbit
    rw [BitVec.getLsbD_and, erased_flag (by decide)] at hbit
    cases hbit
  stop := fun _ _ _ _ => rfl
  ends := by
    refine ⟨0, fun k _ => ⟨rfl, fun p hp hzero => ?_⟩⟩
    have hbit := congrArg (fun x : U32 => x.getLsbD 1) hzero
    dsimp only [erasedResponse] at hbit
    rw [BitVec.getLsbD_and, erased_flag (by decide)] at hbit
    cases hbit

theorem erasedSdm_answers : AnswersReads (fun _ => 0xff) erasedSdm := fun address _ hwords =>
  ⟨_, erasedResponse_responds hwords address.toNat⟩

theorem short_read_right : ∃ F result, (∀ fuel ≥ F, sdmQspiRead roomy erasedSdm 8 7 ⟨⟨0, []⟩, 0, true⟩ fuel = some result) ∧
    ReadsRight (fun _ => 0xff) 8 7 result := by
  refine (reads_right_iff erasedSdm_answers (by decide) ?_ (by decide)).2 ⟨?_, fun _ _ => rfl⟩
  · unfold Timely
    decide
  · exact Or.inl (by decide)

/-- A read of 4097 bytes gives 4093, so that the rest does not begin at a word. -/
theorem long_read_cut : ¬ ∀ (flash : Nat → U8) (answer : List Sent → Response) (env : SdmEnv) (s : Sdm) (src len : U64),
    AnswersReads flash answer → src &&& 3 = 0 → Timely env.space [readSends src len] s.mailbox.reads → 1 ≤ len.toNat →
    ∃ F result, (∀ fuel ≥ F, sdmQspiRead env answer src len s fuel = some result) ∧ ReadsRight flash src.toNat len.toNat result := by
  intro h
  have htime : Timely roomy.space [readSends 0 4097] 0 := by
    unfold Timely
    decide
  obtain ⟨F', buf, hrun', -⟩ := sdmQspiRead_run (s := ⟨⟨0, []⟩, 0, true⟩) erasedSdm_answers (by decide : (0 : U64) &&& 3 = 0) htime
  obtain ⟨F, result, hrun, n, hn, hpos, hle, -, -, hword⟩ := h _ erasedSdm roomy ⟨⟨0, []⟩, 0, true⟩ 0 4097 erasedSdm_answers (by decide) htime
    (by decide)
  obtain rfl : ((readCount 4097 : Int), buf) = result :=
    Option.some.inj ((hrun' (max F F') (le_max_right F F')).symm.trans (hrun (max F F') (le_max_left F F')))
  obtain rfl : readCount 4097 = n := Int.ofNat.inj hn
  have hcut := (cutRight_iff (by decide)).1 ⟨hpos, hle, hword⟩
  unfold CutRight at hcut
  exact absurd hcut (by decide)

end NdkSw.Boot.SdmRead

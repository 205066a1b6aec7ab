/-
The MTD requests of the boot driver (`boot/flash.c`): four handlers that take a request with signed fields from the user, look up
the flash in a table and pass the request on to the MTD layer, two of them with a buffer.
-/
import NdkSw.Ndp.Channel
import NdkSw.Shared.TempBuffer
import NdkSw.Shared.Words

namespace NdkSw.Boot

open Ndp Shared

/-! ## Data model -/

/-- `struct nfb_boot_ioc_mtd`, with its `int` members. -/
structure IocMtd where
  mtd : BitVec 32
  addr : BitVec 32
  size : BitVec 32
  deriving DecidableEq, Repr

/-- `struct nfb_boot_ioc_mtd_info`. -/
structure IocMtdInfo where
  mtd : BitVec 32
  size : BitVec 32
  erasesize : BitVec 32
  deriving DecidableEq, Repr

/-- What the handlers read of a `struct mtd_info`. -/
structure MtdInfo where
  size : BitVec 64
  erasesize : BitVec 32
  deriving DecidableEq, Repr

/-- `num_flash`, and the table with what lies in memory around it. -/
structure FlashTable where
  numFlash : BitVec 32
  mtd : Int → Option MtdInfo

/-- A byte of a buffer: from `vmalloc`, or read from the flash. -/
inductive Cell where
  | stale
  | flash (b : U8)
  deriving DecidableEq, Repr

/-- The calls and the lookups of a handler; `mtd_write` and `mtd_read` also get a buffer, here its size. -/
inductive MtdCall where
  | index (i : Int)
  | erase (i : Int) (addr len : BitVec 64)
  | write (i : Int) (addr len : BitVec 64) (buf : Nat)
  | read (i : Int) (addr len : BitVec 64) (buf : Nat)
  | copyInfo (info : IocMtdInfo)
  | copyOut (cells : List Cell)
  deriving DecidableEq, Repr

/-- What a call meets: whether memory can be had, whether the data of a write can be copied from the user, the result of the MTD
layer with the bytes that a read has stored, and how many bytes can be copied to the user. -/
structure MtdEnv where
  alloc : Bool
  copyData : Bool
  ret : Int
  stored : List U8
  copyOut : Nat

/-- `vmalloc`. -/
def vmalloc (env : MtdEnv) (size : BitVec 64) : Option Nat := if size = 0 then none else if env.alloc then some size.toNat else none

/-- `mtd >= num_flash || !mtd[mtd]`, with the lookup that it makes. -/
def lookup (boot : FlashTable) (mtd : BitVec 32) : List (BufOp MtdCall) × Option MtdInfo :=
  if boot.numFlash.toInt ≤ mtd.toInt then ([], none) else ([.call (.index mtd.toInt)], boot.mtd mtd.toInt)

/-- The first `n` bytes of the buffer behind `mtd_read`. -/
def readCells (stored : List U8) (n : Nat) : List Cell :=
  (List.range n).map fun j =>
    match stored[j]? with
    | some b => .flash b
    | none => .stale

/-! ## Handlers -/

/-- `nfb_boot_ioctl_mtd_info`; no request is a failed `copy_from_user`. -/
def nfbBootIoctlMtdInfo (boot : FlashTable) (env : MtdEnv) : Option IocMtdInfo → Int × List (BufOp MtdCall)
  | none => (eFault, [])
  | some ioc =>
    match lookup boot ioc.mtd with
    | (ops, none) => (eNodev, ops)
    | (ops, some mtd) =>
      let ioc := { ioc with size := mtd.size.setWidth 32, erasesize := mtd.erasesize }
      if env.copyOut < 12 then (eFault, ops) else (0, ops ++ [.call (.copyInfo ioc)])

/-- `nfb_boot_ioctl_mtd_erase`. -/
def nfbBootIoctlMtdErase (boot : FlashTable) (env : MtdEnv) : Option IocMtd → Int × List (BufOp MtdCall)
  | none => (eFault, [])
  | some ioc =>
    match lookup boot ioc.mtd with
    | (ops, none) => (eNodev, ops)
    | (ops, some _) => (env.ret, ops ++ [.call (.erase ioc.mtd.toInt (ioc.addr.signExtend 64) (ioc.size.signExtend 64))])

/-- `nfb_boot_ioctl_mtd_write`. -/
def nfbBootIoctlMtdWrite (boot : FlashTable) (env : MtdEnv) : Option IocMtd → Int × List (BufOp MtdCall)
  | none => (eFault, [])
  | some ioc =>
    let size : BitVec 64 := ioc.size.signExtend 64
    match vmalloc env size with
    | none => (eNomem, [])
    | some n =>
      let ops : List (BufOp MtdCall) := [.alloc n, .access 0 size.toNat]
      if env.copyData = false then (eFault, ops ++ [.free])
      else
        match lookup boot ioc.mtd with
        -- the buffer is not freed here
        | (ops', none) => (eNodev, ops ++ ops')
        | (ops', some _) =>
          (env.ret, ops ++ ops' ++ [.call (.write ioc.mtd.toInt (ioc.addr.signExtend 64) size n), .access 0 size.toNat, .free])

/-- `nfb_boot_ioctl_mtd_read`. -/
def nfbBootIoctlMtdRead (boot : FlashTable) (env : MtdEnv) : Option IocMtd → Int × List (BufOp MtdCall)
  | none => (eFault, [])
  | some ioc =>
    let size : BitVec 64 := ioc.size.signExtend 64
    match vmalloc env size with
    | none => (eNomem, [])
    | some n =>
      match lookup boot ioc.mtd with
      -- nor here
      | (ops, none) => (eNodev, .alloc n :: ops)
      | (ops, some _) =>
        let ops := .alloc n :: ops ++ [.call (.read ioc.mtd.toInt (ioc.addr.signExtend 64) size n), .access 0 size.toNat]
        -- the result of the read is not looked at before the copy
        let copied := min env.copyOut size.toNat
        let ops := ops ++ [.access 0 copied, .call (.copyOut (readCells env.stored copied)), .free]
        if copied < size.toNat then (eFault, ops) else (env.ret, ops)

/-! ## Safety -/

/-- A lookup inside the table, a length that is the size of the buffer, and nothing for the user but bytes of the flash. -/
def OpSafe (boot : FlashTable) : BufOp MtdCall → Prop
  | .call (.index i) => 0 ≤ i ∧ i < boot.numFlash.toInt
  | .call (.write _ _ len buf) | .call (.read _ _ len buf) => len.toNat = buf
  | .call (.copyOut cells) => .stale ∉ cells
  | _ => True

/-- What is asked of a handler. -/
structure MtdSafe (boot : FlashTable) (ops : List (BufOp MtdCall)) : Prop where
  safe : ∀ op ∈ ops, OpSafe boot op
  buffer : Disciplined ops

/-- The lookup is not in front of the table. -/
def IndexFits (boot : FlashTable) (mtd : BitVec 32) : Prop := boot.numFlash.toInt ≤ mtd.toInt ∨ 0 ≤ mtd.toInt

/-- There is such a flash. -/
def FlashFits (boot : FlashTable) (mtd : BitVec 32) : Prop :=
  0 ≤ mtd.toInt ∧ mtd.toInt < boot.numFlash.toInt ∧ boot.mtd mtd.toInt ≠ none

instance (boot : FlashTable) (mtd : BitVec 32) : Decidable (IndexFits boot mtd) := inferInstanceAs (Decidable (_ ∨ _))

instance (boot : FlashTable) (mtd : BitVec 32) : Decidable (FlashFits boot mtd) := inferInstanceAs (Decidable (_ ∧ _ ∧ _))

section

variable {boot : FlashTable} {env : MtdEnv}

theorem lookup_cases (boot : FlashTable) (mtd : BitVec 32) :
    (∃ info, lookup boot mtd = ([.call (.index mtd.toInt)], some info) ∧ mtd.toInt < boot.numFlash.toInt ∧
      boot.mtd mtd.toInt = some info) ∨
    (lookup boot mtd = ([.call (.index mtd.toInt)], none) ∧ mtd.toInt < boot.numFlash.toInt ∧ boot.mtd mtd.toInt = none) ∨
    (lookup boot mtd = ([], none) ∧ boot.numFlash.toInt ≤ mtd.toInt) := by
  unfold lookup
  by_cases hout : boot.numFlash.toInt ≤ mtd.toInt
  · exact .inr (.inr ⟨by rw [if_pos hout], hout⟩)
  · rw [if_neg hout]
    cases hmtd : boot.mtd mtd.toInt with
    | none => exact .inr (.inl ⟨rfl, by omega, rfl⟩)
    | some info => exact .inl ⟨info, rfl, by omega, rfl⟩

theorem index_safe_iff {mtd : BitVec 32} (hlt : mtd.toInt < boot.numFlash.toInt) :
    OpSafe boot (.call (.index mtd.toInt)) ↔ IndexFits boot mtd := by
  unfold OpSafe IndexFits
  omega

theorem copyOut_safe_iff (boot : FlashTable) {stored : List U8} {n : Nat} :
    OpSafe boot (.call (.copyOut (readCells stored n))) ↔ n ≤ stored.length := by
  unfold OpSafe readCells
  simp only [List.mem_map, List.mem_range, not_exists, not_and]
  constructor
  · intro h
    by_contra hlt
    refine h stored.length (by omega) ?_
    rw [List.getElem?_eq_none le_rfl]
  · intro hle j hj
    rw [List.getElem?_eq_getElem (by omega)]
    exact nofun

theorem mtdSafe_calls (calls : List MtdCall) :
    MtdSafe boot (calls.map .call) ↔ ∀ c ∈ calls, OpSafe boot (.call c) := by
  have hrun : bufRun none (calls.map .call) = some none := by
    induction calls with
    | nil => rfl
    | cons c calls ih => exact ih
  constructor
  · rintro ⟨hsafe, -⟩ c hc
    exact hsafe _ (List.mem_map_of_mem hc)
  · intro h
    refine ⟨fun op hop => ?_, hrun⟩
    obtain ⟨c, hc, rfl⟩ := List.mem_map.1 hop
    exact h c hc

theorem mtdSafe_nil : MtdSafe boot [] := (mtdSafe_calls []).2 nofun

/-! ## The handlers -/

theorem mtdInfo_safe_iff (ioc : IocMtdInfo) : MtdSafe boot (nfbBootIoctlMtdInfo boot env (some ioc)).2 ↔ IndexFits boot ioc.mtd := by
  unfold nfbBootIoctlMtdInfo
  dsimp only
  rcases lookup_cases boot ioc.mtd with ⟨info, hl, hlt, -⟩ | ⟨hl, hlt, -⟩ | ⟨hl, hle⟩
  · rw [hl, ← index_safe_iff hlt]
    dsimp only
    split
    · exact (mtdSafe_calls [_]).trans List.forall_mem_singleton
    · refine (mtdSafe_calls [_, _]).trans ?_
      simp [OpSafe]
  · rw [hl, ← index_safe_iff hlt]
    exact (mtdSafe_calls [_]).trans List.forall_mem_singleton
  · rw [hl]
    exact iff_of_true (mtdSafe_nil) (.inl hle)

theorem mtdErase_safe_iff (ioc : IocMtd) : MtdSafe boot (nfbBootIoctlMtdErase boot env (some ioc)).2 ↔ IndexFits boot ioc.mtd := by
  unfold nfbBootIoctlMtdErase
  dsimp only
  rcases lookup_cases boot ioc.mtd with ⟨info, hl, hlt, -⟩ | ⟨hl, hlt, -⟩ | ⟨hl, hle⟩
  · rw [hl, ← index_safe_iff hlt]
    refine (mtdSafe_calls [_, _]).trans ?_
    simp [OpSafe]
  · rw [hl, ← index_safe_iff hlt]
    exact (mtdSafe_calls [_]).trans List.forall_mem_singleton
  · rw [hl]
    exact iff_of_true (mtdSafe_nil) (.inl hle)

theorem vmalloc_some {size : BitVec 64} {n : Nat} (h : vmalloc env size = some n) : n = size.toNat := by
  unfold vmalloc at h
  split at h
  · cases h
  · split at h
    · cases h
      rfl
    · cases h

theorem not_safe_of_held {ops : List (BufOp MtdCall)} {n : Nat} (h : bufRun none ops = some (some n)) : ¬MtdSafe boot ops := by
  rintro ⟨-, hbuf⟩
  rw [Disciplined, h] at hbuf
  cases hbuf

/-- A write is safe if it does not get as far as the lookup or there is such a flash. -/
def WriteFits (boot : FlashTable) (env : MtdEnv) (ioc : IocMtd) : Prop :=
  vmalloc env (ioc.size.signExtend 64) ≠ none → env.copyData = true → FlashFits boot ioc.mtd

/-- A read besides has to store all bytes that can be copied to the user. -/
def ReadFits (boot : FlashTable) (env : MtdEnv) (ioc : IocMtd) : Prop :=
  vmalloc env (ioc.size.signExtend 64) ≠ none → FlashFits boot ioc.mtd ∧
    min env.copyOut (ioc.size.signExtend 64 : BitVec 64).toNat ≤ env.stored.length

theorem mtdWrite_safe_iff (ioc : IocMtd) : MtdSafe boot (nfbBootIoctlMtdWrite boot env (some ioc)).2 ↔ WriteFits boot env ioc := by
  unfold nfbBootIoctlMtdWrite WriteFits
  dsimp only
  cases hm : vmalloc env (ioc.size.signExtend 64) with
  | none => exact iff_of_true (mtdSafe_nil) fun h => absurd rfl h
  | some n =>
    have hn := vmalloc_some hm
    have hin : 0 + (ioc.size.signExtend 64 : BitVec 64).toNat ≤ n := by omega
    dsimp only
    by_cases hcopy : env.copyData = false
    · rw [if_pos hcopy]
      refine iff_of_true ⟨by simp [OpSafe], ?_⟩ fun _ h => absurd h (by simp [hcopy])
      simp [Disciplined, bufRun_access hin]
    rw [if_neg hcopy]
    have hcond : (some n ≠ none → env.copyData = true → FlashFits boot ioc.mtd) ↔ FlashFits boot ioc.mtd := by
      simp [Bool.eq_true_of_not_eq_false hcopy]
    rw [hcond]
    rcases lookup_cases boot ioc.mtd with ⟨info, hl, hlt, hmtd⟩ | ⟨hl, hlt, hmtd⟩ | ⟨hl, hle⟩
    · rw [hl]
      constructor
      · rintro ⟨hsafe, -⟩
        have hindex := hsafe (.call (.index ioc.mtd.toInt)) (by simp)
        exact ⟨hindex.1, hlt, by simp [hmtd]⟩
      · rintro ⟨hpos, -, -⟩
        refine ⟨by simp [OpSafe, hpos, hlt, hn], ?_⟩
        simp [Disciplined, bufRun_access hin]
    · rw [hl]
      refine iff_of_false (not_safe_of_held (n := n) ?_) fun h => h.2.2 hmtd
      simp [bufRun_access hin]
    · rw [hl]
      refine iff_of_false (not_safe_of_held (n := n) ?_) fun h => absurd h.2.1 (by omega)
      simp [bufRun_access hin]

theorem mtdRead_safe_iff (ioc : IocMtd) : MtdSafe boot (nfbBootIoctlMtdRead boot env (some ioc)).2 ↔ ReadFits boot env ioc := by
  unfold nfbBootIoctlMtdRead ReadFits
  dsimp only
  cases hm : vmalloc env (ioc.size.signExtend 64) with
  | none => exact iff_of_true (mtdSafe_nil) fun h => absurd rfl h
  | some n =>
    have hn := vmalloc_some hm
    generalize (ioc.size.signExtend 64 : BitVec 64) = size at hn
    have hin : 0 + size.toNat ≤ n := by omega
    have hcopied : 0 + min env.copyOut size.toNat ≤ n := by omega
    have hcond : ∀ P : Prop, (some n ≠ none → P) ↔ P := by simp
    rw [hcond]
    dsimp only
    rcases lookup_cases boot ioc.mtd with ⟨info, hl, hlt, hmtd⟩ | ⟨hl, hlt, hmtd⟩ | ⟨hl, hle⟩
    · rw [hl]
      dsimp only
      -- whether the copy fails or not, the operations are the same
      have hops : ∀ ops : List (BufOp MtdCall),
          (if min env.copyOut size.toNat < size.toNat then (eFault, ops) else (env.ret, ops)).2 = ops := by
        intro ops
        split
        · rfl
        · rfl
      rw [hops]
      constructor
      · rintro ⟨hsafe, -⟩
        have hindex := hsafe (.call (.index ioc.mtd.toInt)) (by simp)
        have hout := hsafe (.call (.copyOut (readCells env.stored (min env.copyOut size.toNat)))) (by simp)
        exact ⟨⟨hindex.1, hlt, by simp [hmtd]⟩, (copyOut_safe_iff boot).1 hout⟩
      · rintro ⟨⟨hpos, -, -⟩, hstored⟩
        have hout := (copyOut_safe_iff boot).2 hstored
        refine ⟨?_, by simp [Disciplined, bufRun_access hin, bufRun_access hcopied]⟩
        simp only [List.cons_append, List.nil_append, List.forall_mem_cons, hout, List.not_mem_nil, false_imp_iff, implies_true]
        exact ⟨trivial, ⟨hpos, hlt⟩, hn.symm, trivial, trivial, trivial, trivial, trivial⟩
    · rw [hl]
      refine iff_of_false (not_safe_of_held (n := n) ?_) fun h => h.1.2.2 hmtd
      simp
    · rw [hl]
      refine iff_of_false (not_safe_of_held (n := n) ?_) fun h => absurd h.1.2.1 (by omega)
      simp

end

/-- For every table, every request and every result of the layers below: a handler is safe if and only if its index is not
negative, a write that gets to the lookup finds a flash, and so does a read, which also stores all bytes that are copied out. -/
theorem mtd_ioctls_safe_iff (boot : FlashTable) (env : MtdEnv) :
    (∀ req, MtdSafe boot (nfbBootIoctlMtdInfo boot env req).2 ↔ ∀ ioc ∈ req, IndexFits boot ioc.mtd) ∧
    (∀ req, MtdSafe boot (nfbBootIoctlMtdErase boot env req).2 ↔ ∀ ioc ∈ req, IndexFits boot ioc.mtd) ∧
    (∀ req, MtdSafe boot (nfbBootIoctlMtdWrite boot env req).2 ↔ ∀ ioc ∈ req, WriteFits boot env ioc) ∧
    ∀ req, MtdSafe boot (nfbBootIoctlMtdRead boot env req).2 ↔ ∀ ioc ∈ req, ReadFits boot env ioc := by
  refine ⟨?_, ?_, ?_, ?_⟩
  · rintro (_ | ioc)
    · exact iff_of_true mtdSafe_nil nofun
    · exact (mtdInfo_safe_iff ioc).trans (by simp)
  · rintro (_ | ioc)
    · exact iff_of_true mtdSafe_nil nofun
    · exact (mtdErase_safe_iff ioc).trans (by simp)
  · rintro (_ | ioc)
    · exact iff_of_true mtdSafe_nil nofun
    · exact (mtdWrite_safe_iff ioc).trans (by simp)
  · rintro (_ | ioc)
    · exact iff_of_true mtdSafe_nil nofun
    · exact (mtdRead_safe_iff ioc).trans (by simp)

/-- A card with one flash; what lies in front of the table looks like a pointer. -/
def oneFlash : FlashTable := ⟨1, fun i => if i ≤ 0 then some ⟨0x4000000, 0x10000⟩ else none⟩

/-- A negative index is looked up; a request for a second flash leaves its buffer behind; after a failed read the user gets what was in
the buffer. -/
theorem mtd_requests_unsafe :
    (nfbBootIoctlMtdInfo oneFlash ⟨true, true, 0, [], 12⟩ (some ⟨-1, 0, 0⟩)).2 =
      [.call (.index (-1)), .call (.copyInfo ⟨-1, 0x4000000, 0x10000⟩)] ∧
    ¬MtdSafe oneFlash (nfbBootIoctlMtdInfo oneFlash ⟨true, true, 0, [], 12⟩ (some ⟨-1, 0, 0⟩)).2 ∧
    ¬MtdSafe oneFlash (nfbBootIoctlMtdErase oneFlash ⟨true, true, 0, [], 0⟩ (some ⟨-1, 0, 0x10000⟩)).2 ∧
    (nfbBootIoctlMtdWrite oneFlash ⟨true, true, 0, [], 0⟩ (some ⟨1, 0, 4⟩)).2 = [.alloc 4, .access 0 4] ∧
    ¬MtdSafe oneFlash (nfbBootIoctlMtdWrite oneFlash ⟨true, true, 0, [], 0⟩ (some ⟨1, 0, 4⟩)).2 ∧
    (nfbBootIoctlMtdRead oneFlash ⟨true, true, -5, [], 4⟩ (some ⟨0, 0, 4⟩)) =
      (-5, [.alloc 4, .call (.index 0), .call (.read 0 0 4 4), .access 0 4, .access 0 4,
        .call (.copyOut [.stale, .stale, .stale, .stale]), .free]) ∧
    ¬MtdSafe oneFlash (nfbBootIoctlMtdRead oneFlash ⟨true, true, -5, [], 4⟩ (some ⟨0, 0, 4⟩)).2 := by
  refine ⟨by decide, ?_, ?_, by decide, ?_, by decide, ?_⟩
  · rw [mtdInfo_safe_iff]
    decide
  · rw [mtdErase_safe_iff]
    decide
  · rw [mtdWrite_safe_iff]
    exact fun h => absurd (h (by decide) rfl) (by decide)
  · rw [mtdRead_safe_iff]
    exact fun h => absurd (h (by decide)).2 (by decide)

end NdkSw.Boot

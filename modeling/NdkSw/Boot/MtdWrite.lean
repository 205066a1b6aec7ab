/-
Writing an image through the MTD requests (the last part of `nfb_fw_load_ext_name` in `boot.c`): the blocks of the slot that the image needs
are erased, one after the other, and then written. The requests have `int` members, and the handlers extend their signs; what lies below the
handlers is taken as its documentation says.
-/
import NdkSw.Boot.MtdIoctl
import NdkSw.Shared.Chunks
import NdkSw.Bits.Narrow
import NdkSw.Shared.Words

namespace NdkSw.Boot.MtdWrite

open Ndp Shared

/-! ## The MTD layer -/

/-- The bytes of the flashes. -/
abbrev Flash := Int → Nat → U8

/-- `mtd_erase` and `mtd_write`, with their results and what they leave in the flashes. -/
structure MtdLayer where
  erase : Flash → Int → BitVec 64 → BitVec 64 → Int × Flash
  write : Flash → Int → BitVec 64 → List U8 → Int × Flash

/-- The flashes after an erase. -/
def eraseBytes (f : Flash) (i : Int) (addr len : Nat) : Flash := fun j a => if j = i ∧ addr ≤ a ∧ a < addr + len then 0xff else f j a

/-- The flashes after a write. -/
def writeBytes (f : Flash) (i : Int) (addr : Nat) (data : List U8) : Flash :=
  fun j a => if j = i ∧ addr ≤ a ∧ a < addr + data.length then data.getD (a - addr) 0 else f j a

/-- The bytes are erased. -/
def Blank (f : Flash) (i : Int) (addr len : Nat) : Prop := ∀ a, addr ≤ a → a < addr + len → f i a = 0xff

/-- The layer does as it is documented: it gives zero or an error number, refuses what is behind the end of a flash, erases whole blocks, and
writes what it is given to erased bytes. -/
structure MtdLayer.Documented (boot : FlashTable) (layer : MtdLayer) : Prop where
  size : ∀ {i info}, boot.mtd i = some info → info.size.toNat < 2 ^ 63
  erase_ret : ∀ f i addr len, -4095 ≤ (layer.erase f i addr len).1 ∧ (layer.erase f i addr len).1 ≤ 0
  erase_range : ∀ {f i info addr len}, boot.mtd i = some info → (layer.erase f i addr len).1 = 0 → addr.toNat + len.toNat ≤ info.size.toNat
  erase_bytes : ∀ {f i info addr len}, boot.mtd i = some info → (layer.erase f i addr len).1 = 0 → info.erasesize.toNat ∣ addr.toNat →
    info.erasesize.toNat ∣ len.toNat → (layer.erase f i addr len).2 = eraseBytes f i addr.toNat len.toNat
  write_ret : ∀ f i addr data, -4095 ≤ (layer.write f i addr data).1 ∧ (layer.write f i addr data).1 ≤ 0
  write_bytes : ∀ {f i info addr data}, boot.mtd i = some info → (layer.write f i addr data).1 = 0 → Blank f i addr.toNat data.length →
    (layer.write f i addr data).2 = writeBytes f i addr.toNat data

/-! ## Requests -/

/-- The driver, and whether memory can be had and data copied at each request. -/
structure Driver where
  boot : FlashTable
  layer : MtdLayer
  alloc : Nat → Bool
  copyData : Nat → Bool

/-- The flashes, the calls of the MTD layer, the oldest first, and the bytes that are read of the data of the caller. -/
structure LoadState where
  flash : Flash
  calls : List MtdCall
  reads : List (Nat × Nat)

/-- What `ioctl` returns for the result of a handler, and `errno`. -/
def libcRet (ret : Int) : Int × Int := if -4095 ≤ ret ∧ ret < 0 then (-1, -ret) else (ret, 0)

/-- The calls of the MTD layer. -/
def mtdCalls (ops : List (BufOp MtdCall)) : List MtdCall :=
  ops.filterMap fun
    | .call (.erase i addr len) => some (.erase i addr len)
    | .call (.write i addr len buf) => some (.write i addr len buf)
    | _ => none

section

variable (d : Driver)

/-- `NFB_BOOT_IOC_MTD_ERASE`. -/
def ioctlErase (ioc : IocMtd) (s : LoadState) : (Int × Int) × LoadState :=
  let e := d.layer.erase s.flash ioc.mtd.toInt (ioc.addr.signExtend 64) (ioc.size.signExtend 64)
  let r := nfbBootIoctlMtdErase d.boot ⟨d.alloc s.calls.length, d.copyData s.calls.length, e.1, [], 0⟩ (some ioc)
  (libcRet r.1, { s with flash := if mtdCalls r.2 = [] then s.flash else e.2, calls := s.calls ++ mtdCalls r.2 })

/-- `NFB_BOOT_IOC_MTD_WRITE`, of data that start at an offset of those of the caller. -/
def ioctlWrite (data : Nat → U8) (ioc : IocMtd) (off : U64) (s : LoadState) : (Int × Int) × LoadState :=
  let size : BitVec 64 := ioc.size.signExtend 64
  let w := d.layer.write s.flash ioc.mtd.toInt (ioc.addr.signExtend 64) (slice data off.toNat size.toNat)
  let env : MtdEnv := ⟨d.alloc s.calls.length, d.copyData s.calls.length, w.1, [], 0⟩
  let r := nfbBootIoctlMtdWrite d.boot env (some ioc)
  (libcRet r.1, {
    flash := if mtdCalls r.2 = [] then s.flash else w.2
    calls := s.calls ++ mtdCalls r.2
    reads := if vmalloc env size = none then s.reads else s.reads ++ [(off.toNat, size.toNat)] })

/-! ## The loops -/

/-- The first loop, with `n` more blocks; an error number ends it. -/
def eraseLoop (mtd erasesize : BitVec 32) : Nat → BitVec 32 → LoadState → Option Int × LoadState
  | 0, _, s => (none, s)
  | n + 1, addr, s =>
    let r := ioctlErase d ⟨mtd, addr, erasesize⟩ s
    if r.1.1 = -1 then (some r.1.2, r.2) else eraseLoop mtd erasesize n (addr + erasesize) r.2

/-- The second loop, with `n` more blocks from block `i` on. -/
def writeLoop (data : Nat → U8) (mtd erasesize lastBlockSize : BitVec 32) (blocks : Int) :
    Nat → Int → BitVec 32 → BitVec 32 → U64 → LoadState → Option Int × LoadState
  | 0, _, _, _, _, s => (none, s)
  | n + 1, i, addr, size, off, s =>
    let size := if i = blocks - 1 ∧ lastBlockSize ≠ 0 then lastBlockSize else size
    let r := ioctlWrite d data ⟨mtd, addr, size⟩ off s
    if r.1.1 = -1 then (some r.1.2, r.2)
    else writeLoop data mtd erasesize lastBlockSize blocks n (i + 1) (addr + erasesize) size (off + erasesize.signExtend 64) r.2

/-- The properties of a slot; one of another length is as none. -/
structure SlotProps where
  bitstreamOffset : Option U32
  mtd : Option U32
  base : Option U32
  size : Option U32

/-- `blocks`, an `int`. -/
def blocksOf (size : U64) (erasesize : BitVec 32) : Int := (((size - 1) / erasesize.signExtend 64 + 1).setWidth 32).toInt

/-- `last_block_size`. -/
def lastSizeOf (size : U64) (erasesize : BitVec 32) : BitVec 32 := (size % erasesize.signExtend 64).setWidth 32

/-- The size and the place of the data without their head. -/
def stripHead (p : SlotProps) (size : U64) : U64 × U64 :=
  match p.bitstreamOffset with
  | none => (size, 0)
  | some head => (size - head.setWidth 64, head.setWidth 64)

/-- The two loops, for an erase size. -/
def eraseAndWrite (data : Nat → U8) (mtd base : U32) (size off : U64) (erasesize : BitVec 32) (s : LoadState) : Int × LoadState :=
  let blocks := blocksOf size erasesize
  let e := eraseLoop d mtd erasesize blocks.toNat base s
  match e.1 with
  | some errno => (errno, e.2)
  | none =>
    let w := writeLoop d data mtd erasesize (lastSizeOf size erasesize) blocks blocks.toNat 0 base erasesize off e.2
    match w.1 with
    | some errno => (errno, w.2)
    | none => (0, w.2)

/-- The last part of `nfb_fw_load_ext_name`. -/
def loadMtd (p : SlotProps) (data : Nat → U8) (size : U64) (s : LoadState) : Int × LoadState :=
  let h := stripHead p size
  match p.mtd with
  | none => (-eBadf, s)
  | some mtd =>
    match p.base with
    | none => (-eBadf, s)
    | some base =>
      match p.size with
      | none => (-eBadf, s)
      | some slot =>
        if slot.setWidth 64 < h.1 then (-eNomem, s)
        else
          let r := nfbBootIoctlMtdInfo d.boot ⟨true, true, 0, [], 12⟩ (some ⟨mtd, 0, 0⟩)
          if (libcRet r.1).1 = -1 then ((libcRet r.1).2, s)
          else
            let erasesize := (r.2.findSome? fun | .call (.copyInfo info) => some info.erasesize | _ => none).getD 0
            eraseAndWrite d data mtd base h.1 h.2 erasesize s

end

/-! ## What is asked of it -/

/-- A call inside the slot. -/
def InSlot (i : Int) (base slot : Nat) : MtdCall → Prop
  | .erase j addr len | .write j addr len _ => j = i ∧ base ≤ addr.toNat ∧ addr.toNat + len.toNat ≤ base + slot
  | _ => True

/-- What is written was erased by one of these calls. -/
def Covered (before : List MtdCall) : MtdCall → Prop
  | .write i addr len _ => ∃ len', .erase i addr len' ∈ before ∧ len.toNat ≤ len'.toNat
  | _ => True

/-- What is written was erased before. -/
def ErasedFirst (calls : List MtdCall) : Prop := ∀ before c, before ++ [c] <+: calls → Covered before c

/-- The data are in the slot, what was written was erased before, only the data were read, and nothing outside the slot was touched. -/
structure Written (i : Int) (base slot : Nat) (data : Nat → U8) (off n : Nat) (before : Flash) (s : LoadState) : Prop where
  bytes : ∀ a < n, s.flash i (base + a) = data (off + a)
  outside : ∀ j a, j ≠ i ∨ a < base ∨ base + slot ≤ a → s.flash j a = before j a
  erased : ErasedFirst s.calls
  calls : ∀ c ∈ s.calls, InSlot i base slot c
  reads : ∀ r ∈ s.reads, off ≤ r.1 ∧ r.1 + r.2 ≤ off + n

/-! ## Numbers -/

variable {x : BitVec 32}

theorem signExtend_of_small (h : x.toNat < 2 ^ 31) : x.signExtend 64 = BitVec.ofNat 64 x.toNat := by
  refine (Bits.ofNat_toNat_eq_signExtend ?_).symm
  rw [BitVec.toInt_eq_toNat_cond, if_pos (by omega)]
  exact Int.natCast_nonneg _

theorem toNat_signExtend_of_small (h : x.toNat < 2 ^ 31) : (x.signExtend 64).toNat = x.toNat := by
  rw [signExtend_of_small h, BitVec.toNat_ofNat]
  omega

/-- A number that is negative as an `int` is huge for the MTD layer. -/
theorem le_toNat_signExtend (h : 2 ^ 31 ≤ x.toNat) : 2 ^ 63 ≤ (x.signExtend 64).toNat := by
  have hext : (x.signExtend 64).toInt = x.toInt := BitVec.toInt_signExtend_of_le (by decide)
  have hx := BitVec.toInt_eq_toNat_cond x
  have hlt := x.isLt
  have hwide := BitVec.toInt_eq_toNat_cond (x.signExtend 64)
  rw [if_neg (by omega)] at hx
  split_ifs at hwide with hsmall
  · omega
  · omega

theorem libcRet_cases {ret : Int} (h : -4095 ≤ ret ∧ ret ≤ 0) :
    (ret = 0 ∧ (libcRet ret).1 ≠ -1) ∨ (ret ≠ 0 ∧ (libcRet ret).1 = -1 ∧ (libcRet ret).2 ≠ 0) := by
  unfold libcRet
  by_cases hzero : ret = 0
  · left
    rw [hzero]
    exact ⟨rfl, by decide⟩
  · right
    rw [if_pos (by omega)]
    exact ⟨hzero, rfl, by dsimp only; omega⟩

/-! ## Requests to a flash -/

section

variable {d : Driver} {mtd : BitVec 32} {info : MtdInfo} {s : LoadState} {data : Nat → U8}

/-- The flash of the slot. -/
structure HasFlash (d : Driver) (mtd : BitVec 32) (info : MtdInfo) : Prop where
  documented : d.layer.Documented d.boot
  index : mtd.toInt < d.boot.numFlash.toInt
  info : d.boot.mtd mtd.toInt = some info

theorem HasFlash.lookup_eq (h : HasFlash d mtd info) : lookup d.boot mtd = ([.call (.index mtd.toInt)], some info) := by
  unfold lookup
  rw [if_neg (not_le.2 h.index), h.info]

theorem HasFlash.erase_eq (h : HasFlash d mtd info) (addr size : BitVec 32) :
    ioctlErase d ⟨mtd, addr, size⟩ s =
      (libcRet (d.layer.erase s.flash mtd.toInt (addr.signExtend 64) (size.signExtend 64)).1,
        { s with
          flash := (d.layer.erase s.flash mtd.toInt (addr.signExtend 64) (size.signExtend 64)).2
          calls := s.calls ++ [.erase mtd.toInt (addr.signExtend 64) (size.signExtend 64)] }) := by
  unfold ioctlErase nfbBootIoctlMtdErase
  dsimp only
  rw [h.lookup_eq]
  rfl

theorem HasFlash.handler_cases (h : HasFlash d mtd info) (env : MtdEnv) (addr size : BitVec 32) :
    (nfbBootIoctlMtdWrite d.boot env (some ⟨mtd, addr, size⟩)).1 ∈ [eNomem, eFault] ∨
      (vmalloc env (size.signExtend 64) ≠ none ∧ nfbBootIoctlMtdWrite d.boot env (some ⟨mtd, addr, size⟩) =
        (env.ret, [.alloc (size.signExtend 64 : BitVec 64).toNat, .access 0 (size.signExtend 64 : BitVec 64).toNat, .call (.index mtd.toInt),
          .call (.write mtd.toInt (addr.signExtend 64) (size.signExtend 64) (size.signExtend 64 : BitVec 64).toNat),
          .access 0 (size.signExtend 64 : BitVec 64).toNat, .free])) := by
  unfold nfbBootIoctlMtdWrite
  dsimp only
  generalize (size.signExtend 64 : BitVec 64) = len
  cases hm : vmalloc env len with
  | none => exact Or.inl List.mem_cons_self
  | some n =>
    obtain rfl := vmalloc_some hm
    dsimp only
    by_cases hcopy : env.copyData = false
    · rw [if_pos hcopy]
      exact Or.inl (List.mem_cons_of_mem _ List.mem_cons_self)
    · rw [if_neg hcopy, h.lookup_eq]
      exact Or.inr ⟨Option.some_ne_none _, rfl⟩

/-- A write that fails, or a call of the MTD layer. -/
theorem HasFlash.write_cases (h : HasFlash d mtd info) (addr size : BitVec 32) (off : U64) {w : Int × Flash}
    (hw : w = d.layer.write s.flash mtd.toInt (addr.signExtend 64) (slice data off.toNat (size.signExtend 64 : BitVec 64).toNat)) :
    ((ioctlWrite d data ⟨mtd, addr, size⟩ off s).1.1 = -1 ∧ (ioctlWrite d data ⟨mtd, addr, size⟩ off s).1.2 ≠ 0) ∨
      (w.1 = 0 ∧ ioctlWrite d data ⟨mtd, addr, size⟩ off s = (libcRet 0,
        ⟨w.2, s.calls ++ [.write mtd.toInt (addr.signExtend 64) (size.signExtend 64) (size.signExtend 64 : BitVec 64).toNat],
          s.reads ++ [(off.toNat, (size.signExtend 64 : BitVec 64).toNat)]⟩)) := by
  obtain ⟨env, henv⟩ : ∃ env : MtdEnv, env = ⟨d.alloc s.calls.length, d.copyData s.calls.length, w.1, [], 0⟩ := ⟨_, rfl⟩
  have hret : (ioctlWrite d data ⟨mtd, addr, size⟩ off s).1 = libcRet (nfbBootIoctlMtdWrite d.boot env (some ⟨mtd, addr, size⟩)).1 := by
    rw [henv, hw]
    rfl
  rcases h.handler_cases env addr size with hfail | ⟨hm, hrun⟩
  · left
    rw [hret]
    rcases List.mem_cons.1 hfail with he | he
    · rw [he]
      exact ⟨by decide, by decide⟩
    · rw [List.mem_singleton.1 he]
      exact ⟨by decide, by decide⟩
  · have hdocumented : -4095 ≤ w.1 ∧ w.1 ≤ 0 := by
      rw [hw]
      exact h.documented.write_ret _ _ _ _
    rw [hrun] at hret
    have henvRet : env.ret = w.1 := by rw [henv]
    rw [henvRet] at hret
    rcases libcRet_cases hdocumented with ⟨hzero, -⟩ | ⟨-, hfail⟩
    · right
      refine ⟨hzero, ?_⟩
      unfold ioctlWrite
      dsimp only
      rw [← hw, ← henv, hrun, if_neg hm, henvRet, hzero]
      rfl
    · left
      rw [hret]
      exact hfail

theorem toNat_ofNat_addr {a : Nat} (ha : a < 2 ^ 32) : (BitVec.ofNat 32 a).toNat = a := by
  rw [BitVec.toNat_ofNat]
  exact Nat.mod_eq_of_lt ha

/-- An erase of a block fails, or erases it; then its address was not negative. -/
theorem HasFlash.erase_block (h : HasFlash d mtd info) {a : Nat} (ha : a < 2 ^ 32) (hdvd : info.erasesize.toNat ∣ a)
    (he : info.erasesize.toNat < 2 ^ 31) :
    ((ioctlErase d ⟨mtd, BitVec.ofNat 32 a, info.erasesize⟩ s).1.1 = -1 ∧ (ioctlErase d ⟨mtd, BitVec.ofNat 32 a, info.erasesize⟩ s).1.2 ≠ 0) ∨
      ((ioctlErase d ⟨mtd, BitVec.ofNat 32 a, info.erasesize⟩ s).1.1 ≠ -1 ∧ a < 2 ^ 31 ∧
        (ioctlErase d ⟨mtd, BitVec.ofNat 32 a, info.erasesize⟩ s).2 = { s with
          flash := eraseBytes s.flash mtd.toInt a info.erasesize.toNat
          calls := s.calls ++ [.erase mtd.toInt (BitVec.ofNat 64 a) (BitVec.ofNat 64 info.erasesize.toNat)] }) := by
  have haddr := toNat_ofNat_addr ha
  rw [h.erase_eq]
  rcases libcRet_cases (h.documented.erase_ret s.flash mtd.toInt ((BitVec.ofNat 32 a).signExtend 64) (info.erasesize.signExtend 64))
    with ⟨hzero, hret⟩ | ⟨-, hfail⟩
  · right
    have hrange := h.documented.erase_range h.info hzero
    have hsize := h.documented.size h.info
    have hlow : a < 2 ^ 31 := by
      by_contra hge
      have hhuge := le_toNat_signExtend (x := BitVec.ofNat 32 a) (by omega)
      omega
    have hext : (BitVec.ofNat 32 a).signExtend 64 = BitVec.ofNat 64 a := by rw [signExtend_of_small (by omega), haddr]
    have hextNat : ((BitVec.ofNat 32 a).signExtend 64).toNat = a := by rw [toNat_signExtend_of_small (by omega), haddr]
    have hlenNat := toNat_signExtend_of_small he
    refine ⟨hret, hlow, ?_⟩
    have hbytes := h.documented.erase_bytes h.info hzero (by rwa [hextNat]) (by rw [hlenNat])
    dsimp only
    rw [hbytes, hextNat, hlenNat, hext, signExtend_of_small he]
  · exact Or.inl hfail

theorem HasFlash.erase_negative (h : HasFlash d mtd info) (he : 2 ^ 31 ≤ info.erasesize.toNat) (addr : BitVec 32) :
    (ioctlErase d ⟨mtd, addr, info.erasesize⟩ s).1.1 = -1 ∧ (ioctlErase d ⟨mtd, addr, info.erasesize⟩ s).1.2 ≠ 0 := by
  rw [h.erase_eq]
  rcases libcRet_cases (h.documented.erase_ret s.flash mtd.toInt (addr.signExtend 64) (info.erasesize.signExtend 64)) with ⟨hzero, -⟩ | ⟨-, hfail⟩
  · have hrange := h.documented.erase_range h.info hzero
    have hsize := h.documented.size h.info
    have hhuge := le_toNat_signExtend he
    omega
  · exact hfail

/-! ## Blocks of the slot -/

theorem erasedFirst_nil : ErasedFirst [] := by
  intro before c h
  exact absurd (List.prefix_nil.1 h) (List.append_ne_nil_of_right_ne_nil _ (List.cons_ne_nil _ _))

theorem ErasedFirst.append {calls : List MtdCall} {c : MtdCall} (h : ErasedFirst calls) (hc : Covered calls c) : ErasedFirst (calls ++ [c]) := by
  intro before c' hpre
  rcases List.prefix_concat_iff.1 hpre with heq | hpre
  · obtain ⟨rfl, hlast⟩ := List.append_inj' heq rfl
    rw [List.singleton_inj.1 hlast]
    exact hc
  · exact h before c' hpre

/-- After the erase of `j` blocks. -/
structure Erased (i : Int) (base slot e : Nat) (before : Flash) (j : Nat) (s : LoadState) : Prop where
  blank : Blank s.flash i base (e * j)
  outside : ∀ k a, k ≠ i ∨ a < base ∨ base + slot ≤ a → s.flash k a = before k a
  low : ∀ t < j, base + e * t < 2 ^ 31
  blocks : ∀ t < j, .erase i (BitVec.ofNat 64 (base + e * t)) (BitVec.ofNat 64 e) ∈ s.calls
  erased : ErasedFirst s.calls
  calls : ∀ c ∈ s.calls, InSlot i base slot c
  reads : s.reads = []

theorem Erased.step {i : Int} {base slot e j : Nat} {before : Flash} (h : Erased i base slot e before j s) (hlow : base + e * j < 2 ^ 31)
    (he : e < 2 ^ 31) (hslot : e * (j + 1) ≤ slot) : Erased i base slot e before (j + 1) { s with
      flash := eraseBytes s.flash i (base + e * j) e
      calls := s.calls ++ [.erase i (BitVec.ofNat 64 (base + e * j)) (BitVec.ofNat 64 e)] } := by
  have haddr : (BitVec.ofNat 64 (base + e * j)).toNat = base + e * j := by
    rw [BitVec.toNat_ofNat]
    omega
  have hlen : (BitVec.ofNat 64 e).toNat = e := by
    rw [BitVec.toNat_ofNat]
    omega
  have hsucc : e * (j + 1) = e * j + e := Nat.mul_succ e j
  constructor
  case blank =>
    intro a hge hlt
    dsimp only [eraseBytes]
    by_cases hin : base + e * j ≤ a
    · rw [if_pos ⟨rfl, hin, by omega⟩]
    · rw [if_neg fun hc => hin hc.2.1]
      exact h.blank a hge (by omega)
  case outside =>
    intro k a hout
    dsimp only [eraseBytes]
    rw [if_neg]
    · exact h.outside k a hout
    · rintro ⟨hk, hge, hlt⟩
      omega
  case low =>
    intro t ht
    rcases Nat.lt_succ_iff_lt_or_eq.1 ht with ht | rfl
    · exact h.low t ht
    · exact hlow
  case blocks =>
    intro t ht
    rcases Nat.lt_succ_iff_lt_or_eq.1 ht with ht | rfl
    · exact List.mem_append_left _ (h.blocks t ht)
    · exact List.mem_append_right _ List.mem_cons_self
  case erased => exact h.erased.append trivial
  case calls =>
    intro c hc
    rcases List.mem_append.1 hc with hc | hc
    · exact h.calls c hc
    · rw [List.mem_singleton.1 hc]
      refine ⟨rfl, ?_, ?_⟩
      · rw [haddr]
        omega
      · rw [haddr, hlen]
        omega
  case reads => exact h.reads

variable {base slot : Nat} {before : Flash} {size off : U64}

theorem addr_succ {e : BitVec 32} (j : Nat) : BitVec.ofNat 32 (base + e.toNat * j) + e = BitVec.ofNat 32 (base + e.toNat * (j + 1)) := by
  apply BitVec.eq_of_toNat_eq
  rw [BitVec.toNat_add, BitVec.toNat_ofNat, BitVec.toNat_ofNat, Nat.mul_succ, Nat.mod_add_mod, Nat.add_assoc]

/-- The first loop ends with an error, or all its blocks are erased. -/
theorem HasFlash.eraseLoop_run (h : HasFlash d mtd info) (he : info.erasesize.toNat < 2 ^ 31) (hdvd : info.erasesize.toNat ∣ base) :
    ∀ (n j : Nat) (s : LoadState), Erased mtd.toInt base slot info.erasesize.toNat before j s → base + info.erasesize.toNat * j < 2 ^ 32 →
      info.erasesize.toNat * (j + n) ≤ slot →
      (∃ errno, (eraseLoop d mtd info.erasesize n (BitVec.ofNat 32 (base + info.erasesize.toNat * j)) s).1 = some errno ∧ errno ≠ 0) ∨
        ((eraseLoop d mtd info.erasesize n (BitVec.ofNat 32 (base + info.erasesize.toNat * j)) s).1 = none ∧
          Erased mtd.toInt base slot info.erasesize.toNat before (j + n)
            (eraseLoop d mtd info.erasesize n (BitVec.ofNat 32 (base + info.erasesize.toNat * j)) s).2) := by
  intro n
  induction n with
  | zero => exact fun j s hs _ _ => Or.inr ⟨rfl, hs⟩
  | succ n ih =>
    intro j s hs haddr hslot
    have hblock : info.erasesize.toNat ∣ base + info.erasesize.toNat * j := Nat.dvd_add hdvd (Nat.dvd_mul_right _ _)
    rw [eraseLoop]
    rcases h.erase_block (s := s) haddr hblock he with ⟨hfail, herrno⟩ | ⟨hok, hlow, hstate⟩
    · rw [if_pos hfail]
      exact Or.inl ⟨_, rfl, herrno⟩
    · have hle : info.erasesize.toNat * (j + 1) ≤ slot := le_trans (Nat.mul_le_mul_left _ (by omega)) hslot
      have hnext := hs.step hlow he hle
      have hsucc : info.erasesize.toNat * (j + 1) = info.erasesize.toNat * j + info.erasesize.toNat := Nat.mul_succ _ j
      have hrest := ih (j + 1) _ hnext (by omega) (by rwa [Nat.add_assoc, Nat.add_comm 1 n])
      rw [if_neg hok, hstate, addr_succ]
      rwa [Nat.add_assoc, Nat.add_comm 1 n] at hrest

/-! ## Data of the slot -/

/-- After the write of `j` of `m` blocks. -/
structure WrittenUpTo (i : Int) (base slot e m : Nat) (data : Nat → U8) (off n : Nat) (before : Flash) (j : Nat) (s : LoadState) : Prop where
  bytes : ∀ a < min (e * j) n, s.flash i (base + a) = data (off + a)
  blank : ∀ a, e * j ≤ a → a < e * m → s.flash i (base + a) = 0xff
  outside : ∀ k a, k ≠ i ∨ a < base ∨ base + slot ≤ a → s.flash k a = before k a
  blocks : ∀ t < m, .erase i (BitVec.ofNat 64 (base + e * t)) (BitVec.ofNat 64 e) ∈ s.calls
  erased : ErasedFirst s.calls
  calls : ∀ c ∈ s.calls, InSlot i base slot c
  reads : ∀ r ∈ s.reads, off ≤ r.1 ∧ r.1 + r.2 ≤ off + n

theorem Erased.start {i : Int} {e m off n : Nat} (h : Erased i base slot e before m s) (data : Nat → U8) :
    WrittenUpTo i base slot e m data off n before 0 s := by
  refine ⟨?_, ?_, h.outside, h.blocks, h.erased, h.calls, ?_⟩
  · intro a ha
    omega
  · intro a _ ha
    exact h.blank (base + a) (by omega) (by omega)
  · intro r hr
    rw [h.reads] at hr
    exact absurd hr List.not_mem_nil

theorem getD_slice {off n k : Nat} (hk : k < n) : (slice data off n).getD k 0 = data (off + k) := by
  rw [List.getD_eq_getElem?_getD, getElem?_slice hk]
  rfl

/-- The step: block `j`, of the length of its chunk. -/
theorem WrittenUpTo.step {i : Int} {e m off n j : Nat} (h : WrittenUpTo i base slot e m data off n before j s) (he : 0 < e) (he' : e < 2 ^ 31)
    (hlow : base + e * j < 2 ^ 31) (hm : m = chunkCount e n) (hj : j < m) (hslot : e * m ≤ slot) :
    WrittenUpTo i base slot e m data off n before (j + 1)
      ⟨writeBytes s.flash i (base + e * j) (slice data (off + e * j) (chunkLen e n j)),
        s.calls ++ [.write i (BitVec.ofNat 64 (base + e * j)) (BitVec.ofNat 64 (chunkLen e n j)) (chunkLen e n j)],
        s.reads ++ [(off + e * j, chunkLen e n j)]⟩ := by
  have hend := start_add_chunkLen he (hm ▸ hj)
  have hlen : chunkLen e n j ≤ e := min_le_left _ _
  have haddr : (BitVec.ofNat 64 (base + e * j)).toNat = base + e * j := by
    rw [BitVec.toNat_ofNat]
    omega
  have hsize : (BitVec.ofNat 64 (chunkLen e n j)).toNat = chunkLen e n j := by
    rw [BitVec.toNat_ofNat]
    omega
  have hesize : (BitVec.ofNat 64 e).toNat = e := by
    rw [BitVec.toNat_ofNat]
    omega
  have hsucc : e * (j + 1) = e * j + e := Nat.mul_succ e j
  have hroom : e * (j + 1) ≤ e * m := Nat.mul_le_mul_left e hj
  constructor
  case bytes =>
    intro a ha
    dsimp only [writeBytes]
    rw [length_slice]
    by_cases hin : e * j ≤ a
    · rw [if_pos ⟨rfl, by omega, by omega⟩, getD_slice (by omega)]
      congr 1
      omega
    · rw [if_neg fun hc => hin (by omega)]
      exact h.bytes a (by omega)
  case blank =>
    intro a hge hlt
    dsimp only [writeBytes]
    rw [length_slice, if_neg fun hc => by omega]
    exact h.blank a (by omega) hlt
  case outside =>
    intro k a hout
    dsimp only [writeBytes]
    rw [length_slice, if_neg]
    · exact h.outside k a hout
    · rintro ⟨hk, hge, hlt⟩
      omega
  case blocks => exact fun t ht => List.mem_append_left _ (h.blocks t ht)
  case erased => exact h.erased.append ⟨_, h.blocks j hj, by rw [hsize, hesize]; exact hlen⟩
  case calls =>
    intro c hc
    rcases List.mem_append.1 hc with hc | hc
    · exact h.calls c hc
    · rw [List.mem_singleton.1 hc]
      refine ⟨rfl, ?_, ?_⟩
      · rw [haddr]
        omega
      · rw [haddr, hsize]
        omega
  case reads =>
    intro r hr
    rcases List.mem_append.1 hr with hr | hr
    · exact h.reads r hr
    · rw [List.mem_singleton.1 hr]
      dsimp only
      omega

/-- A write of a blank area fails, or stores the data. -/
theorem HasFlash.write_block (h : HasFlash d mtd info) (data : Nat → U8) (off : U64) {a len : Nat} (ha : a < 2 ^ 31) {size : BitVec 32} (hsize : size.toNat = len)
    (hlen : len < 2 ^ 31) (hblank : Blank s.flash mtd.toInt a len) :
    ((ioctlWrite d data ⟨mtd, BitVec.ofNat 32 a, size⟩ off s).1.1 = -1 ∧ (ioctlWrite d data ⟨mtd, BitVec.ofNat 32 a, size⟩ off s).1.2 ≠ 0) ∨
      ((ioctlWrite d data ⟨mtd, BitVec.ofNat 32 a, size⟩ off s).1.1 ≠ -1 ∧
        (ioctlWrite d data ⟨mtd, BitVec.ofNat 32 a, size⟩ off s).2 = ⟨writeBytes s.flash mtd.toInt a (slice data off.toNat len),
          s.calls ++ [.write mtd.toInt (BitVec.ofNat 64 a) (BitVec.ofNat 64 len) len], s.reads ++ [(off.toNat, len)]⟩) := by
  have haddr : (BitVec.ofNat 32 a).toNat = a := toNat_ofNat_addr (by omega)
  have hext : (BitVec.ofNat 32 a).signExtend 64 = BitVec.ofNat 64 a := by rw [signExtend_of_small (by omega), haddr]
  have hextNat : (BitVec.ofNat 64 a).toNat = a := by
    rw [BitVec.toNat_ofNat]
    omega
  have hlenExt : size.signExtend 64 = BitVec.ofNat 64 len := by rw [signExtend_of_small (by omega), hsize]
  have hlenNat : (BitVec.ofNat 64 len).toNat = len := by
    rw [BitVec.toNat_ofNat]
    omega
  rcases h.write_cases (BitVec.ofNat 32 a) size off rfl with hfail | ⟨hzero, hrun⟩
  · exact Or.inl hfail
  · right
    rw [hext, hlenExt, hlenNat] at hzero hrun
    rw [hrun]
    have hbytes := h.documented.write_bytes h.info hzero (by rw [hextNat, length_slice]; exact hblank)
    rw [hextNat] at hbytes
    rw [hbytes]
    refine ⟨?_, rfl⟩
    show (libcRet 0).1 ≠ -1
    decide

/-- The size of a block in the second loop. -/
theorem size_of_block {e : BitVec 32} {j : Nat} (he : 0 < e.toNat) (he' : e.toNat < 2 ^ 31) (hj : j < chunkCount e.toNat size.toNat)
    (hpos : 1 ≤ size.toNat) :
    (if j + 1 = chunkCount e.toNat size.toNat ∧ lastSizeOf size e ≠ 0 then lastSizeOf size e else e).toNat = chunkLen e.toNat size.toNat j := by
  have hlast : (lastSizeOf size e).toNat = size.toNat % e.toNat := by
    have hmod := Nat.mod_lt size.toNat he
    unfold lastSizeOf
    rw [BitVec.toNat_setWidth, BitVec.toNat_umod, toNat_signExtend_of_small he']
    omega
  by_cases hend : j + 1 = chunkCount e.toNat size.toNat
  · have hsum := (end_of_chunk he hj).2 hend
    have hle : chunkLen e.toNat size.toNat j ≤ e.toNat := min_le_left _ _
    have hstart : e.toNat * j < size.toNat := by
      cases j with
      | zero => exact hpos
      | succ j => exact (succ_lt_chunkCount he).1 hj
    have hmod : size.toNat % e.toNat = chunkLen e.toNat size.toNat j % e.toNat := by
      conv_lhs => rw [← hsum, Nat.mul_add_mod]
    by_cases hzero : lastSizeOf size e = 0
    · rw [if_neg fun hc => hc.2 hzero]
      rw [hzero, hmod] at hlast
      have hdvd : e.toNat ∣ chunkLen e.toNat size.toNat j := Nat.dvd_of_mod_eq_zero hlast.symm
      have hge := Nat.le_of_dvd (by omega) hdvd
      omega
    · rw [if_pos ⟨hend, hzero⟩, hlast, hmod]
      refine Nat.mod_eq_of_lt (lt_of_le_of_ne hle fun he => hzero ?_)
      apply BitVec.eq_of_toNat_eq
      rw [hlast, hmod, he, Nat.mod_self]
      rfl
  · rw [if_neg fun hc => hend hc.1, chunkLen_of_succ_lt he (lt_of_le_of_ne hj hend)]

/-- The second loop ends with an error, or all data are written. -/
theorem HasFlash.writeLoop_run (h : HasFlash d mtd info) {m : Nat} (he : 0 < info.erasesize.toNat) (he' : info.erasesize.toNat < 2 ^ 31)
    (hm : m = chunkCount info.erasesize.toNat size.toNat) (hpos : 1 ≤ size.toNat) (hslot : info.erasesize.toNat * m ≤ slot)
    (hlow : ∀ t < m, base + info.erasesize.toNat * t < 2 ^ 31) (hdata : off.toNat + size.toNat < 2 ^ 64) :
    ∀ (k j : Nat) (sz : BitVec 32) (s : LoadState), j + k = m → (k ≠ 0 → sz = info.erasesize) →
      WrittenUpTo mtd.toInt base slot info.erasesize.toNat m data off.toNat size.toNat before j s →
      ∀ r, r = writeLoop d data mtd info.erasesize (lastSizeOf size info.erasesize) m k j (BitVec.ofNat 32 (base + info.erasesize.toNat * j)) sz
        (off + BitVec.ofNat 64 (info.erasesize.toNat * j)) s →
      (∃ errno, r.1 = some errno ∧ errno ≠ 0) ∨
        (r.1 = none ∧ WrittenUpTo mtd.toInt base slot info.erasesize.toNat m data off.toNat size.toNat before m r.2) := by
  intro k
  induction k with
  | zero =>
    rintro j sz s hj - hs r rfl
    rw [Nat.add_zero] at hj
    exact Or.inr ⟨rfl, hj ▸ hs⟩
  | succ k ih =>
    rintro j sz s hj hsz hs r rfl
    obtain rfl := hsz (Nat.succ_ne_zero k)
    have hjm : j < m := by omega
    have hblock := size_of_block he he' (hm ▸ hjm) hpos
    have hend := start_add_chunkLen he (hm ▸ hjm)
    have hlen : chunkLen info.erasesize.toNat size.toNat j ≤ info.erasesize.toNat := min_le_left _ _
    have hsucc : info.erasesize.toNat * (j + 1) = info.erasesize.toNat * j + info.erasesize.toNat := Nat.mul_succ _ j
    have hroom : info.erasesize.toNat * (j + 1) ≤ info.erasesize.toNat * m := Nat.mul_le_mul_left _ hjm
    have haddr := hlow j hjm
    have hoff : (off + BitVec.ofNat 64 (info.erasesize.toNat * j)).toNat = off.toNat + info.erasesize.toNat * j := by
      rw [BitVec.toNat_add, BitVec.toNat_ofNat]
      omega
    have hlast : ((j : Int) = (m : Int) - 1) = (j + 1 = m) := propext (by omega)
    have hblank : Blank s.flash mtd.toInt (base + info.erasesize.toNat * j) (chunkLen info.erasesize.toNat size.toNat j) := by
      intro a hge hlt
      have hbyte := hs.blank (a - base) (by omega) (by omega)
      rwa [Nat.add_sub_cancel' (by omega)] at hbyte
    rw [← hm] at hblock
    rw [writeLoop]
    simp only [hlast]
    generalize hsz' : (if j + 1 = m ∧ lastSizeOf size info.erasesize ≠ 0 then lastSizeOf size info.erasesize else info.erasesize) = sz' at hblock ⊢
    rcases h.write_block data (off + BitVec.ofNat 64 (info.erasesize.toNat * j)) haddr hblock (by omega) hblank
      with ⟨hfail, herrno⟩ | ⟨hok, hstate⟩
    · rw [if_pos hfail]
      exact Or.inl ⟨_, rfl, herrno⟩
    · have hnext := hs.step he he' haddr hm hjm hslot
      have hsame : k ≠ 0 → sz' = info.erasesize := by
        intro hk
        rw [← hsz', if_neg fun hc => hk (by omega)]
      have hmove : off + BitVec.ofNat 64 (info.erasesize.toNat * j) + info.erasesize.signExtend 64 =
          off + BitVec.ofNat 64 (info.erasesize.toNat * (j + 1)) := by
        rw [signExtend_of_small he', hsucc, BitVec.ofNat_add, BitVec.add_assoc]
      have hcast : (j : Int) + 1 = ((j + 1 : Nat) : Int) := rfl
      rw [if_neg hok, hstate, addr_succ, hmove, hcast, hoff]
      exact ih (j + 1) sz' _ (by omega) hsame hnext _ rfl

/-! ## Both loops -/

/-- The number of blocks, before it becomes an `int`. -/
theorem blocksOf_eq (e : BitVec 32) (hpos : 1 ≤ size.toNat) (hsize : size.toNat < 2 ^ 32) :
    (e.toNat < 2 ^ 31 → blocksOf size e = (BitVec.ofNat 32 (chunkCount e.toNat size.toNat)).toInt ∧ chunkCount e.toNat size.toNat < 2 ^ 32) ∧
      (2 ^ 31 ≤ e.toNat → blocksOf size e = 1) := by
  have hone : (1 : U64).toNat = 1 := rfl
  have hsub : (size - 1).toNat = size.toNat - 1 := by
    rw [BitVec.toNat_sub, hone]
    omega
  unfold blocksOf
  constructor
  · intro hsmall
    have hle : (size.toNat - 1) / e.toNat ≤ size.toNat - 1 := Nat.div_le_self _ _
    have hbits : ((size - 1) / e.signExtend 64 + 1).setWidth 32 = BitVec.ofNat 32 (chunkCount e.toNat size.toNat) := by
      apply BitVec.eq_of_toNat_eq
      rw [BitVec.toNat_setWidth, BitVec.toNat_add, BitVec.toNat_udiv, hsub, hone, toNat_signExtend_of_small hsmall, BitVec.toNat_ofNat]
      unfold chunkCount
      omega
    rw [hbits]
    refine ⟨rfl, ?_⟩
    unfold chunkCount
    omega
  · intro hlarge
    have hhuge := le_toNat_signExtend hlarge
    have hzero : (size - 1) / e.signExtend 64 = 0 := by
      apply BitVec.eq_of_toNat_eq
      rw [BitVec.toNat_udiv, hsub, Nat.div_eq_of_lt (by omega)]
      rfl
    rw [hzero]
    decide

theorem blocks_le_slot {e n : Nat} (hpos : 1 ≤ n) (hle : n ≤ slot) (hdvd : e ∣ slot) : e * chunkCount e n ≤ slot := by
  obtain ⟨q, rfl⟩ := hdvd
  refine Nat.mul_le_mul_left e ?_
  have hlt : (n - 1) / e < q := Nat.div_lt_of_lt_mul (by omega)
  exact hlt

/-- A slot and data that fit in it. -/
structure SlotFits (info : MtdInfo) (base slot : Nat) (size off : U64) : Prop where
  baseLt : base < 2 ^ 32
  slotLt : slot < 2 ^ 32
  baseDvd : info.erasesize.toNat ∣ base
  slotDvd : info.erasesize.toNat ∣ slot
  pos : 1 ≤ size.toNat
  le : size.toNat ≤ slot
  data : off.toNat + size.toNat < 2 ^ 64

theorem SlotFits.erasesize_pos (h : SlotFits info base slot size off) : 0 < info.erasesize.toNat := by
  refine Nat.pos_of_ne_zero fun hzero => ?_
  have hdvd := h.slotDvd
  rw [hzero, Nat.zero_dvd] at hdvd
  have hpos := h.pos
  have hle := h.le
  omega

/-- Both loops, when the number of blocks is an `int`: no error, and the data are in the slot. -/
theorem HasFlash.eraseAndWrite_right (h : HasFlash d mtd info) (data : Nat → U8) (hs : SlotFits info base slot size off)
    (hblocks : chunkCount info.erasesize.toNat size.toNat < 2 ^ 31)
    (hret : (eraseAndWrite d data mtd (BitVec.ofNat 32 base) size off info.erasesize ⟨before, [], []⟩).1 = 0) :
    Written mtd.toInt base slot data off.toNat size.toNat before
      (eraseAndWrite d data mtd (BitVec.ofNat 32 base) size off info.erasesize ⟨before, [], []⟩).2 := by
  have he := hs.erasesize_pos
  have hslot := blocks_le_slot hs.pos hs.le hs.slotDvd
  have hcount := chunkCount_mul he size.toNat
  obtain ⟨hsmall, hlarge⟩ := blocksOf_eq info.erasesize hs.pos (lt_of_le_of_lt hs.le hs.slotLt)
  rcases lt_or_ge info.erasesize.toNat (2 ^ 31) with he' | he'
  · have hint : blocksOf size info.erasesize = (chunkCount info.erasesize.toNat size.toNat : Int) := by
      rw [(hsmall he').1, BitVec.toInt_eq_toNat_cond, BitVec.toNat_ofNat, Nat.mod_eq_of_lt (by omega), if_pos (by omega)]
    have hstart : Erased mtd.toInt base slot info.erasesize.toNat before 0 ⟨before, [], []⟩ :=
      ⟨fun a hge hlt => by omega, fun _ _ _ => rfl, fun t ht => absurd ht (Nat.not_lt_zero t), fun t ht => absurd ht (Nat.not_lt_zero t),
        erasedFirst_nil, fun c hc => absurd hc List.not_mem_nil, rfl⟩
    have herase := h.eraseLoop_run he' hs.baseDvd (chunkCount info.erasesize.toNat size.toNat) 0 _ hstart (by have hb := hs.baseLt; omega)
      (by rwa [Nat.zero_add])
    unfold eraseAndWrite at hret ⊢
    dsimp only at hret ⊢
    rw [hint, Int.toNat_natCast] at hret ⊢
    rw [Nat.mul_zero, Nat.add_zero, Nat.zero_add] at herase
    generalize eraseLoop d mtd info.erasesize (chunkCount info.erasesize.toNat size.toNat) (BitVec.ofNat 32 base) ⟨before, [], []⟩ = r
      at herase hret ⊢
    rcases herase with ⟨errno, herr, hne⟩ | ⟨hnone, herased⟩
    · rw [herr] at hret
      exact absurd hret hne
    · rw [hnone] at hret ⊢
      dsimp only at hret ⊢
      have hwrite := h.writeLoop_run he he' rfl hs.pos hslot herased.low hs.data (chunkCount info.erasesize.toNat size.toNat) 0 info.erasesize r.2
        (Nat.zero_add _) (fun _ => rfl) (herased.start data) _ rfl
      rw [Nat.mul_zero, Nat.add_zero] at hwrite
      have hoff : off + BitVec.ofNat 64 0 = off := BitVec.add_zero off
      rw [hoff] at hwrite
      have hcast : ((0 : Nat) : Int) = 0 := rfl
      rw [hcast] at hwrite
      generalize writeLoop d data mtd info.erasesize (lastSizeOf size info.erasesize) (chunkCount info.erasesize.toNat size.toNat)
        (chunkCount info.erasesize.toNat size.toNat) 0 (BitVec.ofNat 32 base) info.erasesize off r.2 = w at hwrite hret ⊢
      rcases hwrite with ⟨errno, herr, hne⟩ | ⟨hnone, hdone⟩
      · rw [herr] at hret
        exact absurd hret hne
      · rw [hnone]
        exact ⟨fun a ha => hdone.bytes a (by omega), hdone.outside, hdone.erased, hdone.calls, hdone.reads⟩
  · exfalso
    -- an erase size from 2^31 on is negative, and the one erase is refused
    obtain ⟨hfail, hne⟩ := h.erase_negative (s := ⟨before, [], []⟩) he' (BitVec.ofNat 32 base)
    have herr : eraseLoop d mtd info.erasesize 1 (BitVec.ofNat 32 base) ⟨before, [], []⟩ =
        (some (ioctlErase d ⟨mtd, BitVec.ofNat 32 base, info.erasesize⟩ ⟨before, [], []⟩).1.2,
          (ioctlErase d ⟨mtd, BitVec.ofNat 32 base, info.erasesize⟩ ⟨before, [], []⟩).2) := by
      rw [eraseLoop, if_pos hfail]
    unfold eraseAndWrite at hret
    dsimp only at hret
    rw [hlarge he'] at hret
    have hone : (1 : Int).toNat = 1 := rfl
    rw [hone, herr] at hret
    exact hne hret

/-- Both loops, when the number of blocks is no `int`: nothing is done. -/
theorem eraseAndWrite_nothing (d : Driver) (mtd : BitVec 32) (data : Nat → U8) (hs : SlotFits info base slot size off)
    (hblocks : ¬ chunkCount info.erasesize.toNat size.toNat < 2 ^ 31) (s : LoadState) :
    eraseAndWrite d data mtd (BitVec.ofNat 32 base) size off info.erasesize s = (0, s) := by
  have he := hs.erasesize_pos
  have hle := hs.le
  have hlt := hs.slotLt
  obtain ⟨hsmall, -⟩ := blocksOf_eq info.erasesize hs.pos (lt_of_le_of_lt hs.le hs.slotLt)
  have he' : info.erasesize.toNat < 2 ^ 31 := by
    by_contra hge
    apply hblocks
    have hdiv : (size.toNat - 1) / info.erasesize.toNat ≤ (size.toNat - 1) / 2 ^ 31 := Nat.div_le_div_left (not_lt.1 hge) (by decide)
    unfold chunkCount
    omega
  obtain ⟨hint, hcount⟩ := hsmall he'
  have hzero : (blocksOf size info.erasesize).toNat = 0 := by
    rw [hint, BitVec.toInt_eq_toNat_cond, BitVec.toNat_ofNat, Nat.mod_eq_of_lt hcount, if_neg (by omega)]
    omega
  unfold eraseAndWrite
  dsimp only
  rw [hzero]
  rfl

end

/-! ## The whole part -/

section

variable {d : Driver} {p : SlotProps} {data : Nat → U8} {size : U64} {mtd base slot : U32} {info : MtdInfo}

/-- The head of the data that is left out. -/
def headOf (p : SlotProps) : Nat := (p.bitstreamOffset.getD 0).toNat

theorem stripHead_eq (h : headOf p ≤ size.toNat) : (stripHead p size).1.toNat = size.toNat - headOf p ∧ (stripHead p size).2.toNat = headOf p := by
  have hlt := size.isLt
  unfold stripHead headOf at *
  cases hp : p.bitstreamOffset with
  | none => exact ⟨rfl, rfl⟩
  | some head =>
    rw [hp] at h
    have hle : head.toNat ≤ size.toNat := h
    have hwide : (head.setWidth 64).toNat = head.toNat := BitVec.toNat_setWidth_of_le (by decide)
    refine ⟨?_, hwide⟩
    dsimp only
    rw [BitVec.toNat_sub, hwide]
    show (2 ^ 64 - head.toNat + size.toNat) % 2 ^ 64 = size.toNat - head.toNat
    omega

theorem HasFlash.loadMtd_eq (h : HasFlash d mtd info) (hmtd : p.mtd = some mtd) (hbase : p.base = some base) (hslot : p.size = some slot)
    (data : Nat → U8) (hle : (stripHead p size).1.toNat ≤ slot.toNat) (s : LoadState) :
    loadMtd d p data size s = eraseAndWrite d data mtd base (stripHead p size).1 (stripHead p size).2 info.erasesize s := by
  have hfits : ¬ slot.setWidth 64 < (stripHead p size).1 := by
    rw [BitVec.lt_def, BitVec.toNat_setWidth_of_le (by decide)]
    exact not_lt.2 hle
  have hinfo : nfbBootIoctlMtdInfo d.boot ⟨true, true, 0, [], 12⟩ (some ⟨mtd, 0, 0⟩) =
      (0, [.call (.index mtd.toInt), .call (.copyInfo ⟨mtd, info.size.setWidth 32, info.erasesize⟩)]) := by
    unfold nfbBootIoctlMtdInfo
    dsimp only
    rw [h.lookup_eq]
    rfl
  have hok : ¬ (libcRet 0).1 = -1 := by decide
  unfold loadMtd
  rw [hmtd, hbase, hslot]
  dsimp only
  rw [if_neg hfits, hinfo]
  dsimp only
  rw [if_neg hok]
  rfl

end

/-- For a slot of whole blocks and data that fit in it: if the MTD part succeeds, the data are in the slot, and nothing else was done, if and
only if the number of blocks is an `int`; otherwise it succeeds at once, and the data would have to be there already. -/
theorem mtd_write_right_iff {d : Driver} {p : SlotProps} {mtd base slot : U32} {info : MtdInfo} (hflash : HasFlash d mtd info)
    (hmtd : p.mtd = some mtd) (hbase : p.base = some base) (hslot : p.size = some slot) (hbaseDvd : info.erasesize.toNat ∣ base.toNat)
    (hslotDvd : info.erasesize.toNat ∣ slot.toNat) (data : Nat → U8) (size : U64) (hhead : headOf p ≤ size.toNat)
    (hpos : 1 ≤ size.toNat - headOf p) (hfits : size.toNat - headOf p ≤ slot.toNat) (before : Flash) :
    ((loadMtd d p data size ⟨before, [], []⟩).1 = 0 → Written mtd.toInt base.toNat slot.toNat data (headOf p) (size.toNat - headOf p) before
      (loadMtd d p data size ⟨before, [], []⟩).2) ↔
      chunkCount info.erasesize.toNat (size.toNat - headOf p) < 2 ^ 31 ∨
        ∀ a < size.toNat - headOf p, before mtd.toInt (base.toNat + a) = data (headOf p + a) := by
  obtain ⟨hsize, hoff⟩ := stripHead_eq hhead
  have hs : SlotFits info base.toNat slot.toNat (stripHead p size).1 (stripHead p size).2 := by
    have hlt := size.isLt
    exact ⟨base.isLt, slot.isLt, hbaseDvd, hslotDvd, by omega, by omega, by omega⟩
  have hrun := hflash.loadMtd_eq hmtd hbase hslot data (show (stripHead p size).1.toNat ≤ slot.toNat by omega) ⟨before, [], []⟩
  have haddr : base = BitVec.ofNat 32 base.toNat := by rw [BitVec.ofNat_toNat, BitVec.setWidth_eq]
  rw [hrun, ← hsize, ← hoff]
  by_cases hblocks : chunkCount info.erasesize.toNat (stripHead p size).1.toNat < 2 ^ 31
  · refine iff_of_true ?_ (Or.inl hblocks)
    intro hret
    have hright := hflash.eraseAndWrite_right data hs hblocks (by rwa [← haddr])
    rwa [← haddr] at hright
  · have hnothing := eraseAndWrite_nothing d mtd data hs hblocks ⟨before, [], []⟩
    rw [← haddr] at hnothing
    rw [hnothing]
    constructor
    · exact fun hright => Or.inr (hright rfl).bytes
    · intro hthere _
      exact ⟨hthere.resolve_left hblocks, fun _ _ _ => rfl, erasedFirst_nil, fun c hc => absurd hc List.not_mem_nil,
        fun r hr => absurd hr List.not_mem_nil⟩

/-- A NOR flash of a size: whole blocks are erased, and a write clears bits. -/
def norLayer (size erasesize : Nat) : MtdLayer where
  erase := fun f i addr len =>
    if addr.toNat + len.toNat ≤ size ∧ addr.toNat % erasesize = 0 ∧ len.toNat % erasesize = 0 then (0, eraseBytes f i addr.toNat len.toNat)
    else (-22, f)
  write := fun f i addr data =>
    if addr.toNat + data.length ≤ size then
      (0, fun j a => if j = i ∧ addr.toNat ≤ a ∧ a < addr.toNat + data.length then f j a &&& data.getD (a - addr.toNat) 0 else f j a)
    else (-22, f)

/-- A card with one such flash. -/
def norDriver (size : BitVec 64) (erasesize : BitVec 32) : Driver :=
  ⟨⟨1, fun i => if i = 0 then some ⟨size, erasesize⟩ else none⟩, norLayer size.toNat erasesize.toNat, fun _ => true, fun _ => true⟩

theorem norDriver_documented {size : BitVec 64} (erasesize : BitVec 32) (hsize : size.toNat < 2 ^ 63) :
    (norDriver size erasesize).layer.Documented (norDriver size erasesize).boot := by
  have hinfo : ∀ {i info}, (norDriver size erasesize).boot.mtd i = some info → info = ⟨size, erasesize⟩ := by
    intro i info h
    have h' : (if i = 0 then some ⟨size, erasesize⟩ else none) = some info := h
    split_ifs at h'
    exact (Option.some.inj h').symm
  have hok : (-4095 : Int) ≤ 0 ∧ (0 : Int) ≤ 0 := by decide
  have herr : (-4095 : Int) ≤ -22 ∧ (-22 : Int) ≤ 0 := by decide
  have hne : (-22 : Int) ≠ 0 := by decide
  constructor
  case size =>
    intro i info h
    rw [hinfo h]
    exact hsize
  case erase_ret =>
    intro f i addr len
    dsimp only [norDriver, norLayer]
    split_ifs
    · exact hok
    · exact herr
  case erase_range =>
    intro f i info addr len h hret
    rw [hinfo h]
    dsimp only [norDriver, norLayer] at hret ⊢
    split_ifs at hret with hin
    · exact hin.1
    · exact absurd hret hne
  case erase_bytes =>
    intro f i info addr len h hret _ _
    dsimp only [norDriver, norLayer] at hret ⊢
    split_ifs at hret ⊢ with hin
    · rfl
    · exact absurd hret hne
  case write_ret =>
    intro f i addr data
    dsimp only [norDriver, norLayer]
    split_ifs
    · exact hok
    · exact herr
  case write_bytes =>
    intro f i info addr data h hret hblank
    dsimp only [norDriver, norLayer] at hret ⊢
    split_ifs at hret ⊢ with hin
    · funext j a
      dsimp only [writeBytes]
      split_ifs with hj
      · obtain ⟨rfl, hge, hlt⟩ := hj
        rw [hblank a hge hlt]
        exact BitVec.allOnes_and
      · rfl
    · exact absurd hret hne

theorem norDriver_hasFlash (size : BitVec 64) (erasesize : BitVec 32) (hsize : size.toNat < 2 ^ 63) :
    HasFlash (norDriver size erasesize) 0 ⟨size, erasesize⟩ :=
  ⟨norDriver_documented erasesize hsize, show (0 : BitVec 32).toInt < (1 : BitVec 32).toInt by decide, rfl⟩

/-- Six bytes behind a head of two, in two blocks of four. -/
theorem six_bytes_written : (loadMtd (norDriver 16 4) ⟨some 2, some 0, some 4, some 8⟩ (fun a => BitVec.ofNat 8 (3 * a)) 8
      ⟨fun _ _ => 0, [], []⟩).1 = 0 ∧
    Written 0 4 8 (fun a => BitVec.ofNat 8 (3 * a)) 2 6 (fun _ _ => 0)
      (loadMtd (norDriver 16 4) ⟨some 2, some 0, some 4, some 8⟩ (fun a => BitVec.ofNat 8 (3 * a)) 8 ⟨fun _ _ => 0, [], []⟩).2 := by
  have hret : (loadMtd (norDriver 16 4) ⟨some 2, some 0, some 4, some 8⟩ (fun a => BitVec.ofNat 8 (3 * a)) 8
      ⟨fun _ _ => 0, [], []⟩).1 = 0 := by decide
  have hiff := mtd_write_right_iff (p := ⟨some 2, some 0, some 4, some 8⟩) (norDriver_hasFlash 16 4 (by decide)) rfl rfl rfl (by decide) (by decide)
    (fun a => BitVec.ofNat 8 (3 * a)) 8 (by decide) (by decide) (by decide) fun _ _ => 0
  exact ⟨hret, hiff.2 (Or.inl (by decide)) hret⟩

/-- Two gigabytes for a flash that is erased byte by byte: nothing is done, and the result is zero. -/
theorem many_blocks_nothing : ¬ ∀ (d : Driver) (p : SlotProps) (mtd base slot : U32) (info : MtdInfo), HasFlash d mtd info → p.mtd = some mtd →
    p.base = some base → p.size = some slot → info.erasesize.toNat ∣ base.toNat → info.erasesize.toNat ∣ slot.toNat →
    ∀ (data : Nat → U8) (size : U64), headOf p ≤ size.toNat → 1 ≤ size.toNat - headOf p → size.toNat - headOf p ≤ slot.toNat →
      ∀ before : Flash, (loadMtd d p data size ⟨before, [], []⟩).1 = 0 →
        Written mtd.toInt base.toNat slot.toNat data (headOf p) (size.toNat - headOf p) before (loadMtd d p data size ⟨before, [], []⟩).2 := by
  intro h
  have hflash := norDriver_hasFlash 0x80000000 1 (by decide)
  have hfits : SlotFits ⟨0x80000000, 1⟩ 0 0x80000000 0x80000000 0 :=
    ⟨by decide, by decide, by decide, by decide, by decide, by decide, by decide⟩
  have hrun := @HasFlash.loadMtd_eq _ ⟨none, some 0, some 0, some 0x80000000⟩ 0x80000000 _ 0 0x80000000 _ hflash rfl rfl rfl (fun _ => 0)
    (by decide) ⟨fun _ _ => 0xff, [], []⟩
  have hnothing := eraseAndWrite_nothing (norDriver 0x80000000 1) 0 (fun _ => 0) hfits (by decide) ⟨fun _ _ => 0xff, [], []⟩
  have hall := hrun.trans hnothing
  have hright := h _ ⟨none, some 0, some 0, some 0x80000000⟩ 0 0 0x80000000 _ hflash rfl rfl rfl (by decide) (by decide) (fun _ => 0) 0x80000000
    (by decide) (by decide) (by decide) (fun _ _ => 0xff) (by rw [hall])
  rw [hall] at hright
  have hbyte := hright.bytes 0 (by decide)
  exact absurd hbyte (by decide)

end NdkSw.Boot.MtdWrite

/-
The injection of a device tree for a card that has none of its own (`misc.c`): a text announces the length, the
checksum and the bus address of the tree, the tree follows in any number of writes, and the probe of the card takes it.
The tree that is being uploaded is in one global slot, the one that has passed the checks in another; the writes hold a
lock, the probe only exchanges the second slot.
-/
import NdkSw.Nfb.CharMmap

namespace NdkSw.Nfb

open Ndp Ring

/-! ## The text of the announcement -/

/-- The bytes of a text. -/
def textBytes (s : String) : List U8 := s.toList.map fun c => BitVec.ofNat 8 c.toNat

/-- `isspace` of the kernel. -/
def isspace (c : U8) : Bool := (9 ≤ c.toNat ∧ c.toNat ≤ 13) ∨ c.toNat = 32 ∨ c.toNat = 160

/-- `isdigit`. -/
def isdigit (c : U8) : Bool := 48 ≤ c.toNat ∧ c.toNat ≤ 57

def skipSpaces (str : List U8) : List U8 := str.dropWhile isspace

/-- Text of the format, which has to match. -/
def scanText (text : String) (str : List U8) : Option (List U8) :=
  if (textBytes text).isPrefixOf str then some (str.drop (textBytes text).length) else none

/-- The conversion `%lu`; a number that is too large wraps. -/
def scanUlong (str : List U8) : Option (U64 × List U8) :=
  let str := skipSpaces str
  match str.takeWhile isdigit with
  | [] => none
  | digits =>
    some (digits.foldl (fun n c => n * 10 + BitVec.ofNat 64 (c.toNat - 48)) 0, str.dropWhile isdigit)

/-- The conversion `%31s`; there has to be some text left. -/
def scanWord (str : List U8) : Option (List U8 × List U8) :=
  if str = [] then none
  else
    let str := skipSpaces str
    let word := (str.takeWhile fun c => !isspace c).take 31
    some (word, str.drop word.length)

/-- The variables that `sscanf` has assigned. -/
structure MetaScan where
  value : Option U64 := none
  crc32 : Option U64 := none
  busname : Option (List U8) := none
  busaddr : Option (List U8) := none

/-- `sscanf(tmp_buf, "len=%lu crc32=%lu busname=%31s busaddr=%31s", ...)`; a blank of the format stands for any number
of them. -/
def sscanfMeta (str : List U8) : MetaScan :=
  match (scanText "len=" str).bind scanUlong with
  | none => {}
  | some (value, str) =>
    match (scanText "crc32=" (skipSpaces str)).bind scanUlong with
    | none => { value := some value }
    | some (crc32, str) =>
      match (scanText "busname=" (skipSpaces str)).bind scanWord with
      | none => { value := some value, crc32 := some crc32 }
      | some (busname, str) =>
        match (scanText "busaddr=" (skipSpaces str)).bind scanWord with
        | none => { value := some value, crc32 := some crc32, busname := some busname }
        | some (busaddr, _) => ⟨some value, some crc32, some busname, some busaddr⟩

/-- The text up to the NUL behind it. -/
def cstr (buffer : List U8) : List U8 := buffer.takeWhile (· ≠ 0)

/-! ## Data model -/

/-- The functions that the checks use: the checksum of the kernel and `libfdt`. -/
structure FdtLib where
  crc32 : U32 → List U8 → U32
  checkHeader : List U8 → Int
  totalsize : List U8 → U32
  setTotalsize : List U8 → Nat → List U8
  pathOffset : List U8 → String → Int

/-- `struct dtb_inject`; `fdt` is the buffer of the tree or `NULL`. `id` is the number of the announcement. -/
structure DtbInject where
  busname : List U8
  busaddr : List U8
  len : Nat
  off : Nat
  crc32 : U64
  fdt : Option (List U8)
  id : Nat
  deriving DecidableEq, Repr

/-- What an announcement says. -/
structure Announcement where
  len : Nat
  crc32 : U64
  busname : List U8
  busaddr : List U8
  deriving DecidableEq, Repr

/-- The history of one announcement: what it says, unless it was refused, and all bytes that were written from it to
the next one, whatever became of them. -/
structure Upload where
  id : Nat
  ann : Option Announcement
  bytes : List U8
  deriving DecidableEq, Repr

/-- A tree that `nfb_dtb_inject_get_pci` has returned. -/
structure Handed where
  dtb : DtbInject
  pciDev : List U8
  fdt : List U8
  deriving DecidableEq, Repr

/-- The global slots, with the calls of `nfb_dtb_inject_get_pci` that have emptied `valid` and have not returned yet.
The rest is history: the announcements with the last one first, the trees that were accepted and those handed out,
and whether memory outside a buffer was touched. -/
structure InjectState where
  temp : Option DtbInject
  valid : Option DtbInject
  getting : List (DtbInject × List U8)
  uploads : List Upload
  accepted : List (Nat × List U8)
  handed : List Handed
  fault : Bool

/-- The memory that `dtb_inject_meta_store` finds for the copy of the text, the structure and the tree. -/
structure MetaEnv where
  tmpBuf : Bool
  dtb : Bool
  fdt : Bool

/-! ## Calls -/

/-- What a text announces, if all of it is there. -/
def announce (str : List U8) : Option Announcement :=
  match sscanfMeta str with
  | ⟨some value, some crc32, some busname, some busaddr⟩ => some ⟨value.toNat, crc32, busname, busaddr⟩
  | _ => none

/-- `dtb_inject_meta_store`. -/
def dtbInjectMetaStore (env : MetaEnv) (buffer : List U8) (s : InjectState) : InjectState × Int :=
  if !env.tmpBuf then (s, eNomem)
  else
    let id := s.uploads.length
    let refused : Upload := { id, ann := none, bytes := [] }
    match s.temp, env.dtb with
    | none, false => ({ s with valid := none, uploads := refused :: s.uploads }, eNomem)
    | temp, _ =>
      let crc32 := match temp with
        | none => 0
        | some dtb => dtb.crc32
      let scan := sscanfMeta (cstr buffer)
      let value := scan.value.getD 0
      let dtb : DtbInject := {
        busname := scan.busname.getD []
        busaddr := scan.busaddr.getD []
        len := 0, off := 0
        crc32 := scan.crc32.getD crc32
        fdt := none, id }
      if value = 0 ∨ value.toNat > 1048576 ∨ dtb.busname.length ≤ 0 ∨ dtb.busaddr.length ≤ 0 then
        ({ s with valid := none, temp := some dtb, uploads := refused :: s.uploads }, eInval)
      else if !env.fdt then ({ s with valid := none, temp := some dtb, uploads := refused :: s.uploads }, eNomem)
      else
        ({ s with
            valid := none
            temp := some { dtb with fdt := some (List.replicate value.toNat 0), len := value.toNat }
            uploads := { refused with ann := announce (cstr buffer) } :: s.uploads },
          buffer.length)

/-- `memcpy(fdt + off, buffer, length)`, unless it leaves one of the buffers. -/
def memcpyTo (fdt : Option (List U8)) (off length : Nat) (buffer : List U8) : Option (List U8) :=
  match fdt with
  | none => none
  | some fdt =>
    if off + length ≤ fdt.length ∧ length ≤ buffer.length then
      some (fdt.take off ++ buffer.take length ++ fdt.drop (off + length))
    else none

/-- The checks of a complete tree: the error or `none`. The checksum is compared with an `unsigned long`. -/
def checkFdt (lib : FdtLib) (len : Nat) (crc32 : U64) (fdt : List U8) : Option Int :=
  let csum := lib.crc32 (0x80000000 ^^^ 0xffffffff) fdt
  if (csum ^^^ 0xffffffff).setWidth 64 ≠ crc32 then some eNomem
  else if len < 40 ∨ lib.checkHeader fdt ≠ 0 then some eNomem
  else if len < (lib.totalsize fdt).toNat then some eNomem
  else if lib.pathOffset fdt "/firmware/" < 0 ∨ lib.pathOffset fdt "/system/" ≥ 0 ∨
      lib.pathOffset fdt "/board/" ≥ 0 ∨ lib.pathOffset fdt "/drivers/" ≥ 0 then some eBadf
  else none

/-- The bytes of a write belong to the last announcement. -/
def offer (buffer : List U8) : List Upload → List Upload
  | [] => []
  | u :: l => { u with bytes := u.bytes ++ buffer } :: l

/-- `dtb_inject_store`. The subtraction is one of `size_t`; a write brings at most a page, so that the sum does not
wrap. -/
def dtbInjectStore (lib : FdtLib) (buffer : List U8) (s : InjectState) : InjectState × Int :=
  let s := { s with uploads := offer buffer s.uploads }
  match s.temp with
  | none => (s, eNomem)
  | some dtb =>
    let length := if dtb.len < dtb.off + buffer.length then (2 ^ 64 + dtb.len - dtb.off) % 2 ^ 64 else buffer.length
    if length = 0 then (s, eNomem)
    else
      match memcpyTo dtb.fdt dtb.off length buffer with
      | none => ({ s with fault := true }, eNomem)
      | some fdt =>
        let dtb := { dtb with fdt := some fdt, off := dtb.off + length }
        if dtb.off = dtb.len then
          match checkFdt lib dtb.len dtb.crc32 fdt with
          | some ret => ({ s with temp := some dtb }, ret)
          | none =>
            ({ s with temp := none, valid := some dtb, accepted := (dtb.id, fdt) :: s.accepted }, length)
        else ({ s with temp := some dtb }, length)

/-- `nfb_dtb_inject_get_pci` up to the exchange of `dtb_inject_valid`. -/
def getPciBegin (pciDev : List U8) (s : InjectState) : InjectState :=
  match s.valid with
  | none => s
  | some dtb => { s with valid := none, getting := (dtb, pciDev) :: s.getting }

/-- The rest of the `i`-th call of `nfb_dtb_inject_get_pci`; `realloc` says if there is memory for the larger tree. A
tree for another address goes back unless there is a new one. -/
def getPciEnd (lib : FdtLib) (i : Nat) (realloc : Bool) (s : InjectState) : InjectState :=
  match s.getting[i]? with
  | none => s
  | some (dtb, pciDev) =>
    let s := { s with getting := s.getting.eraseIdx i }
    if dtb.busname ≠ textBytes "pci" ∨ dtb.busaddr ≠ pciDev then
      match s.valid with
      | none => { s with valid := some dtb }
      | some _ => s
    else
      match dtb.fdt with
      | none => { s with fault := true }
      | some fdt =>
        let size := max (lib.totalsize fdt).toNat 16384 * 4
        if realloc then { s with handed := { dtb, pciDev, fdt := lib.setTotalsize fdt size } :: s.handed } else s

inductive InjectAct
  | metaStore (env : MetaEnv) (buffer : List U8)
  | store (buffer : List U8)
  | getPciBegin (pciDev : List U8)
  | getPciEnd (i : Nat) (realloc : Bool)

def injectStep (lib : FdtLib) (s : InjectState) : InjectAct → InjectState
  | .metaStore env buffer => (dtbInjectMetaStore env buffer s).1
  | .store buffer => (dtbInjectStore lib buffer s).1
  | .getPciBegin pciDev => getPciBegin pciDev s
  | .getPciEnd i realloc => getPciEnd lib i realloc s

/-- The state when the driver is loaded. -/
def InjectState.initial : InjectState :=
  { temp := none, valid := none, getting := [], uploads := [], accepted := [], handed := [], fault := false }

/-! ## What becomes of an upload -/

/-- The bytes that are kept of an upload. -/
def Upload.kept (u : Upload) (a : Announcement) : List U8 := u.bytes.take a.len

/-- The tree is complete and passes the checks. -/
def Upload.Passes (lib : FdtLib) (u : Upload) (a : Announcement) : Prop :=
  (u.kept a).length = a.len ∧ checkFdt lib a.len a.crc32 (u.kept a) = none

instance (lib : FdtLib) (u : Upload) (a : Announcement) : Decidable (u.Passes lib a) :=
  inferInstanceAs (Decidable (_ ∧ _))

/-- The tree that an upload gives: this depends on the announcement and on the bytes behind it, taken together. -/
def Upload.accepted (lib : FdtLib) (u : Upload) : Option (List U8) :=
  u.ann.bind fun a => if u.Passes lib a then some (u.kept a) else none

/-- The structure of an announcement with the first bytes of the tree. -/
def Announcement.dtb (a : Announcement) (id : Nat) (b : List U8) : DtbInject :=
  { busname := a.busname, busaddr := a.busaddr, len := a.len, off := b.length, crc32 := a.crc32,
    fdt := some (b ++ List.replicate (a.len - b.length) 0), id }

/-- What the announcement and the bytes leave in `temp`. -/
def Upload.slot (lib : FdtLib) (u : Upload) (a : Announcement) : Option DtbInject :=
  if u.Passes lib a then none else some (a.dtb u.id (u.kept a))

def Upload.push (u : Upload) (buffer : List U8) : Upload := { u with bytes := u.bytes ++ buffer }

/-- The trees that are not lost yet, together with those that were handed out. -/
def InjectState.owned (s : InjectState) : List DtbInject :=
  s.valid.toList ++ (s.getting.map (·.1) ++ s.handed.map (·.dtb))

/-- The announcement says something that `dtb_inject_meta_store` lets pass. -/
structure Announcement.Ok (a : Announcement) : Prop where
  pos : 0 < a.len
  le : a.len ≤ 1048576

/-- The invariant of the two slots. -/
structure Injecting (lib : FdtLib) (s : InjectState) : Prop where
  inside : s.fault = false
  ids : s.uploads.map (·.id) = (List.range s.uploads.length).reverse
  announced : ∀ u ∈ s.uploads, ∀ a, u.ann = some a → a.Ok
  idle : (∀ u ∈ s.uploads.head?, u.ann = none) → ∀ d ∈ s.temp, d.len = 0 ∧ d.off = 0 ∧ d.fdt = none
  slot : ∀ u ∈ s.uploads.head?, ∀ a, u.ann = some a → s.temp = u.slot lib a
  accepted : s.accepted = s.uploads.filterMap fun u => (u.accepted lib).map (u.id, ·)
  owned : ∀ d ∈ s.owned, ∃ u ∈ s.uploads, ∃ a, u.ann = some a ∧ u.Passes lib a ∧ d = a.dtb u.id (u.kept a)
  once : (s.owned.map (·.id)).Nodup
  addressed : ∀ h ∈ s.handed, h.dtb.busname = textBytes "pci" ∧ h.dtb.busaddr = h.pciDev ∧
    ∃ fdt, h.dtb.fdt = some fdt ∧ h.fdt = lib.setTotalsize fdt (max (lib.totalsize fdt).toNat 16384 * 4)

/-! ## Bytes -/

theorem kept_push (u : Upload) (a : Announcement) (buffer : List U8) :
    (u.push buffer).kept a = u.kept a ++ buffer.take (a.len - (u.kept a).length) := by
  simp only [Upload.kept, Upload.push, List.take_append, List.length_take]
  congr 2
  omega

theorem kept_length_le (u : Upload) (a : Announcement) : (u.kept a).length ≤ a.len := by
  simp [Upload.kept]

variable {a : Announcement} {u : Upload}

theorem kept_push_of_full (h : (u.kept a).length = a.len) (buffer : List U8) : (u.push buffer).kept a = u.kept a := by
  rw [kept_push, h, Nat.sub_self, List.take_zero, List.append_nil]

theorem Upload.Passes.push {lib : FdtLib} (h : u.Passes lib a) (buffer : List U8) : (u.push buffer).Passes lib a := by
  unfold Upload.Passes
  rw [kept_push_of_full h.1]
  exact h

theorem memcpyTo_next {b buffer : List U8} {len k : Nat} (hk : k ≤ buffer.length) (hlen : b.length + k ≤ len) :
    memcpyTo (some (b ++ List.replicate (len - b.length) 0)) b.length k buffer =
      some ((b ++ buffer.take k) ++ List.replicate (len - (b ++ buffer.take k).length) 0) := by
  have hfits : b.length + k ≤ (b ++ List.replicate (len - b.length) (0 : U8)).length := by simp; omega
  simp only [memcpyTo, if_pos (And.intro hfits hk)]
  rw [List.take_left, List.drop_append, List.length_append, List.length_take, Nat.min_eq_left hk]
  have hdrop : b.drop (b.length + k) = [] := List.drop_eq_nil_of_le (by omega)
  rw [hdrop, List.nil_append, List.drop_replicate]
  congr 3
  omega

/-! ## The store -/

theorem store_length (d : DtbInject) (n : Nat) (hoff : d.off ≤ d.len) (hlen : d.len ≤ 1048576) :
    (if d.len < d.off + n then (2 ^ 64 + d.len - d.off) % 2 ^ 64 else n) = min (d.len - d.off) n := by
  split
  · have hsub : 2 ^ 64 + d.len - d.off = 2 ^ 64 + (d.len - d.off) := by omega
    rw [hsub, Nat.add_mod_left, Nat.mod_eq_of_lt (by omega)]
    omega
  · omega

theorem dtbInjectStore_idle {lib : FdtLib} {s : InjectState} (htemp : ∀ d ∈ s.temp, d.len = 0 ∧ d.off = 0 ∧ d.fdt = none)
    (buffer : List U8) : (dtbInjectStore lib buffer s).1 = { s with uploads := offer buffer s.uploads } := by
  unfold dtbInjectStore
  dsimp only
  cases ht : s.temp with
  | none => rfl
  | some d =>
    obtain ⟨hlen, hoff, -⟩ := htemp d ht
    dsimp only
    rw [store_length d _ (by omega) (by omega), hlen, hoff, Nat.sub_zero, Nat.zero_min, if_pos rfl]

/-- A store adds its bytes to those of the announcement; if they complete the tree, it becomes valid. -/
theorem dtbInjectStore_eq {lib : FdtLib} {s : InjectState} {l : List Upload} (hu : s.uploads = u :: l) (ha : a.Ok)
    (htemp : s.temp = u.slot lib a) (buffer : List U8) :
    (dtbInjectStore lib buffer s).1 =
      { s with
        uploads := u.push buffer :: l
        temp := (u.push buffer).slot lib a
        valid := if ¬u.Passes lib a ∧ (u.push buffer).Passes lib a then some (a.dtb u.id ((u.push buffer).kept a))
          else s.valid
        accepted := if ¬u.Passes lib a ∧ (u.push buffer).Passes lib a then
          (u.id, (u.push buffer).kept a) :: s.accepted else s.accepted } := by
  have hlen := kept_length_le u a
  have hle := ha.le
  unfold dtbInjectStore
  dsimp only
  rw [hu, htemp]
  by_cases hp : u.Passes lib a
  · -- the tree is gone, there is nothing to write to
    have hp' := hp.push buffer
    simp only [Upload.slot, if_pos hp', not_true_eq_false, hp, false_and, if_false, if_true]
    rfl
  · simp only [Upload.slot, hp, not_false_eq_true, true_and, if_false]
    generalize hd : a.dtb u.id (u.kept a) = d
    have hdlen : d.len = a.len := by rw [← hd]; rfl
    have hdoff : d.off = (u.kept a).length := by rw [← hd]; rfl
    have hdcrc : d.crc32 = a.crc32 := by rw [← hd]; rfl
    have hdfdt : d.fdt = some (u.kept a ++ List.replicate (a.len - (u.kept a).length) 0) := by rw [← hd]; rfl
    rw [store_length d _ (by omega) (by omega), hdlen, hdoff, hdfdt]
    have hk := kept_push u a buffer
    by_cases hzero : min (a.len - (u.kept a).length) buffer.length = 0
    · have hsame : (u.push buffer).kept a = u.kept a := by
        rw [hk]
        rcases Nat.min_eq_zero_iff.1 hzero with h | h
        · rw [h, List.take_zero, List.append_nil]
        · rw [List.length_eq_zero_iff.1 h, List.take_nil, List.append_nil]
      have hp' : ¬(u.push buffer).Passes lib a := by
        unfold Upload.Passes
        rw [hsame]
        exact hp
      rw [if_pos hzero]
      simp only [if_neg hp', hsame]
      rw [← hd]
      rfl
    · rw [if_neg hzero, memcpyTo_next (Nat.min_le_right _ _) (by omega)]
      have htake : buffer.take (min (a.len - (u.kept a).length) buffer.length) =
          buffer.take (a.len - (u.kept a).length) := by
        rw [List.take_eq_take_iff]
        omega
      have hoff : (u.kept a).length + min (a.len - (u.kept a).length) buffer.length =
          ((u.push buffer).kept a).length := by
        rw [hk, List.length_append, List.length_take]
      rw [htake, ← hk, hoff]
      dsimp only
      rw [hdcrc]
      by_cases hfull : ((u.push buffer).kept a).length = a.len
      · have hfdt : (u.push buffer).kept a ++ List.replicate (a.len - ((u.push buffer).kept a).length) 0 =
            (u.push buffer).kept a := by
          rw [hfull, Nat.sub_self, List.replicate_zero, List.append_nil]
        rw [if_pos hfull, hfdt]
        cases hc : checkFdt lib a.len a.crc32 ((u.push buffer).kept a) with
        | none =>
          have hp' : (u.push buffer).Passes lib a := ⟨hfull, hc⟩
          simp only [if_pos hp', Announcement.dtb, hfdt]
          subst hd
          rfl
        | some ret =>
          have hp' : ¬(u.push buffer).Passes lib a := fun h => by rw [h.2] at hc; cases hc
          simp only [if_neg hp', Announcement.dtb, hfdt]
          subst hd
          rfl
      · have hp' : ¬(u.push buffer).Passes lib a := fun h => hfull h.1
        rw [if_neg hfull]
        simp only [if_neg hp']
        subst hd
        rfl

/-! ## The announcement -/

/-- `sscanf` assigns its variables in order: where there is an address, there is all the rest. -/
theorem sscanfMeta_full {str : List U8} (h : 0 < ((sscanfMeta str).busaddr.getD []).length) :
    ∃ value crc32 busname busaddr, sscanfMeta str = ⟨some value, some crc32, some busname, some busaddr⟩ := by
  have hnone : ¬0 < ((none : Option (List U8)).getD []).length := by decide
  unfold sscanfMeta at h ⊢
  split
  · rename_i hv; rw [hv] at h; exact absurd h hnone
  rename_i hv
  rw [hv] at h
  dsimp only at h
  split
  · rename_i hc; rw [hc] at h; exact absurd h hnone
  rename_i hc
  rw [hc] at h
  dsimp only at h
  split
  · rename_i hn; rw [hn] at h; exact absurd h hnone
  rename_i hn
  rw [hn] at h
  dsimp only at h
  split
  · rename_i ha; rw [ha] at h; exact absurd h hnone
  · exact ⟨_, _, _, _, rfl⟩

example : announce (textBytes "len=40  crc32=7 busname=pci busaddr=0000:01:00.0\n") =
    some ⟨40, 7, textBytes "pci", textBytes "0000:01:00.0"⟩ := by decide +kernel

theorem dtbInjectMetaStore_cases (env : MetaEnv) (buffer : List U8) (s : InjectState) :
    (dtbInjectMetaStore env buffer s).1 = s ∨
      (∃ temp, (∀ d ∈ temp, d.len = 0 ∧ d.off = 0 ∧ d.fdt = none) ∧ (dtbInjectMetaStore env buffer s).1 =
        { s with valid := none, temp, uploads := ⟨s.uploads.length, none, []⟩ :: s.uploads }) ∨
      ∃ a : Announcement, a.Ok ∧ announce (cstr buffer) = some a ∧ (dtbInjectMetaStore env buffer s).1 =
        { s with
          valid := none
          temp := some (a.dtb s.uploads.length [])
          uploads := ⟨s.uploads.length, some a, []⟩ :: s.uploads } := by
  unfold dtbInjectMetaStore
  split
  · exact .inl rfl
  dsimp only
  split
  · rename_i ht _
    exact .inr (.inl ⟨none, (fun _ hd => nomatch hd), by rw [ht]⟩)
  split
  · refine .inr (.inl ⟨_, fun d hd => ?_, rfl⟩)
    cases hd
    exact ⟨rfl, rfl, rfl⟩
  rename_i hok
  push Not at hok
  split
  · refine .inr (.inl ⟨_, fun d hd => ?_, rfl⟩)
    cases hd
    exact ⟨rfl, rfl, rfl⟩
  · obtain ⟨hne, hle, -, haddr⟩ := hok
    obtain ⟨value, crc32, busname, busaddr, hscan⟩ := sscanfMeta_full haddr
    have hann : announce (cstr buffer) = some ⟨value.toNat, crc32, busname, busaddr⟩ := by rw [announce, hscan]
    rw [hscan] at hne hle
    refine .inr (.inr ⟨⟨value.toNat, crc32, busname, busaddr⟩, ⟨?_, hle⟩, hann, ?_⟩)
    · exact Nat.pos_of_ne_zero fun h0 => hne (BitVec.eq_of_toNat_eq h0)
    · rw [hann, hscan]
      rfl

/-! ## Every step keeps the invariant -/

variable {lib : FdtLib} {s s' : InjectState}

theorem Injecting.ids_nodup (h : Injecting lib s) : (s.uploads.map (·.id)).Nodup := by
  rw [h.ids, List.nodup_reverse]
  exact List.nodup_range

/-- Nothing is being uploaded, or there is an announcement whose bytes are in `temp`. -/
theorem Injecting.current (h : Injecting lib s) :
    ((∀ u ∈ s.uploads.head?, u.ann = none) ∧ ∀ d ∈ s.temp, d.len = 0 ∧ d.off = 0 ∧ d.fdt = none) ∨
      ∃ u l a, s.uploads = u :: l ∧ u.ann = some a ∧ a.Ok ∧ s.temp = u.slot lib a := by
  by_cases hnone : ∀ u ∈ s.uploads.head?, u.ann = none
  · exact .inl ⟨hnone, h.idle hnone⟩
  · push Not at hnone
    obtain ⟨u, hu, hann⟩ := hnone
    obtain ⟨a, ha⟩ := Option.ne_none_iff_exists'.1 hann
    obtain ⟨l, hl⟩ := List.head?_eq_some_iff.1 hu
    exact .inr ⟨u, l, a, hl, ha, h.announced u (by rw [hl]; exact List.mem_cons_self) a ha, h.slot u hu a ha⟩

theorem Injecting.fresh (h : Injecting lib s) (hu : u ∈ s.uploads) (ha : u.ann = some a) (hp : ¬u.Passes lib a) :
    ∀ d ∈ s.owned, d.id ≠ u.id := by
  intro d hd heq
  obtain ⟨v, hv, b, hb, hpv, rfl⟩ := h.owned d hd
  have hvu : v = u := List.inj_on_of_nodup_map h.ids_nodup hv hu heq
  subst hvu
  rw [ha] at hb
  cases hb
  exact hp hpv

theorem Injecting.of_owned (h : Injecting lib s) {l : List DtbInject} (hperm : l.Perm s.owned) (hsub : s'.owned.Sublist l)
    (hrest : s'.temp = s.temp ∧ s'.uploads = s.uploads ∧ s'.accepted = s.accepted ∧ s'.fault = s.fault)
    (haddr : ∀ x ∈ s'.handed, x.dtb.busname = textBytes "pci" ∧ x.dtb.busaddr = x.pciDev ∧
      ∃ fdt, x.dtb.fdt = some fdt ∧ x.fdt = lib.setTotalsize fdt (max (lib.totalsize fdt).toNat 16384 * 4)) :
    Injecting lib s' := by
  obtain ⟨htemp, hup, hacc, hfault⟩ := hrest
  constructor
  case inside => rw [hfault]; exact h.inside
  case ids => rw [hup]; exact h.ids
  case announced => rw [hup]; exact h.announced
  case idle => rw [hup, htemp]; exact h.idle
  case slot => rw [hup, htemp]; exact h.slot
  case accepted => rw [hup, hacc]; exact h.accepted
  case owned => rw [hup]; exact fun d hd => h.owned d (hperm.subset (hsub.subset hd))
  case once =>
    refine List.Nodup.sublist (hsub.map _) ?_
    exact (hperm.map _).nodup_iff.2 h.once
  case addressed => exact haddr

theorem accepted_of_not_passes (ha : u.ann = some a) (hp : ¬u.Passes lib a) : u.accepted lib = none := by
  rw [Upload.accepted, ha, Option.bind_some, if_neg hp]

theorem accepted_of_passes (ha : u.ann = some a) (hp : u.Passes lib a) : u.accepted lib = some (u.kept a) := by
  rw [Upload.accepted, ha, Option.bind_some, if_pos hp]

/-- A new entry of the history that has nothing to offer yet. -/
theorem Injecting.announce (h : Injecting lib s) {ann : Option Announcement} {temp : Option DtbInject}
    (hok : ∀ a, ann = some a → a.Ok)
    (hidle : ann = none → ∀ d ∈ temp, d.len = 0 ∧ d.off = 0 ∧ d.fdt = none)
    (hslot : ∀ a, ann = some a → temp = some (a.dtb s.uploads.length [])) :
    Injecting lib { s with valid := none, temp, uploads := ⟨s.uploads.length, ann, []⟩ :: s.uploads } := by
  have hpass : ∀ a, ann = some a → ¬(⟨s.uploads.length, ann, []⟩ : Upload).Passes lib a := by
    rintro a ha ⟨hlen, -⟩
    have := (hok a ha).pos
    rw [Upload.kept, List.take_nil, List.length_nil] at hlen
    omega
  have hsub : (s.getting.map (·.1) ++ s.handed.map (·.dtb)).Sublist s.owned := List.sublist_append_right _ _
  constructor
  case inside => exact h.inside
  case ids =>
    rw [List.map_cons, h.ids, List.length_cons, List.range_succ, List.reverse_append]
    rfl
  case announced =>
    intro u hu a ha
    rcases List.mem_cons.1 hu with rfl | hu
    · exact hok a ha
    · exact h.announced u hu a ha
  case idle => exact fun hnone => hidle (hnone _ rfl)
  case slot =>
    rintro u ⟨⟩ a ha
    rw [Upload.slot, if_neg (hpass a ha), Upload.kept, List.take_nil]
    exact hslot a ha
  case accepted =>
    have hacc : (⟨s.uploads.length, ann, []⟩ : Upload).accepted lib = none := by
      cases hann : ann with
      | none => rfl
      | some a => rw [← hann]; exact accepted_of_not_passes hann (hpass a hann)
    rw [List.filterMap_cons_none (by rw [hacc]; rfl)]
    exact h.accepted
  case owned =>
    intro d hd
    obtain ⟨u, hu, hrest⟩ := h.owned d (hsub.subset hd)
    exact ⟨u, List.mem_cons_of_mem _ hu, hrest⟩
  case once => exact List.Nodup.sublist (hsub.map _) h.once
  case addressed => exact h.addressed

/-- Bytes for an upload that can take them. -/
theorem Injecting.push (h : Injecting lib s) {l : List Upload} (hu : s.uploads = u :: l) (ha : u.ann = some a) (buffer : List U8) :
    Injecting lib (dtbInjectStore lib buffer s).1 := by
  have hmem : u ∈ s.uploads := by rw [hu]; exact List.mem_cons_self
  have hhead : u ∈ s.uploads.head? := by rw [hu]; rfl
  have ha' : (u.push buffer).ann = some a := ha
  rw [dtbInjectStore_eq hu (h.announced u hmem a ha) (h.slot u hhead a ha) buffer]
  -- a tree of this upload keeps its bytes
  have hkeep : ∀ d ∈ s.owned, ∃ v ∈ u.push buffer :: l, ∃ b, v.ann = some b ∧ v.Passes lib b ∧ d = b.dtb v.id (v.kept b) := by
    intro d hd
    obtain ⟨v, hv, b, hb, hp, rfl⟩ := h.owned d hd
    rw [hu] at hv
    rcases List.mem_cons.1 hv with rfl | hv
    · exact ⟨v.push buffer, List.mem_cons_self, b, hb, hp.push buffer, by rw [kept_push_of_full hp.1]; rfl⟩
    · exact ⟨v, List.mem_cons_of_mem _ hv, b, hb, hp, rfl⟩
  have hsub : (s.getting.map (·.1) ++ s.handed.map (·.dtb)).Sublist s.owned := List.sublist_append_right _ _
  constructor
  case inside => exact h.inside
  case ids =>
    have := h.ids
    rw [hu] at this
    exact this
  case announced =>
    intro v hv b hb
    rcases List.mem_cons.1 hv with rfl | hv
    · exact h.announced u hmem b hb
    · exact h.announced v (by rw [hu]; exact List.mem_cons_of_mem _ hv) b hb
  case idle =>
    intro hnone
    have : u.ann = none := hnone (u.push buffer) rfl
    rw [ha] at this
    cases this
  case slot =>
    rintro v ⟨⟩ b hb
    have : u.ann = some b := hb
    rw [ha] at this
    cases this
    rfl
  case accepted =>
    have hacc := h.accepted
    rw [hu] at hacc
    dsimp only
    by_cases hp : u.Passes lib a
    · rw [if_neg fun hn => hn.1 hp, List.filterMap_cons_some (b := (u.id, u.kept a)), hacc,
        List.filterMap_cons_some (b := (u.id, u.kept a))]
      · rw [accepted_of_passes ha hp]; rfl
      · rw [accepted_of_passes ha' (hp.push buffer), kept_push_of_full hp.1]; rfl
    · rw [List.filterMap_cons_none (by rw [accepted_of_not_passes ha hp]; rfl)] at hacc
      by_cases hp' : (u.push buffer).Passes lib a
      · rw [if_pos ⟨hp, hp'⟩, hacc, List.filterMap_cons_some (b := (u.id, (u.push buffer).kept a))]
        rw [accepted_of_passes ha' hp']; rfl
      · rw [if_neg fun hn => hp' hn.2, hacc, List.filterMap_cons_none]
        rw [accepted_of_not_passes ha' hp']; rfl
  case owned =>
    intro d hd
    dsimp only [InjectState.owned] at hd
    split at hd
    case isTrue hnew =>
      rcases List.mem_cons.1 hd with rfl | hd
      · exact ⟨u.push buffer, List.mem_cons_self, a, ha, hnew.2, rfl⟩
      · exact hkeep d (hsub.subset hd)
    case isFalse => exact hkeep d hd
  case once =>
    dsimp only [InjectState.owned]
    split
    case isTrue hnew =>
      refine List.nodup_cons.2 ⟨fun hid => ?_, List.Nodup.sublist (hsub.map _) h.once⟩
      obtain ⟨d, hd, heq⟩ := List.mem_map.1 hid
      exact h.fresh hmem ha hnew.1 d (hsub.subset hd) heq
    case isFalse => exact h.once
  case addressed => exact h.addressed

theorem Injecting.store (h : Injecting lib s) (buffer : List U8) : Injecting lib (dtbInjectStore lib buffer s).1 := by
  rcases h.current with ⟨hnone, hidle⟩ | ⟨u, l, a, hl, ha, -⟩
  · rw [dtbInjectStore_idle hidle buffer]
    cases hu : s.uploads with
    | nil => rw [offer, ← hu]; exact h
    | cons u l =>
      have hann : u.ann = none := hnone u (by rw [hu]; rfl)
      have hmem : ∀ v ∈ offer buffer (u :: l), ∃ w ∈ s.uploads, v.ann = w.ann ∧ v.id = w.id := by
        intro v hv
        rcases List.mem_cons.1 hv with rfl | hv
        · exact ⟨u, by rw [hu]; exact List.mem_cons_self, rfl, rfl⟩
        · exact ⟨v, by rw [hu]; exact List.mem_cons_of_mem _ hv, rfl, rfl⟩
      constructor
      case inside => exact h.inside
      case ids => have := h.ids; rw [hu] at this; exact this
      case announced =>
        intro v hv a ha
        obtain ⟨w, hw, heq, -⟩ := hmem v hv
        exact h.announced w hw a (heq ▸ ha)
      case idle => exact fun _ => hidle
      case slot =>
        rintro v ⟨⟩ a ha
        have : u.ann = some a := ha
        rw [hann] at this
        cases this
      case accepted =>
        have hacc := h.accepted
        rw [hu, List.filterMap_cons_none (by rw [Upload.accepted, hann]; rfl)] at hacc
        dsimp only [offer]
        rw [hacc, List.filterMap_cons_none (by rw [Upload.accepted, hann]; rfl)]
      case owned =>
        intro d hd
        obtain ⟨v, hv, a, ha, hrest⟩ := h.owned d hd
        rw [hu] at hv
        rcases List.mem_cons.1 hv with rfl | hv
        · rw [hann] at ha; cases ha
        · exact ⟨v, List.mem_cons_of_mem _ hv, a, ha, hrest⟩
      case once => exact h.once
      case addressed => exact h.addressed
  · exact h.push hl ha buffer

theorem Injecting.getPciEnd (h : Injecting lib s) (i : Nat) (realloc : Bool) :
    Injecting lib (getPciEnd lib i realloc s) := by
  unfold Nfb.getPciEnd
  split
  · exact h
  rename_i dtb pciDev hget
  obtain ⟨hi, hd⟩ := List.getElem?_eq_some_iff.1 hget
  have herase : ((dtb :: (s.getting.eraseIdx i).map (·.1))).Perm (s.getting.map (·.1)) := by
    have := (List.getElem_cons_eraseIdx_perm hi).map (·.1)
    rwa [hd] at this
  -- the tree of the call, taken out of the list
  have hfront : (dtb :: (s.valid.toList ++ ((s.getting.eraseIdx i).map (·.1) ++ s.handed.map (·.dtb)))).Perm s.owned :=
    List.perm_middle.symm.trans ((herase.append_right _).append_left _)
  have howned : dtb ∈ s.owned := hfront.subset List.mem_cons_self
  dsimp only
  split
  · split
    case h_1 hvalid =>
      rw [hvalid] at hfront
      exact h.of_owned hfront (List.Sublist.refl _) ⟨rfl, rfl, rfl, rfl⟩ h.addressed
    case h_2 => exact h.of_owned hfront (List.sublist_cons_self _ _) ⟨rfl, rfl, rfl, rfl⟩ h.addressed
  rename_i haddr
  push Not at haddr
  split
  case h_1 hnone =>
    obtain ⟨u, -, a, -, -, rfl⟩ := h.owned dtb howned
    cases hnone
  case h_2 fdt hfdt =>
    split
    · refine h.of_owned (hfront.symm.trans ?_).symm (List.Sublist.refl _) ⟨rfl, rfl, rfl, rfl⟩ fun x hx => ?_
      · exact List.perm_middle.symm.trans (List.perm_middle.symm.append_left _)
      · rcases List.mem_cons.1 hx with rfl | hx
        · exact ⟨haddr.1, haddr.2, fdt, hfdt, rfl⟩
        · exact h.addressed x hx
    · exact h.of_owned hfront (List.sublist_cons_self _ _) ⟨rfl, rfl, rfl, rfl⟩ h.addressed

theorem injectStep_inv (lib : FdtLib) (s : InjectState) (a : InjectAct) (h : Injecting lib s) :
    Injecting lib (injectStep lib s a) := by
  cases a with
  | metaStore env buffer =>
    rw [injectStep]
    rcases dtbInjectMetaStore_cases env buffer s with he | ⟨temp, hidle, he⟩ | ⟨a, hok, -, he⟩
    · rw [he]; exact h
    · rw [he]
      exact h.announce (fun _ ha => nomatch ha) (fun _ => hidle) (fun _ ha => nomatch ha)
    · rw [he]
      refine h.announce ?_ (fun hn => nomatch hn) ?_
      · rintro _ ⟨⟩; exact hok
      · rintro _ ⟨⟩; rfl
  | store buffer => exact h.store buffer
  | getPciBegin pciDev =>
    rw [injectStep, Nfb.getPciBegin]
    split
    · exact h
    case h_2 dtb hvalid =>
      refine h.of_owned (List.Perm.refl _) ?_ ⟨rfl, rfl, rfl, rfl⟩ h.addressed
      simp [InjectState.owned, hvalid]
  | getPciEnd i realloc => exact h.getPciEnd i realloc

theorem injecting_initial (lib : FdtLib) : Injecting lib .initial where
  inside := rfl
  ids := rfl
  announced := fun _ hu => nomatch hu
  idle := fun _ _ hd => nomatch hd
  slot := fun _ hu => nomatch hu
  accepted := rfl
  owned := fun _ hd => nomatch hd
  once := List.nodup_nil
  addressed := fun _ hx => nomatch hx

/-! ## The chunks of an upload -/

theorem offer_append (b c : List U8) (l : List Upload) : offer c (offer b l) = offer (b ++ c) l := by
  cases l with
  | nil => rfl
  | cons u l => simp only [offer, List.append_assoc]

theorem Injecting.store_append (h : Injecting lib s) (b c : List U8) :
    (dtbInjectStore lib c (dtbInjectStore lib b s).1).1 = (dtbInjectStore lib (b ++ c) s).1 := by
  rcases h.current with ⟨-, hidle⟩ | ⟨u, l, a, hl, -, hok, hslot⟩
  · rw [dtbInjectStore_idle hidle b, dtbInjectStore_idle hidle (b ++ c), ← offer_append]
    exact dtbInjectStore_idle (s := { s with uploads := offer b s.uploads }) hidle c
  · have hpush : (u.push b).push c = u.push (b ++ c) := by simp only [Upload.push, List.append_assoc]
    rw [dtbInjectStore_eq hl hok hslot b, dtbInjectStore_eq hl hok hslot (b ++ c)]
    rw [dtbInjectStore_eq (u := u.push b) rfl hok rfl c, hpush]
    by_cases hp : u.Passes lib a
    · have hpb := hp.push b
      simp [hp, hpb]
    · by_cases hpb : (u.push b).Passes lib a
      · have hpc : (u.push (b ++ c)).Passes lib a := hpush ▸ hpb.push c
        have hkept : (u.push (b ++ c)).kept a = (u.push b).kept a := hpush ▸ kept_push_of_full hpb.1 c
        simp [hp, hpb, hpc, hkept]
      · simp only [hp, hpb, not_false_eq_true, true_and, and_false, if_false]
        rfl

theorem Injecting.store_chunks (chunks : List (List U8)) :
    ∀ {s : InjectState}, Injecting lib s →
      run (injectStep lib) s (chunks.map .store) = injectStep lib s (.store chunks.flatten) := by
  induction chunks with
  | nil =>
    intro s h
    have hself : (dtbInjectStore lib [] s).1 = s := by
      rcases h.current with ⟨-, hidle⟩ | ⟨u, l, a, hl, -, hok, hslot⟩
      · rw [dtbInjectStore_idle hidle]
        cases hu : s.uploads with
        | nil => rw [offer, ← hu]
        | cons u l => rw [offer, List.append_nil, ← hu]
      · have hpush : u.push [] = u := by rw [Upload.push, List.append_nil]
        rw [dtbInjectStore_eq hl hok hslot, hpush, ← hl, ← hslot]
        simp
    exact hself.symm
  | cons b chunks ih =>
    intro s h
    rw [List.map_cons, run_cons, ih (injectStep_inv lib s _ h), List.flatten_cons]
    exact h.store_append b chunks.flatten

/-! ## Runs -/

/-- What a tree has to be that is taken for an announcement. -/
structure Checked (lib : FdtLib) (a : Announcement) (fdt : List U8) : Prop where
  length : fdt.length = a.len
  checksum : (lib.crc32 (0x80000000 ^^^ 0xffffffff) fdt ^^^ 0xffffffff).setWidth 64 = a.crc32
  header : 40 ≤ a.len ∧ lib.checkHeader fdt = 0
  totalsize : (lib.totalsize fdt).toNat ≤ a.len
  paths : 0 ≤ lib.pathOffset fdt "/firmware/" ∧ lib.pathOffset fdt "/system/" < 0 ∧
    lib.pathOffset fdt "/board/" < 0 ∧ lib.pathOffset fdt "/drivers/" < 0

theorem checkFdt_eq_none {len : Nat} {crc32 : U64} {fdt : List U8} (h : checkFdt lib len crc32 fdt = none) :
    (lib.crc32 (0x80000000 ^^^ 0xffffffff) fdt ^^^ 0xffffffff).setWidth 64 = crc32 ∧
      (40 ≤ len ∧ lib.checkHeader fdt = 0) ∧ (lib.totalsize fdt).toNat ≤ len ∧
      0 ≤ lib.pathOffset fdt "/firmware/" ∧ lib.pathOffset fdt "/system/" < 0 ∧
      lib.pathOffset fdt "/board/" < 0 ∧ lib.pathOffset fdt "/drivers/" < 0 := by
  unfold checkFdt at h
  dsimp only at h
  split at h
  · cases h
  rename_i hcrc
  split at h
  · cases h
  rename_i hheader
  split at h
  · cases h
  rename_i hsize
  split at h
  · cases h
  rename_i hpaths
  push Not at hcrc hheader hpaths
  exact ⟨hcrc, hheader, Nat.not_lt.1 hsize, hpaths⟩

theorem Upload.Passes.checked (h : u.Passes lib a) : Checked lib a (u.kept a) := by
  obtain ⟨hcrc, hheader, hsize, hpaths⟩ := checkFdt_eq_none h.2
  exact ⟨h.1, hcrc, hheader, hsize, hpaths⟩

/-- The structure `d` holds the whole tree of the announcement `u`, and the tree has passed the checks. -/
def Upload.Owns (lib : FdtLib) (u : Upload) (d : DtbInject) : Prop :=
  ∃ a fdt, u.ann = some a ∧ Checked lib a fdt ∧ u.accepted lib = some fdt ∧ d.id = u.id ∧ d.fdt = some fdt ∧
    d.len = a.len ∧ d.off = a.len ∧ d.busname = a.busname ∧ d.busaddr = a.busaddr

/-- What holds of the injection at any time. -/
structure InjectRight (lib : FdtLib) (s : InjectState) : Prop where
  /-- No byte was written outside a buffer, -/
  inside : s.fault = false
  /-- and none can be: the buffer has the announced length, or there is none and nothing is announced. -/
  bounds : ∀ d, s.temp = some d ∨ s.valid = some d →
    d.off ≤ d.len ∧ (d.fdt.elim 0 (·.length)) = d.len
  /-- A valid tree is one that was announced and checked. -/
  valid : ∀ d, s.valid = some d → ∃ u ∈ s.uploads, u.Owns lib d
  /-- A tree is handed out for the announced address, once. -/
  handed : ∀ x ∈ s.handed, (∃ u ∈ s.uploads, u.Owns lib x.dtb) ∧ x.dtb.busname = textBytes "pci" ∧
    x.dtb.busaddr = x.pciDev ∧
    ∃ fdt, x.dtb.fdt = some fdt ∧ x.fdt = lib.setTotalsize fdt (max (lib.totalsize fdt).toNat 16384 * 4)
  once : (s.handed.map (·.dtb.id)).Nodup ∧ (s.uploads.map (·.id)).Nodup
  /-- The trees that were accepted are those that the announcements with their bytes give. -/
  accepted : s.accepted = s.uploads.filterMap fun u => (u.accepted lib).map (u.id, ·)

theorem Announcement.dtb_fdt_length {b : List U8} (h : b.length ≤ a.len) (id : Nat) :
    (a.dtb id b).off ≤ (a.dtb id b).len ∧ (a.dtb id b).fdt.elim 0 (·.length) = (a.dtb id b).len := by
  refine ⟨h, ?_⟩
  simp only [Announcement.dtb, Option.elim_some, List.length_append, List.length_replicate]
  omega

theorem Injecting.owns (h : Injecting lib s) {d : DtbInject} (hd : d ∈ s.owned) : ∃ u ∈ s.uploads, u.Owns lib d := by
  obtain ⟨u, hu, a, ha, hp, rfl⟩ := h.owned d hd
  refine ⟨u, hu, a, u.kept a, ha, hp.checked, accepted_of_passes ha hp, rfl, ?_, rfl, hp.1, rfl, rfl⟩
  rw [Announcement.dtb, hp.1, Nat.sub_self, List.replicate_zero, List.append_nil]

theorem Injecting.right (h : Injecting lib s) : InjectRight lib s := by
  have hvalid : ∀ d, s.valid = some d → d ∈ s.owned := fun d hd => List.mem_append_left _ (by rw [hd]; exact List.mem_singleton_self d)
  constructor
  case inside => exact h.inside
  case bounds =>
    rintro d (hd | hd)
    · rcases h.current with ⟨-, hidle⟩ | ⟨u, l, a, -, -, -, hslot⟩
      · obtain ⟨hlen, hoff, hfdt⟩ := hidle d hd
        rw [hlen, hoff, hfdt]
        exact ⟨le_rfl, rfl⟩
      · rw [hslot, Upload.slot] at hd
        split at hd
        · cases hd
        · cases hd
          exact a.dtb_fdt_length (kept_length_le u a) u.id
    · obtain ⟨u, -, a, -, -, rfl⟩ := h.owned d (hvalid d hd)
      exact a.dtb_fdt_length (kept_length_le u a) u.id
  case valid => exact fun d hd => h.owns (hvalid d hd)
  case handed =>
    intro x hx
    refine ⟨h.owns ?_, h.addressed x hx⟩
    exact List.mem_append_right _ (List.mem_append_right _ (List.mem_map_of_mem hx))
  case once =>
    have hsub : (s.handed.map (·.dtb)).Sublist s.owned :=
      (List.sublist_append_right _ _).trans (List.sublist_append_right _ _)
    have hnodup := List.Nodup.sublist (hsub.map (·.id)) h.once
    rw [List.map_map] at hnodup
    exact ⟨hnodup, h.ids_nodup⟩
  case accepted => exact h.accepted

/-- After every run of announcements, writes and probes the injection is in order; and from there on it does not
matter how the bytes are split into writes. -/
theorem injection_right (lib : FdtLib) (acts : List InjectAct) :
    InjectRight lib (run (injectStep lib) .initial acts) ∧
      ∀ chunks : List (List U8),
        run (injectStep lib) (run (injectStep lib) .initial acts) (chunks.map .store) =
          injectStep lib (run (injectStep lib) .initial acts) (.store chunks.flatten) := by
  have h : Injecting lib (run (injectStep lib) .initial acts) :=
    run_inv (injectStep_inv lib) acts _ (injecting_initial lib)
  exact ⟨h.right, fun chunks => Injecting.store_chunks chunks h⟩

end NdkSw.Nfb

/-
The firmware load request of the boot driver (`nfb_boot_load` of `boot/boot.c`): a name, a path and data of the user are copied into
one buffer, whose size is the sum of two 32-bit sizes and a 64-bit one, and are handed to the sub-driver.
-/
import NdkSw.Boot.MtdIoctl
import NdkSw.Shared.Chunks
import NdkSw.Shared.Words

namespace NdkSw.Boot

open Ndp Shared

/-! ## Data model -/

/-- The sizes in `struct nfb_boot_ioc_load`; the NUL of a string is in its size. -/
structure IocLoad where
  nameSize : U32
  nodeSize : U32
  dataSize : U64
  deriving DecidableEq, Repr

/-- What the sub-driver gets: three offsets from the start of the buffer, if there is one, and what the buffer holds. -/
structure Handed where
  buf : Option Nat
  name : Nat
  node : Nat
  data : Nat
  mem : Nat → Option U8

inductive LoadCall where
  | lock
  | unlock
  | load (h : Handed)
  | copyOut

/-- What a request meets: the copies of the request itself, the lock, the memory, the bytes that can be read behind the pointers of
the user, the sub-driver with its result. -/
structure LoadEnv where
  copyIn : Bool
  lockFree : Bool
  alloc : Bool
  name : List U8
  node : List U8
  data : List U8
  bwBmc : Option Int
  copyOut : Bool

/-- `strncpy_from_user`: the result and the bytes that are copied. -/
def strncpyFromUser (src : List U8) (count : Nat) : Int × List U8 :=
  let s := src.take count
  match s.findIdx? (· == 0) with
  | some i => (i, s.take (i + 1))
  | none => if s.length = count then (count, s) else (eFault, s)

/-! ## The handler -/

/-- Some part is asked for. -/
def IocLoad.Asked (load : IocLoad) : Prop := load.nameSize ≠ 0 ∨ load.nodeSize ≠ 0 ∨ load.dataSize ≠ 0

instance (load : IocLoad) : Decidable load.Asked := inferInstanceAs (Decidable (_ ∨ _ ∨ _))

/-- The size of the buffer: the sum of the first two keeps their width. -/
def IocLoad.total (load : IocLoad) : U64 := (load.nameSize + load.nodeSize).setWidth 64 + load.dataSize

/-- The buffer: none if it cannot be had, no buffer if nothing is asked for. -/
def loadBuffer (alloc : Bool) (load : IocLoad) : Option (Option Nat) :=
  if load.Asked then if load.total = 0 ∨ alloc = false then none else some (some load.total.toNat) else some none

/-- A string of the user, whose result has to be the size without the NUL. -/
def copyString (mem : Nat → Option U8) (off : Nat) (src : List U8) (size : U32) :
    List (BufOp LoadCall) × Option (Nat → Option U8) :=
  let r := strncpyFromUser src size.toNat
  ([.access off r.2.length], if size ≠ 0 ∧ BitVec.ofInt 32 r.1 ≠ size - 1 then none else some (storeList mem off r.2))

/-- The data of the user. What cannot be copied is zero, and its length goes into an `int`. -/
def copyData (mem : Nat → Option U8) (off : Nat) (src : List U8) (size : U64) :
    List (BufOp LoadCall) × Option (Nat → Option U8) :=
  let copied := src.take size.toNat
  let left := size.toNat - copied.length
  ([.access off size.toNat],
    if BitVec.ofNat 32 left ≠ 0 then none else some (storeList mem off (copied ++ List.replicate left 0)))

/-- The three copies, each made only if the one before was accepted. -/
def copyItems (env : LoadEnv) (load : IocLoad) : List (BufOp LoadCall) × Option (Nat → Option U8) :=
  match copyString (fun _ => none) 0 env.name load.nameSize with
  | (ops, none) => (ops, none)
  | (ops, some mem) =>
    match copyString mem load.nameSize.toNat env.node load.nodeSize with
    | (ops', none) => (ops ++ ops', none)
    | (ops', some mem) =>
      match copyData mem (load.nameSize.toNat + load.nodeSize.toNat) env.data load.dataSize with
      | (ops'', mem) => (ops ++ ops' ++ ops'', mem)

def handed (load : IocLoad) (buf : Option Nat) (mem : Nat → Option U8) : Handed :=
  ⟨buf, 0, load.nameSize.toNat, load.nameSize.toNat + load.nodeSize.toNat, mem⟩

/-- From the copies to the copy of the request back to the user. -/
def loadItems (env : LoadEnv) (load : IocLoad) (buf : Option Nat) : Int × List (BufOp LoadCall) :=
  match copyItems env load with
  | (ops, none) => (eInval, ops)
  | (ops, some mem) =>
    match env.bwBmc with
    | none => (eNxio, ops)
    | some ret =>
      let ops := ops ++ [.call (.load (handed load buf mem))]
      if ret ≠ 0 then (ret, ops)
      else if env.copyOut = false then (eFault, ops ++ [.call .copyOut]) else (ret, ops ++ [.call .copyOut])

def vmallocOps : Option Nat → List (BufOp LoadCall)
  | none => []
  | some n => [.alloc n]

/-- `vfree`, which takes a null pointer too. -/
def vfreeOps : Option Nat → List (BufOp LoadCall)
  | none => []
  | some _ => [.free]

/-- `nfb_boot_load`. -/
def nfbBootLoad (env : LoadEnv) (load : IocLoad) : Int × List (BufOp LoadCall) :=
  if env.copyIn = false then (eFault, [])
  else if env.lockFree = false then (eBusy, [])
  else
    match loadBuffer env.alloc load with
    | none => (eNomem, [.call .lock, .call .unlock])
    | some buf =>
      let r := loadItems env load buf
      (r.1, .call .lock :: (vmallocOps buf ++ r.2 ++ vfreeOps buf ++ [.call .unlock]))

/-! ## Safety -/

/-- A string ends inside its own part. -/
def Ends (mem : Nat → Option U8) (off : Nat) (size : U32) : Prop := ∃ i < size.toNat, mem (off + i) = some 0

/-- A string of the user fills its part: its NUL is the last byte. -/
def Fills (src : List U8) (size : U32) : Prop := size ≠ 0 → src.findIdx? (· == 0) = some (size.toNat - 1)

/-- What the sub-driver gets: two strings, and data that lie in the buffer and are those of the user. -/
structure HandedOk (env : LoadEnv) (load : IocLoad) (h : Handed) : Prop where
  name : Ends h.mem h.name load.nameSize
  node : Ends h.mem h.node load.nodeSize
  inside : ∀ n ∈ h.buf, h.data + load.dataSize.toNat ≤ n
  data : ∀ j < load.dataSize.toNat, h.mem (h.data + j) = env.data[j]?

/-- A request that is not refused: it could be copied whole. -/
structure Accepted (env : LoadEnv) (load : IocLoad) : Prop where
  request : env.copyIn = true ∧ env.lockFree = true ∧ (load.Asked → env.alloc = true)
  name : Fills env.name load.nameSize
  node : Fills env.node load.nodeSize
  data : load.dataSize.toNat ≤ env.data.length

def mutexCall : BufOp LoadCall → Option Bool
  | .call .lock => some true
  | .call .unlock => some false
  | _ => none

/-- What is asked of the handler. -/
structure LoadSafe (env : LoadEnv) (load : IocLoad) (ops : List (BufOp LoadCall)) : Prop where
  buffer : Disciplined ops
  mutex : ops.filterMap mutexCall ∈ [[], [true, false]]
  handed : ∀ h, .call (.load h) ∈ ops → HandedOk env load h
  refused : ∀ h, .call (.load h) ∈ ops → Accepted env load

/-- Both strings have a part, the sums keep their width, no size less one is an error, no rest of the data is a multiple of 2^32. -/
def PartsFit (load : IocLoad) : Prop :=
  load.nameSize ≠ 0 ∧ load.nodeSize ≠ 0 ∧ load.nameSize.toNat + load.nodeSize.toNat < 2 ^ 32 ∧
    load.nameSize ≠ BitVec.ofInt 32 (eFault + 1) ∧ load.nodeSize ≠ BitVec.ofInt 32 (eFault + 1) ∧ load.dataSize.toNat < 2 ^ 32

/-- The condition on the sizes: the parts fit, or the sum is zero and there is never a buffer. -/
def SizesFit (load : IocLoad) : Prop := (load.Asked ∧ load.total = 0) ∨ PartsFit load

instance (load : IocLoad) : Decidable (PartsFit load) := inferInstanceAs (Decidable (_ ∧ _))

instance (load : IocLoad) : Decidable (SizesFit load) := inferInstanceAs (Decidable (_ ∨ _))

/-! ## A string -/

theorem strncpyFromUser_cases (src : List U8) (count : Nat) :
    (∃ i < count, src.findIdx? (· == 0) = some i ∧ strncpyFromUser src count = ((i : Int), (src.take count).take (i + 1))) ∨
    (strncpyFromUser src count).1 = count ∧ (strncpyFromUser src count).2 = src.take count ∨
    (strncpyFromUser src count).1 = eFault ∧ (strncpyFromUser src count).2 = src.take count := by
  unfold strncpyFromUser
  dsimp only
  cases hfind : (src.take count).findIdx? (· == 0) with
  | some i =>
    rw [List.findIdx?_take, Option.bind_eq_some_iff] at hfind
    obtain ⟨j, hj, hguard⟩ := hfind
    obtain ⟨rfl, hlt⟩ := Option.guard_eq_some_iff.1 hguard
    exact .inl ⟨j, by simpa using hlt, hj, rfl⟩
  | none =>
    dsimp only
    split
    · exact .inr (.inl ⟨rfl, rfl⟩)
    · exact .inr (.inr ⟨rfl, rfl⟩)

theorem strncpyFromUser_length_le (src : List U8) (count : Nat) : (strncpyFromUser src count).2.length ≤ count := by
  rcases strncpyFromUser_cases src count with ⟨i, -, -, h⟩ | ⟨-, h⟩ | ⟨-, h⟩
  · rw [h, List.length_take]
    exact le_trans (min_le_right _ _) (List.length_take_le _ _)
  · rw [h]
    exact List.length_take_le _ _
  · rw [h]
    exact List.length_take_le _ _

section

variable {mem mem' : Nat → Option U8} {off : Nat} {src : List U8} {size : U32}

theorem toNat_pred (h : size ≠ 0) : (size - 1).toNat = size.toNat - 1 := by bv_omega

theorem toNat_pos (h : size ≠ 0) : 0 < size.toNat := by bv_omega

theorem accepted_fills (h : (copyString mem off src size).2 = some mem') (hpos : size ≠ 0)
    (herr : size ≠ BitVec.ofInt 32 (eFault + 1)) :
    src.findIdx? (· == 0) = some (size.toNat - 1) ∧ mem' = storeList mem off (src.take size.toNat) := by
  have hlt := size.isLt
  have hsize := toNat_pos hpos
  unfold copyString at h
  dsimp only at h
  split at h
  · cases h
  · next hret =>
    have heq : BitVec.ofInt 32 (strncpyFromUser src size.toNat).1 = size - 1 := by
      by_contra hne
      exact hret ⟨hpos, hne⟩
    rcases strncpyFromUser_cases src size.toNat with ⟨i, hi, hfind, hr⟩ | ⟨hr, -⟩ | ⟨hr, -⟩
    · rw [hr] at heq h
      have hlast : i = size.toNat - 1 := by
        have hnat := congrArg BitVec.toNat heq
        rw [toNat_pred hpos, BitVec.ofInt_natCast, BitVec.toNat_ofNat, Nat.mod_eq_of_lt (by omega)] at hnat
        exact hnat
      subst hlast
      rw [Nat.sub_add_cancel hsize, List.take_take, Nat.min_self] at h
      cases h
      exact ⟨hfind, rfl⟩
    · -- a string without NUL has the whole size as its length
      rw [hr, BitVec.ofInt_natCast, BitVec.ofNat_toNat, BitVec.setWidth_eq] at heq
      bv_omega
    · rw [hr] at heq
      refine absurd ?_ herr
      rw [BitVec.ofInt_add, heq]
      bv_omega

theorem fills_spec (h : src.findIdx? (· == 0) = some (size.toNat - 1)) (hpos : size ≠ 0) :
    (src.take size.toNat).length = size.toNat ∧ (src.take size.toNat)[size.toNat - 1]? = some 0 := by
  have hsize := toNat_pos hpos
  obtain ⟨hlt, hnul, -⟩ := List.findIdx?_eq_some_iff_getElem.1 h
  constructor
  · rw [List.length_take]
    omega
  · rw [List.getElem?_take_of_lt (by omega), List.getElem?_eq_getElem hlt]
    simpa using hnul

theorem accepted_data {size : U64} (h : (copyData mem off src size).2 = some mem') (hsize : size.toNat < 2 ^ 32) :
    size.toNat ≤ src.length ∧ mem' = storeList mem off (src.take size.toNat) := by
  unfold copyData at h
  dsimp only at h
  split at h
  · cases h
  · next hleft =>
    rw [not_not] at hleft
    have hzero : size.toNat - (src.take size.toNat).length = 0 := by
      have hnat := congrArg BitVec.toNat hleft
      rw [BitVec.toNat_ofNat, Nat.mod_eq_of_lt (by omega)] at hnat
      exact hnat
    rw [hzero, List.replicate_zero, List.append_nil] at h
    cases h
    rw [List.length_take] at hzero
    exact ⟨by omega, rfl⟩

end

/-! ## The copies -/

section

variable {env : LoadEnv} {load : IocLoad} {mem : Nat → Option U8}

theorem copyItems_ops (env : LoadEnv) (load : IocLoad) : ∃ a ≤ load.nameSize.toNat, ∃ b ≤ load.nodeSize.toNat,
    (copyItems env load).1 = [.access 0 a] ∨ (copyItems env load).1 = [.access 0 a, .access load.nameSize.toNat b] ∨
    (copyItems env load).1 = [.access 0 a, .access load.nameSize.toNat b,
      .access (load.nameSize.toNat + load.nodeSize.toNat) load.dataSize.toNat] := by
  refine ⟨_, strncpyFromUser_length_le env.name _, _, strncpyFromUser_length_le env.node _, ?_⟩
  unfold copyItems copyString copyData
  dsimp only
  split
  · next heq =>
    obtain ⟨rfl, -⟩ := Prod.mk.inj heq
    exact .inl rfl
  · next heq =>
    obtain ⟨rfl, -⟩ := Prod.mk.inj heq
    split
    · next heq' =>
      obtain ⟨rfl, -⟩ := Prod.mk.inj heq'
      exact .inr (.inl rfl)
    · next heq' =>
      obtain ⟨rfl, -⟩ := Prod.mk.inj heq'
      exact .inr (.inr rfl)

theorem copyItems_some (h : (copyItems env load).2 = some mem) : ∃ mem₁ mem₂,
    (copyString (fun _ => none) 0 env.name load.nameSize).2 = some mem₁ ∧
    (copyString mem₁ load.nameSize.toNat env.node load.nodeSize).2 = some mem₂ ∧
    (copyData mem₂ (load.nameSize.toNat + load.nodeSize.toNat) env.data load.dataSize).2 = some mem := by
  unfold copyItems at h
  split at h
  · cases h
  · next heq =>
    split at h
    · cases h
    · next heq' => exact ⟨_, _, congrArg Prod.snd heq, congrArg Prod.snd heq', h⟩

theorem copyItems_run (env : LoadEnv) {n : Nat} (h : load.nameSize.toNat + load.nodeSize.toNat + load.dataSize.toNat ≤ n) :
    bufRun (some n) (copyItems env load).1 = some (some n) := by
  obtain ⟨a, ha, b, hb, hops | hops | hops⟩ := copyItems_ops env load
  · rw [hops, bufRun_access (by omega), bufRun_nil]
  · rw [hops, bufRun_access (by omega), bufRun_access (by omega), bufRun_nil]
  · rw [hops, bufRun_access (by omega), bufRun_access (by omega), bufRun_access (by omega), bufRun_nil]

theorem copyItems_access (env : LoadEnv) (load : IocLoad) : ∀ op ∈ (copyItems env load).1, ∃ off len, op = .access off len := by
  intro op hop
  obtain ⟨a, -, b, -, hops | hops | hops⟩ := copyItems_ops env load
  all_goals
    rw [hops] at hop
    simp only [List.mem_cons, List.not_mem_nil, or_false] at hop
  · exact ⟨_, _, hop⟩
  · rcases hop with rfl | rfl
    · exact ⟨_, _, rfl⟩
    · exact ⟨_, _, rfl⟩
  · rcases hop with rfl | rfl | rfl
    · exact ⟨_, _, rfl⟩
    · exact ⟨_, _, rfl⟩
    · exact ⟨_, _, rfl⟩

theorem copyItems_mutex (env : LoadEnv) (load : IocLoad) : (copyItems env load).1.filterMap mutexCall = [] := by
  rw [List.filterMap_eq_nil_iff]
  intro op hop
  obtain ⟨off, len, rfl⟩ := copyItems_access env load op hop
  rfl

theorem copyItems_call {c : LoadCall} : .call c ∉ (copyItems env load).1 := by
  intro hop
  obtain ⟨off, len, h⟩ := copyItems_access env load _ hop
  cases h

theorem PartsFit.total (h : PartsFit load) :
    load.total.toNat = load.nameSize.toNat + load.nodeSize.toNat + load.dataSize.toNat := by
  obtain ⟨-, -, hsum, -, -, hdata⟩ := h
  rw [IocLoad.total, BitVec.toNat_add, BitVec.toNat_setWidth, BitVec.toNat_add, Nat.mod_eq_of_lt hsum,
    Nat.mod_eq_of_lt (by omega), Nat.mod_eq_of_lt (by omega)]

theorem copyItems_accepted (hfit : PartsFit load) (h : (copyItems env load).2 = some mem) :
    Fills env.name load.nameSize ∧ Fills env.node load.nodeSize ∧ load.dataSize.toNat ≤ env.data.length ∧
    Ends mem 0 load.nameSize ∧ Ends mem load.nameSize.toNat load.nodeSize ∧
    ∀ j < load.dataSize.toNat, mem (load.nameSize.toNat + load.nodeSize.toNat + j) = env.data[j]? := by
  obtain ⟨hname, hnode, -, hnerr, hderr, hdata⟩ := hfit
  obtain ⟨mem₁, mem₂, h₁, h₂, h₃⟩ := copyItems_some h
  obtain ⟨hnul₁, rfl⟩ := accepted_fills h₁ hname hnerr
  obtain ⟨hnul₂, rfl⟩ := accepted_fills h₂ hnode hderr
  obtain ⟨hlen, rfl⟩ := accepted_data h₃ hdata
  obtain ⟨hlen₁, hlast₁⟩ := fills_spec hnul₁ hname
  obtain ⟨hlen₂, hlast₂⟩ := fills_spec hnul₂ hnode
  have hpos₁ := toNat_pos hname
  have hpos₂ := toNat_pos hnode
  refine ⟨fun _ => hnul₁, fun _ => hnul₂, hlen, ⟨load.nameSize.toNat - 1, by omega, ?_⟩, ⟨load.nodeSize.toNat - 1, by omega, ?_⟩, ?_⟩
  · rw [storeList_before (by omega), storeList_before (by omega), storeList_inside (by omega), hlast₁]
  · rw [storeList_before (by omega), storeList_inside (by omega), hlast₂]
  · intro j hj
    rw [storeList_inside (by rw [List.length_take]; omega), List.getElem?_take_of_lt hj]

theorem loadItems_ops (env : LoadEnv) (load : IocLoad) (buf : Option Nat) :
    (loadItems env load buf).2 = (copyItems env load).1 ∨
    ∃ mem, (copyItems env load).2 = some mem ∧
      ((loadItems env load buf).2 = (copyItems env load).1 ++ [.call (.load (handed load buf mem))] ∨
      (loadItems env load buf).2 = (copyItems env load).1 ++ [.call (.load (handed load buf mem)), .call .copyOut]) := by
  unfold loadItems
  cases hcopy : copyItems env load with
  | mk ops res =>
    cases res with
    | none => exact .inl rfl
    | some mem =>
      dsimp only
      cases env.bwBmc with
      | none => exact .inl rfl
      | some ret =>
        refine .inr ⟨mem, rfl, ?_⟩
        dsimp only
        split
        · exact .inl rfl
        · refine .inr ?_
          split
          · exact List.append_assoc _ _ _
          · exact List.append_assoc _ _ _

theorem loadItems_reached (ret : Int) (hbmc : env.bwBmc = some ret) (h : (copyItems env load).2 = some mem) (buf : Option Nat) :
    .call (.load (handed load buf mem)) ∈ (loadItems env load buf).2 := by
  unfold loadItems
  cases hcopy : copyItems env load with
  | mk ops res =>
    rw [hcopy] at h
    cases h
    dsimp only
    rw [hbmc]
    dsimp only
    split
    · simp
    · split
      · simp
      · simp

/-! ## The handler -/

theorem copyItems_of_load {buf : Option Nat} {h : Handed} (hh : .call (.load h) ∈ (loadItems env load buf).2) :
    ∃ mem, (copyItems env load).2 = some mem ∧ h = handed load buf mem := by
  rcases loadItems_ops env load buf with hops | ⟨mem, hmem, hops | hops⟩
  · rw [hops] at hh
    exact absurd hh copyItems_call
  · rw [hops, List.mem_append] at hh
    rcases hh with hh | hh
    · exact absurd hh copyItems_call
    · simp only [List.mem_singleton, BufOp.call.injEq, LoadCall.load.injEq] at hh
      exact ⟨mem, hmem, hh⟩
  · rw [hops, List.mem_append] at hh
    rcases hh with hh | hh
    · exact absurd hh copyItems_call
    · simp only [List.mem_cons, BufOp.call.injEq, LoadCall.load.injEq, reduceCtorEq, List.not_mem_nil, or_false] at hh
      exact ⟨mem, hmem, hh⟩

theorem loadItems_run (buf : Option Nat) {held : Option Nat} (h : bufRun held (copyItems env load).1 = some held) :
    bufRun held (loadItems env load buf).2 = some held := by
  rcases loadItems_ops env load buf with hops | ⟨mem, -, hops | hops⟩
  · rw [hops, h]
  · rw [hops, bufRun_append, h]
    rfl
  · rw [hops, bufRun_append, h]
    rfl

theorem loadItems_mutex (env : LoadEnv) (load : IocLoad) (buf : Option Nat) : (loadItems env load buf).2.filterMap mutexCall = [] := by
  rcases loadItems_ops env load buf with hops | ⟨mem, -, hops | hops⟩
  · rw [hops, copyItems_mutex]
  · rw [hops, List.filterMap_append, copyItems_mutex]
    rfl
  · rw [hops, List.filterMap_append, copyItems_mutex]
    rfl

theorem loadSafe_nil : LoadSafe env load [] := ⟨rfl, by simp, nofun, nofun⟩

/-- With sizes that fit the handler is safe, whatever happens. -/
theorem loadSafe_of_fits (hfit : SizesFit load) (env : LoadEnv) : LoadSafe env load (nfbBootLoad env load).2 := by
  unfold nfbBootLoad
  by_cases hin : env.copyIn = false
  · rw [if_pos hin]
    exact loadSafe_nil
  rw [if_neg hin]
  by_cases hlock : env.lockFree = false
  · rw [if_pos hlock]
    exact loadSafe_nil
  rw [if_neg hlock]
  cases hbuf : loadBuffer env.alloc load with
  | none => exact ⟨rfl, by simp [mutexCall], by simp, by simp⟩
  | some buf =>
    unfold loadBuffer at hbuf
    -- a total that does not fit is refused before anything is allocated
    rcases hfit with ⟨hasked, htotal⟩ | hfit
    · rw [if_pos hasked, if_pos (.inl htotal)] at hbuf
      cases hbuf
    have hasked : load.Asked := .inl hfit.1
    rw [if_pos hasked] at hbuf
    split at hbuf
    · cases hbuf
    next halloc =>
      cases hbuf
      rw [hfit.total]
      generalize hn : load.nameSize.toNat + load.nodeSize.toNat + load.dataSize.toNat = n
      have hcall : ∀ h, .call (.load h) ∈ (.call .lock :: (vmallocOps (some n) ++ (loadItems env load (some n)).2 ++
          vfreeOps (some n) ++ [.call .unlock]) : List (BufOp LoadCall)) →
          ∃ mem, (copyItems env load).2 = some mem ∧ h = handed load (some n) mem := by
        intro h hh
        simp only [vmallocOps, vfreeOps, List.mem_cons, List.mem_append, BufOp.call.injEq, reduceCtorEq, List.not_mem_nil,
          or_false, false_or] at hh
        exact copyItems_of_load hh
      refine ⟨?_, ?_, ?_, ?_⟩
      · have hrun := loadItems_run (some n) (copyItems_run env (le_of_eq hn))
        simp [Disciplined, vmallocOps, vfreeOps, bufRun_append, hrun]
      · simp only [List.filterMap_cons, List.filterMap_append, loadItems_mutex]
        exact List.mem_cons_of_mem _ (List.mem_singleton.2 rfl)
      · intro h hh
        obtain ⟨mem, hmem, rfl⟩ := hcall h hh
        obtain ⟨-, -, -, hname, hnode, hdata⟩ := copyItems_accepted hfit hmem
        refine ⟨by simpa [handed] using hname, hnode, ?_, hdata⟩
        rintro _ ⟨⟩
        exact le_of_eq hn
      · intro h hh
        obtain ⟨mem, hmem, rfl⟩ := hcall h hh
        obtain ⟨hname, hnode, hdata, -, -, -⟩ := copyItems_accepted hfit hmem
        exact ⟨⟨by simpa using hin, by simpa using hlock, fun _ => by simpa using fun h => halloc (.inr h)⟩, hname, hnode, hdata⟩

/-- A user whose memory holds these, and nothing fails. -/
def openEnv (name node data : List U8) : LoadEnv := ⟨true, true, true, name, node, data, some 0, true⟩

/-- A string that fills its part. -/
def fullString (size : U32) : List U8 := List.replicate (size.toNat - 1) 1 ++ [0]

theorem strncpyFromUser_full {size : U32} (h : size ≠ 0) :
    strncpyFromUser (fullString size) size.toNat = (((size.toNat - 1 : Nat) : Int), fullString size) := by
  have hpos := toNat_pos h
  have hlen : (fullString size).length = size.toNat := by
    rw [fullString, List.length_append, List.length_replicate, List.length_singleton]
    omega
  have hfind : (fullString size).findIdx? (· == 0) = some (size.toNat - 1) := by
    rw [fullString, List.findIdx?_append, List.findIdx?_replicate]
    simp
  unfold strncpyFromUser
  dsimp only
  rw [List.take_of_length_le (le_of_eq hlen), hfind]
  dsimp only
  rw [List.take_of_length_le (by omega)]

theorem copyString_full (mem : Nat → Option U8) (off : Nat) (size : U32) : ∃ mem',
    copyString mem off (fullString size) size = ([.access off size.toNat], some mem') := by
  by_cases h : size = 0
  · subst h
    exact ⟨_, rfl⟩
  · have hlen : (fullString size).length = size.toNat := by
      have hpos := toNat_pos h
      rw [fullString, List.length_append, List.length_replicate, List.length_singleton]
      omega
    have hret : BitVec.ofInt 32 ((size.toNat - 1 : Nat) : Int) = size - 1 := by
      rw [BitVec.ofInt_natCast]
      bv_omega
    refine ⟨storeList mem off (fullString size), ?_⟩
    unfold copyString
    dsimp only
    rw [strncpyFromUser_full h, if_neg (fun hc => hc.2 hret), hlen]

theorem copyString_fault (mem : Nat → Option U8) (off : Nat) :
    copyString mem off [] (BitVec.ofInt 32 (eFault + 1)) = ([.access off 0], some (storeList mem off [])) := rfl

theorem copyData_some {size : U64} {src : List U8} {q : Nat} (h : size.toNat - (src.take size.toNat).length = 2 ^ 32 * q)
    (mem : Nat → Option U8) (off : Nat) : ∃ mem', copyData mem off src size = ([.access off size.toNat], some mem') := by
  have hzero : BitVec.ofNat 32 (2 ^ 32 * q) = 0 := by
    apply BitVec.eq_of_toNat_eq
    rw [BitVec.toNat_ofNat, Nat.mul_mod_right]
    rfl
  refine ⟨storeList mem off (src.take size.toNat ++ List.replicate (2 ^ 32 * q) 0), ?_⟩
  unfold copyData
  dsimp only
  rw [h, if_neg (not_not.2 hzero)]

theorem copyItems_of (env : LoadEnv) {mem₁ mem₂ mem₃ : Nat → Option U8} {a b c : List (BufOp LoadCall)}
    (h₁ : copyString (fun _ => none) 0 env.name load.nameSize = (a, some mem₁))
    (h₂ : copyString mem₁ load.nameSize.toNat env.node load.nodeSize = (b, some mem₂))
    (h₃ : copyData mem₂ (load.nameSize.toNat + load.nodeSize.toNat) env.data load.dataSize = (c, some mem₃)) :
    copyItems env load = (a ++ b ++ c, some mem₃) := by
  simp only [copyItems, h₁, h₂, h₃]

theorem nfbBootLoad_open (name node data : List U8) {buf : Option Nat} (h : loadBuffer true load = some buf) :
    (nfbBootLoad (openEnv name node data) load).2 =
      .call .lock :: (vmallocOps buf ++ (loadItems (openEnv name node data) load buf).2 ++ vfreeOps buf ++ [.call .unlock]) := by
  unfold nfbBootLoad
  rw [if_neg nofun, if_neg nofun, show (openEnv name node data).alloc = true from rfl, h]

theorem loadBuffer_open (hbuf : ¬(load.Asked ∧ load.total = 0)) :
    loadBuffer true load = some (if load.Asked then some load.total.toNat else none) := by
  unfold loadBuffer
  by_cases hasked : load.Asked
  · rw [if_pos hasked, if_pos hasked, if_neg (by simpa using fun h => hbuf ⟨hasked, h⟩)]
  · rw [if_neg hasked, if_neg hasked]

theorem nfbBootLoad_reached {name node data : List U8} (hbuf : ¬(load.Asked ∧ load.total = 0))
    (h : (copyItems (openEnv name node data) load).2 = some mem) : ∃ buf,
      .call (.load (handed load buf mem)) ∈ (nfbBootLoad (openEnv name node data) load).2 := by
  refine ⟨if load.Asked then some load.total.toNat else none, ?_⟩
  rw [nfbBootLoad_open name node data (loadBuffer_open hbuf)]
  simp [loadItems_reached 0 rfl h]

theorem total_of_disciplined {name node data : List U8} (hbuf : ¬(load.Asked ∧ load.total = 0)) (hasked : load.Asked)
    (hops : (copyItems (openEnv name node data) load).1 = [.access 0 load.nameSize.toNat,
      .access load.nameSize.toNat load.nodeSize.toNat, .access (load.nameSize.toNat + load.nodeSize.toNat) load.dataSize.toNat])
    (h : Disciplined (nfbBootLoad (openEnv name node data) load).2) :
    load.nameSize.toNat + load.nodeSize.toNat + load.dataSize.toNat ≤ load.total.toNat := by
  by_contra hlt
  have hrun : ∀ tail, bufRun (some load.total.toNat) ((copyItems (openEnv name node data) load).1 ++ tail) = none := by
    intro tail
    rw [hops]
    exact bufRun_three_beyond (by omega) tail
  rw [Disciplined, nfbBootLoad_open name node data (loadBuffer_open hbuf), if_pos hasked] at h
  simp only [vmallocOps, List.append_assoc, List.cons_append, List.nil_append, bufRun_call, bufRun_alloc] at h
  rcases loadItems_ops (openEnv name node data) load (some load.total.toNat) with hi | ⟨mem, -, hi | hi⟩
  · rw [hi, hrun] at h
    cases h
  · rw [hi, List.append_assoc, hrun] at h
    cases h
  · rw [hi, List.append_assoc, hrun] at h
    cases h

/-- A request that is safe in every environment has sizes that fit. -/
theorem fits_of_loadSafe (hsafe : ∀ env, LoadSafe env load (nfbBootLoad env load).2) : SizesFit load := by
  by_cases hbuf : load.Asked ∧ load.total = 0
  · exact .inl hbuf
  refine .inr ?_
  -- whatever is accepted has been copied whole
  have haccepted : ∀ {name node data : List U8} {mem}, (copyItems (openEnv name node data) load).2 = some mem →
      Accepted (openEnv name node data) load := by
    intro name node data mem h
    obtain ⟨buf, hreach⟩ := nfbBootLoad_reached hbuf h
    exact (hsafe _).refused _ hreach
  have hdata : load.dataSize.toNat - ((List.replicate load.dataSize.toNat (1 : U8)).take load.dataSize.toNat).length = 2 ^ 32 * 0 := by
    simp
  obtain ⟨mem₁, h₁⟩ := copyString_full (fun _ => none) 0 load.nameSize
  obtain ⟨mem₂, h₂⟩ := copyString_full mem₁ load.nameSize.toNat load.nodeSize
  obtain ⟨mem₃, h₃⟩ := copyData_some hdata mem₂ (load.nameSize.toNat + load.nodeSize.toNat)
  have hcopy := copyItems_of (openEnv (fullString load.nameSize) (fullString load.nodeSize)
    (List.replicate load.dataSize.toNat 1)) h₁ h₂ h₃
  obtain ⟨buf, hreach⟩ := nfbBootLoad_reached hbuf (congrArg Prod.snd hcopy)
  have hok := (hsafe _).handed _ hreach
  have hname : load.nameSize ≠ 0 := by
    intro h
    obtain ⟨i, hi, -⟩ := hok.name
    rw [h] at hi
    exact absurd hi (Nat.not_lt_zero i)
  have hnode : load.nodeSize ≠ 0 := by
    intro h
    obtain ⟨i, hi, -⟩ := hok.node
    rw [h] at hi
    exact absurd hi (Nat.not_lt_zero i)
  refine ⟨hname, hnode, ?_, ?_, ?_, ?_⟩
  · -- the three ranges have to lie in the buffer
    have htotal := total_of_disciplined hbuf (.inl hname) (congrArg Prod.fst hcopy) (hsafe _).buffer
    have hle : load.total.toNat ≤ (load.nameSize.toNat + load.nodeSize.toNat) % 2 ^ 32 + load.dataSize.toNat := by
      rw [IocLoad.total, BitVec.toNat_add, BitVec.toNat_setWidth, BitVec.toNat_add]
      exact le_trans (Nat.mod_le _ _) (Nat.add_le_add_right (Nat.mod_le _ _) _)
    have hmod := Nat.mod_lt (load.nameSize.toNat + load.nodeSize.toNat) (show 0 < 2 ^ 32 by norm_num)
    omega
  · -- a name that cannot be read
    intro h
    have hfault := copyString_fault (fun _ => none) 0
    rw [← h] at hfault
    obtain ⟨_, h₂⟩ := copyString_full (storeList (fun _ => none) 0 []) load.nameSize.toNat load.nodeSize
    obtain ⟨_, h₃⟩ := copyData_some hdata _ (load.nameSize.toNat + load.nodeSize.toNat)
    have hcopy := copyItems_of (openEnv [] (fullString load.nodeSize) (List.replicate load.dataSize.toNat 1)) hfault h₂ h₃
    exact absurd ((haccepted (congrArg Prod.snd hcopy)).name hname) nofun
  · -- a path that cannot be read
    intro h
    have hfault := copyString_fault mem₁ load.nameSize.toNat
    rw [← h] at hfault
    obtain ⟨_, h₃⟩ := copyData_some hdata _ (load.nameSize.toNat + load.nodeSize.toNat)
    have hcopy := copyItems_of (openEnv (fullString load.nameSize) [] (List.replicate load.dataSize.toNat 1)) h₁ hfault h₃
    exact absurd ((haccepted (congrArg Prod.snd hcopy)).node hnode) nofun
  · -- data that lack 2^32 bytes
    by_contra hge
    obtain ⟨src, hsrc⟩ : ∃ src : List U8, src.length + 2 ^ 32 = load.dataSize.toNat :=
      ⟨List.replicate (load.dataSize.toNat - 2 ^ 32) 1, by rw [List.length_replicate]; omega⟩
    have hlack : load.dataSize.toNat - (src.take load.dataSize.toNat).length = 2 ^ 32 * 1 := by
      rw [List.take_of_length_le (by omega)]
      omega
    obtain ⟨_, h₃⟩ := copyData_some hlack mem₂ (load.nameSize.toNat + load.nodeSize.toNat)
    have hcopy := copyItems_of (openEnv (fullString load.nameSize) (fullString load.nodeSize) src) h₁ h₂ h₃
    have hlen : load.dataSize.toNat ≤ src.length := (haccepted (congrArg Prod.snd hcopy)).data
    omega

end

/-- For every request: it is safe whatever the memory of the user holds and whatever fails if and only if its sizes fit. -/
theorem load_safe_iff (load : IocLoad) : (∀ env, LoadSafe env load (nfbBootLoad env load).2) ↔ SizesFit load :=
  ⟨fits_of_loadSafe, loadSafe_of_fits⟩

/-- Two sizes whose sum is 16 in 32 bits, with a name of 19 bytes; a request without a path. -/
theorem load_beyond_buffer :
    (nfbBootLoad (openEnv (List.replicate 19 65) [] []) ⟨0xFFFFFFF0, 0x20, 0⟩).2 =
      [.call .lock, .alloc 16, .access 0 19, .free, .call .unlock] ∧
    ¬LoadSafe (openEnv (List.replicate 19 65) [] []) ⟨0xFFFFFFF0, 0x20, 0⟩
      (nfbBootLoad (openEnv (List.replicate 19 65) [] []) ⟨0xFFFFFFF0, 0x20, 0⟩).2 ∧
    ¬LoadSafe (openEnv [65, 0] [] []) ⟨2, 0, 0⟩ (nfbBootLoad (openEnv [65, 0] [] []) ⟨2, 0, 0⟩).2 := by
  refine ⟨rfl, ?_, ?_⟩
  · rintro ⟨hbuf, -, -, -⟩
    exact absurd hbuf (by decide)
  · rintro ⟨-, -, hhanded, -⟩
    obtain ⟨i, hi, -⟩ := (hhanded _ (List.mem_of_getElem? (i := 5) rfl)).node
    exact absurd hi (Nat.not_lt_zero i)

end NdkSw.Boot

/-
The address table of an RX MAC (`netcope/rxmac.h`). A call on the table holds the lock of the component, switches the MAC off
and on again; `nc_rxmac_enable` and `nc_rxmac_disable` of other clients write the same register without the lock. The calls are
taken apart into their register accesses.
-/
import NdkSw.Net.QueueConfig
import NdkSw.Shared.LockedCalls
import NdkSw.Shared.Words

namespace NdkSw.Net

open Ndp Shared

/-! ## Registers -/

/-- The registers ENABLE and STATUS, the entries of the table, and `mac_addr_count` of an open `struct nc_rxmac`. -/
inductive MacLoc where
  | enable
  | status
  | mac (i : Nat)
  | count (h : Nat)

/-- `count` is none as long as `mac_addr_count_valid` is 0. -/
@[reducible] def MacLoc.Val : MacLoc → Type
  | .enable | .status => U32
  | .mac _ => U64
  | .count _ => Option U32

/-- The MAC. `wanted` is no register: it is the value of the last request to enable or disable, the first value of ENABLE if
there was none. -/
structure RxMac where
  enable : U32
  status : U32
  mac : Nat → U64
  count : Nat → Option U32
  wanted : U32

/-- A MAC of which no handle is open yet. -/
def RxMac.fresh (enable status : U32) (mac : Nat → U64) : RxMac where
  enable := enable
  status := status
  mac := mac
  count := fun _ => none
  wanted := enable

def RxMac.get (m : RxMac) : (r : MacLoc) → r.Val
  | .enable => m.enable
  | .status => m.status
  | .mac i => m.mac i
  | .count h => m.count h

def RxMac.set (m : RxMac) : (r : MacLoc) → r.Val → RxMac
  | .enable, v => { m with enable := v }
  | .status, v => { m with status := v }
  | .mac i, v => { m with mac := Function.update m.mac i v }
  | .count h, v => { m with count := Function.update m.count h v }

/-- The number of entries, from STATUS. -/
def countOf (reg : U32) : U32 := (reg &&& 0x0F800000) >>> 23

/-- `RXMAC_MAC_ADDR_MASK`. -/
def macAddrMask : U64 := 0xFFFFFFFFFFFF

/-- `RXMAC_MAC_ADDR_VALID_BIT_MASK`. -/
def macAddrValidBitMask : U64 := 1#64 <<< 48

/-- What comes without the lock: a request to enable or disable, or other bits of STATUS than the number of entries. -/
inductive MacEvent where
  | request (on : Bool)
  | status (v : U32)

/-- `nc_rxmac_enable`, `nc_rxmac_disable`. -/
def enableValue (on : Bool) : U32 := if on then 1 else 0

def RxMac.event (m : RxMac) : MacEvent → RxMac
  | .request on => { m with enable := enableValue on, wanted := enableValue on }
  | .status v => if countOf v = countOf m.status then { m with status := v } else m

/-! ## Calls -/

/-- What a call returns, with what it wrote to `mac_addr_list` and `valid`. -/
structure TableRet where
  ret : Int
  list : List (U64 × Option Bool)
  deriving DecidableEq

abbrev MacAccess := Access MacLoc MacLoc.Val TableRet

/-- `nc_rxmac_mac_address_count`. -/
def ncRxmacMacAddressCount (h : Nat) (k : U32 → MacAccess) : MacAccess :=
  .read (.count h) fun (c : Option U32) =>
    match c with
    | some c => k c
    | none => .read .status fun (reg : U32) => .write (.count h) (some (countOf reg)) (k (countOf reg))

/-- The search for an empty position, from `i` on. -/
def findEmpty (k : Option Nat → MacAccess) : Nat → Nat → MacAccess
  | 0, _ => k none
  | left + 1, i => .read (.mac i) fun (reg64 : U64) =>
    if reg64 &&& macAddrValidBitMask = 0 then k (some i) else findEmpty k left (i + 1)

/-- The register of an entry. -/
def macReg (addr : U64) (valid : Bool) : U64 := if valid then addr ||| macAddrValidBitMask else addr

/-- `_nc_rxmac_set_mac`. The number of entries is known from its first use on. -/
def ncRxmacSetMacBody (h : Nat) (index : Int) (addr : U64) (valid : Bool) (k : Int → MacAccess) : MacAccess :=
  ncRxmacMacAddressCount h fun count =>
    if index ≥ count.toInt then k eInval
    else if index < 0 then
      findEmpty (fun
        | none => k eNomem
        | some i => .write (.mac i) (macReg addr valid) (k i)) count.toNat 0
    else .write (.mac index.toNat) (macReg addr valid) (k index)

/-- What the calls have around the work on the table, with the lock held. -/
def withMacOff (body : (TableRet → MacAccess) → MacAccess) : MacAccess :=
  .read .enable fun (enabled : U32) =>
    if enabled ≠ 0 then .write .enable 0 (body fun a => .write .enable 1 (.unlock a)) else body .unlock

/-- The loop of `nc_rxmac_get_mac_list`. -/
def readEntries (valid : Bool) (k : List (U64 × Option Bool) → MacAccess) :
    Nat → Nat → List (U64 × Option Bool) → MacAccess
  | 0, _, list => k list
  | left + 1, i, list => .read (.mac i) fun (reg64 : U64) =>
    readEntries valid k left (i + 1)
      (list ++ [(reg64 &&& macAddrMask, if valid then some (decide (reg64 &&& macAddrValidBitMask ≠ 0)) else none)])

/-- The loop of `nc_rxmac_set_mac_list`. -/
def setEntries (h : Nat) (list : Nat → U64 × Bool) (p : MacAccess) : Nat → Nat → MacAccess
  | 0, _ => p
  | left + 1, i => ncRxmacSetMacBody h i (list i).1 (list i).2 fun _ => setEntries h list p left (i + 1)

/-- A call on the table; `valid` of `nc_rxmac_get_mac_list` says if the pointer is there. -/
inductive TableOp where
  | setMac (index : Int) (addr : U64) (valid : Bool)
  | getMacList (valid : Bool) (count : U32)
  | setMacList (list : Nat → U64 × Bool) (count : U32)

/-- `nc_rxmac_set_mac`. -/
def ncRxmacSetMac (h : Nat) (index : Int) (addr : U64) (valid : Bool) : MacAccess :=
  .lock fun ok =>
    if ok then withMacOff fun k => ncRxmacSetMacBody h index addr valid fun ret => k ⟨ret, []⟩ else .ret ⟨eAgain, []⟩

/-- The test of a list's length before the lock. -/
def withinTable (h : Nat) (count : U32) (p : MacAccess) : MacAccess :=
  ncRxmacMacAddressCount h fun c => if c < count then .ret ⟨eInval, []⟩ else p

/-- `nc_rxmac_get_mac_list`. -/
def ncRxmacGetMacList (h : Nat) (valid : Bool) (count : U32) : MacAccess :=
  withinTable h count <| .lock fun ok =>
    if ok then withMacOff fun k => readEntries valid (fun list => k ⟨count.toInt, list⟩) count.toNat 0 []
    else .ret ⟨eAgain, []⟩

/-- `nc_rxmac_set_mac_list`. -/
def ncRxmacSetMacList (h : Nat) (list : Nat → U64 × Bool) (count : U32) : MacAccess :=
  withinTable h count <| .lock fun ok =>
    if ok then withMacOff fun k => setEntries h list (k ⟨count.toInt, []⟩) count.toNat 0 else .ret ⟨eAgain, []⟩

/-- A call through a handle. -/
structure TableCall where
  handle : Nat
  op : TableOp

def TableCall.start (c : TableCall) : MacAccess :=
  match c.op with
  | .setMac index addr valid => ncRxmacSetMac c.handle index addr valid
  | .getMacList valid count => ncRxmacGetMacList c.handle valid count
  | .setMacList list count => ncRxmacSetMacList c.handle list count

/-- The MAC with the calls of all clients. -/
def rxMacCalls : Locations RxMac MacLoc MacLoc.Val TableCall TableRet MacEvent where
  get := RxMac.get
  set := RxMac.set
  start := TableCall.start
  outside e m := m.event e

/-! ## The table as a list -/

/-- An address with its valid bit. -/
abbrev MacEntry := BitVec 48 × Bool

def entryOf (reg : U64) : MacEntry := (reg.setWidth 48, reg.getLsbD 48)

/-- The table of the MAC. -/
def RxMac.table (m : RxMac) : List MacEntry := (List.range (countOf m.status).toNat).map fun i => entryOf (m.mac i)

def MacEntry.shown (valid : Bool) (e : MacEntry) : U64 × Option Bool :=
  (e.1.setWidth 64, if valid then some e.2 else none)

/-- Entry `i` of a list that a call is given. -/
def listEntry (list : Nat → U64 × Bool) (i : Nat) : MacEntry := ((list i).1.setWidth 48, (list i).2)

/-- What `nc_rxmac_set_mac` is meant to do. -/
def placeMac (index : Int) (e : MacEntry) (l : List MacEntry) : List MacEntry × Int :=
  if index ≥ l.length then (l, eInval)
  else if index < 0 then
    match l.findIdx? fun e => !e.2 with
    | none => (l, eNomem)
    | some i => (l.set i e, i)
  else (l.set index.toNat e, index)

/-- What the calls are meant to do. -/
def TableOp.apply (op : TableOp) (l : List MacEntry) : List MacEntry × TableRet :=
  match op with
  | .setMac index addr valid =>
    let r := placeMac index (addr.setWidth 48, valid) l
    (r.1, ⟨r.2, []⟩)
  | .getMacList valid count =>
    if l.length < count.toNat then (l, ⟨eInval, []⟩)
    else (l, ⟨count.toNat, (l.take count.toNat).map (·.shown valid)⟩)
  | .setMacList list count =>
    if l.length < count.toNat then (l, ⟨eInval, []⟩)
    else
      ((List.range count.toNat).map (listEntry list) ++ l.drop count.toNat,
        ⟨count.toNat, []⟩)

/-- The entry that a call writes at `i` has the valid bit that it is to have: an address that is not to be valid has bit 48
clear. -/
def TableOp.BitClear (op : TableOp) (i : Nat) : Prop :=
  match op with
  | .setMac _ addr valid => valid = true ∨ addr.getLsbD 48 = false
  | .getMacList _ _ => True
  | .setMacList list _ => (list i).2 = true ∨ (list i).1.getLsbD 48 = false

instance (op : TableOp) (i : Nat) : Decidable (op.BitClear i) := by
  cases op <;> unfold TableOp.BitClear <;> infer_instance

/-- The writes that do no harm: no other bit is taken for the valid bit, and the MAC is switched on again only if that is what
was asked for last. -/
def MayWrite (c : TableCall) (m : RxMac) : (r : MacLoc) → r.Val → Prop
  | .enable, v => v = 0 ∨ m.wanted = v
  | .mac i, _ => c.op.BitClear i
  | .status, _ | .count _, _ => True

instance (c : TableCall) (m : RxMac) : (r : MacLoc) → (v : r.Val) → Decidable (MayWrite c m r v)
  | .enable, v => inferInstanceAs (Decidable (v = 0 ∨ m.wanted = v))
  | .mac i, _ => inferInstanceAs (Decidable (c.op.BitClear i))
  | .status, _ | .count _, _ => .isTrue trivial

/-! ## Registers and entries -/

theorem countOf_lt (reg : U32) : (countOf reg).toNat < 32 := by
  have hand : (reg &&& 0x0F800000).toNat ≤ 0x0F800000 := by
    rw [BitVec.toNat_and]
    exact Nat.and_le_right
  rw [countOf, BitVec.toNat_ushiftRight, Nat.shiftRight_eq_div_pow]
  omega

theorem toInt_of_small {v : U32} (hv : v.toNat < 32) : v.toInt = v.toNat := by
  rw [BitVec.toInt_eq_toNat_cond, if_pos (by omega)]

theorem validBit (i : Nat) : macAddrValidBitMask.getLsbD i = decide (i = 48) := by
  rw [macAddrValidBitMask, BitVec.getLsbD_shiftLeft, BitVec.getLsbD_one]
  by_cases h : i = 48
  · subst h
    rfl
  · have hne : ¬(i - 48 = 0 ∧ 48 ≤ i) := by omega
    simp only [h, decide_false]
    by_cases hi : i < 48
    · simp [hi]
    · have : i - 48 ≠ 0 := by omega
      simp [this]

theorem and_valid_eq_zero (reg : U64) : reg &&& macAddrValidBitMask = 0 ↔ reg.getLsbD 48 = false := by
  constructor
  · intro h
    have hbit : (reg &&& macAddrValidBitMask).getLsbD 48 = (0 : U64).getLsbD 48 := by rw [h]
    rw [BitVec.getLsbD_and, validBit, decide_eq_true rfl, Bool.and_true] at hbit
    exact hbit
  · intro h
    apply BitVec.eq_of_getLsbD_eq
    intro i hi
    rw [BitVec.getLsbD_and, validBit]
    by_cases hi : i = 48
    · subst hi
      rw [h, Bool.false_and]
      rfl
    · simp [hi]

theorem mask_eq : macAddrMask = (BitVec.allOnes 48).setWidth 64 := rfl

/-- What `nc_rxmac_get_mac_list` makes of a register. -/
theorem shown_entryOf (valid : Bool) (reg : U64) :
    (entryOf reg).shown valid =
      (reg &&& macAddrMask, if valid then some (decide (reg &&& macAddrValidBitMask ≠ 0)) else none) := by
  have haddr : (reg.setWidth 48).setWidth 64 = reg &&& macAddrMask := by
    apply BitVec.eq_of_getLsbD_eq
    intro i hi
    rw [mask_eq, BitVec.getLsbD_and, BitVec.getLsbD_setWidth, BitVec.getLsbD_setWidth, BitVec.getLsbD_setWidth,
      BitVec.getLsbD_allOnes]
    simp only [hi, decide_true, Bool.true_and]
    exact Bool.and_comm _ _
  have hvalid : decide (reg &&& macAddrValidBitMask ≠ 0) = reg.getLsbD 48 := by
    cases hb : reg.getLsbD 48 with
    | false => simp [(and_valid_eq_zero reg).2 hb]
    | true =>
      rw [decide_eq_true_iff, Ne, and_valid_eq_zero, hb]
      exact nofun
  rw [MacEntry.shown, entryOf, haddr, hvalid]

variable {valid : Bool} {h : Nat} {addr : U64}

theorem entryOf_macReg (h : valid = true ∨ addr.getLsbD 48 = false) : entryOf (macReg addr valid) = (addr.setWidth 48, valid) := by
  cases valid with
  | false =>
    have hbit : addr.getLsbD 48 = false := h.resolve_left nofun
    rw [macReg, if_neg nofun, entryOf, hbit]
  | true =>
    rw [macReg, if_pos rfl, entryOf]
    refine Prod.ext ?_ ?_
    · apply BitVec.eq_of_getLsbD_eq
      intro i hi
      have hne : i ≠ 48 := by omega
      simp only [BitVec.getLsbD_setWidth, BitVec.getLsbD_or, validBit, hne, decide_false, Bool.or_false]
    · simp only [BitVec.getLsbD_or, validBit, decide_true, Bool.or_true]

@[simp] theorem RxMac.table_length (m : RxMac) : m.table.length = (countOf m.status).toNat := by
  simp [RxMac.table]

theorem RxMac.table_getElem (m : RxMac) {i : Nat} (hi : i < m.table.length) : m.table[i] = entryOf (m.mac i) := by
  simp [RxMac.table]

theorem RxMac.table_set (m : RxMac) (i : Nat) (reg : U64) :
    (m.set (.mac i) reg).table = m.table.set i (entryOf reg) := by
  apply List.ext_getElem
  · rw [List.length_set, RxMac.table_length, RxMac.table_length]
    rfl
  · intro j hj _
    rw [RxMac.table_getElem _ hj, List.getElem_set]
    by_cases hij : i = j
    · subst hij
      rw [if_pos rfl]
      exact congrArg entryOf (Function.update_self ..)
    · rw [if_neg hij, RxMac.table_getElem]
      exact congrArg entryOf (Function.update_of_ne (Ne.symm hij) _ _)

theorem placeMac_length (index : Int) (e : MacEntry) (l : List MacEntry) : (placeMac index e l).1.length = l.length := by
  rw [placeMac]
  split
  · rfl
  · split
    · split
      · rfl
      · exact List.length_set
    · exact List.length_set

/-! ## What the registers stand for -/

/-- The data are the table and whether ENABLE has the value asked for. -/
def macMeaning (count : U32) : Meaning rxMacCalls (List MacEntry × Bool) where
  rel d m :=
    countOf m.status = count ∧ (∀ h c, m.count h = some c → c = count) ∧ m.table = d.1 ∧
      (d.2 = true → m.enable = m.wanted)
  shape d := d.1.length = count.toNat ∧ d.2 = true
  spec c d := (((c.op.apply d.1).1, d.2), (c.op.apply d.1).2)
  refused := ⟨eAgain, []⟩
  ok := MayWrite

instance (count : U32) (c : TableCall) (m : RxMac) (r : MacLoc) (v : r.Val) : Decidable ((macMeaning count).ok c m r v) :=
  inferInstanceAs (Decidable (MayWrite c m r v))

section

variable {count : U32} {c : TableCall} {d d' : List MacEntry × Bool} {a : TableRet} {k : U32 → MacAccess}

theorem rel_setCount {m : RxMac} (h : (macMeaning count).rel d m) (handle : Nat) :
    (macMeaning count).rel d (m.set (.count handle) (some count)) := by
  refine ⟨h.1, ?_, h.2.2⟩
  intro h' c' hc'
  by_cases heq : h' = handle
  · subst heq
    have hself : some count = some c' := by simpa [RxMac.set] using hc'
    exact (Option.some.inj hself).symm
  · exact h.2.1 h' c' (by simpa [RxMac.set, heq] using hc')

theorem under_count (hk : UnderLock (macMeaning count) c (k count) d d' a) :
    UnderLock (macMeaning count) c (ncRxmacMacAddressCount h k) d d' a := by
  refine .read fun m hm => ?_
  show UnderLock _ _ (match m.count h with | some c => _ | none => _) _ _ _
  cases hc : m.count h with
  | some v =>
    obtain rfl := hm.2.1 h v hc
    exact hk
  | none =>
    refine .read fun m' hm' => ?_
    have hv : countOf m'.status = count := hm'.1
    show UnderLock _ _ (.write (.count h) (some (countOf m'.status)) (k (countOf m'.status))) _ _ _
    rw [hv]
    exact .write d (fun m'' hm'' _ => rel_setCount hm'' h) hk

theorem before_count (hk : BeforeLock (macMeaning count) c (k count)) : BeforeLock (macMeaning count) c (ncRxmacMacAddressCount h k) := by
  refine .read fun d m hm => ?_
  show BeforeLock _ _ (match m.count h with | some c => _ | none => _)
  cases hc : m.count h with
  | some v =>
    obtain rfl := hm.2.1 h v hc
    exact hk
  | none =>
    refine .read fun d' m' hm' => ?_
    have hv : countOf m'.status = count := hm'.1
    show BeforeLock _ _ (.write (.count h) (some (countOf m'.status)) (k (countOf m'.status)))
    rw [hv]
    exact .write (fun d'' m'' hm'' => rel_setCount hm'' h) hk

/-! ## Work under the lock -/

variable {l l' : List MacEntry} {ph : Bool}

theorem under_entry {i : Nat} {p : MacAccess} (hbit : c.op.BitClear i → valid = true ∨ addr.getLsbD 48 = false)
    (hp : UnderLock (macMeaning count) c p (l.set i (addr.setWidth 48, valid), ph) d' a) :
    UnderLock (macMeaning count) c (.write (.mac i) (macReg addr valid) p) (l, ph) d' a := by
  refine .write (l.set i (addr.setWidth 48, valid), ph) (fun m hm hok => ⟨hm.1, hm.2.1, ?_, hm.2.2.2⟩) hp
  have htable : m.table = l := hm.2.2.1
  show (m.set (.mac i) (macReg addr valid)).table = _
  rw [RxMac.table_set, htable, entryOf_macReg (hbit hok)]

theorem entry_read {m : RxMac} (hm : m.table = l) {i : Nat} (hi : i < l.length) : l[i] = entryOf (m.mac i) := by
  subst hm
  exact m.table_getElem hi

/-- The search finds the first entry that is not valid. -/
theorem under_findEmpty {k : Option Nat → MacAccess} (hl : l.length = count.toNat)
    (hk : UnderLock (macMeaning count) c (k (l.findIdx? fun e => !e.2)) (l, ph) d' a) :
    ∀ left i, i + left = l.length → (∀ j (hj : j < l.length), j < i → l[j].2 = true) →
      UnderLock (macMeaning count) c (findEmpty k left i) (l, ph) d' a
  | 0, i, hi, hvalid => by
    have hnone : l.findIdx? (fun e => !e.2) = none := by
      rw [List.findIdx?_eq_none_iff]
      intro e he
      obtain ⟨j, hj, rfl⟩ := List.getElem_of_mem he
      rw [hvalid j hj (by omega)]
      rfl
    rw [hnone] at hk
    exact hk
  | left + 1, i, hi, hvalid => by
    refine .read fun m hm => ?_
    have hil : i < l.length := by omega
    have hentry := entry_read hm.2.2.1 hil
    show UnderLock _ _ (if m.mac i &&& macAddrValidBitMask = 0 then k (some i) else findEmpty k left (i + 1)) _ _ _
    by_cases hempty : (m.mac i).getLsbD 48 = false
    · have hsome : l.findIdx? (fun e => !e.2) = some i := by
        rw [List.findIdx?_eq_some_iff_getElem]
        refine ⟨hil, ?_, fun j hj => ?_⟩
        · rw [hentry, entryOf, hempty]
          rfl
        · rw [hvalid j (by omega) hj]
          exact nofun
      rw [if_pos ((and_valid_eq_zero _).2 hempty), ← hsome]
      exact hk
    · rw [if_neg fun h => hempty ((and_valid_eq_zero _).1 h)]
      refine under_findEmpty hl hk left (i + 1) (by omega) fun j hj hji => ?_
      by_cases heq : j = i
      · subst heq
        rw [hentry, entryOf]
        exact Bool.eq_true_of_not_eq_false hempty
      · exact hvalid j hj (by omega)

/-- `_nc_rxmac_set_mac` does what it is meant to do. -/
theorem under_setBody {index : Int} {k : Int → MacAccess} (hcount : count.toNat < 32) (hl : l.length = count.toNat)
    (hbit : ∀ i : Nat, index < 0 ∨ index = i → c.op.BitClear i → valid = true ∨ addr.getLsbD 48 = false)
    (hk : UnderLock (macMeaning count) c (k (placeMac index (addr.setWidth 48, valid) l).2) ((placeMac index (addr.setWidth 48, valid) l).1, ph) d' a) :
    UnderLock (macMeaning count) c (ncRxmacSetMacBody h index addr valid k) (l, ph) d' a := by
  apply under_count
  rw [toInt_of_small hcount, ← hl]
  rw [placeMac] at hk
  by_cases hbig : index ≥ l.length
  · rw [if_pos hbig] at hk ⊢
    exact hk
  · rw [if_neg hbig] at hk ⊢
    by_cases hneg : index < 0
    · rw [if_pos hneg] at hk ⊢
      refine under_findEmpty hl ?_ l.length 0 (Nat.zero_add _) fun j _ hj => absurd hj (Nat.not_lt_zero j)
      cases hfind : l.findIdx? fun e => !e.2 with
      | none =>
        rw [hfind] at hk
        exact hk
      | some i =>
        rw [hfind] at hk
        exact under_entry (hbit i (.inl hneg)) hk
    · rw [if_neg hneg] at hk ⊢
      exact under_entry (hbit index.toNat (.inr (by omega))) hk

/-- The loop of `nc_rxmac_get_mac_list` reads the entries. -/
theorem under_readEntries {valid : Bool} {k : List (U64 × Option Bool) → MacAccess} :
    ∀ (left i : Nat) (list : List (U64 × Option Bool)), i + left ≤ l.length →
      UnderLock (macMeaning count) c (k (list ++ ((l.drop i).take left).map (·.shown valid))) (l, ph) d' a →
      UnderLock (macMeaning count) c (readEntries valid k left i list) (l, ph) d' a
  | 0, i, list, _, hk => by
    rw [List.take_zero, List.map_nil, List.append_nil] at hk
    exact hk
  | left + 1, i, list, hi, hk => by
    refine .read fun m hm => ?_
    have hil : i < l.length := by omega
    have hentry := entry_read hm.2.2.1 hil
    refine under_readEntries left (i + 1) _ (by omega) ?_
    rw [List.drop_eq_getElem_cons hil, List.take_succ_cons, List.map_cons, hentry, shown_entryOf] at hk
    rw [List.append_assoc]
    exact hk

/-- The loop of `nc_rxmac_set_mac_list` writes the entries. -/
theorem under_setEntries {h : Nat} {list : Nat → U64 × Bool} {p : MacAccess} (hcount : count.toNat < 32)
    (hbit : ∀ i, c.op.BitClear i → (list i).2 = true ∨ (list i).1.getLsbD 48 = false) :
    ∀ (left i : Nat) (l : List MacEntry), l.length = count.toNat → i + left ≤ l.length →
      UnderLock (macMeaning count) c p
        (l.take i ++ ((List.range' i left).map (listEntry list) ++ l.drop (i + left)), ph) d' a →
      UnderLock (macMeaning count) c (setEntries h list p left i) (l, ph) d' a
  | 0, i, l, _, _, hp => by
    rw [List.range'_zero, List.map_nil, List.nil_append, Nat.add_zero, List.take_append_drop] at hp
    exact hp
  | left + 1, i, l, hl, hi, hp => by
    have hplace : placeMac i ((list i).1.setWidth 48, (list i).2) l = (l.set i (listEntry list i), (i : Int)) := by
      rw [placeMac, if_neg (by omega), if_neg (by omega), Int.toNat_natCast]
      rfl
    refine under_setBody hcount hl ?_ ?_
    · rintro j (hneg | hj)
      · omega
      · obtain rfl : i = j := Int.ofNat.inj hj
        exact hbit i
    · rw [hplace]
      refine under_setEntries hcount hbit left (i + 1) _ (by rw [List.length_set, hl]) (by rw [List.length_set]; omega) ?_
      have hil : i < l.length := by omega
      have hset : i < (l.set i (listEntry list i)).length := by rwa [List.length_set]
      have htake : (l.set i (listEntry list i)).take (i + 1) = l.take i ++ [listEntry list i] := by
        rw [List.take_succ_eq_append_getElem hset, List.getElem_set_self, List.take_set_of_le (le_refl i)]
      rw [htake, List.drop_set_of_lt (by omega), List.append_assoc]
      rw [List.range'_succ, List.map_cons] at hp
      rw [Nat.add_right_comm i 1 left]
      exact hp

theorem under_withMacOff {body : (TableRet → MacAccess) → MacAccess}
    (hbody : ∀ ph k, UnderLock (macMeaning count) c (k a) (l', ph) (l', true) a →
      UnderLock (macMeaning count) c (body k) (l, ph) (l', true) a) :
    UnderLock (macMeaning count) c (withMacOff body) (l, true) (l', true) a := by
  refine .read fun m _ => ?_
  show UnderLock _ _ (if m.enable ≠ 0 then _ else _) _ _ _
  by_cases hon : m.enable ≠ 0
  · rw [if_pos hon]
    refine .write (l, false) (fun m hm _ => ⟨hm.1, hm.2.1, hm.2.2.1, nofun⟩) ?_
    apply hbody
    refine .write (l', true) (fun m hm hok => ⟨hm.1, hm.2.1, hm.2.2.1, fun _ => ?_⟩) (.unlock _ a)
    -- This is the write that needs the last request to be one to enable.
    have hwanted : m.wanted = (1 : U32) := hok.resolve_left (by decide)
    exact hwanted.symm
  · rw [if_neg hon]
    exact hbody true _ (.unlock _ a)

end

/-! ## Whole calls -/

theorem before_setMac (count : U32) (hcount : count.toNat < 32) (h : Nat) (index : Int) (addr : U64) (valid : Bool) :
    BeforeLock (macMeaning count) ⟨h, .setMac index addr valid⟩ (ncRxmacSetMac h index addr valid) := by
  refine .lock .refused ?_
  rintro ⟨l, ph⟩ ⟨hl, rfl⟩
  rw [if_pos rfl]
  show UnderLock _ _ _ _ ((placeMac index (addr.setWidth 48, valid) l).1, true) _
  refine under_withMacOff fun ph k hk => ?_
  exact under_setBody hcount hl (fun i _ hbit => hbit) hk

theorem before_withinTable {count : U32} {c : TableCall} {n : U32} {p : MacAccess}
    (hlong : ∀ l : List MacEntry, l.length < n.toNat → c.op.apply l = (l, ⟨eInval, []⟩))
    (hp : n.toNat ≤ count.toNat → BeforeLock (macMeaning count) c p) : BeforeLock (macMeaning count) c (withinTable h n p) := by
  apply before_count
  by_cases hlt : count < n
  · rw [if_pos hlt]
    refine .ret ?_
    rintro ⟨l, ph⟩ ⟨hl, rfl⟩
    show (((c.op.apply l).1, true), (c.op.apply l).2) = _
    rw [hlong l (by rw [hl]; exact BitVec.lt_def.1 hlt)]
  · rw [if_neg hlt]
    exact hp (Nat.le_of_not_lt fun hn => hlt (BitVec.lt_def.2 hn))

theorem before_getMacList (count : U32) (hcount : count.toNat < 32) (h : Nat) (valid : Bool) (n : U32) :
    BeforeLock (macMeaning count) ⟨h, .getMacList valid n⟩ (ncRxmacGetMacList h valid n) := by
  refine before_withinTable (fun l hl => if_pos hl) fun hn => .lock .refused ?_
  rintro ⟨l, ph⟩ ⟨hl, rfl⟩
  replace hl : l.length = count.toNat := hl
  have hspec : (TableOp.getMacList valid n).apply l = (l, ⟨n.toInt, (l.take n.toNat).map (·.shown valid)⟩) := by
    rw [TableOp.apply, if_neg (by omega), toInt_of_small (by omega)]
  show UnderLock _ _ _ (l, true) (((TableOp.getMacList valid n).apply l).1, true) ((TableOp.getMacList valid n).apply l).2
  rw [hspec, if_pos rfl]
  refine under_withMacOff fun ph k hk => ?_
  exact under_readEntries n.toNat 0 [] (by omega) hk

theorem before_setMacList (count : U32) (hcount : count.toNat < 32) (h : Nat) (list : Nat → U64 × Bool) (n : U32) :
    BeforeLock (macMeaning count) ⟨h, .setMacList list n⟩ (ncRxmacSetMacList h list n) := by
  refine before_withinTable (fun l hl => if_pos hl) fun hn => .lock .refused ?_
  rintro ⟨l, ph⟩ ⟨hl, rfl⟩
  replace hl : l.length = count.toNat := hl
  have hspec : (TableOp.setMacList list n).apply l =
      ((List.range n.toNat).map (listEntry list) ++ l.drop n.toNat, ⟨n.toInt, []⟩) := by
    rw [TableOp.apply, if_neg (by omega), toInt_of_small (by omega)]
  show UnderLock _ _ _ (l, true) (((TableOp.setMacList list n).apply l).1, true) ((TableOp.setMacList list n).apply l).2
  rw [hspec, if_pos rfl]
  refine under_withMacOff fun ph k hk => ?_
  have hbit : ∀ i, (TableOp.setMacList list n).BitClear i → (list i).2 = true ∨ (list i).1.getLsbD 48 = false :=
    fun _ h => h
  refine under_setEntries hcount hbit n.toNat 0 l hl (by omega) ?_
  rw [List.take_zero, List.nil_append, Nat.zero_add, ← List.range_eq_range']
  exact hk

theorem apply_length (op : TableOp) (l : List MacEntry) : (op.apply l).1.length = l.length := by
  cases op with
  | setMac index addr valid => exact placeMac_length ..
  | getMacList valid n =>
    rw [TableOp.apply]
    split
    · rfl
    · rfl
  | setMacList list n =>
    rw [TableOp.apply]
    split
    · rfl
    · rw [List.length_append, List.length_map, List.length_range, List.length_drop]
      omega

theorem apply_failed (op : TableOp) (l : List MacEntry) (h : (op.apply l).2.ret < 0) : (op.apply l).1 = l := by
  cases op with
  | setMac index addr valid =>
    replace h : (placeMac index (addr.setWidth 48, valid) l).2 < 0 := h
    show (placeMac index _ l).1 = l
    rw [placeMac] at h ⊢
    split at h <;> rename_i hbig
    · rw [if_pos hbig]
    · rw [if_neg hbig]
      split at h <;> rename_i hneg
      · rw [if_pos hneg]
        split at h
        · rfl
        · rename_i i _
          exact absurd h (by show ¬(i : Int) < 0; omega)
      · exact absurd h hneg
  | getMacList valid n =>
    rw [TableOp.apply]
    split
    · rfl
    · rfl
  | setMacList list n =>
    rw [TableOp.apply] at h ⊢
    split at h
    · rename_i hlong
      rw [if_pos hlong]
    · exact absurd h (by show ¬(n.toNat : Int) < 0; omega)

theorem macMeaning_sound (count : U32) (hcount : count.toNat < 32) : (macMeaning count).Sound where
  outside e d m hm := by
    cases e with
    | request on => exact ⟨hm.1, hm.2.1, hm.2.2.1, fun _ => rfl⟩
    | status v =>
      show (macMeaning count).rel d (if countOf v = countOf m.status then { m with status := v } else m)
      by_cases hv : countOf v = countOf m.status
      · rw [if_pos hv]
        refine ⟨hv.trans hm.1, hm.2.1, ?_, hm.2.2.2⟩
        have htable := hm.2.2.1
        rw [RxMac.table] at htable ⊢
        rw [hv]
        exact htable
      · rw [if_neg hv]
        exact hm
  spec_shape c d hd := ⟨(apply_length c.op d.1).trans hd.1, hd.2⟩
  ready c := by
    obtain ⟨h, op⟩ := c
    cases op with
    | setMac index addr valid => exact before_setMac count hcount h index addr valid
    | getMacList valid n => exact before_getMacList count hcount h valid n
    | setMacList list n => exact before_setMacList count hcount h list n

/-! ## Every run -/

/-- A state of the MAC and all clients. -/
abbrev MacState := CallState RxMac MacLoc MacLoc.Val TableCall TableRet Nat

/-- The table after the calls of the log, in the order of the lock. -/
abbrev TableInTurn : List MacEntry → List (TableCall × TableRet) → List MacEntry → Prop :=
  InTurn (fun c l => c.op.apply l) ⟨eAgain, []⟩

/-- Every step of a run writes only what does no harm. -/
abbrev CleanRun (m : RxMac) (acts : List (CallAct TableCall MacEvent Nat)) : Prop :=
  Ring.MeetsM (callStep rxMacCalls) (macMeaning (countOf m.status)).Allows (CallState.init m : MacState) acts

theorem tableInTurn_of {count : U32} {d : List MacEntry × Bool} : ∀ {log : List (TableCall × TableRet)} {l : List MacEntry},
    InTurn (macMeaning count).spec (macMeaning count).refused (l, true) log d → TableInTurn l log d.1
  | [], _, h => congrArg Prod.fst h
  | _ :: _, _, .inl ⟨ha, h⟩ => .inl ⟨ha, tableInTurn_of h⟩
  | _ :: _, _, .inr ⟨ha, h⟩ => .inr ⟨ha, tableInTurn_of h⟩

/-- Whenever all calls have ended, ENABLE has the value asked for last, and the table is that of the calls one after the
other, each with the result it is to have; if every write of a run did no harm. -/
theorem rxmac_in_turn (enable status : U32) (mac : Nat → U64) {acts acts' : List (CallAct TableCall MacEvent Nat)}
    (hp : acts' <+: acts) (hclean : CleanRun (.fresh enable status mac) acts) {s : MacState}
    (hrun : Ring.runM (callStep rxMacCalls) (CallState.init (.fresh enable status mac)) acts' = some s)
    (hend : ∀ t, s.running t = none) :
    s.mem.enable = s.mem.wanted ∧ TableInTurn (RxMac.fresh enable status mac).table s.log s.mem.table := by
  have hsound := macMeaning_sound (countOf status) (countOf_lt status)
  have hrel : (macMeaning (countOf status)).rel ((RxMac.fresh enable status mac).table, true) (.fresh enable status mac) :=
    ⟨rfl, nofun, rfl, fun _ => rfl⟩
  obtain ⟨d, hshape, ⟨_, _, htable, henable⟩, hlog⟩ :=
    run_serial hsound ⟨RxMac.table_length _, rfl⟩ hrel hp hclean hrun hend
  refine ⟨henable hshape.2, ?_⟩
  rw [htable]
  exact tableInTurn_of hlog

/-! ## A request in between -/

def oneEntry : RxMac := .fresh 1 0x00800000 fun _ => 0

/-- A client writes an address; before the write of the entry, another one disables the MAC. -/
def disableInside : List (CallAct TableCall MacEvent Nat) :=
  [.call 0 ⟨0, .setMac 0 5 true⟩, .step 0, .step 0, .step 0, .step 0, .step 0, .step 0, .outside (.request false),
    .step 0, .step 0, .step 0]

/-- The same without the request to disable, and then a call that reads the table. -/
def noRequestInside : List (CallAct TableCall MacEvent Nat) :=
  [.call 0 ⟨0, .setMac 0 5 true⟩, .step 0, .step 0, .step 0, .step 0, .step 0, .step 0, .outside (.request true), .step 0,
    .step 0, .step 0, .outside (.request false), .call 1 ⟨0, .getMacList true 1⟩, .step 1, .step 1, .step 1, .step 1, .step 1]

theorem rxmac_set_and_get :
    ∃ s : MacState, Ring.runM (callStep rxMacCalls) (CallState.init oneEntry) noRequestInside = some s ∧
      s.mem.enable = s.mem.wanted ∧ TableInTurn oneEntry.table s.log s.mem.table := by
  refine ⟨_, rfl, rxmac_in_turn 1 0x00800000 (fun _ => 0) (List.prefix_refl noRequestInside) ?_ rfl ?_⟩
  · decide
  · rintro (_ | _ | t)
    · rfl
    · rfl
    · rfl

/-- The MAC is on although the last request was to disable it. -/
theorem disable_is_lost :
    ¬ ∀ (enable status : U32) (mac : Nat → U64) (acts : List (CallAct TableCall MacEvent Nat)) (s : MacState),
      Ring.runM (callStep rxMacCalls) (CallState.init (.fresh enable status mac)) acts = some s →
      (∀ t, s.running t = none) →
      s.mem.enable = s.mem.wanted ∧ TableInTurn (RxMac.fresh enable status mac).table s.log s.mem.table := by
  intro h
  have hrun := h 1 0x00800000 (fun _ => 0) disableInside _ rfl (by rintro (_ | t) <;> rfl)
  exact absurd hrun.1 (by decide)

end NdkSw.Net

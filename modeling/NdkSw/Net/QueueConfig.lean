/-
The queues of a network interface (`net/sysfs.c` and `nfb_net_queues_init` of `net/device.c`): their counts and offsets, as they are set
up and as the attributes in sysfs change them.
-/
import NdkSw.Ndp.Channel
import NdkSw.Ring.Run
import NdkSw.Shared.Words

namespace NdkSw.Net

open Ndp Ring

/-! ## Setters -/

/-- `rxqc` and `txqc` of `struct nfb_net`. -/
structure NetModule where
  rxqc : U32
  txqc : U32

/-- The range of queues in `struct nfb_net_device`. -/
structure QueueRange where
  rxqsCount : U32
  rxqsOffset : U32
  txqsCount : U32
  txqsOffset : U32

/-- The attributes. -/
inductive QueueAttr where
  | rxQueuesCount
  | rxQueuesOffset
  | txQueuesCount
  | txQueuesOffset
  deriving DecidableEq

/-- A write of an integer: how long its text is, and whether the interface runs. -/
structure AttrWrite where
  attr : QueueAttr
  value : Int
  size : Nat
  running : Bool

/-- `simple_strtoul` of the text of an integer; none if it stops at its start, as it does at a sign. -/
def simpleStrtoul (z : Int) : Option U64 := if z < 0 then none else some (BitVec.ofInt 64 z)

/-- `simple_strtol` of the text of an integer. -/
def simpleStrtol (z : Int) : Option U64 := some (BitVec.ofInt 64 z)

/-- `((val % count) + count) % count`. -/
def turn (count val : U32) : U32 := ((val % count) + count) % count

/-- A setter of a number that is not to be too large. -/
def setBounded (tooLarge : U32 → Bool) (put : U32 → QueueRange) (w : AttrWrite) (q : QueueRange) : QueueRange × Int :=
  match simpleStrtoul w.value with
  | none => (q, eInval)
  | some v =>
    let val := v.setWidth 32
    if tooLarge val then (q, eInval)
    else if w.running then (q, eBusy)
    else (put val, w.size)

/-- A setter of a number that is turned into the range. -/
def setTurned (count : U32) (put : U32 → QueueRange) (w : AttrWrite) (q : QueueRange) : QueueRange × Int :=
  match simpleStrtol w.value with
  | none => (q, eInval)
  | some v =>
    let val := v.setWidth 32
    if w.running then (q, eBusy) else (put (turn count val), w.size)

section

variable (m : NetModule) (w : AttrWrite) (q : QueueRange)

/-- `nfb_net_set_rxqs_count`. -/
def nfbNetSetRxqsCount : QueueRange × Int := setBounded (fun val => m.rxqc < val) (fun val => { q with rxqsCount := val }) w q

/-- `nfb_net_set_rxqs_offset`. -/
def nfbNetSetRxqsOffset : QueueRange × Int := setTurned m.rxqc (fun val => { q with rxqsOffset := val }) w q

/-- `nfb_net_set_txqs_count`: it sets the offset. -/
def nfbNetSetTxqsCount : QueueRange × Int := setTurned m.txqc (fun val => { q with txqsOffset := val }) w q

/-- `nfb_net_set_txqs_offset`. -/
def nfbNetSetTxqsOffset : QueueRange × Int := setBounded (fun val => m.txqc ≤ val) (fun val => { q with txqsOffset := val }) w q

/-- A write to an attribute. -/
def store : QueueRange × Int :=
  match w.attr with
  | .rxQueuesCount => nfbNetSetRxqsCount m w q
  | .rxQueuesOffset => nfbNetSetRxqsOffset m w q
  | .txQueuesCount => nfbNetSetTxqsCount m w q
  | .txQueuesOffset => nfbNetSetTxqsOffset m w q

end

/-- The parameters of the module. -/
structure NetParams where
  netRxqsCount : U32
  netTxqsCount : U32
  netRxqsOffset : U32
  netTxqsOffset : U32

/-- The numbers that `nfb_net_queues_init` sets. -/
def nfbNetQueuesInit (m : NetModule) (p : NetParams) : QueueRange where
  rxqsCount := if p.netRxqsCount < m.rxqc then p.netRxqsCount else m.rxqc
  txqsCount := if p.netTxqsCount < m.txqc then p.netTxqsCount else m.txqc
  rxqsOffset := turn m.rxqc p.netRxqsOffset
  txqsOffset := turn m.txqc p.netTxqsOffset

/-! ## What a write is for -/

/-- The field of an attribute. -/
def QueueAttr.get (q : QueueRange) : QueueAttr → U32
  | rxQueuesCount => q.rxqsCount
  | rxQueuesOffset => q.rxqsOffset
  | txQueuesCount => q.txqsCount
  | txQueuesOffset => q.txqsOffset

/-- The queues there are. -/
def QueueAttr.available (m : NetModule) : QueueAttr → U32
  | rxQueuesCount => m.rxqc
  | rxQueuesOffset => m.rxqc
  | txQueuesCount => m.txqc
  | txQueuesOffset => m.txqc

def QueueAttr.isCount : QueueAttr → Bool
  | rxQueuesCount => true
  | rxQueuesOffset => false
  | txQueuesCount => true
  | txQueuesOffset => false

/-- A write changes its own field, to the written count or the residue of the written offset, or it is refused and changes nothing. -/
structure StoreRight (m : NetModule) (q : QueueRange) (w : AttrWrite) : Prop where
  own : ∀ a, a ≠ w.attr → a.get (store m w q).1 = a.get q
  refused : (store m w q).2 < 0 → (store m w q).1 = q
  count : 0 ≤ (store m w q).2 → w.attr.isCount = true →
    ((w.attr.get (store m w q).1).toNat : Int) = w.value ∧ (w.attr.get (store m w q).1) ≤ w.attr.available m
  offset : 0 ≤ (store m w q).2 → w.attr.isCount = false →
    ((w.attr.get (store m w q).1).toNat : Int) = w.value % (w.attr.available m).toNat

/-- A negative default is turned into its residue. -/
def InitRight (m : NetModule) (p : NetParams) : Prop :=
  (p.netRxqsOffset.toInt < 0 → ((nfbNetQueuesInit m p).rxqsOffset.toNat : Int) = p.netRxqsOffset.toInt % m.rxqc.toNat) ∧
    (p.netTxqsOffset.toInt < 0 → ((nfbNetQueuesInit m p).txqsOffset.toNat : Int) = p.netTxqsOffset.toInt % m.txqc.toNat)

/-! ## The residue -/

/-- Whether the sum in the code passes the end of the 32 bits. -/
def carry (count : U32) (z : Int) : Int := if 2 ^ 32 ≤ z % 2 ^ 32 % count.toNat + count.toNat then 1 else 0

/-- The residue of a number is not changed by taking it for one of 32 bits. -/
def Keeps (count : U32) (z : Int) : Prop := (count.toNat : Int) ∣ 2 ^ 32 * (z / 2 ^ 32 + carry count z)

theorem toNat_ofInt (z : Int) : ((BitVec.ofInt 32 z).toNat : Int) = z % 2 ^ 32 := by
  rw [BitVec.toNat_ofInt]
  omega

theorem turn_eq_iff {count : U32} (hpos : 0 < count) (z : Int) :
    ((turn count (BitVec.ofInt 32 z)).toNat : Int) = z % count.toNat ↔ Keeps count z := by
  have hcount : (0 : Int) < count.toNat := by
    have := BitVec.lt_def.1 hpos
    simpa using this
  have hlt : (count.toNat : Int) < 2 ^ 32 := by exact_mod_cast count.isLt
  have hrem := Int.emod_lt_of_pos (z % 2 ^ 32) hcount
  have hrem₀ := Int.emod_nonneg (z % 2 ^ 32) hcount.ne'
  -- the sum of the code, over the integers
  have hsum : ((turn count (BitVec.ofInt 32 z)).toNat : Int) =
      (z % 2 ^ 32 % count.toNat + count.toNat - 2 ^ 32 * carry count z) % count.toNat := by
    have hwrap : (z % 2 ^ 32 % count.toNat + count.toNat) % 2 ^ 32 =
        z % 2 ^ 32 % count.toNat + count.toNat - 2 ^ 32 * carry count z := by
      unfold carry
      split <;> omega
    rw [turn, BitVec.toNat_umod, BitVec.toNat_add, BitVec.toNat_umod, Int.natCast_mod, Int.natCast_mod, Int.natCast_add,
      Int.natCast_mod, toNat_ofInt]
    exact congrArg (fun s => s % (count.toNat : Int)) hwrap
  have hz := Int.mul_ediv_add_emod z (2 ^ 32)
  have hr := Int.mul_ediv_add_emod (z % 2 ^ 32) count.toNat
  rw [hsum, Keeps, eq_comm, Int.emod_eq_emod_iff_emod_sub_eq_zero, ← Int.dvd_iff_emod_eq_zero]
  have hsplit : z - (z % 2 ^ 32 % count.toNat + count.toNat - 2 ^ 32 * carry count z) =
      2 ^ 32 * (z / 2 ^ 32 + carry count z) + count.toNat * (z % 2 ^ 32 / count.toNat - 1) := by
    linarith
  rw [hsplit]
  exact (Int.dvd_add_left (Dvd.intro _ rfl))

/-! ## One write -/

section

variable {m : NetModule} {q : QueueRange} {w : AttrWrite}

theorem setWidth_ofInt (z : Int) : (BitVec.ofInt 64 z).setWidth 32 = BitVec.ofInt 32 z := by
  apply BitVec.eq_of_toNat_eq
  rw [BitVec.toNat_setWidth]
  have h32 := toNat_ofInt z
  have h64 : ((BitVec.ofInt 64 z).toNat : Int) = z % 2 ^ 64 := by
    rw [BitVec.toNat_ofInt]
    omega
  omega

theorem setTurned_eq (count : U32) (put : U32 → QueueRange) (w : AttrWrite) (q : QueueRange) :
    setTurned count put w q = if w.running then (q, eBusy) else (put (turn count (BitVec.ofInt 32 w.value)), (w.size : Int)) := by
  rw [setTurned, simpleStrtol]
  dsimp only
  rw [setWidth_ofInt]

theorem setBounded_eq (tooLarge : U32 → Bool) (put : U32 → QueueRange) (w : AttrWrite) (q : QueueRange) :
    setBounded tooLarge put w q =
      if w.value < 0 ∨ tooLarge (BitVec.ofInt 32 w.value) = true then (q, eInval)
      else if w.running then (q, eBusy) else (put (BitVec.ofInt 32 w.value), (w.size : Int)) := by
  rw [setBounded, simpleStrtoul]
  by_cases hneg : w.value < 0
  · rw [if_pos hneg, if_pos (.inl hneg)]
  · rw [if_neg hneg]
    dsimp only
    rw [setWidth_ofInt]
    by_cases hlarge : tooLarge (BitVec.ofInt 32 w.value) = true
    · rw [if_pos hlarge, if_pos (.inr hlarge)]
    · rw [if_neg hlarge, if_neg (not_or.2 ⟨hneg, hlarge⟩)]

/-- When a write does what it is for. -/
def StoreFits (m : NetModule) (q : QueueRange) (w : AttrWrite) : Prop :=
  w.running = true ∨
    match w.attr with
    | .rxQueuesCount => w.value < 2 ^ 32 ∨ m.rxqc < BitVec.ofInt 32 w.value
    | .rxQueuesOffset => Keeps m.rxqc w.value
    | .txQueuesCount =>
      (q.txqsCount.toNat : Int) = w.value ∧ q.txqsCount ≤ m.txqc ∧ q.txqsOffset = turn m.txqc (BitVec.ofInt 32 w.value)
    | .txQueuesOffset => w.value < 0 ∨ m.txqc ≤ BitVec.ofInt 32 w.value ∨ (m.txqc.toNat : Int) ∣ 2 ^ 32 * (w.value / 2 ^ 32)

theorem storeRight_of_refused {e : Int} (he : e < 0) (h : store m w q = (q, e)) : StoreRight m q w := by
  constructor
  case own =>
    intro a _
    rw [h]
  case refused =>
    intro _
    rw [h]
  case count =>
    intro hret
    rw [h] at hret
    exact absurd he (Int.not_lt.2 hret)
  case offset =>
    intro hret
    rw [h] at hret
    exact absurd he (Int.not_lt.2 hret)

theorem storeRight_of_running (h : w.running = true) : StoreRight m q w := by
  have hturned : ∀ (count : U32) (put : U32 → QueueRange), setTurned count put w q = (q, eBusy) := by
    intro count put
    rw [setTurned_eq, if_pos h]
  have hbounded : ∀ (tooLarge : U32 → Bool) (put : U32 → QueueRange),
      setBounded tooLarge put w q = (q, eInval) ∨ setBounded tooLarge put w q = (q, eBusy) := by
    intro tooLarge put
    rw [setBounded_eq, if_pos h]
    split
    · exact .inl rfl
    · exact .inr rfl
  have hstore : store m w q = (q, eInval) ∨ store m w q = (q, eBusy) := by
    unfold store
    cases w.attr with
    | rxQueuesCount => exact hbounded _ _
    | rxQueuesOffset => exact .inr (hturned _ _)
    | txQueuesCount => exact .inr (hturned _ _)
    | txQueuesOffset => exact hbounded _ _
  rcases hstore with h | h
  · exact storeRight_of_refused (by decide) h
  · exact storeRight_of_refused (by decide) h

theorem storeRight_of_accepted {q' : QueueRange} {n : Nat} (h : store m w q = (q', (n : Int))) :
    StoreRight m q w ↔ (∀ a, a ≠ w.attr → a.get q' = a.get q) ∧
      (w.attr.isCount = true → ((w.attr.get q').toNat : Int) = w.value ∧ w.attr.get q' ≤ w.attr.available m) ∧
      (w.attr.isCount = false → ((w.attr.get q').toNat : Int) = w.value % (w.attr.available m).toNat) := by
  have hret : 0 ≤ (store m w q).2 := by
    rw [h]
    exact Int.natCast_nonneg n
  constructor
  · intro hr
    have hown := hr.own
    have hcount := hr.count hret
    have hoffset := hr.offset hret
    rw [h] at hown hcount hoffset
    exact ⟨hown, hcount, hoffset⟩
  · rintro ⟨hown, hcount, hoffset⟩
    refine ⟨?_, fun hneg => absurd hneg (Int.not_lt.2 hret), fun _ => ?_, fun _ => ?_⟩
    · rw [h]
      exact hown
    · rw [h]
      exact hcount
    · rw [h]
      exact hoffset

theorem toNat_ofInt_iff {z : Int} (hz : 0 ≤ z) : ((BitVec.ofInt 32 z).toNat : Int) = z ↔ z < 2 ^ 32 := by
  rw [toNat_ofInt]
  omega

theorem rxqsCount_right_iff (hattr : w.attr = .rxQueuesCount) (hrun : w.running = false) :
    StoreRight m q w ↔ w.value < 2 ^ 32 ∨ m.rxqc < BitVec.ofInt 32 w.value := by
  have hstore : store m w q =
      if w.value < 0 ∨ decide (m.rxqc < BitVec.ofInt 32 w.value) = true then (q, eInval)
      else ({ q with rxqsCount := BitVec.ofInt 32 w.value }, (w.size : Int)) := by
    unfold store
    rw [hattr]
    dsimp only
    rw [nfbNetSetRxqsCount, setBounded_eq, hrun, if_neg Bool.false_ne_true]
  by_cases href : w.value < 0 ∨ decide (m.rxqc < BitVec.ofInt 32 w.value) = true
  · rw [if_pos href] at hstore
    refine iff_of_true (storeRight_of_refused (by decide) hstore) ?_
    rcases href with hneg | hlarge
    · exact .inl (lt_trans hneg (by decide))
    · exact .inr (of_decide_eq_true hlarge)
  · rw [if_neg href] at hstore
    obtain ⟨hpos, hle⟩ := not_or.1 href
    have hle : ¬m.rxqc < BitVec.ofInt 32 w.value := fun hlt => hle (decide_eq_true hlt)
    rw [storeRight_of_accepted hstore, hattr, or_iff_left hle, ← toNat_ofInt_iff (Int.not_lt.1 hpos)]
    constructor
    · rintro ⟨-, hcount, -⟩
      exact (hcount rfl).1
    · intro hval
      refine ⟨fun a ha => ?_, fun _ => ⟨hval, BitVec.not_lt.1 hle⟩, fun hno => nomatch hno⟩
      cases a with
      | rxQueuesCount => exact absurd rfl ha
      | rxQueuesOffset => rfl
      | txQueuesCount => rfl
      | txQueuesOffset => rfl

theorem rxqsOffset_right_iff (hpos : 0 < m.rxqc) (hattr : w.attr = .rxQueuesOffset) (hrun : w.running = false) :
    StoreRight m q w ↔ Keeps m.rxqc w.value := by
  have hstore : store m w q = ({ q with rxqsOffset := turn m.rxqc (BitVec.ofInt 32 w.value) }, (w.size : Int)) := by
    unfold store
    rw [hattr]
    dsimp only
    rw [nfbNetSetRxqsOffset, setTurned_eq, hrun, if_neg Bool.false_ne_true]
  rw [storeRight_of_accepted hstore, hattr, ← turn_eq_iff hpos]
  constructor
  · rintro ⟨-, -, hoffset⟩
    exact hoffset rfl
  · intro hval
    refine ⟨fun a ha => ?_, fun hno => absurd hno Bool.false_ne_true, fun _ => hval⟩
    cases a with
    | rxQueuesCount => rfl
    | rxQueuesOffset => exact absurd rfl ha
    | txQueuesCount => rfl
    | txQueuesOffset => rfl

theorem txqsCount_right_iff (hattr : w.attr = .txQueuesCount) (hrun : w.running = false) :
    StoreRight m q w ↔
      (q.txqsCount.toNat : Int) = w.value ∧ q.txqsCount ≤ m.txqc ∧ q.txqsOffset = turn m.txqc (BitVec.ofInt 32 w.value) := by
  have hstore : store m w q = ({ q with txqsOffset := turn m.txqc (BitVec.ofInt 32 w.value) }, (w.size : Int)) := by
    unfold store
    rw [hattr]
    dsimp only
    rw [nfbNetSetTxqsCount, setTurned_eq, hrun, if_neg Bool.false_ne_true]
  rw [storeRight_of_accepted hstore, hattr]
  constructor
  · rintro ⟨hown, hcount, -⟩
    obtain ⟨hval, hle⟩ := hcount rfl
    exact ⟨hval, hle, (hown .txQueuesOffset (by decide)).symm⟩
  · rintro ⟨hval, hle, hoffset⟩
    refine ⟨fun a ha => ?_, fun _ => ⟨hval, hle⟩, fun hno => nomatch hno⟩
    cases a with
    | rxQueuesCount => rfl
    | rxQueuesOffset => rfl
    | txQueuesCount => rfl
    | txQueuesOffset => exact hoffset.symm

/-- An offset of TX queues. -/
theorem txqsOffset_right_iff (hattr : w.attr = .txQueuesOffset) (hrun : w.running = false) :
    StoreRight m q w ↔ w.value < 0 ∨ m.txqc ≤ BitVec.ofInt 32 w.value ∨ (m.txqc.toNat : Int) ∣ 2 ^ 32 * (w.value / 2 ^ 32) := by
  have hstore : store m w q =
      if w.value < 0 ∨ decide (m.txqc ≤ BitVec.ofInt 32 w.value) = true then (q, eInval)
      else ({ q with txqsOffset := BitVec.ofInt 32 w.value }, (w.size : Int)) := by
    unfold store
    rw [hattr]
    dsimp only
    rw [nfbNetSetTxqsOffset, setBounded_eq, hrun, if_neg Bool.false_ne_true]
  by_cases href : w.value < 0 ∨ decide (m.txqc ≤ BitVec.ofInt 32 w.value) = true
  · rw [if_pos href] at hstore
    refine iff_of_true (storeRight_of_refused (by decide) hstore) ?_
    rcases href with hneg | hlarge
    · exact .inl hneg
    · exact .inr (.inl (of_decide_eq_true hlarge))
  · rw [if_neg href] at hstore
    obtain ⟨hpos, hlarge⟩ := not_or.1 href
    have hlt : BitVec.ofInt 32 w.value < m.txqc := BitVec.not_le.1 fun hle => hlarge (decide_eq_true hle)
    -- the number is its own residue below the count
    have hnat : w.value % 2 ^ 32 < m.txqc.toNat := by
      rw [← toNat_ofInt]
      exact_mod_cast BitVec.lt_def.1 hlt
    have hrem := Int.emod_nonneg w.value (by decide : (2 ^ 32 : Int) ≠ 0)
    have hz := Int.mul_ediv_add_emod w.value (2 ^ 32)
    have hval : ((BitVec.ofInt 32 w.value).toNat : Int) = w.value % m.txqc.toNat ↔
        (m.txqc.toNat : Int) ∣ 2 ^ 32 * (w.value / 2 ^ 32) := by
      rw [toNat_ofInt, ← Int.emod_eq_of_lt hrem hnat, eq_comm, Int.emod_eq_emod_iff_emod_sub_eq_zero, ← Int.dvd_iff_emod_eq_zero,
        show w.value - w.value % 2 ^ 32 = 2 ^ 32 * (w.value / 2 ^ 32) by linarith]
    rw [storeRight_of_accepted hstore, hattr, or_iff_right hpos, or_iff_right (BitVec.not_le.2 hlt), ← hval]
    constructor
    · rintro ⟨-, -, hoffset⟩
      exact hoffset rfl
    · intro hres
      refine ⟨fun a ha => ?_, fun hno => absurd hno Bool.false_ne_true, fun _ => hres⟩
      cases a with
      | rxQueuesCount => rfl
      | rxQueuesOffset => rfl
      | txQueuesCount => rfl
      | txQueuesOffset => exact absurd rfl ha

theorem storeRight_iff (hrx : 0 < m.rxqc) : StoreRight m q w ↔ StoreFits m q w := by
  cases hrun : w.running with
  | true => exact iff_of_true (storeRight_of_running hrun) (.inl hrun)
  | false =>
    rw [StoreFits, hrun, or_iff_right Bool.false_ne_true]
    cases hattr : w.attr with
    | rxQueuesCount => exact rxqsCount_right_iff hattr hrun
    | rxQueuesOffset => exact rxqsOffset_right_iff hrx hattr hrun
    | txQueuesCount => exact txqsCount_right_iff hattr hrun
    | txQueuesOffset => exact txqsOffset_right_iff hattr hrun

end

/-! ## Runs -/

def storeStep (m : NetModule) (q : QueueRange) (w : AttrWrite) : QueueRange := (store m w q).1

/-- When the defaults are turned into their residues. -/
def InitFits (m : NetModule) (p : NetParams) : Prop :=
  (p.netRxqsOffset.toInt < 0 → Keeps m.rxqc p.netRxqsOffset.toInt) ∧
    (p.netTxqsOffset.toInt < 0 → Keeps m.txqc p.netTxqsOffset.toInt)

theorem initRight_iff {m : NetModule} (hrx : 0 < m.rxqc) (htx : 0 < m.txqc) (p : NetParams) : InitRight m p ↔ InitFits m p := by
  have hturn : ∀ {count : U32} (x : U32), 0 < count →
      (((turn count x).toNat : Int) = x.toInt % count.toNat ↔ Keeps count x.toInt) := by
    intro count x hpos
    rw [← turn_eq_iff hpos, BitVec.ofInt_toInt]
  rw [InitRight, InitFits]
  exact and_congr (imp_congr_right fun _ => hturn _ hrx) (imp_congr_right fun _ => hturn _ htx)

/-- After the defaults, and behind each write of a run, the range of queues is right exactly if each number fits. -/
theorem queue_range_right_iff {m : NetModule} (hrx : 0 < m.rxqc) (htx : 0 < m.txqc) (p : NetParams) (ws : List AttrWrite) :
    (InitRight m p ∧ Meets (storeStep m) (StoreRight m) (nfbNetQueuesInit m p) ws) ↔
      InitFits m p ∧ Meets (storeStep m) (StoreFits m) (nfbNetQueuesInit m p) ws := by
  rw [initRight_iff hrx htx]
  have hmeets : Meets (storeStep m) (StoreRight m) (nfbNetQueuesInit m p) ws ↔
      Meets (storeStep m) (StoreFits m) (nfbNetQueuesInit m p) ws :=
    meets_iff (I := fun _ => True) (fun _ _ _ => storeRight_iff hrx) (fun _ _ _ h => h) ws _ trivial
  rw [hmeets]

/-- Four queues of each direction: a run of writes that fit. -/
theorem four_queues_right :
    (InitRight ⟨4, 4⟩ ⟨2, 2, -1, -1⟩ ∧
      Meets (storeStep ⟨4, 4⟩) (StoreRight ⟨4, 4⟩) (nfbNetQueuesInit ⟨4, 4⟩ ⟨2, 2, -1, -1⟩)
        [⟨.rxQueuesCount, 4, 2, false⟩, ⟨.rxQueuesOffset, -3, 3, false⟩, ⟨.txQueuesOffset, 9, 2, false⟩]) := by
  refine (queue_range_right_iff (by decide) (by decide) _ _).2 ⟨⟨fun _ => ?_, fun _ => ?_⟩, ?_, ?_, ?_, trivial⟩
  · exact ⟨-2 ^ 30, by decide +kernel⟩
  · exact ⟨-2 ^ 30, by decide +kernel⟩
  · exact Or.inr (Or.inl (by decide))
  · exact Or.inr ⟨-2 ^ 30, by decide +kernel⟩
  · exact Or.inr (Or.inr (Or.inl (by decide)))

/-- Three queues: the offset -1 is turned into 0, and a written count of TX queues is taken for the offset. -/
theorem three_queues_wrong :
    (turn 3 (BitVec.ofInt 32 (-1)) = 0 ∧ ¬InitRight ⟨3, 3⟩ ⟨3, 3, -1, 0⟩) ∧
      ¬StoreRight ⟨3, 3⟩ (nfbNetQueuesInit ⟨3, 3⟩ ⟨3, 3, 0, 0⟩) ⟨.txQueuesCount, 2, 2, false⟩ := by
  refine ⟨⟨by decide, fun h => ?_⟩, fun h => ?_⟩
  · exact absurd (h.1 (by decide)) (by decide)
  · exact absurd (h.own .txQueuesOffset (by decide)) (by decide)

end NdkSw.Net

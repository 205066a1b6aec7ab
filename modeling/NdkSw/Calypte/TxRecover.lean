/-
A protocol 3 TX queue that syncs through the driver, in every run of its library calls and of the calls of others on its channel,
started or not: which locks leave `shp` and the header pointer inside the window they were granted.
-/
import NdkSw.Calypte.TxUspace
import NdkSw.Ndp.TxRecoverV2

namespace NdkSw.Calypte

open Ndp Ndp.TxRecover Ring

variable {k : Nat}

/-! ## The system -/

/-- The channel, and for each sync to come what others do before it and what the hardware shows then. -/
structure DriverWorld where
  ch : Channel RingCtrl
  script : List (List (Nat × DriverCall) × RingShown)

/-- Nothing happens. -/
def shownQuiet : RingShown := ⟨0, 0, 0, 0⟩

/-- The channel as the next sync finds it. -/
def DriverWorld.meanwhile (w : DriverWorld) (i : Nat) : Channel RingCtrl :=
  match w.script with
  | [] => w.ch
  | (others, _) :: _ => run (other i) w.ch others

def DriverWorld.shown (w : DriverWorld) : RingShown :=
  match w.script with
  | [] => shownQuiet
  | (_, e) :: _ => e

/-- `_ndp_queue_sync` of subscription `i`. -/
def driverSyncCall (i : Nat) : SyncCall DriverWorld := fun _ t q =>
  match ndpSubscriptionSync ringOps .tx t.w.shown (t.w.meanwhile i) i q.sync with
  | (ch, sync, ret) => ({ t with w := { ch, script := t.w.script.tail } }, { q with sync }, ret)

structure V3Recover where
  t : TxWorld DriverWorld
  q : QueueV3Tx

/-- A put asks for space at most `fuel` times. -/
inductive V3RecoverAct
  | start (e : RingShown)
  | stop (e₁ e₂ : RingShown) (force : Bool)
  | get (script : List (List (Nat × DriverCall) × RingShown)) (packets : Nat → NdpPacket) (count : U32)
  | put (script : List (List (Nat × DriverCall) × RingShown)) (fuel : Nat)
  | flush (script : List (List (Nat × DriverCall) × RingShown)) (fuel : Nat)
  | other (a : Nat × DriverCall)

namespace V3Recover

/-- A freshly opened queue on a channel with `2 ^ k` headers; `q` has the rest of its members. The header buffer is twice as long. -/
def opened (k : Nat) (mem : Nat → V3PacketHdr) (q : QueueV3Tx) : V3Recover where
  t := { items := 2 ^ (k + 1), mem, sent := [], w := { ch := TxRecover.opened k, script := [] } }
  q := { q with
    userspace := false
    sync := { size := 0, hwptr := 0, swptr := 0 }
    pktsAvailable := 0
    pktsToSend := 0
    sdp := 0
    shp := 0
    hdrPtrMask := BitVec.ofNat 32 (2 ^ k - 1)
    hdrs := 0 }

def withScript (s : V3Recover) (script : List (List (Nat × DriverCall) × RingShown)) : TxWorld DriverWorld :=
  { s.t with w := { s.t.w with script } }

def withChan (s : V3Recover) (ch : Channel RingCtrl) : V3Recover := { s with t := { s.t with w := { s.t.w with ch } } }

/-- A call of subscription `i`, whether it runs or not, or of somebody else; `none` stands for a put that does not end. -/
def step (i : Nat) (s : V3Recover) : V3RecoverAct → Option V3Recover
  | .start e =>
    match ndpSubscriptionStart ringOps .tx e s.t.w.ch i s.q.sync with
    | (ch, sync, _) => some { s.withChan ch with q := { s.q with sync } }
  | .stop e₁ e₂ force => some (s.withChan (ndpSubscriptionStop ringOps e₁ e₂ s.t.w.ch i force).1)
  | .get script packets count =>
    match ncNdpV3TxBurstGet (driverSyncCall i) (s.withScript script) s.q packets count with
    | (t, q, _) => some { t, q }
  | .put script fuel =>
    (ncNdpV3TxBurstPut (driverSyncCall i) fuel (s.withScript script) s.q).map fun (t, q, _) => { t, q }
  | .flush script fuel =>
    (ncNdpV3TxBurstFlush (driverSyncCall i) fuel (s.withScript script) s.q).map fun (t, q, _) => { t, q }
  | .other a => some (s.withChan (other i s.t.w.ch a))

end V3Recover

/-- `shp` is in the window of the last sync, and the header pointer at its item. -/
def QueueV3Tx.Recovered (q : QueueV3Tx) (items : Nat) : Prop :=
  InWindow (q.hdrPtrMask.setWidth 64) q.sync q.shp ∧ shadowSlot items q.hdrs = q.shp.toNat % items

instance (q : QueueV3Tx) (items : Nat) : Decidable (q.Recovered items) := inferInstanceAs (Decidable (_ ∧ _))

namespace V3Recover

/-- The call makes a lock, and the lock succeeds. -/
def Locks (i : Nat) (s : V3Recover) : V3RecoverAct → Prop
  | .get _ _ count => ¬(s.q.pktsToSend ≠ 0 ∨ s.q.txPktsCnt < count.setWidth 64) ∧ s.q.pktsAvailable < count ∧
      (s.t.w.ch.sub i).status = .running
  | _ => False

/-- A lock that succeeds leaves the queue inside its window. -/
def LockRight (i : Nat) (s : V3Recover) : V3RecoverAct → Prop
  | .get script packets count => Locks i s (.get script packets count) →
      (ncNdpV3TxLock (driverSyncCall i) (s.withScript script) s.q).2.Recovered s.t.items
  | _ => True

/-- The condition on a lock that succeeds. -/
def LockOk (i : Nat) (s : V3Recover) : V3RecoverAct → Prop
  | .get script packets count => Locks i s (.get script packets count) →
      LockFits i ((s.withScript script).w.meanwhile i) (s.withScript script).w.shown s.q.sync s.q.shp
  | _ => True

instance (i : Nat) (s : V3Recover) (a : V3RecoverAct) : Decidable (LockOk i s a) := by
  cases a with
  | get script packets count => exact inferInstanceAs (Decidable (_ ∧ _ ∧ _ → _))
  | _ => exact isTrue trivial

instance (i : Nat) (s : V3Recover) (a : V3RecoverAct) : Decidable (LockRight i s a) := by
  cases a with
  | get script packets count => exact inferInstanceAs (Decidable (_ ∧ _ ∧ _ → _))
  | _ => exact isTrue trivial

/-! ## The queue -/

/-- What no call of the queue disturbs: the header pointer is at the item of `shp`. -/
structure QueueKept (k : Nat) (t : TxWorld DriverWorld) (q : QueueV3Tx) : Prop where
  k31 : k ≤ 31
  items : t.items = 2 ^ (k + 1)
  driver : q.userspace = false
  mask : IsMask q.hdrPtrMask k
  chan : TxRecover.ChanOk k t.w.ch
  hdr : Points (k + 1) q.hdrs q.shp

/-- As holder the queue has the window it knows of. -/
structure QueueOk (k i : Nat) (t : TxWorld DriverWorld) (q : QueueV3Tx) : Prop extends QueueKept k t q where
  held : t.w.ch.lockedSub = some i → Held t.w.ch q.sync q.shp q.pktsAvailable

section Queue

variable {i : Nat} {t t' : TxWorld DriverWorld} {q q' : QueueV3Tx} {ret : Int} {sync : SubscriptionSync}

theorem QueueKept.free (h : QueueKept k t q) (hno : t.w.ch.lockedSub ≠ some i) : QueueOk k i t q :=
  { h with held := fun hl => absurd hl hno }

theorem others_ok {ch : Channel RingCtrl} {pos avail : U32} (l : List (Nat × DriverCall)) (hok : TxRecover.ChanOk k ch)
    (hheld : ch.lockedSub = some i → Held ch sync pos avail) :
    TxRecover.ChanOk k (run (other i) ch l) ∧ ((run (other i) ch l).lockedSub = some i → Held (run (other i) ch l) sync pos avail) := by
  refine run_inv (I := fun ch => TxRecover.ChanOk k ch ∧ (ch.lockedSub = some i → Held ch sync pos avail)) (fun ch a h => ?_) l ch ⟨hok, hheld⟩
  obtain ⟨hok', hsame⟩ := h.1.other (i := i) a
  refine ⟨hok', fun hl => ?_⟩
  obtain ⟨hl, hsw, hctrl⟩ := hsame hl
  exact (h.2 hl).congr h.1 hok' hsw hctrl

theorem other_status (ch : Channel RingCtrl) (a : Nat × DriverCall) : ((other i ch a).sub i).status = (ch.sub i).status := by
  unfold other
  by_cases hj : a.1 = i
  · rw [if_pos hj]
  rw [if_neg hj]
  have hi : i ≠ a.1 := Ne.symm hj
  cases a.2 with
  | start e =>
    unfold driverCall
    dsimp only
    obtain ⟨ctrl, err, -, hs, -⟩ | ⟨ch₀, hch₀, -, hs⟩ := ndpSubscriptionStart_cases ringOps .tx e ch a.1 ⟨0, 0, 0⟩
    · rw [hs]
    · rw [hs]
      dsimp only
      rw [join_status, if_neg hi]
      rcases hch₀ with ⟨rfl, -⟩ | ⟨rfl, -⟩
      · rfl
      · rfl
  | stop e₁ e₂ force =>
    unfold driverCall
    dsimp only
    by_cases hr : (ch.sub a.1).status = .running
    · have hforce : ∀ c e, (ringOps.stop c e true).2 ≠ eAgain := by
        intro c e
        simp [ringOps, eAgain]
      obtain ⟨-, -, -, hs⟩ | ⟨ctrl, -, hs⟩ := ndpSubscriptionStop_cases hforce e₁ e₂ ch a.1 force hr
      · rw [hs]
      · rw [hs]
        dsimp only
        rw [leave_status, if_neg hi]
    · rw [ndpSubscriptionStop_stopped ringOps e₁ e₂ ch a.1 force hr]
  | sync sync e =>
    exact (ndpSubscriptionSync_frame ringOps (P := fun _ => True) (fun _ _ _ => trivial) (fun _ _ _ _ => trivial) .tx e ch a.1 sync).status i

theorem meanwhile_chan {w : DriverWorld} (hok : TxRecover.ChanOk k w.ch) : TxRecover.ChanOk k (w.meanwhile i) := by
  unfold DriverWorld.meanwhile
  split
  · exact hok
  next others _ _ _ => exact run_inv (I := TxRecover.ChanOk k) (fun ch a h => (h.other (i := i) a).1) others w.ch hok

theorem meanwhile_ok {w : DriverWorld} {pos avail : U32} (hok : TxRecover.ChanOk k w.ch)
    (hheld : w.ch.lockedSub = some i → Held w.ch sync pos avail) : TxRecover.ChanOk k (w.meanwhile i) ∧
      ((w.meanwhile i).lockedSub = some i → Held (w.meanwhile i) sync pos avail) := by
  unfold DriverWorld.meanwhile
  split
  · exact ⟨hok, hheld⟩
  · exact others_ok _ hok hheld

theorem meanwhile_status (w : DriverWorld) : ((w.meanwhile i).sub i).status = (w.ch.sub i).status := by
  unfold DriverWorld.meanwhile
  split
  · rfl
  next others _ _ _ =>
    exact run_inv (I := fun ch => (ch.sub i).status = (w.ch.sub i).status) (fun ch a h => (other_status ch a).trans h) others w.ch rfl

/-- Any sync keeps the channel in order, and one that fails leaves no lock with `i`. -/
theorem QueueKept.syncCall (h : QueueKept k t q) (kind : SyncKind) (hs : driverSyncCall i kind t q = (t', q', ret)) :
    QueueKept k t' q' ∧ (ret ≠ 0 → t'.w.ch.lockedSub ≠ some i) := by
  have hok : TxRecover.ChanOk k (t.w.meanwhile i) := meanwhile_chan h.chan
  unfold driverSyncCall at hs
  by_cases hr : ((t.w.meanwhile i).sub i).status = .running
  · obtain ⟨ch', sync', hs', hok', -⟩ := hok.sync_running t.w.shown q.sync hr
    rw [hs'] at hs
    cases hs
    exact ⟨⟨h.k31, h.items, h.driver, h.mask, hok', h.hdr⟩, fun hret => absurd rfl hret⟩
  · rw [sync_stopped _ _ hr] at hs
    cases hs
    exact ⟨⟨h.k31, h.items, h.driver, h.mask, hok, h.hdr⟩, fun _ hl => hr (hok.locked i hl)⟩

/-! ### Put and flush -/

/-- A flush wraps the position and gives the lock back. -/
theorem QueueKept.flushPut (h : QueueKept k t q) (hf : Calypte.flushPut (driverSyncCall i) t q = (t', q', ret)) : QueueOk k i t' q' := by
  have hpow : 2 ^ k ≤ 2 ^ 31 := Nat.pow_le_pow_right (by decide) h.k31
  have hitems : (q.hdrPtrMask + 1).toNat = 2 ^ k := by
    have hm := h.mask
    unfold IsMask at hm
    rw [BitVec.toNat_add, show (1 : U32).toNat = 1 from rfl, hm, Nat.mod_eq_of_lt (by omega)]
  have hwrap : ∃ q₁, (if q.shp ≥ q.hdrPtrMask + 1 then
      { q with shp := q.shp - (q.hdrPtrMask + 1), hdrs := q.hdrs - (q.hdrPtrMask + 1).toNat } else q) = q₁ ∧ QueueKept k t q₁ := by
    split
    next hge =>
      have hle := BitVec.le_def.1 hge
      refine ⟨_, rfl, h.k31, h.items, h.driver, h.mask, h.chan, ?_⟩
      show (2 : Int) ^ (k + 1) ∣ q.hdrs - (q.hdrPtrMask + 1).toNat - ((q.shp - (q.hdrPtrMask + 1)).toNat : Int)
      rw [BitVec.toNat_sub_of_le hge, show q.hdrs - (q.hdrPtrMask + 1).toNat - ((q.shp.toNat - (q.hdrPtrMask + 1).toNat : Nat) : Int) =
        q.hdrs - q.shp.toNat by omega]
      exact h.hdr
    · exact ⟨_, rfl, h⟩
  obtain ⟨q₁, hq₁, h₁⟩ := hwrap
  unfold Calypte.flushPut at hf
  rw [hq₁] at hf
  dsimp only at hf
  rw [if_neg (by rw [h₁.driver]; decide)] at hf
  generalize hcall : driverSyncCall i .flush t { q₁ with
    sync := { q₁.sync with hwptr := q₁.shp.setWidth 64, swptr := q₁.shp.setWidth 64 }, pktsAvailable := 0 } = r at hf
  obtain ⟨t₂, q₂, ret₂⟩ := r
  cases hf
  have h₁' : QueueKept k t { q₁ with
      sync := { q₁.sync with hwptr := q₁.shp.setWidth 64, swptr := q₁.shp.setWidth 64 }, pktsAvailable := 0 } :=
    ⟨h₁.k31, h₁.items, h₁.driver, h₁.mask, h₁.chan, h₁.hdr⟩
  refine (h₁'.syncCall .flush hcall).1.free ?_
  have hok : TxRecover.ChanOk k (t.w.meanwhile i) := meanwhile_chan h.chan
  obtain ⟨-, hno⟩ := hok.flush (i := i) t.w.shown q₁.sync (q₁.shp.setWidth 64)
  unfold driverSyncCall at hcall
  cases hcall
  exact hno

theorem QueueKept.waitSpace {shp : U32} {need : U64} : ∀ {fuel left : Nat} {t t' : TxWorld DriverWorld} {q q' : QueueV3Tx} {ret : Int},
    QueueKept k t q → Calypte.waitSpace (driverSyncCall i) shp need fuel t q = some (left, t', q', ret) →
      QueueKept k t' q' ∧ (ret ≠ 0 → t'.w.ch.lockedSub ≠ some i) := by
  intro fuel
  induction fuel with
  | zero =>
    intro left t t' q q' ret h hw
    rw [Calypte.waitSpace] at hw
    split at hw
    · cases hw
    · cases hw
      exact ⟨h, fun hret => absurd rfl hret⟩
  | succ fuel ih =>
    intro left t t' q q' ret h hw
    rw [Calypte.waitSpace] at hw
    split at hw
    · dsimp only at hw
      generalize hreq : ncNdpV3TxRequestSpace (driverSyncCall i) t q shp = r at hw
      obtain ⟨t₁, q₁, ret₁⟩ := r
      unfold ncNdpV3TxRequestSpace at hreq
      generalize hcall : driverSyncCall i .space t { q with sync := { q.sync with hwptr := shp.setWidth 64 } } = r at hreq
      obtain ⟨t₂, q₂, ret₂⟩ := r
      have h' : QueueKept k t { q with sync := { q.sync with hwptr := shp.setWidth 64 } } :=
        ⟨h.k31, h.items, h.driver, h.mask, h.chan, h.hdr⟩
      obtain ⟨h₂, hno⟩ := h'.syncCall .space hcall
      dsimp only at hreq
      by_cases hret : ret₂ = 0
      · rw [if_neg (not_not.2 hret)] at hreq
        cases hreq
        rw [if_neg (not_not.2 rfl)] at hw
        refine ih ?_ hw
        exact ⟨h₂.k31, h₂.items, h₂.driver, h₂.mask, h₂.chan, h₂.hdr⟩
      · rw [if_pos hret] at hreq
        cases hreq
        rw [if_pos (show (-1 : Int) ≠ 0 by decide)] at hw
        cases hw
        exact ⟨h₂, fun _ => hno hret⟩
    · cases hw
      exact ⟨h, fun hret => absurd rfl hret⟩

theorem QueueKept.putRounds {hdr : Int} : ∀ {n j : Nat} {shp : U32} {fuel : Nat} {t t' : TxWorld DriverWorld} {q q' : QueueV3Tx}
    {ret : Int}, QueueKept k t q → Calypte.putRounds (driverSyncCall i) hdr n j shp fuel t q = some (t', q', ret) →
      QueueKept k t' q' ∧ (ret ≠ 0 → t'.w.ch.lockedSub ≠ some i) := by
  intro n
  induction n with
  | zero =>
    intro j shp fuel t t' q q' ret h hp
    cases hp
    exact ⟨h, fun hret => absurd rfl hret⟩
  | succ n ih =>
    intro j shp fuel t t' q q' ret h hp
    rw [Calypte.putRounds] at hp
    obtain ⟨⟨left, t₁, q₁, ret₁⟩, hw, hp⟩ := Option.bind_eq_some_iff.1 hp
    obtain ⟨h₁, hno⟩ := h.waitSpace hw
    dsimp only at hp
    by_cases hret : ret₁ = 0
    · rw [if_neg (not_not.2 hret)] at hp
      refine ih ?_ hp
      exact ⟨h₁.k31, h₁.items, h₁.driver, h₁.mask, h₁.chan, h₁.hdr⟩
    · rw [if_pos hret] at hp
      cases hp
      exact ⟨h₁, hno⟩

theorem QueueKept.put (h : QueueKept k t q) {fuel : Nat} (hp : ncNdpV3TxBurstPut (driverSyncCall i) fuel t q = some (t', q', ret)) :
    QueueOk k i t' q' := by
  unfold ncNdpV3TxBurstPut at hp
  obtain ⟨⟨t₁, q₁, ret₁⟩, hr, hp⟩ := Option.map_eq_some_iff.1 hp
  obtain ⟨h₁, hno⟩ := h.putRounds hr
  dsimp only at hp
  by_cases hret : ret₁ = 0
  · rw [if_neg (not_not.2 hret)] at hp
    generalize hf : Calypte.flushPut (driverSyncCall i) t₁ { q₁ with pktsToSend := 0 } = r at hp
    obtain ⟨t₂, q₂, ret₂⟩ := r
    cases hp
    have h₁' : QueueKept k t₁ { q₁ with pktsToSend := 0 } := ⟨h₁.k31, h₁.items, h₁.driver, h₁.mask, h₁.chan, h₁.hdr⟩
    exact h₁'.flushPut hf
  · rw [if_pos hret] at hp
    cases hp
    exact h₁.free (hno hret)

theorem QueueKept.flush (h : QueueKept k t q) {fuel : Nat} (hf : ncNdpV3TxBurstFlush (driverSyncCall i) fuel t q = some (t', q', ret)) :
    QueueOk k i t' q' := by
  unfold ncNdpV3TxBurstFlush at hf
  split at hf
  · exact h.put hf
  · exact h.flushPut (Option.some.inj hf)

/-! ### Lock and get -/

/-- A lock that succeeds. -/
theorem QueueOk.lock (h : QueueOk k i t q) (hr : (t.w.ch.sub i).status = .running) :
    ((ncNdpV3TxLock (driverSyncCall i) t q).2.Recovered t.items ↔ LockFits i (t.w.meanwhile i) t.w.shown q.sync q.shp) ∧
    ((ncNdpV3TxLock (driverSyncCall i) t q).2.Recovered t.items →
      QueueOk k i (ncNdpV3TxLock (driverSyncCall i) t q).1 (ncNdpV3TxLock (driverSyncCall i) t q).2) := by
  have hk : k ≤ 32 := h.k31.trans (by decide)
  obtain ⟨hok, hheld⟩ := meanwhile_ok h.chan h.held
  have hmask : q.hdrPtrMask.setWidth 64 = (t.w.meanwhile i).ptrmask := (h.mask.setWidth (hk.trans (by decide))).unique hok.mask
  have hr' : ((t.w.meanwhile i).sub i).status = .running := (meanwhile_status t.w).trans hr
  obtain ⟨ch', sync', hs, hok', hiff, hheld'⟩ := hok.lock hk hheld hr' t.w.shown
  have hreq : ({ q.sync with swptr := (q.sync.hwptr - 1) &&& q.hdrPtrMask.setWidth 64 } : SubscriptionSync) =
      lockRequest (t.w.meanwhile i).ptrmask q.sync := by
    rw [hmask]
    rfl
  have hlock : ∃ q', ncNdpV3TxLock (driverSyncCall i) t q = ({ t with w := { ch := ch', script := t.w.script.tail } }, q') ∧
      q'.sync = sync' ∧ q'.shp = rebased q.sync sync' q.shp ∧ q'.hdrPtrMask = q.hdrPtrMask ∧ q'.userspace = q.userspace ∧
      q'.pktsAvailable = available (t.w.meanwhile i).ptrmask sync' (rebased q.sync sync' q.shp) ∧ Points (k + 1) q'.hdrs q'.shp := by
    unfold ncNdpV3TxLock driverSyncCall
    dsimp only
    rw [hreq, hs]
    dsimp only
    rw [if_neg (not_not.2 rfl)]
    unfold lockTail
    by_cases hv : q.sync.swptr ≠ q.sync.hwptr
    · have hpos : rebased q.sync sync' q.shp = q.shp := if_pos hv
      rw [if_pos (decide_eq_true hv), hpos, ← hmask]
      exact ⟨_, rfl, rfl, rfl, rfl, rfl, rfl, h.hdr⟩
    · have hpos : rebased q.sync sync' q.shp = q.shp + (sync'.hwptr - q.shp.setWidth 64).setWidth 32 := if_neg hv
      rw [if_neg (by rw [decide_eq_false hv]; decide), hpos, ← hmask]
      exact ⟨_, rfl, rfl, rfl, rfl, rfl, rfl, h.hdr.add (Nat.succ_le_succ h.k31) _⟩
  obtain ⟨q', hq', hsync, hshp, hptr, huser, havail, hhdr⟩ := hlock
  have hrec : q'.Recovered t.items ↔ InWindow (t.w.meanwhile i).ptrmask sync' (rebased q.sync sync' q.shp) := by
    unfold QueueV3Tx.Recovered
    rw [hhdr.slot h.items, h.items, hptr, hmask, hsync, hshp]
    exact and_iff_left rfl
  rw [hq']
  refine ⟨hrec.trans hiff, fun hwin => ⟨⟨h.k31, h.items, huser.trans h.driver, hptr ▸ h.mask, hok', hhdr⟩, fun hl => ?_⟩⟩
  rw [hsync, hshp, havail]
  exact hheld' (hrec.1 hwin) hl

theorem QueueOk.lock_stopped (h : QueueOk k i t q) (hr : (t.w.ch.sub i).status ≠ .running) :
    QueueOk k i (ncNdpV3TxLock (driverSyncCall i) t q).1 (ncNdpV3TxLock (driverSyncCall i) t q).2 := by
  have hok := (meanwhile_ok h.chan h.held).1
  have hr' : ((t.w.meanwhile i).sub i).status ≠ .running := fun hc => hr ((meanwhile_status t.w).symm.trans hc)
  unfold ncNdpV3TxLock driverSyncCall
  dsimp only
  rw [sync_stopped _ _ hr']
  dsimp only
  rw [if_pos (by decide)]
  exact ⟨⟨h.k31, h.items, h.driver, h.mask, hok, h.hdr⟩, fun hl => absurd (hok.locked i hl) hr'⟩

theorem QueueOk.reserve (h : QueueOk k i t q) (packets : Nat → NdpPacket) {count : U32} (hc : count ≤ q.pktsAvailable) :
    QueueOk k i (burstReserve t q packets count).1 (burstReserve t q packets count).2.1 := by
  obtain ⟨mem, hmem⟩ := getRounds_world q packets t count.toNat
  unfold burstReserve
  generalize getRounds q packets t count.toNat = r at hmem
  obtain ⟨t', pkts, sdp⟩ := r
  dsimp only at hmem
  subst hmem
  cases sdp with
  | none => exact ⟨⟨h.k31, h.items, h.driver, h.mask, h.chan, h.hdr⟩, h.held⟩
  | some sdp =>
    refine ⟨⟨h.k31, h.items, h.driver, h.mask, h.chan, h.hdr.hand (Nat.succ_le_succ h.k31) count⟩, fun hl => ?_⟩
    exact (h.held hl).hand h.chan (h.k31.trans (by decide)) hc

theorem QueueOk.get (h : QueueOk k i t q) (packets : Nat → NdpPacket) (count : U32)
    (hright : ¬(q.pktsToSend ≠ 0 ∨ q.txPktsCnt < count.setWidth 64) → q.pktsAvailable < count → (t.w.ch.sub i).status = .running →
      (ncNdpV3TxLock (driverSyncCall i) t q).2.Recovered t.items) :
    QueueOk k i (ncNdpV3TxBurstGet (driverSyncCall i) t q packets count).1
      (ncNdpV3TxBurstGet (driverSyncCall i) t q packets count).2.1 := by
  unfold ncNdpV3TxBurstGet
  by_cases hearly : q.pktsToSend ≠ 0 ∨ q.txPktsCnt < count.setWidth 64
  · rw [if_pos hearly]
    exact h
  rw [if_neg hearly]
  by_cases hshort : q.pktsAvailable < count
  · rw [if_pos hshort]
    have h' : QueueOk k i (ncNdpV3TxLock (driverSyncCall i) t q).1 (ncNdpV3TxLock (driverSyncCall i) t q).2 := by
      by_cases hr : (t.w.ch.sub i).status = .running
      · exact (h.lock hr).2 (hright hearly hshort hr)
      · exact h.lock_stopped hr
    dsimp only
    split
    · exact h'
    next hno => exact h'.reserve packets (BitVec.not_lt.1 fun hlt => hno (Or.inl hlt))
  · rw [if_neg hshort]
    exact h.reserve packets (BitVec.not_lt.1 hshort)

end Queue

/-! ## Runs -/

section Runs

variable {i : Nat}

theorem QueueOk.script {s : V3Recover} (h : QueueOk k i s.t s.q) (script : List (List (Nat × DriverCall) × RingShown)) :
    QueueOk k i (s.withScript script) s.q := ⟨⟨h.k31, h.items, h.driver, h.mask, h.chan, h.hdr⟩, h.held⟩

theorem QueueOk.chan_step {s : V3Recover} (h : QueueOk k i s.t s.q) {ch' : Channel RingCtrl} (hok : TxRecover.ChanOk k ch')
    (hsame : ch'.lockedSub = some i → s.t.w.ch.lockedSub = some i ∧ ch'.swptr = s.t.w.ch.swptr ∧ ch'.ctrl = s.t.w.ch.ctrl) :
    QueueOk k i (s.withChan ch').t s.q := by
  refine ⟨⟨h.k31, h.items, h.driver, h.mask, hok, h.hdr⟩, fun hl => ?_⟩
  obtain ⟨hl, hsw, hctrl⟩ := hsame hl
  exact (h.held hl).congr h.chan hok hsw hctrl

theorem step_ok (s : V3Recover) (a : V3RecoverAct) (s' : V3Recover) (hright : LockRight i s a) (h : QueueOk k i s.t s.q)
    (hs : s.step i a = some s') : QueueOk k i s'.t s'.q := by
  cases a with
  | start e =>
    obtain ⟨hok, hlock, hsame⟩ := h.chan.start e i s.q.sync
    have hsync : (ndpSubscriptionStart ringOps .tx e s.t.w.ch i s.q.sync).2.1 = s.q.sync := start_sync e s.t.w.ch i s.q.sync
    have h' := h.chan_step hok fun hl =>
      have hl := hlock.symm.trans hl
      ⟨hl, hsame (h.chan.listed.startCount_ne (h.chan.locked i hl))⟩
    cases hs
    show QueueOk k i _ { s.q with sync := (ndpSubscriptionStart ringOps .tx e s.t.w.ch i s.q.sync).2.1 }
    rw [hsync]
    exact h'
  | stop e₁ e₂ force =>
    obtain ⟨hok, hlock, -, -⟩ := h.chan.stop e₁ e₂ i force
    cases hs
    exact h.chan_step hok fun hl => absurd rfl (Channel.unlocked_eq_some.1 (hlock.symm.trans hl)).2
  | get script packets count =>
    cases hs
    exact (h.script script).get packets count fun hearly hshort hr => hright ⟨hearly, hshort, hr⟩
  | put script fuel =>
    obtain ⟨⟨t', q', ret⟩, hp, rfl⟩ := Option.map_eq_some_iff.1 hs
    exact (h.script script).toQueueKept.put hp
  | flush script fuel =>
    obtain ⟨⟨t', q', ret⟩, hf, rfl⟩ := Option.map_eq_some_iff.1 hs
    exact (h.script script).toQueueKept.flush hf
  | other a =>
    obtain ⟨hok, hsame⟩ := h.chan.other (i := i) a
    cases hs
    exact h.chan_step hok hsame

theorem lockRight_iff (s : V3Recover) (a : V3RecoverAct) (h : QueueOk k i s.t s.q) : LockRight i s a ↔ LockOk i s a := by
  cases a with
  | get script packets count => exact imp_congr_right fun hl => ((h.script script).lock hl.2.2).1
  | _ => exact Iff.rfl

theorem opened_queueOk (hk : k ≤ 31) (mem : Nat → V3PacketHdr) (q : QueueV3Tx) :
    QueueOk k i (opened k mem q).t (opened k mem q).q where
  k31 := hk
  items := rfl
  driver := rfl
  mask := isMask_ofNat (hk.trans (by decide))
  chan := opened_ok (hk.trans (by decide))
  held := nofun
  hdr := by
    show (2 : Int) ^ (k + 1) ∣ 0 - ((0 : U32).toNat : Int)
    simp

end Runs

end V3Recover

/-- In every run of a queue of protocol 2 or 3 the locks that succeed leave its position and its header pointer inside the window
that they are granted exactly if they all meet the condition. -/
theorem lock_recovers_iff (hk : k ≤ 31) (i : Nat) : (∀ mem o acts,
    Meets (V2Recover.step i) (V2Recover.LockRight i) (V2Recover.opened k mem o) acts ↔
      Meets (V2Recover.step i) (V2Recover.LockOk i) (V2Recover.opened k mem o) acts) ∧
    ∀ mem q acts, MeetsM (V3Recover.step i) (V3Recover.LockRight i) (V3Recover.opened k mem q) acts ↔
      MeetsM (V3Recover.step i) (V3Recover.LockOk i) (V3Recover.opened k mem q) acts := by
  constructor
  · intro mem o acts
    exact V2Recover.locks_right_iff hk mem o acts
  · intro mem q acts
    exact meetsM_iff (I := fun s => V3Recover.QueueOk k i s.t s.q) V3Recover.lockRight_iff V3Recover.step_ok acts _
      (V3Recover.opened_queueOk hk mem q)

/-- The queue asks for a packet before it is started; another subscription starts, locks the ring and publishes a header. -/
def getBeforeStart : List V2RecoverAct :=
  [.get shownQuiet (fun _ => ⟨0, 0, 60, 0, 0⟩) 1, .other (1, .start shownQuiet), .other (1, .sync ⟨0, 0, 15⟩ shownQuiet),
    .other (1, .sync ⟨0, 1, 1⟩ shownQuiet), .start shownQuiet, .get shownQuiet (fun _ => ⟨0, 0, 60, 0, 0⟩) 1]

/-- The second get is granted the headers from 1 to 14 and uses header 0. -/
theorem lock_of_stale_position : ¬Meets (V2Recover.step 0) (V2Recover.LockRight 0) (V2Recover.opened 4 TxV2.emptyMem TxV2.defaultOpen)
    getBeforeStart := by
  decide +kernel

/-- The same with a flush before the second get, and a protocol 3 queue beside another subscription. -/
theorem lock_recovers_flushed : Meets (V2Recover.step 0) (V2Recover.LockRight 0) (V2Recover.opened 4 TxV2.emptyMem TxV2.defaultOpen)
      (getBeforeStart.take 5 ++ [.flush shownQuiet] ++ getBeforeStart.drop 5) ∧
    MeetsM (V3Recover.step 0) (V3Recover.LockRight 0)
      (V3Recover.opened 4 (fun _ => ⟨0, 0, 0, 0, 0⟩) (startedQueue ⟨15, 4095, 60, 1500, fun _ => ⟨0, 0, 0, 0, 0⟩⟩))
      [.start shownQuiet, .get [([(1, .start shownQuiet)], shownQuiet)] (fun _ => ⟨0, 0, 60, 0, 0⟩) 1, .put [] 5] :=
  ⟨((lock_recovers_iff (k := 4) (by decide) 0).1 _ _ _).2 (by decide +kernel),
    ((lock_recovers_iff (k := 4) (by decide) 0).2 _ _ _).2 (by decide +kernel)⟩

end NdkSw.Calypte

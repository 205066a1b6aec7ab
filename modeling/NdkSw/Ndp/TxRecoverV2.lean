/-
A protocol 2 TX queue in every run of its library calls and of the calls of others on its channel, started or not: which locks leave
`rhp` and the header pointer inside the window they were granted.
-/
import NdkSw.Ndp.TxRecover

namespace NdkSw.Ndp

open Ring TxRecover

variable {k : Nat}

/-! ## The system -/

/-- The channel, the buffers and the queue of one subscription. -/
structure V2Recover where
  ch : Channel RingCtrl
  mem : V2Mem
  q : QueueV2

inductive V2RecoverAct
  | start (e : RingShown)
  | stop (e₁ e₂ : RingShown) (force : Bool)
  | get (e : RingShown) (packets : Nat → NdpPacket) (count : U32)
  | put (e : RingShown)
  | flush (e : RingShown)
  | other (a : Nat × DriverCall)

namespace V2Recover

/-- A freshly opened queue on a channel with `2 ^ k` headers. -/
def opened (k : Nat) (mem : V2Mem) (o : V2Open) : V2Recover where
  ch := TxRecover.opened k
  mem
  q := ncNdpV2OpenQueue o (BitVec.ofNat 32 (2 ^ k))

/-- A call of subscription `i`, whether it runs or not, or of somebody else. -/
def step (i : Nat) (s : V2Recover) : V2RecoverAct → V2Recover
  | .start e =>
    match ndpSubscriptionStart ringOps .tx e s.ch i s.q.sync with
    | (ch, sync, _) => { s with ch, q := { s.q with sync } }
  | .stop e₁ e₂ force => { s with ch := (ndpSubscriptionStop ringOps e₁ e₂ s.ch i force).1 }
  | .get e packets count =>
    match ncNdpV2TxBurstGet ringOps e i s.ch s.mem s.q packets count with
    | (ch, mem, q, _, _) => { ch, mem, q }
  | .put e =>
    match ncNdpV2TxBurstPut ringOps e i s.ch s.q with
    | (ch, q) => { s with ch, q }
  | .flush e =>
    match ncNdpV2TxBurstFlush ringOps e i s.ch s.q with
    | (ch, q) => { s with ch, q }
  | .other a => { s with ch := other i s.ch a }

end V2Recover

/-- `rhp` is in the window of the last sync, and the header pointer at its item. -/
def QueueV2.Recovered (q : QueueV2) : Prop :=
  q.RhpInWindow ∧ shadowSlot q.hdrItems.toNat (q.hdr - q.hdrBase) = q.rhp.toNat % q.hdrItems.toNat

instance (q : QueueV2) : Decidable q.Recovered := inferInstanceAs (Decidable (_ ∧ _))

namespace V2Recover

/-- The call makes a lock, and the lock succeeds. -/
def Locks (i : Nat) (s : V2Recover) : V2RecoverAct → Prop
  | .get _ _ count => s.q.pktsAvailable < count ∧ (s.ch.sub i).status = .running
  | _ => False

/-- A lock that succeeds leaves the queue inside its window. -/
def LockRight (i : Nat) (s : V2Recover) : V2RecoverAct → Prop
  | .get e packets count => Locks i s (.get e packets count) → (ncNdpV2TxLock ringOps e i s.ch s.q).2.Recovered
  | _ => True

/-- The condition on a lock that succeeds. -/
def LockOk (i : Nat) (s : V2Recover) : V2RecoverAct → Prop
  | .get e packets count => Locks i s (.get e packets count) → LockFits i s.ch e s.q.sync s.q.rhp
  | _ => True

instance (i : Nat) (s : V2Recover) (a : V2RecoverAct) : Decidable (LockOk i s a) := by
  cases a with
  | get e packets count => exact inferInstanceAs (Decidable (_ ∧ _ → _))
  | _ => exact isTrue trivial

instance (i : Nat) (s : V2Recover) (a : V2RecoverAct) : Decidable (LockRight i s a) := by
  cases a with
  | get e packets count => exact inferInstanceAs (Decidable (_ ∧ _ → _))
  | _ => exact isTrue trivial

/-! ## The queue -/

/-- As holder the queue has the window it knows of; the header pointer is at the item of `rhp`. -/
structure QueueOk (k i : Nat) (ch : Channel RingCtrl) (q : QueueV2) : Prop where
  k31 : k ≤ 31
  items : q.hdrItems.toNat = 2 ^ k
  chan : TxRecover.ChanOk k ch
  held : ch.lockedSub = some i → Held ch q.sync q.rhp q.pktsAvailable
  hdr : Points k (q.hdr - q.hdrBase) q.rhp

section Queue

variable {i : Nat} {ch : Channel RingCtrl} {q : QueueV2}

theorem QueueOk.mask (h : QueueOk k i ch q) : q.mask = ch.ptrmask := by
  refine IsMask.unique (k := k) (IsMask.setWidth (w := 32) ?_ (h.k31.trans (by decide))) h.chan.mask
  have hpow : 2 ^ k ≤ 2 ^ 31 := Nat.pow_le_pow_right (by decide) h.k31
  have hpos : 0 < 2 ^ k := by positivity
  unfold IsMask
  rw [BitVec.toNat_sub, h.items, show (1 : U32).toNat = 1 from rfl]
  omega

theorem QueueOk.chan_step (h : QueueOk k i ch q) {ch' : Channel RingCtrl} (hok : TxRecover.ChanOk k ch')
    (hsame : ch'.lockedSub = some i → ch.lockedSub = some i ∧ ch'.swptr = ch.swptr ∧ ch'.ctrl = ch.ctrl) : QueueOk k i ch' q where
  k31 := h.k31
  items := h.items
  chan := hok
  held hl :=
    have ⟨hl, hsw, hctrl⟩ := hsame hl
    (h.held hl).congr h.chan hok hsw hctrl
  hdr := h.hdr

theorem QueueOk.advance (h : QueueOk k i ch q) {count : U32} (hc : count ≤ q.pktsAvailable) : QueueOk k i ch (q.advance count) where
  k31 := h.k31
  items := h.items
  chan := h.chan
  held hl := (h.held hl).hand h.chan (h.k31.trans (by decide)) hc
  hdr := by
    have hhand := h.hdr.hand (h.k31.trans (by decide)) count
    rwa [show q.hdr - q.hdrBase + count.toNat = q.hdr + count.toNat - q.hdrBase by omega] at hhand

/-- A lock that succeeds. -/
theorem QueueOk.lock (h : QueueOk k i ch q) (hr : (ch.sub i).status = .running) (e : RingShown) :
    ((ncNdpV2TxLock ringOps e i ch q).2.Recovered ↔ LockFits i ch e q.sync q.rhp) ∧
    ((ncNdpV2TxLock ringOps e i ch q).2.Recovered →
      QueueOk k i (ncNdpV2TxLock ringOps e i ch q).1 (ncNdpV2TxLock ringOps e i ch q).2) := by
  have hk : k ≤ 32 := h.k31.trans (by decide)
  obtain ⟨ch', sync', hs, hok, hiff, hheld⟩ := h.chan.lock hk h.held hr e
  have hreq : ({ q.sync with swptr := (q.sync.hwptr - 1) &&& q.mask } : SubscriptionSync) = lockRequest ch.ptrmask q.sync := by
    rw [h.mask]
    rfl
  have hlock : ∃ q', ncNdpV2TxLock ringOps e i ch q = (ch', q') ∧ q'.sync = sync' ∧ q'.rhp = rebased q.sync sync' q.rhp ∧
      q'.hdrItems = q.hdrItems ∧ q'.pktsAvailable = available ch.ptrmask sync' (rebased q.sync sync' q.rhp) ∧
      Points k (q'.hdr - q'.hdrBase) q'.rhp := by
    unfold ncNdpV2TxLock
    dsimp only
    rw [hreq, hs]
    dsimp only
    rw [if_neg (not_not.2 rfl)]
    by_cases hv : q.sync.swptr ≠ q.sync.hwptr
    · have hpos : rebased q.sync sync' q.rhp = q.rhp := if_pos hv
      rw [if_pos hv, hpos, ← h.mask]
      exact ⟨_, rfl, rfl, rfl, rfl, rfl, h.hdr⟩
    · have hpos : rebased q.sync sync' q.rhp = q.rhp + (sync'.hwptr - q.rhp.setWidth 64).setWidth 32 := if_neg hv
      rw [if_neg hv, hpos, ← h.mask]
      refine ⟨_, rfl, rfl, rfl, rfl, rfl, ?_⟩
      have hadd := h.hdr.add hk ((sync'.hwptr - q.rhp.setWidth 64).setWidth 32)
      rwa [show q.hdr - q.hdrBase + ((sync'.hwptr - q.rhp.setWidth 64).setWidth 32 : U32).toInt =
        q.hdr + ((sync'.hwptr - q.rhp.setWidth 64).setWidth 32 : U32).toInt - q.hdrBase by omega] at hadd
  obtain ⟨q', hq', hsync, hrhp, hitems, havail, hhdr⟩ := hlock
  have hmask' : q'.mask = ch.ptrmask := by
    unfold QueueV2.mask
    rw [hitems]
    exact h.mask
  have hrec : q'.Recovered ↔ InWindow ch.ptrmask sync' (rebased q.sync sync' q.rhp) := by
    have hslot := hhdr.slot (hitems ▸ h.items)
    unfold QueueV2.Recovered
    rw [hslot, hitems, h.items]
    unfold QueueV2.RhpInWindow InWindow
    rw [hmask', hsync, hrhp]
    exact and_iff_left rfl
  rw [hq']
  refine ⟨hrec.trans hiff, fun hwin => ⟨h.k31, hitems ▸ h.items, hok, fun hl => ?_, hhdr⟩⟩
  rw [hsync, hrhp, havail]
  exact hheld (hrec.1 hwin) hl

theorem QueueOk.lock_stopped (h : QueueOk k i ch q) (hr : (ch.sub i).status ≠ .running) (e : RingShown) :
    QueueOk k i (ncNdpV2TxLock ringOps e i ch q).1 (ncNdpV2TxLock ringOps e i ch q).2 := by
  unfold ncNdpV2TxLock
  dsimp only
  rw [sync_stopped e _ hr]
  dsimp only
  rw [if_pos (by decide)]
  exact ⟨h.k31, h.items, h.chan, fun hl => absurd (h.chan.locked i hl) hr, h.hdr⟩

theorem QueueOk.flush (h : QueueOk k i ch q) (e : RingShown) :
    QueueOk k i (ncNdpV2TxBurstFlush ringOps e i ch q).1 (ncNdpV2TxBurstFlush ringOps e i ch q).2 := by
  have hwrap : q.wrapRhp.sync = q.sync ∧ q.wrapRhp.hdrItems = q.hdrItems ∧ Points k (q.wrapRhp.hdr - q.wrapRhp.hdrBase) q.wrapRhp.rhp := by
    unfold QueueV2.wrapRhp
    split
    next hge =>
      refine ⟨rfl, rfl, ?_⟩
      have hle := BitVec.le_def.1 hge
      have hitems := h.items
      have hcast : (q.hdrItems.toNat : Int) = 2 ^ k := by
        rw [hitems]
        push_cast
        rfl
      show (2 : Int) ^ k ∣ q.hdr - q.hdrItems.toNat - q.hdrBase - ((q.rhp - q.hdrItems).toNat : Int)
      rw [BitVec.toNat_sub_of_le hge, show q.hdr - q.hdrItems.toNat - q.hdrBase - ((q.rhp.toNat - q.hdrItems.toNat : Nat) : Int) =
        q.hdr - q.hdrBase - q.rhp.toNat by omega]
      exact h.hdr
    · exact ⟨rfl, rfl, h.hdr⟩
  obtain ⟨hsync, hitems, hhdr⟩ := hwrap
  unfold ncNdpV2TxBurstFlush
  dsimp only
  obtain ⟨hok, hno⟩ := h.chan.flush (i := i) e q.wrapRhp.sync (q.wrapRhp.rhp.setWidth 64)
  exact ⟨h.k31, hitems ▸ h.items, hok, fun hl => absurd hl hno, hhdr⟩

theorem QueueOk.put (h : QueueOk k i ch q) (e : RingShown) :
    QueueOk k i (ncNdpV2TxBurstPut ringOps e i ch q).1 (ncNdpV2TxBurstPut ringOps e i ch q).2 := by
  unfold ncNdpV2TxBurstPut
  split
  · exact h.flush e
  · exact h

theorem QueueOk.get (h : QueueOk k i ch q) (e : RingShown) (mem : V2Mem) (packets : Nat → NdpPacket) (count : U32)
    (hright : q.pktsAvailable < count → (ch.sub i).status = .running → (ncNdpV2TxLock ringOps e i ch q).2.Recovered) :
    QueueOk k i (ncNdpV2TxBurstGet ringOps e i ch mem q packets count).1
      (ncNdpV2TxBurstGet ringOps e i ch mem q packets count).2.2.1 := by
  unfold ncNdpV2TxBurstGet
  by_cases hshort : q.pktsAvailable < count
  · simp only [hshort, if_true, true_and]
    have h' : QueueOk k i (ncNdpV2TxLock ringOps e i ch q).1 (ncNdpV2TxLock ringOps e i ch q).2 := by
      by_cases hr : (ch.sub i).status = .running
      · exact (h.lock hr e).2 (hright hshort hr)
      · exact h.lock_stopped hr e
    split
    · exact h'
    next hno =>
      have hav : ¬(ncNdpV2TxLock ringOps e i ch q).2.pktsAvailable < count := fun hlt => hno (Or.inl hlt)
      split
      · exact h'
      · exact h'.advance (BitVec.not_lt.1 hav)
  · simp only [hshort, if_false, false_and]
    split
    · exact h
    · exact h.advance (BitVec.not_lt.1 hshort)

end Queue

/-! ## Runs -/

section Runs

variable {i : Nat}

theorem step_ok (s : V2Recover) (a : V2RecoverAct) (hright : LockRight i s a) (h : QueueOk k i s.ch s.q) :
    QueueOk k i (s.step i a).ch (s.step i a).q := by
  cases a with
  | start e =>
    obtain ⟨hok, hlock, hsame⟩ := h.chan.start e i s.q.sync
    have hsync : (ndpSubscriptionStart ringOps .tx e s.ch i s.q.sync).2.1 = s.q.sync := start_sync e s.ch i s.q.sync
    have h' := h.chan_step hok fun hl =>
      have hl := hlock.symm.trans hl
      ⟨hl, hsame (h.chan.listed.startCount_ne (h.chan.locked i hl))⟩
    show QueueOk k i (ndpSubscriptionStart ringOps .tx e s.ch i s.q.sync).1
      { s.q with sync := (ndpSubscriptionStart ringOps .tx e s.ch i s.q.sync).2.1 }
    rw [hsync]
    exact h'
  | stop e₁ e₂ force =>
    obtain ⟨hok, hlock, -, -⟩ := h.chan.stop e₁ e₂ i force
    exact h.chan_step hok fun hl => absurd rfl (Channel.unlocked_eq_some.1 (hlock.symm.trans hl)).2
  | get e packets count => exact h.get e s.mem packets count fun hshort hr => hright ⟨hshort, hr⟩
  | put e => exact h.put e
  | flush e => exact h.flush e
  | other a =>
    obtain ⟨hok, hsame⟩ := h.chan.other (i := i) a
    exact h.chan_step hok hsame

theorem lockRight_iff (s : V2Recover) (a : V2RecoverAct) (h : QueueOk k i s.ch s.q) : LockRight i s a ↔ LockOk i s a := by
  cases a with
  | get e packets count => exact imp_congr_right fun hl => (h.lock hl.2 e).1
  | _ => exact Iff.rfl

theorem opened_queueOk (hk : k ≤ 31) (mem : V2Mem) (o : V2Open) : QueueOk k i (opened k mem o).ch (opened k mem o).q where
  k31 := hk
  items := by
    have hpow : 2 ^ k ≤ 2 ^ 31 := Nat.pow_le_pow_right (by decide) hk
    show (BitVec.ofNat 32 (2 ^ k)).toNat = 2 ^ k
    rw [BitVec.toNat_ofNat, Nat.mod_eq_of_lt (by omega)]
  chan := opened_ok (hk.trans (by decide))
  held := nofun
  hdr := by
    show (2 : Int) ^ k ∣ o.hdrBase - o.hdrBase - ((0 : U32).toNat : Int)
    simp

theorem locks_right_iff (hk : k ≤ 31) (mem : V2Mem) (o : V2Open) (acts : List V2RecoverAct) :
    Meets (step i) (LockRight i) (opened k mem o) acts ↔ Meets (step i) (LockOk i) (opened k mem o) acts :=
  meets_iff (I := fun s => QueueOk k i s.ch s.q) lockRight_iff step_ok acts _ (opened_queueOk hk mem o)

end Runs

end V2Recover

end NdkSw.Ndp

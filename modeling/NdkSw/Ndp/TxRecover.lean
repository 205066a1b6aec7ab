/-
The lock of a TX queue over a channel that others use too, for protocols 2 and 3 alike: when a lock that succeeds leaves the queue's
position inside the window that it was granted. The queue decides from its own copy of the sync pointers if it still has a window,
the channel from its holder. What other subscribers ask of the driver may be anything.
-/
import NdkSw.Bits.Narrow
import NdkSw.Ndp.TxV2Inv
import NdkSw.Ndp.Subscribe

namespace NdkSw.Ndp

open Ring

variable {k : Nat}

/-! ## The controller -/

/-- A TX controller of a ring of headers; `free` is the space for data that it reports. -/
structure RingCtrl where
  mhp : U64
  shp : U64
  hhp : U64
  free : U64

/-- What the hardware shows: the result of a start or a stop, where a start begins, how many headers are completed until `get_hwptr`
looks, and the free space then. -/
structure RingShown where
  ret : Int
  start : Nat
  done : Nat
  free : U64

def ringOps : ChannelOps RingCtrl RingShown where
  start c e :=
    if e.ret ≠ 0 then (c, e.ret, 0)
    else
      let hwptr := BitVec.ofNat 64 e.start &&& c.mhp
      ({ c with shp := hwptr, hhp := hwptr }, 0, hwptr)
  stop c e force := (c, if e.ret = eAgain ∧ ¬ force then eAgain else 0)
  getHwptr c e :=
    let done := min e.done ((c.shp - c.hhp) &&& c.mhp).toNat
    let hhp := (c.hhp + BitVec.ofNat 64 done) &&& c.mhp
    ({ c with hhp, free := e.free }, hhp)
  setSwptr c _ ptr := { c with shp := ptr }
  getFreeSpace := some RingCtrl.free

namespace TxRecover

/-- A channel with a ring of `2 ^ k` headers. -/
def opened (k : Nat) : Channel RingCtrl where
  lockedSub := none
  hwptr := 0
  swptr := 0
  ptrmask := BitVec.ofNat 64 (2 ^ k - 1)
  startCount := 0
  listSubscriptions := []
  sub _ := { status := .subscribed, hwptr := 0, swptr := 0 }
  ctrl := { mhp := BitVec.ofNat 64 (2 ^ k - 1), shp := 0, hhp := 0, free := 0 }

/-- What a subscription asks of the driver. -/
inductive DriverCall
  | start (e : RingShown)
  | stop (e₁ e₂ : RingShown) (force : Bool)
  | sync (sync : SubscriptionSync) (e : RingShown)

def driverCall (ch : Channel RingCtrl) (j : Nat) : DriverCall → Channel RingCtrl
  | .start e => (ndpSubscriptionStart ringOps .tx e ch j { size := 0, hwptr := 0, swptr := 0 }).1
  | .stop e₁ e₂ force => (ndpSubscriptionStop ringOps e₁ e₂ ch j force).1
  | .sync sync e => (ndpSubscriptionSync ringOps .tx e ch j sync).1

/-- A call of somebody else than `i`. -/
def other (i : Nat) (ch : Channel RingCtrl) (a : Nat × DriverCall) : Channel RingCtrl :=
  if a.1 = i then ch else driverCall ch a.1 a.2

/-! ## The channel -/

structure ChanOk (k : Nat) (ch : Channel RingCtrl) : Prop where
  mask : IsMask ch.ptrmask k
  mhp : ch.ctrl.mhp = ch.ptrmask
  shp : ch.ctrl.shp = ch.swptr
  listed : Listed ch
  locked : ∀ i, ch.lockedSub = some i → (ch.sub i).status = .running

/-- The masked distance from `a` to `b`. -/
def dist (m a b : U64) : Nat := ((b - a) &&& m).toNat

/-- The headers that are free behind the channel's `swptr`. -/
def room (ch : Channel RingCtrl) : Nat := ((ch.ctrl.hhp - ch.swptr - 1) &&& ch.ptrmask).toNat

/-- The room that the hardware shows at the next look. -/
def roomAt (ch : Channel RingCtrl) (e : RingShown) : Nat := (((ringOps.getHwptr ch.ctrl e).2 - ch.swptr - 1) &&& ch.ptrmask).toNat

theorem opened_ok (hk : k ≤ 64) : ChanOk k (opened k) where
  mask := isMask_ofNat hk
  mhp := rfl
  shp := rfl
  listed := ⟨fun j => by simp [opened], List.nodup_nil, rfl⟩
  locked := nofun

section Chan

variable {ch : Channel RingCtrl} {i : Nat}

theorem ChanOk.room_lt (h : ChanOk k ch) : room ch < 2 ^ k := h.mask.toNat_and_lt _

theorem ChanOk.room_le (h : ChanOk k ch) (e : RingShown) : room ch ≤ roomAt ch e := by
  have hm := h.mask
  have hdist : At k ch.swptr (ch.ctrl.hhp.toNat + ((ch.swptr - ch.ctrl.hhp) &&& ch.ptrmask).toNat) := (at_toNat _).add_dist hm
  have hlt := hm.toNat_and_lt (ch.swptr - ch.ctrl.hhp)
  have hget : (ringOps.getHwptr ch.ctrl e).2 = (ch.ctrl.hhp +
      BitVec.ofNat 64 (min e.done ((ch.swptr - ch.ctrl.hhp) &&& ch.ptrmask).toNat)) &&& ch.ptrmask := by
    show (ch.ctrl.hhp + BitVec.ofNat 64 (min e.done ((ch.ctrl.shp - ch.ctrl.hhp) &&& ch.ctrl.mhp).toNat)) &&& ch.ctrl.mhp = _
    rw [h.shp, h.mhp]
  unfold room roomAt
  rw [hget]
  generalize ((ch.swptr - ch.ctrl.hhp) &&& ch.ptrmask).toNat = d at hdist hlt ⊢
  have hnew := (At.add hm.le_width (at_toNat ch.ctrl.hhp) (at_ofNat hm.le_width (min e.done d))).and hm
  rw [toNat_chlen hm (at_toNat _) hdist (by omega) (by omega), toNat_chlen hm hnew hdist (by omega) (by omega)]
  omega

/-! ### Start and stop -/

/-- A start takes no lock, and moves nothing while somebody runs. -/
theorem ChanOk.start (h : ChanOk k ch) (e : RingShown) (j : Nat) (sync : SubscriptionSync) :
    ChanOk k (ndpSubscriptionStart ringOps .tx e ch j sync).1 ∧
      (ndpSubscriptionStart ringOps .tx e ch j sync).1.lockedSub = ch.lockedSub ∧
      (ch.startCount ≠ 0 → (ndpSubscriptionStart ringOps .tx e ch j sync).1.swptr = ch.swptr ∧
        (ndpSubscriptionStart ringOps .tx e ch j sync).1.ctrl = ch.ctrl) := by
  obtain ⟨ctrl, err, -, hs, hctrl⟩ | ⟨ch₀, hch₀, hst, hs⟩ := ndpSubscriptionStart_cases ringOps .tx e ch j sync
  · have hsame : ctrl = ch.ctrl := by
      rcases hctrl with h | ⟨-, h, hret⟩
      · exact h
      · rw [h]
        simp only [ringOps] at hret ⊢
        split at hret
        · rename_i hne
          rw [if_pos hne]
        · exact absurd rfl hret
    rw [hs, hsame]
    exact ⟨h, rfl, fun _ => ⟨rfl, rfl⟩⟩
  · have hne : (ch.sub j).status ≠ .running := by rw [hst]; decide
    rw [hs]
    rcases hch₀ with ⟨rfl, -⟩ | ⟨rfl, h0, hret⟩
    · refine ⟨⟨h.mask, h.mhp, h.shp, h.listed.join hne, fun m hm => ?_⟩, rfl, fun _ => ⟨rfl, rfl⟩⟩
      rw [join_status]
      split
      · rfl
      · exact h.locked m hm
    · have hzero : e.ret = 0 := by
        by_contra hne0
        simp only [ringOps, ne_eq, hne0, not_false_eq_true, if_true] at hret
      have hL : Listed (ch.reset (ringOps.start ch.ctrl e).1 (ringOps.start ch.ctrl e).2.2) := h.listed.congr rfl rfl fun _ => rfl
      refine ⟨⟨h.mask, ?_, ?_, hL.join hne, fun m hm => absurd (h.locked m hm) (h.listed.idle h0 m)⟩, rfl, fun h0' => absurd h0 h0'⟩
      all_goals simp only [Channel.join, Channel.reset, ringOps, hzero, ne_eq, not_true_eq_false, if_false]
      exact h.mhp

theorem start_sync (e : RingShown) (ch : Channel RingCtrl) (j : Nat) (sync : SubscriptionSync) :
    (ndpSubscriptionStart ringOps .tx e ch j sync).2.1 = sync := by
  obtain ⟨ctrl, err, -, hs, -⟩ | ⟨ch₀, -, -, hs⟩ := ndpSubscriptionStart_cases ringOps .tx e ch j sync
  · rw [hs]
  · rw [hs]
    rfl

/-- A stop gives the lock of `j` back, and moves nothing. -/
theorem ChanOk.stop (h : ChanOk k ch) (e₁ e₂ : RingShown) (j : Nat) (force : Bool) :
    ChanOk k (ndpSubscriptionStop ringOps e₁ e₂ ch j force).1 ∧
      (ndpSubscriptionStop ringOps e₁ e₂ ch j force).1.lockedSub = ch.unlocked j ∧
      (ndpSubscriptionStop ringOps e₁ e₂ ch j force).1.swptr = ch.swptr ∧
      (ndpSubscriptionStop ringOps e₁ e₂ ch j force).1.ctrl = ch.ctrl := by
  by_cases hr : (ch.sub j).status = .running
  · have hforce : ∀ c e, (ringOps.stop c e true).2 ≠ eAgain := by
      intro c e
      simp [ringOps, eAgain]
    obtain ⟨-, -, -, hs⟩ | ⟨ctrl, hctrl, hs⟩ := ndpSubscriptionStop_cases hforce e₁ e₂ ch j force hr
    · rw [hs]
      exact ⟨⟨h.mask, h.mhp, h.shp, h.listed.congr rfl rfl fun _ => rfl,
        fun m hm => h.locked m (Channel.unlocked_eq_some.1 hm).1⟩, rfl, rfl, rfl⟩
    · have hsame : ctrl = ch.ctrl := hctrl.keep (P := (· = ch.ctrl)) (fun _ _ _ h => h) rfl
      rw [hs, hsame]
      have hL : Listed { ch with lockedSub := ch.unlocked j } := h.listed.congr rfl rfl fun _ => rfl
      refine ⟨⟨h.mask, h.mhp, h.shp, hL.leave hr, fun m hm => ?_⟩, rfl, rfl, rfl⟩
      obtain ⟨hm, hmj⟩ := Channel.unlocked_eq_some.1 hm
      rw [leave_status, if_neg hmj]
      exact h.locked m hm
  · rw [ndpSubscriptionStop_stopped ringOps e₁ e₂ ch j force hr]
    refine ⟨h, ?_, rfl, rfl⟩
    have hno : ch.lockedSub ≠ some j := fun hj => hr (h.locked j hj)
    exact (if_neg hno).symm

/-! ### Sync -/

/-- What a grant to `i` leaves behind: the published pointer `p`, and a window of `len` headers behind it. -/
structure Grants (ch : Channel RingCtrl) (i : Nat) (p : U64) (len : Nat) (ch' : Channel RingCtrl) (sync' : SubscriptionSync) : Prop where
  hwptr : sync'.hwptr = p
  length : dist ch.ptrmask sync'.hwptr sync'.swptr = len
  swptr : ch'.swptr = p
  room : len ≤ room ch'
  locked : ch'.lockedSub = if len = 0 then none else some i

/-- A grant behind `swptr`: what was asked for, as far as there is room. -/
theorem ChanOk.grant (h : ChanOk k ch) (e : RingShown) (sync : SubscriptionSync) (hr : (ch.sub i).status = .running) :
    ChanOk k (txsyncGrant ringOps e ch i sync).1 ∧
      Grants ch i ch.swptr (min (dist ch.ptrmask sync.hwptr sync.swptr) (roomAt ch e)) (txsyncGrant ringOps e ch i sync).1
        (txsyncGrant ringOps e ch i sync).2 := by
  have hm := h.mask
  have hlt : roomAt ch e < 2 ^ k := hm.toNat_and_lt _
  have hlen : (umin ((sync.swptr - sync.hwptr) &&& ch.ptrmask) (((ringOps.getHwptr ch.ctrl e).2 - ch.swptr - 1) &&& ch.ptrmask)).toNat =
      min (dist ch.ptrmask sync.hwptr sync.swptr) (roomAt ch e) := toNat_umin _ _
  have hzero : ∀ x : U64, x = 0 ↔ x.toNat = 0 := fun x => by rw [← BitVec.toNat_inj]; rfl
  refine ⟨⟨hm, h.mhp, h.shp, ?_, fun m hm => ?_⟩, ⟨rfl, ?_, rfl, ?_, ?_⟩⟩
  · refine h.listed.congr rfl rfl fun m => ?_
    by_cases hmi : m = i
    · subst hmi
      simp [txsyncGrant]
    · simp [txsyncGrant, hmi]
  · have hmi : m = i := by
      simp only [txsyncGrant] at hm
      split at hm
      · cases hm
      · exact (Option.some.inj hm).symm
    subst hmi
    simpa [txsyncGrant] using hr
  · have hat := (At.add hm.le_width (at_toNat ch.swptr) (at_toNat (umin ((sync.swptr - sync.hwptr) &&& ch.ptrmask)
      (((ringOps.getHwptr ch.ctrl e).2 - ch.swptr - 1) &&& ch.ptrmask)))).and hm
    show ((((ch.swptr + umin ((sync.swptr - sync.hwptr) &&& ch.ptrmask) (((ringOps.getHwptr ch.ctrl e).2 - ch.swptr - 1) &&&
      ch.ptrmask)) &&& ch.ptrmask) - ch.swptr) &&& ch.ptrmask).toNat = _
    rw [hat.toNat_sub_and hm (at_toNat ch.swptr) (Nat.le_add_right _ _) (by omega)]
    omega
  · exact Nat.min_le_right _ _
  · show (if umin ((sync.swptr - sync.hwptr) &&& ch.ptrmask)
      (((ringOps.getHwptr ch.ctrl e).2 - ch.swptr - 1) &&& ch.ptrmask) = 0 then none else some i) = _
    simp only [hzero, hlen]

/-- A sync of a running subscription: somebody else has the lock, or it is granted a window, behind its own pointer if it is the
holder. -/
theorem ChanOk.sync_running (h : ChanOk k ch) (e : RingShown) (sync : SubscriptionSync) (hr : (ch.sub i).status = .running) :
    ∃ ch' sync', ndpSubscriptionSync ringOps .tx e ch i sync = (ch', sync', 0) ∧ ChanOk k ch' ∧
      ((∃ j, j ≠ i ∧ ch.lockedSub = some j ∧ ch'.lockedSub = some j ∧ ch'.swptr = ch.swptr ∧ ch'.ctrl = ch.ctrl ∧
        sync'.hwptr = ch.swptr ∧ sync'.swptr = ch.swptr) ∨
      ((ch.lockedSub = none ∨ ch.lockedSub = some i ∧ sync.hwptr = ch.swptr) ∧
        Grants ch i ch.swptr (min (dist ch.ptrmask sync.hwptr sync.swptr) (roomAt ch e)) ch' sync') ∨
      (ch.lockedSub = some i ∧ sync.hwptr ≠ ch.swptr ∧
        ∃ len ≤ dist ch.ptrmask sync.hwptr sync.swptr, Grants ch i sync.hwptr len ch' sync')) := by
  unfold ndpSubscriptionSync
  rw [if_neg (not_not.2 hr)]
  dsimp only
  unfold ndpChannelTxsync
  by_cases hl : ch.lockedSub = some i
  · rw [if_pos hl]
    by_cases hsw : sync.hwptr = ch.swptr
    · rw [if_neg (not_not.2 hsw)]
      obtain ⟨hok, hg⟩ := h.grant e sync hr
      exact ⟨_, _, rfl, hok, Or.inr (Or.inl ⟨Or.inr ⟨hl, hsw⟩, hg⟩)⟩
    · rw [if_pos hsw]
      have h' : ChanOk k { ch with swptr := sync.hwptr, ctrl := ringOps.setSwptr ch.ctrl e sync.hwptr } :=
        ⟨h.mask, h.mhp, rfl, h.listed.congr rfl rfl fun _ => rfl, h.locked⟩
      obtain ⟨hok, hg⟩ := h'.grant e sync hr
      exact ⟨_, _, rfl, hok, Or.inr (Or.inr ⟨hl, hsw, _, Nat.min_le_left _ _, hg.hwptr, hg.length, hg.swptr, hg.room, hg.locked⟩)⟩
  · rw [if_neg hl]
    by_cases hn : ch.lockedSub = none
    · rw [if_pos hn]
      obtain ⟨hok, hg⟩ := h.grant e sync hr
      exact ⟨_, _, rfl, hok, Or.inr (Or.inl ⟨Or.inl hn, hg⟩)⟩
    · rw [if_neg hn]
      obtain ⟨j, hj⟩ := Option.ne_none_iff_exists'.1 hn
      have hstat : ∀ m, ((Function.update ch.sub i { ch.sub i with hwptr := ch.swptr, swptr := ch.swptr }) m).status =
          (ch.sub m).status := fun m => by
        by_cases hm : m = i
        · subst hm
          rw [Function.update_self]
        · rw [Function.update_of_ne hm]
      refine ⟨_, _, rfl, ⟨h.mask, h.mhp, h.shp, h.listed.congr rfl rfl hstat, fun m hm => (hstat m).trans (h.locked m hm)⟩,
        Or.inl ⟨j, ?_, hj, hj, rfl, rfl, rfl, rfl⟩⟩
      rintro rfl
      exact hl hj

theorem sync_stopped (e : RingShown) (sync : SubscriptionSync) (hr : (ch.sub i).status ≠ .running) :
    ndpSubscriptionSync ringOps .tx e ch i sync = (ch, sync, eBadf) := by
  unfold ndpSubscriptionSync
  rw [if_pos hr]

theorem ChanOk.sync (h : ChanOk k ch) (e : RingShown) (sync : SubscriptionSync) (j : Nat) :
    ChanOk k (ndpSubscriptionSync ringOps .tx e ch j sync).1 ∧ ∀ i, i ≠ j →
      (ndpSubscriptionSync ringOps .tx e ch j sync).1.lockedSub = some i → ch.lockedSub = some i ∧
        (ndpSubscriptionSync ringOps .tx e ch j sync).1.swptr = ch.swptr ∧
        (ndpSubscriptionSync ringOps .tx e ch j sync).1.ctrl = ch.ctrl := by
  by_cases hr : (ch.sub j).status = .running
  · obtain ⟨ch', sync', hs, hok, hcases⟩ := h.sync_running e sync hr
    rw [hs]
    refine ⟨hok, fun i hij hi => ?_⟩
    have hno : ∀ {p len}, ¬Grants ch j p len ch' sync' := fun hg => by
      have hlock := hg.locked
      rw [show ch'.lockedSub = some i from hi] at hlock
      split at hlock
      · cases hlock
      · exact hij (Option.some.inj hlock)
    rcases hcases with ⟨m, -, hm, hm', hsw, hctrl, -⟩ | ⟨-, hg⟩ | ⟨-, -, len, -, hg⟩
    · exact ⟨hm.trans (hm'.symm.trans hi), hsw, hctrl⟩
    · exact absurd hg hno
    · exact absurd hg hno
  · rw [sync_stopped e sync hr]
    exact ⟨h, fun i _ hi => ⟨hi, rfl, rfl⟩⟩

/-- Calls of others than `i` keep the channel in order; a holder `i` has been one before, and the channel stands still for it. -/
theorem ChanOk.other (h : ChanOk k ch) (a : Nat × DriverCall) : ChanOk k (TxRecover.other i ch a) ∧
    ((TxRecover.other i ch a).lockedSub = some i →
      ch.lockedSub = some i ∧ (TxRecover.other i ch a).swptr = ch.swptr ∧ (TxRecover.other i ch a).ctrl = ch.ctrl) := by
  unfold TxRecover.other
  by_cases hj : a.1 = i
  · rw [if_pos hj]
    exact ⟨h, fun hi => ⟨hi, rfl, rfl⟩⟩
  · rw [if_neg hj]
    cases a.2 with
    | start e =>
      obtain ⟨hok, hlock, hsame⟩ := h.start e a.1 { size := 0, hwptr := 0, swptr := 0 }
      refine ⟨hok, fun hi => ?_⟩
      replace hi := hlock.symm.trans hi
      exact ⟨hi, hsame (h.listed.startCount_ne (h.locked i hi))⟩
    | stop e₁ e₂ force =>
      obtain ⟨hok, hlock, hsw, hctrl⟩ := h.stop e₁ e₂ a.1 force
      exact ⟨hok, fun hi => ⟨(Channel.unlocked_eq_some.1 (hlock.symm.trans hi)).1, hsw, hctrl⟩⟩
    | sync sync e =>
      obtain ⟨hok, hsame⟩ := h.sync e sync a.1
      exact ⟨hok, hsame i (Ne.symm hj)⟩

end Chan

/-! ## The queue's side -/

/-- `pos` lies in the window `[hwptr, swptr]` of `sync`. -/
def InWindow (m : U64) (sync : SubscriptionSync) (pos : U32) : Prop :=
  (pos.setWidth 64 - sync.hwptr) &&& m ≤ (sync.swptr - sync.hwptr) &&& m

instance (m : U64) (sync : SubscriptionSync) (pos : U32) : Decidable (InWindow m sync pos) := inferInstanceAs (Decidable (_ ≤ _))

theorem inWindow_iff {m : U64} {sync : SubscriptionSync} {pos : U32} :
    InWindow m sync pos ↔ dist m sync.hwptr (pos.setWidth 64) ≤ dist m sync.hwptr sync.swptr := BitVec.le_def

/-- The request of a lock: as much as there is. -/
def lockRequest (m : U64) (sync : SubscriptionSync) : SubscriptionSync := { sync with swptr := (sync.hwptr - 1) &&& m }

/-- The position after a lock: it is kept if the queue had a window before, as far as it knew. -/
def rebased (sync sync' : SubscriptionSync) (pos : U32) : U32 :=
  if sync.swptr ≠ sync.hwptr then pos else pos + (sync'.hwptr - pos.setWidth 64).setWidth 32

def available (m : U64) (sync' : SubscriptionSync) (pos : U32) : U32 := ((sync'.swptr - pos.setWidth 64) &&& m).setWidth 32

/-- The headers that a lock of somebody who is not the holder can get. -/
def lockRoom (ch : Channel RingCtrl) (e : RingShown) : Nat := if ch.lockedSub = none then roomAt ch e else 0

/-- The queue knows that it has no window, or it is right that it has one, or else its old position happens to be in the new one. -/
def LockFits (i : Nat) (ch : Channel RingCtrl) (e : RingShown) (sync : SubscriptionSync) (pos : U32) : Prop :=
  sync.swptr = sync.hwptr ∨ ch.lockedSub = some i ∨ dist ch.ptrmask ch.swptr (pos.setWidth 64) ≤ lockRoom ch e

instance (i : Nat) (ch : Channel RingCtrl) (e : RingShown) (sync : SubscriptionSync) (pos : U32) :
    Decidable (LockFits i ch e sync pos) := inferInstanceAs (Decidable (_ ∨ _ ∨ _))

/-- What the holder has: its window starts at the channel's `swptr`, and its position and the packets left are inside. -/
structure Held (ch : Channel RingCtrl) (sync : SubscriptionSync) (pos avail : U32) : Prop where
  start : sync.hwptr = ch.swptr
  room : dist ch.ptrmask sync.hwptr (pos.setWidth 64) + avail.toNat ≤ room ch

section Queue

variable {ch : Channel RingCtrl} {i : Nat} {sync : SubscriptionSync} {pos avail : U32}

theorem dist_self (m x : U64) : dist m x x = 0 := by
  simp [dist]

theorem Held.congr {ch' : Channel RingCtrl} (h : Held ch sync pos avail) (hok : ChanOk k ch) (hok' : ChanOk k ch')
    (hsw : ch'.swptr = ch.swptr) (hctrl : ch'.ctrl = ch.ctrl) : Held ch' sync pos avail := by
  have hmask : ch'.ptrmask = ch.ptrmask := hok'.mask.unique hok.mask
  have hroom : TxRecover.room ch' = TxRecover.room ch := by
    unfold TxRecover.room
    rw [hctrl, hsw, hmask]
  exact ⟨h.start.trans hsw.symm, by rw [hmask, hroom]; exact h.room⟩

/-- Handing out `count` of the packets left. -/
theorem Held.hand (h : Held ch sync pos avail) (hok : ChanOk k ch) (hk : k ≤ 32) {count : U32} (hc : count ≤ avail) :
    Held ch sync (pos + count) (avail - count) := by
  have hm := hok.mask
  have hlt := hok.room_lt
  have hroom := h.room
  have hle : count.toNat ≤ avail.toNat := BitVec.le_def.1 hc
  have hpos : At k pos (sync.hwptr.toNat + dist ch.ptrmask sync.hwptr (pos.setWidth 64)) := by
    have hat := ((at_toNat sync.hwptr).add_dist (x := pos.setWidth 64) hm).setWidth hk
    rwa [BitVec.setWidth_setWidth_of_le _ (by decide), BitVec.setWidth_eq] at hat
  have hsum := (At.add hk hpos (at_toNat count)).setWidth (v := 64) hm.le_width
  refine ⟨h.start, ?_⟩
  have hdist : dist ch.ptrmask sync.hwptr ((pos + count).setWidth 64) = dist ch.ptrmask sync.hwptr (pos.setWidth 64) + count.toNat := by
    unfold dist
    rw [hsum.toNat_sub_and hm (at_toNat sync.hwptr) (by omega) (by unfold dist at *; omega)]
    unfold dist
    omega
  rw [hdist, BitVec.toNat_sub_of_le hc]
  omega

theorem dist_rebased (hk : k ≤ 32) {m : U64} (hm : IsMask m k) (sync' : SubscriptionSync) (heq : sync.swptr = sync.hwptr) :
    dist m sync'.hwptr ((rebased sync sync' pos).setWidth 64) = 0 := by
  have hpos : rebased sync sync' pos = sync'.hwptr.setWidth 32 := by
    unfold rebased
    rw [if_neg (not_not.2 heq), Bits.setWidth_sub (by decide), BitVec.setWidth_setWidth_of_le _ (by decide), BitVec.setWidth_eq,
      BitVec.add_comm, BitVec.sub_add_cancel]
  have hat := ((at_toNat sync'.hwptr).setWidth hk).setWidth (v := 64) hm.le_width
  rw [hpos]
  unfold dist
  rw [hat.toNat_sub_and hm (at_toNat _) le_rfl (by simp), Nat.sub_self]

/-- The packets left of a window of `len` headers. -/
theorem toNat_available_of_inWindow (hk : k ≤ 32) {m : U64} (hm : IsMask m k) (h : InWindow m sync pos) :
    (available m sync pos).toNat = dist m sync.hwptr sync.swptr - dist m sync.hwptr (pos.setWidth 64) := by
  have hle := inWindow_iff.1 h
  have hlt := hm.toNat_and_lt (sync.swptr - sync.hwptr)
  have hpow : 2 ^ k ≤ 2 ^ 32 := Nat.pow_le_pow_right (by decide) hk
  have hp := (at_toNat sync.hwptr).add_dist (x := pos.setWidth 64) hm
  have hs := (at_toNat sync.hwptr).add_dist (x := sync.swptr) hm
  unfold dist at hle ⊢
  unfold available
  rw [BitVec.toNat_setWidth, hs.toNat_sub_and hm hp (by omega) (by omega)]
  omega

/-- A lock that succeeds leaves the position inside its window exactly under `LockFits`, and then the queue knows what it has. -/
theorem ChanOk.lock (h : ChanOk k ch) (hk : k ≤ 32) (hheld : ch.lockedSub = some i → Held ch sync pos avail)
    (hr : (ch.sub i).status = .running) (e : RingShown) :
    ∃ ch' sync', ndpSubscriptionSync ringOps .tx e ch i (lockRequest ch.ptrmask sync) = (ch', sync', 0) ∧ ChanOk k ch' ∧
      (InWindow ch.ptrmask sync' (rebased sync sync' pos) ↔ LockFits i ch e sync pos) ∧
      (InWindow ch.ptrmask sync' (rebased sync sync' pos) → ch'.lockedSub = some i →
        Held ch' sync' (rebased sync sync' pos) (available ch.ptrmask sync' (rebased sync sync' pos))) := by
  have hm := h.mask
  obtain ⟨ch', sync', hs, hok, hcases⟩ := h.sync_running e (lockRequest ch.ptrmask sync) hr
  have hmask : ch'.ptrmask = ch.ptrmask := hok.mask.unique hm
  have hwhole : dist ch.ptrmask (lockRequest ch.ptrmask sync).hwptr (lockRequest ch.ptrmask sync).swptr = 2 ^ k - 1 :=
    toNat_lapRequest hm
  have hkept : sync.swptr ≠ sync.hwptr → rebased sync sync' pos = pos := fun hne => if_pos hne
  have hmoved : sync.swptr = sync.hwptr → dist ch.ptrmask sync'.hwptr ((rebased sync sync' pos).setWidth 64) = 0 :=
    dist_rebased hk hm sync'
  refine ⟨ch', sync', hs, hok, ?_, fun hwin hl => ?_⟩
  · unfold LockFits
    rw [inWindow_iff]
    by_cases heq : sync.swptr = sync.hwptr
    · rw [hmoved heq]
      exact iff_of_true (Nat.zero_le _) (Or.inl heq)
    rw [hkept heq, or_iff_right heq]
    rcases hcases with ⟨j, hj, hlock, -, -, -, hhw, hsw⟩ | ⟨hlock, hg⟩ | ⟨hlock, hne, -⟩
    · rw [hhw, hsw, dist_self]
      unfold lockRoom
      rw [hlock, if_neg (by simp), or_iff_right (fun hi => hj (Option.some.inj hi))]
    · rw [hg.length, hg.hwptr, hwhole]
      have hlt : roomAt ch e < 2 ^ k := hm.toNat_and_lt _
      rw [Nat.min_eq_right (by omega)]
      rcases hlock with hlock | ⟨hlock, -⟩
      · unfold lockRoom
        rw [hlock, if_pos rfl, or_iff_right nofun]
      · have hroom := (hheld hlock).room
        rw [(hheld hlock).start] at hroom
        exact iff_of_true (((Nat.le_add_right _ _).trans hroom).trans (h.room_le e)) (Or.inl hlock)
    · exact absurd (hheld hlock).start hne
  · rcases hcases with ⟨j, hj, -, hlock, -⟩ | ⟨-, hg⟩ | ⟨hlock, hne, -⟩
    · exact absurd (Option.some.inj (hlock.symm.trans hl)) hj
    · have hle := inWindow_iff.1 hwin
      have hlen := hg.length
      have hroom := hg.room
      refine ⟨hg.hwptr.trans hg.swptr.symm, ?_⟩
      rw [hmask, toNat_available_of_inWindow hk hm hwin]
      omega
    · exact absurd (hheld hlock).start hne

/-- A flush leaves nobody's lock with `i`, also if it fails. -/
theorem ChanOk.flush (h : ChanOk k ch) (e : RingShown) (sync : SubscriptionSync) (x : U64) :
    ChanOk k (ndpSubscriptionSync ringOps .tx e ch i { sync with hwptr := x, swptr := x }).1 ∧
      (ndpSubscriptionSync ringOps .tx e ch i { sync with hwptr := x, swptr := x }).1.lockedSub ≠ some i := by
  by_cases hr : (ch.sub i).status = .running
  · obtain ⟨ch', sync', hs, hok, hcases⟩ := h.sync_running e { sync with hwptr := x, swptr := x } hr
    have hzero : dist ch.ptrmask x x = 0 := dist_self _ _
    rw [hs]
    refine ⟨hok, ?_⟩
    rcases hcases with ⟨j, hj, -, hlock, -⟩ | ⟨-, hg⟩ | ⟨-, -, len, hlen, hg⟩
    · rw [hlock]
      exact fun hi => hj (Option.some.inj hi)
    · rw [hg.locked, if_pos (by dsimp only; rw [hzero, Nat.zero_min])]
      exact nofun
    · rw [hg.locked, if_pos (Nat.le_zero.1 (hzero ▸ hlen))]
      exact nofun
  · rw [sync_stopped e _ hr]
    exact ⟨h, fun hi => hr (h.locked i hi)⟩

/-! ### The header pointer -/

/-- The item `x` of the header buffer is the one of position `pos`. -/
def Points (k : Nat) (x : Int) (pos : U32) : Prop := (2 : Int) ^ k ∣ x - pos.toNat

theorem Points.slot {x : Int} {n : Nat} (h : Points k x pos) (hn : n = 2 ^ k) : shadowSlot n x = pos.toNat % 2 ^ k := by
  have hmod : x % (2 : Int) ^ k = (pos.toNat : Int) % 2 ^ k :=
    Int.emod_eq_emod_iff_emod_sub_eq_zero.2 (Int.emod_eq_zero_of_dvd h)
  unfold shadowSlot
  rw [hn]
  push_cast
  rw [hmod]
  exact_mod_cast Int.toNat_natCast _

theorem Points.add (hk : k ≤ 32) {x : Int} (h : Points k x pos) (y : U32) : Points k (x + y.toInt) (pos + y) := by
  have hdvd : (2 : Int) ^ k ∣ 2 ^ 32 := pow_dvd_pow 2 hk
  obtain ⟨c, hc⟩ : ∃ c : Int, x + y.toInt - ((pos + y).toNat : Int) = x - pos.toNat + 2 ^ 32 * c := by
    rw [BitVec.toNat_add, BitVec.toInt_eq_toNat_cond]
    have hy := y.isLt
    have hp := pos.isLt
    split
    · by_cases hlt : pos.toNat + y.toNat < 2 ^ 32
      · exact ⟨0, by omega⟩
      · exact ⟨1, by omega⟩
    · by_cases hlt : pos.toNat + y.toNat < 2 ^ 32
      · exact ⟨-1, by omega⟩
      · exact ⟨0, by omega⟩
  unfold Points
  rw [hc]
  exact (dvd_add_right h).2 (hdvd.mul_right c)

theorem Points.hand (hk : k ≤ 32) {x : Int} (h : Points k x pos) (count : U32) : Points k (x + count.toNat) (pos + count) := by
  have hdvd : (2 : Int) ^ k ∣ 2 ^ 32 := pow_dvd_pow 2 hk
  obtain ⟨c, hc⟩ : ∃ c : Int, x + count.toNat - ((pos + count).toNat : Int) = x - pos.toNat + 2 ^ 32 * c := by
    rw [BitVec.toNat_add]
    have hp := pos.isLt
    have hy := count.isLt
    by_cases hlt : pos.toNat + count.toNat < 2 ^ 32
    · exact ⟨0, by omega⟩
    · exact ⟨1, by omega⟩
  unfold Points
  rw [hc]
  exact (dvd_add_right h).2 (hdvd.mul_right c)

end Queue

end TxRecover

end NdkSw.Ndp

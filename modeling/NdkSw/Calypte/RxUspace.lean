/-
The sync of an exclusive RX queue in userspace against the driver's sync. Beside the queue runs the
driver's channel, which gets every request the queue would otherwise pass to it. The loop in userspace
always ends, and what it releases is the same; the hardware pointer is the same as long as the valid flag
of the queue belongs to the lap the search begins in.
-/
import NdkSw.Calypte.RxDeliver

namespace NdkSw.Calypte

open Ndp Ring

variable {k : Nat} {ch : Channel RxCtrl} {q : RxQueue}

/-! ## The system -/

/-- The queue, and the driver's channel as the queue's requests would drive it. -/
structure UsRx where
  q : RxQueue
  ch : Channel RxCtrl

inductive UsRxAct
  | receive (hdr : V3PacketHdr)
  | get (count : U32)
  | put

namespace UsRx

/-- The queue of an exclusive channel after its first start. -/
def started (k hdrBufferSize : Nat) (hdr : Nat → V3PacketHdr) (o : Nat → V3RxOpen) : UsRx :=
  let s := (RxV3.opened k hdrBufferSize hdr true o).step (.start 0 RxV3.idle)
  { q := s.q 0, ch := s.ch }

/-- The hardware writes a header unless that overruns `swptr`. -/
def receive (s : UsRx) (hdr : V3PacketHdr) : UsRx :=
  { s with ch := (RxV3.receive { ch := s.ch, q := fun _ => s.q, start := fun _ => 0, gets := fun _ => [] } hdr).ch }

/-- The driver's channel after the same request. -/
def driverSync (ch : Channel RxCtrl) (sync : SubscriptionSync) : Channel RxCtrl :=
  (ndpChannelRxsync rxOps RxV3.idle ch 0 sync).1

def step (s : UsRx) : UsRxAct → UsRx
  | .receive hdr => s.receive hdr
  | .get count =>
    { q := (ncNdpV3RxBurstGet RxV3.idle 0 s.ch s.q count).2.1
      ch := if s.q.pktsAvailable < count then driverSync s.ch s.q.sync else s.ch }
  | .put =>
    { q := (ncNdpV3RxBurstPut RxV3.idle 0 s.ch s.q).2.1
      ch := driverSync s.ch { s.q.sync with swptr := (s.q.shp &&& s.q.hdrPtrMask).setWidth 64 } }

/-- The queue has released the same headers and blocks as the driver's channel. -/
structure SameReleased (s : UsRx) : Prop where
  shp : s.q.uspaceShp = s.ch.ctrl.shp
  sdp : s.q.uspaceSdp = s.ch.ctrl.sdp

/-- The queue and the driver's channel agree on the hardware pointer too. -/
structure Agrees (s : UsRx) : Prop extends SameReleased s where
  hwptr : s.q.sync.hwptr = s.ch.hwptr
  hhp : s.q.uspaceHhp = s.ch.ctrl.hhp

/-- The search for the hardware pointer begins in the lap of the last put, or there is nothing to find. -/
def InLap (s : UsRx) : Prop :=
  s.q.sync.swptr.toNat ≤ s.q.uspaceHhp.toNat ∨ s.q.uspaceHhp.toNat = s.ch.ctrl.log.length % s.ch.ctrl.hdrCount

instance (s : UsRx) : Decidable s.InLap := inferInstanceAs (Decidable (_ ∨ _))

/-- The condition on a step: if it syncs, it does so in lap. -/
def SyncsInLap (s : UsRx) : UsRxAct → Prop
  | .receive _ => True
  | .get count => s.q.pktsAvailable < count → s.InLap
  | .put => s.InLap

instance (s : UsRx) : (a : UsRxAct) → Decidable (SyncsInLap s a)
  | .receive _ => inferInstanceAs (Decidable True)
  | .get count => inferInstanceAs (Decidable (s.q.pktsAvailable < count → s.InLap))
  | .put => inferInstanceAs (Decidable s.InLap)

end UsRx

/-! ## The loop ends -/

/-- The loop of `_ndp_queue_rx_sync_v3_us` leaves within `n` rounds. -/
def uspaceStops (hdr : Nat → V3PacketHdr) (q : RxQueue) : Nat → U32 → U8 → Bool
  | 0, _, _ => false
  | n + 1, hhp, vldFlag =>
    if invalid (hdr (q.slot hhp.toNat)) vldFlag then true
    else
      let hhp := (hhp + 1) &&& q.uspaceMhp
      uspaceStops hdr q n hhp (if hhp = 0 then vldFlag ^^^ 1 else vldFlag)

section Stops

variable {hdr : Nat → V3PacketHdr} {q : RxQueue}

theorem uspaceScan_more : ∀ (n m : Nat) (hhp : U32) (flag : U8), uspaceStops hdr q n hhp flag = true →
    uspaceScan hdr q (n + m) hhp flag = uspaceScan hdr q n hhp flag
  | 0, _, _, _, h => by cases h
  | n + 1, m, hhp, flag, h => by
    rw [uspaceStops] at h
    rw [show n + 1 + m = (n + m) + 1 by omega, uspaceScan, uspaceScan]
    by_cases hinv : invalid (hdr (q.slot hhp.toNat)) flag = true
    · rw [if_pos hinv, if_pos hinv]
    · rw [if_neg hinv] at h ⊢
      rw [if_neg hinv]
      exact uspaceScan_more n m _ _ h

theorem uspaceStops_more : ∀ (n m : Nat) (hhp : U32) (flag : U8), uspaceStops hdr q n hhp flag = true →
    uspaceStops hdr q (n + m) hhp flag = true
  | 0, _, _, _, h => by cases h
  | n + 1, m, hhp, flag, h => by
    rw [uspaceStops] at h
    rw [show n + 1 + m = (n + m) + 1 by omega, uspaceStops]
    by_cases hinv : invalid (hdr (q.slot hhp.toNat)) flag = true
    · rw [if_pos hinv]
    · rw [if_neg hinv] at h ⊢
      exact uspaceStops_more n m _ _ h

/-- From slot `p` on it takes at most `d` rounds to slot 0, where the flag flips. -/
theorem uspaceStops_to_zero (hm : IsMask q.uspaceMhp k) (b : Bool) : ∀ (d n : Nat) (hhp : U32),
    hhp.toNat + (d + 1) = 2 ^ k → uspaceStops hdr q n 0 (lapFlag (!b)) = true →
    uspaceStops hdr q (d + 1 + n) hhp (lapFlag b) = true
  | 0, n, hhp, hd, hz => by
    have hnext : (hhp + 1) &&& q.uspaceMhp = 0 := by
      refine BitVec.eq_of_toNat_eq ?_
      rw [(At.add hm.le_width (at_toNat hhp) (show At k (1 : U32) 1 from Nat.ModEq.refl 1)).toNat_and hm, ← hd, Nat.mod_self]
      rfl
    rw [show 0 + 1 + n = n + 1 by omega, uspaceStops]
    split
    · rfl
    · simp only [hnext, if_true, lapFlag_flip]
      exact hz
  | d + 1, n, hhp, hd, hz => by
    have hone : ((hhp + 1) &&& q.uspaceMhp).toNat = hhp.toNat + 1 := by
      rw [(At.add hm.le_width (at_toNat hhp) (show At k (1 : U32) 1 from Nat.ModEq.refl 1)).toNat_and hm, Nat.mod_eq_of_lt (by omega)]
    have hne : ¬ (hhp + 1) &&& q.uspaceMhp = 0 := by
      intro h0
      have := congrArg BitVec.toNat h0
      rw [hone] at this
      exact absurd this (by simp)
    rw [show d + 1 + 1 + n = (d + 1 + n) + 1 by omega, uspaceStops]
    split
    · rfl
    · simp only [if_neg hne]
      exact uspaceStops_to_zero hm b d n _ (by omega) hz

/-- Whatever the ring holds, the loop leaves before it has been around twice: at one of two visits of slot
0 the flag is wrong. -/
theorem uspaceStops_twice (hm : IsMask q.uspaceMhp k) (b : Bool) (hhp : U32) (hlt : hhp.toNat < 2 ^ k) :
    uspaceStops hdr q (2 * 2 ^ k) hhp (lapFlag b) = true := by
  have hpos : 0 < 2 ^ k := by positivity
  -- at slot 0 with either flag the loop leaves within one lap and one round
  have hzero : ∀ c : Bool, uspaceStops hdr q (2 ^ k + 1) 0 (lapFlag c) = true := by
    intro c
    by_cases hinv : invalid (hdr (q.slot (0 : U32).toNat)) (lapFlag c) = true
    · rw [uspaceStops, if_pos hinv]
    · have hback : uspaceStops hdr q 1 0 (lapFlag (!c)) = true := by
        rw [uspaceStops]
        rw [invalid_lapFlag] at hinv ⊢
        rw [if_pos]
        revert hinv
        cases validBit (hdr (q.slot (0 : U32).toNat)) <;> cases c <;> simp
      have := uspaceStops_to_zero hm c (2 ^ k - 1) 1 0 (by simp; omega) hback
      rwa [show 2 ^ k - 1 + 1 + 1 = 2 ^ k + 1 by omega] at this
  rcases Nat.eq_zero_or_pos hhp.toNat with h0 | h0
  · rw [BitVec.eq_of_toNat_eq (y := 0) h0, show 2 * 2 ^ k = 2 ^ k + 1 + (2 ^ k - 1) by omega]
    exact uspaceStops_more _ _ _ _ (hzero b)
  · have h1 := uspaceStops_to_zero hm b (2 ^ k - hhp.toNat - 1) (2 ^ k + 1) hhp (by omega) (hzero !b)
    have h2 := uspaceStops_more _ (hhp.toNat - 1) _ _ h1
    rwa [show 2 ^ k - hhp.toNat - 1 + 1 + (2 ^ k + 1) + (hhp.toNat - 1) = 2 * 2 ^ k by omega] at h2

end Stops

/-! ## Releasing -/

theorem driverSync_released (hl : ch.listSubscriptions = [0]) (sync : SubscriptionSync) :
    (UsRx.driverSync ch sync).swptr = sync.swptr ∧ (UsRx.driverSync ch sync).ctrl.mdp = ch.ctrl.mdp ∧
    (UsRx.driverSync ch sync).ctrl.mhp = ch.ctrl.mhp ∧
    (UsRx.driverSync ch sync).ctrl.shp = (if sync.swptr ≠ ch.swptr then ndpCtrlCalypteRxSetSwptr ch.ctrl sync.swptr else ch.ctrl).shp ∧
    (UsRx.driverSync ch sync).ctrl.sdp = (if sync.swptr ≠ ch.swptr then ndpCtrlCalypteRxSetSwptr ch.ctrl sync.swptr else ch.ctrl).sdp := by
  have hfar : (farthestSwptr { ch with
      listSubscriptions := [0], sub := Function.update ch.sub 0 { ch.sub 0 with swptr := sync.swptr } }
      (0, sync.swptr) [0]).2 = sync.swptr := by
    simp only [farthestSwptr, List.foldl_cons, List.foldl_nil, Function.update_self]
    split <;> rfl
  unfold UsRx.driverSync ndpChannelRxsync
  simp only [hl, Function.update_self, hfar]
  by_cases hne : sync.swptr ≠ ch.swptr
  · simp only [if_pos hne]
    exact ⟨trivial, rfl, rfl, rfl, rfl⟩
  · simp only [if_neg hne]
    exact ⟨(not_not.1 hne).symm, rfl, rfl, rfl, rfl⟩

/-- What the queue and the driver's channel must share for their releases to stay the same. -/
structure Releasing (k : Nat) (q : RxQueue) (ch : Channel RxCtrl) : Prop where
  shp : q.uspaceShp = ch.ctrl.shp
  sdp : q.uspaceSdp = ch.ctrl.sdp
  mhp : q.uspaceMhp = ch.ctrl.mhp
  mdp : q.uspaceMdp = ch.ctrl.mdp
  swptr : ch.swptr = ch.ctrl.shp.setWidth 64
  mask : IsMask q.hdrPtrMask k
  count : ch.ctrl.hdrCount = 2 ^ k
  list : ch.listSubscriptions = [0]

/-- A request releases the same in both. -/
theorem Releasing.sync (hR : Releasing k q ch) (hk : k ≤ 31) (hm : IsMask q.uspaceMhp k) (hsw : q.sync.swptr.toNat < 2 ^ k)
    (hcount : (UsRx.driverSync ch q.sync).ctrl.hdrCount = 2 ^ k) (hlist : (UsRx.driverSync ch q.sync).listSubscriptions = [0]) :
    Releasing k (ndpQueueRxSyncV3Us ch.ctrl.hdr q) (UsRx.driverSync ch q.sync) := by
  obtain ⟨h1, h2, h3, h4, h5⟩ := driverSync_released hR.list q.sync
  have h32 : 2 ^ k < 2 ^ 32 := Nat.pow_lt_pow_right (by norm_num) (by omega)
  have hcond : (q.sync.swptr ≠ ch.swptr) = (q.sync.swptr ≠ q.uspaceShp.setWidth 64) := by rw [hR.swptr, hR.shp]
  -- the headers counted and their blocks
  have hn : ((q.sync.swptr - q.uspaceShp.setWidth 64) &&& q.uspaceMhp.setWidth 64).toNat < 2 ^ 32 :=
    lt_trans ((hm.setWidth (v := 64) (by omega)).toNat_and_lt _) h32
  have hblks : ((List.range (((q.sync.swptr - q.uspaceShp.setWidth 64) &&& q.uspaceMhp.setWidth 64).setWidth 32 : U32).toNat).map
        fun i => blocks (ch.ctrl.hdr (q.slot (q.uspaceShp.toNat + i)))).sum =
      ((List.range ((q.sync.swptr - ch.ctrl.shp.setWidth 64) &&& ch.ctrl.mhp.setWidth 64).toNat).map
        fun i => blocks (ch.ctrl.hdr ((ch.ctrl.shp.toNat + i) % ch.ctrl.hdrCount))).sum := by
    rw [BitVec.toNat_setWidth, Nat.mod_eq_of_lt hn, hR.shp, hR.mhp, hR.count]
    unfold RxQueue.slot
    rw [hR.mask]
  simp only [hcond] at h4 h5
  unfold ndpQueueRxSyncV3Us
  simp only
  by_cases hne : q.sync.swptr ≠ q.uspaceShp.setWidth 64
  · simp only [if_pos hne] at h4 h5 ⊢
    refine ⟨h4.symm, ?_, hR.mhp.trans h3.symm, hR.mdp.trans h2.symm, ?_, hR.mask, hcount, hlist⟩
    · rw [h5]
      simp only [hblks, ndpCtrlCalypteRxSetSwptr, hR.sdp, hR.mdp]
    · rw [h1, h4]
      refine BitVec.eq_of_toNat_eq ?_
      simp only [ndpCtrlCalypteRxSetSwptr]
      rw [toNat_setWidth64, BitVec.toNat_setWidth, Nat.mod_eq_of_lt (by omega)]
  · simp only [if_neg hne] at h4 h5 ⊢
    refine ⟨hR.shp.trans h4.symm, hR.sdp.trans h5.symm, hR.mhp.trans h3.symm, hR.mdp.trans h2.symm, ?_, hR.mask, hcount, hlist⟩
    rw [h1, h4, not_not.1 hne, hR.shp]

/-! ## Gets and puts -/

/-- The fields of a queue that a get changes by its sync only. -/
structure SameUspace (q q' : RxQueue) : Prop where
  hwptr : q'.sync.hwptr = q.sync.hwptr
  shp : q'.uspaceShp = q.uspaceShp
  sdp : q'.uspaceSdp = q.uspaceSdp
  hhp : q'.uspaceHhp = q.uspaceHhp
  mhp : q'.uspaceMhp = q.uspaceMhp
  mdp : q'.uspaceMdp = q.uspaceMdp
  mask : q'.hdrPtrMask = q.hdrPtrMask
  userspace : q'.userspace = q.userspace

theorem rxSync_uspace (hu : q.userspace = true) (e : RxShown) (i : Nat) (ch : Channel RxCtrl) :
    rxSync e i ch q = (ch, ndpQueueRxSyncV3Us ch.ctrl.hdr q, 0) := by
  unfold rxSync
  rw [if_pos hu]

theorem rxGet_uspace (hu : q.userspace = true) (e : RxShown) (i : Nat) (ch : Channel RxCtrl) (count : U32) :
    SameUspace (if q.pktsAvailable < count then ndpQueueRxSyncV3Us ch.ctrl.hdr q else q)
      (ncNdpV3RxBurstGet e i ch q count).2.1 := by
  unfold ncNdpV3RxBurstGet
  by_cases hshort : q.pktsAvailable < count
  · simp only [hshort, if_true, true_and, ncNdpV3RxLock, rxSync_uspace hu, ne_eq, not_true_eq_false, if_false]
    split <;> exact ⟨rfl, rfl, rfl, rfl, rfl, rfl, rfl, rfl⟩
  · simp only [hshort, if_false, false_and]
    exact ⟨rfl, rfl, rfl, rfl, rfl, rfl, rfl, rfl⟩

theorem rxPut_uspace (hu : q.userspace = true) (e : RxShown) (i : Nat) (ch : Channel RxCtrl) :
    SameUspace (ndpQueueRxSyncV3Us ch.ctrl.hdr { q with sync := { q.sync with swptr := (q.shp &&& q.hdrPtrMask).setWidth 64 } })
      (ncNdpV3RxBurstPut e i ch q).2.1 := by
  have hu' : ({ q with sync := { q.sync with swptr := (q.shp &&& q.hdrPtrMask).setWidth 64 } } : RxQueue).userspace = true := hu
  unfold ncNdpV3RxBurstPut ncNdpV3RxUnlock
  simp only [rxSync_uspace hu']
  split <;> exact ⟨rfl, rfl, rfl, rfl, rfl, rfl, rfl, rfl⟩

theorem Releasing.same {q' : RxQueue} (hR : Releasing k q ch) (hs : SameUspace q q') : Releasing k q' ch :=
  ⟨hs.shp.trans hR.shp, hs.sdp.trans hR.sdp, hs.mhp.trans hR.mhp, hs.mdp.trans hR.mdp, hR.swptr,
    by rw [hs.mask]; exact hR.mask, hR.count, hR.list⟩

theorem rxGet_sub {hc : Nat} {i rel r h : Nat} (hF : RxFrame k ch) (hH : RxSeen k hc ch) (hr : (ch.sub i).status = .running)
    (hS : RxSub k ch.ctrl.log.length q rel r h) (hu : q.userspace = true) (e : RxShown) (count : U32) :
    ∃ h' r', RxSub k ch.ctrl.log.length (ncNdpV3RxBurstGet e i ch q count).2.1 rel r' h' ∧
      if q.pktsAvailable < count then Looked k ch.ctrl.log.length true rel h h' else h' = h := by
  have hhc : q.userspace = false → h ≤ hc := fun hf => absurd (hu.symm.trans hf) (by simp)
  unfold ncNdpV3RxBurstGet
  by_cases hshort : q.pktsAvailable < count
  · obtain ⟨ch', q', hc', h', hlock, _, _, _, hS', _, _, hL, _⟩ := rxLock_spec hF hH hr hS hhc e
    rw [hu] at hL
    simp only [hshort, if_true, true_and, hlock]
    by_cases h0 : umin q'.pktsAvailable count = 0
    · rw [if_pos h0]
      exact ⟨h', r, hS', hL⟩
    · rw [if_neg h0]
      exact ⟨h', _, hS'.take (by rw [toNat_umin]; exact Nat.min_le_left _ _) _, hL⟩
  · have hle : count.toNat ≤ q.pktsAvailable.toNat := Nat.le_of_not_lt fun hlt => hshort (BitVec.lt_def.2 hlt)
    simp only [hshort, if_false, false_and]
    exact ⟨h, _, hS.take hle _, rfl⟩

/-! ## The invariant -/

namespace UsRx

/-- In a run whose syncs are in lap the driver's scan stands where the queue's does. -/
structure Inv (k : Nat) (s : UsRx) : Prop where
  frame : RxFrame k s.ch
  running : (s.ch.sub 0).status = .running
  userspace : s.q.userspace = true
  releasing : Releasing k s.q s.ch
  hwptr : s.q.sync.hwptr = s.ch.hwptr
  subs : ∃ rel r h, RxSub k s.ch.ctrl.log.length s.q rel r h ∧ RxSeen k h s.ch

variable {s : UsRx}

theorem Inv.hdrCount (hI : Inv k s) : s.ch.ctrl.hdrCount = 2 ^ k := hI.releasing.count

/-- `InLap` in positions. -/
theorem inLap_iff (hI : Inv k s) {rel r h : Nat} (hS : RxSub k s.ch.ctrl.log.length s.q rel r h) :
    s.InLap ↔ rel % 2 ^ k ≤ h % 2 ^ k ∨ h = s.ch.ctrl.log.length := by
  have hle := hS.le
  have hshown := hS.shown
  have hseen := hS.seen
  have hlap := hS.lap
  unfold InLap
  rw [hS.swptr, (hS.uspace hI.userspace).1, hI.hdrCount]
  refine or_congr Iff.rfl ⟨fun heq => ?_, fun heq => by rw [heq]⟩
  exact slot_inj heq (by omega) (by omega)

theorem Looked.all_iff (hI : Inv k s) {rel r h h' : Nat} (hS : RxSub k s.ch.ctrl.log.length s.q rel r h)
    (hL : Looked k s.ch.ctrl.log.length true rel h h') : h' = s.ch.ctrl.log.length ↔ s.InLap := by
  rw [inLap_iff hI hS]
  by_cases hsame : rel % 2 ^ k ≤ h % 2 ^ k
  · exact ⟨fun _ => Or.inl hsame, fun _ => hL.all fun _ => hsame⟩
  · rw [hL.none rfl hsame]
    exact ⟨Or.inr, fun h => h.resolve_left hsame⟩

theorem Inv.driver (hI : Inv k s) (sync : SubscriptionSync) :
    SameRing s.ch (driverSync s.ch sync) ∧ RxSeen k s.ch.ctrl.log.length (driverSync s.ch sync) := by
  obtain ⟨rel, r, h, hS, hH⟩ := hI.subs
  have hle := hS.le
  have hshown := hS.shown
  have hlap := hS.lap
  obtain ⟨ch', hwptr, hsync, hs, hH', _⟩ := rxsync_spec hI.frame hH (hI.frame.listed.startCount_ne hI.running) (by omega)
    RxV3.idle 0 sync
  have hd : driverSync s.ch sync = ch' := by
    unfold driverSync
    rw [hsync]
  rw [hd]
  exact ⟨hs, hH'⟩

/-- The state after a sync that looked at the first `h` headers. -/
structure Synced (k : Nat) (s s' : UsRx) (h : Nat) : Prop where
  ring : SameRing s.ch s'.ch
  seen : RxSeen k s.ch.ctrl.log.length s'.ch
  userspace : s'.q.userspace = true
  releasing : Releasing k s'.q s'.ch
  hwptr : s'.q.sync.hwptr = s'.q.uspaceHhp.setWidth 64
  sub : ∃ rel r, RxSub k s.ch.ctrl.log.length s'.q rel r h
  inLap : h = s.ch.ctrl.log.length ↔ s.InLap

theorem Synced.inv {s' : UsRx} {h : Nat} (hI : Inv k s) (hY : Synced k s s' h) (hin : s.InLap) : Inv k s' := by
  obtain ⟨rel, r, hS⟩ := hY.sub
  have hh := hY.inLap.2 hin
  have hlog := hY.ring.log
  refine ⟨hI.frame.same hY.ring, by rw [hY.ring.status]; exact hI.running, hY.userspace, hY.releasing, ?_, rel, r, h, ?_, ?_⟩
  · rw [hY.hwptr]
    refine BitVec.eq_of_toNat_eq ?_
    rw [toNat_setWidth64, (hS.uspace hY.userspace).1, hY.seen.hwptr, hh]
  · rw [hlog]
    exact hS
  · rw [hh]
    exact hY.seen

theorem Synced.agrees_iff {s' : UsRx} {h : Nat} (hY : Synced k s s' h) : Agrees s' ↔ s.InLap := by
  obtain ⟨rel, r, hS⟩ := hY.sub
  have hle := hS.le
  have hshown := hS.shown
  have hseen := hS.seen
  have hlap := hS.lap
  have hhhp := (hS.uspace hY.userspace).1
  rw [← hY.inLap]
  constructor
  · intro hA
    have := congrArg BitVec.toNat hA.hhp
    rw [hhhp, hY.seen.hhp] at this
    exact slot_inj this (by omega) (by omega)
  · rintro rfl
    refine ⟨⟨hY.releasing.shp, hY.releasing.sdp⟩, ?_, BitVec.eq_of_toNat_eq (by rw [hhhp, hY.seen.hhp])⟩
    rw [hY.hwptr]
    refine BitVec.eq_of_toNat_eq ?_
    rw [toNat_setWidth64, hhhp, hY.seen.hwptr]

theorem Inv.get_synced (hI : Inv k s) {count : U32} (hshort : s.q.pktsAvailable < count) : ∃ h, Synced k s (s.step (.get count)) h := by
  obtain ⟨rel, r, h, hS, hH⟩ := hI.subs
  obtain ⟨hring, hseen⟩ := hI.driver s.q.sync
  obtain ⟨h', r', hS', hL⟩ := rxGet_sub hI.frame hH hI.running hS hI.userspace RxV3.idle count
  have hsame := rxGet_uspace hI.userspace RxV3.idle 0 s.ch count
  rw [if_pos hshort] at hL hsame
  have hrel := hI.releasing.sync hI.frame.k31 (hS.uspace hI.userspace).2
    (by rw [hS.swptr]; exact Nat.mod_lt _ (by positivity)) (by rw [RxCtrl.hdrCount, hring.ctrlMask]; exact hI.hdrCount)
    (by rw [hring.list]; exact hI.releasing.list)
  simp only [step, if_pos hshort]
  have hus : (ndpQueueRxSyncV3Us s.ch.ctrl.hdr s.q).userspace = true := by
    unfold ndpQueueRxSyncV3Us
    simp only
    split <;> exact hI.userspace
  refine ⟨h', hring, hseen, hsame.userspace.trans hus, hrel.same hsame, ?_, ⟨rel, r', hS'⟩, Looked.all_iff hI hS hL⟩
  rw [hsame.hwptr, hsame.hhp]
  rfl

theorem Inv.put_synced (hI : Inv k s) : ∃ h, Synced k s (s.step .put) h := by
  obtain ⟨rel, r, h, hS, hH⟩ := hI.subs
  have hsw : ((s.q.shp &&& s.q.hdrPtrMask).setWidth 64 : U64).toNat < 2 ^ k := by
    rw [toNat_setWidth64]
    exact hS.mask.toNat_and_lt _
  obtain ⟨hring, hseen⟩ := hI.driver { s.q.sync with swptr := (s.q.shp &&& s.q.hdrPtrMask).setWidth 64 }
  obtain ⟨ch', q', hc', h', hput, _, _, _, hS', _, _, hmode, hL⟩ :=
    rxPut_spec hI.frame hH hI.running hS (fun _ => le_rfl) RxV3.idle
  rw [hI.userspace] at hL
  have hsame := rxPut_uspace hI.userspace RxV3.idle 0 s.ch
  have hR₁ : Releasing k { s.q with sync := { s.q.sync with swptr := (s.q.shp &&& s.q.hdrPtrMask).setWidth 64 } } s.ch :=
    ⟨hI.releasing.shp, hI.releasing.sdp, hI.releasing.mhp, hI.releasing.mdp, hI.releasing.swptr, hI.releasing.mask,
      hI.releasing.count, hI.releasing.list⟩
  have hrel := hR₁.sync hI.frame.k31 (hS.uspace hI.userspace).2 hsw
    (by rw [RxCtrl.hdrCount, hring.ctrlMask]; exact hI.hdrCount) (by rw [hring.list]; exact hI.releasing.list)
  rw [hput] at hsame
  simp only [step, hput]
  refine ⟨h', hring, hseen, hmode.trans hI.userspace, hrel.same hsame, ?_, ⟨_, _, hS'⟩, Looked.all_iff hI hS hL⟩
  rw [hsame.hwptr, hsame.hhp]
  rfl

/-! ## Runs -/

theorem Inv.receive (hI : Inv k s) (hdr : V3PacketHdr) : Inv k (s.receive hdr) := by
  obtain ⟨rel, r, h, hS, hH⟩ := hI.subs
  have hF := hI.frame
  unfold UsRx.receive RxV3.receive
  simp only
  split
  · exact hI
  rename_i hgo
  obtain ⟨h0, hroom⟩ := not_or.1 hgo
  rw [not_not] at hroom
  have hle := hS.le
  have hshown := hS.shown
  have hseen := hS.seen
  have hlap := hS.lap
  have hne : s.ch.ctrl.log.length - rel ≠ 2 ^ k - 1 := by
    intro heq
    refine hroom 0 ((hF.listed.list 0).2 hI.running) (BitVec.eq_of_toNat_eq ?_)
    show ((BitVec.ofNat 64 s.ch.ctrl.log.length - s.q.sync.swptr) &&& s.ch.ctrl.ptrmask).toNat = s.ch.ctrl.ptrmask.toNat
    rw [hF.ptrmask, (at_ofNat hF.mask.le_width _).toNat_sub_and hF.mask (at_of_mod hS.swptr) (by omega) (by omega), heq,
      hF.mask.toNat_eq]
  rw [hI.hdrCount]
  have hR := hI.releasing
  refine ⟨⟨hF.k31, hF.mask, hF.ptrmask, hF.size, hF.listed.congr rfl rfl fun _ => rfl, fun h => (hF.written h).receive _ rfl⟩,
    hI.running, hI.userspace, ⟨hR.shp, hR.sdp, hR.mhp, hR.mdp, hR.swptr, hR.mask, hR.count, hR.list⟩, hI.hwptr,
    rel, r, h, ⟨hle, hshown, ?_, ?_, hS.swptr, hS.shp, hS.flag, hS.mask, hS.uspace⟩, hH.hhp, hH.flag, hH.hwptr, ?_⟩
  · simp only [List.length_append]
    omega
  · simp only [List.length_append, List.length_singleton]
    omega
  · simp only [List.length_append]
    omega

theorem Inv.step (s : UsRx) (a : UsRxAct) (ha : SyncsInLap s a) (hI : Inv k s) : Inv k (s.step a) := by
  cases a with
  | receive hdr => exact hI.receive hdr
  | get count =>
    by_cases hshort : s.q.pktsAvailable < count
    · obtain ⟨h, hY⟩ := hI.get_synced hshort
      exact hY.inv hI (ha hshort)
    · obtain ⟨rel, r, h, hS, hH⟩ := hI.subs
      obtain ⟨h', r', hS', rfl⟩ := by
        simpa only [if_neg hshort] using rxGet_sub hI.frame hH hI.running hS hI.userspace RxV3.idle count
      have hsame := rxGet_uspace hI.userspace RxV3.idle 0 s.ch count
      rw [if_neg hshort] at hsame
      simp only [UsRx.step, if_neg hshort]
      exact ⟨hI.frame, hI.running, hsame.userspace.trans hI.userspace, hI.releasing.same hsame, hsame.hwptr.trans hI.hwptr,
        rel, r', h', hS', hH⟩
  | put =>
    obtain ⟨h, hY⟩ := hI.put_synced
    exact hY.inv hI ha

theorem started_releasing (hk : k ≤ 31) (hdrBufferSize : Nat) (hdr : Nat → V3PacketHdr) (o : Nat → V3RxOpen) :
    Releasing k (started k hdrBufferSize hdr o).q (started k hdrBufferSize hdr o).ch := by
  have hI := RxV3.inv_opened hk (le_refl (2 ^ k)) hdr true o
  exact ⟨rfl, rfl, rfl, rfl, rfl, hI.masks 0, hI.hdrCount, rfl⟩

theorem started_inv (hk : k ≤ 31) {hdrBufferSize : Nat} (hsize : 2 ^ k ≤ hdrBufferSize) (hdr : Nat → V3PacketHdr)
    (o : Nat → V3RxOpen) : Inv k (started k hdrBufferSize hdr o) := by
  have hI := (RxV3.inv_opened hk hsize hdr true o).start 0 RxV3.idle (fun _ _ => ⟨rfl, ?_, fun _ => ⟨rfl, rfl⟩⟩)
  · have hrun : (((RxV3.opened k hdrBufferSize hdr true o).step (.start 0 RxV3.idle)).ch.sub 0).status = .running := rfl
    obtain ⟨hc, hQ⟩ := hI.queues (hI.frame.listed.startCount_ne hrun)
    obtain ⟨rel, h, hS, _⟩ := hQ.subs 0 hrun
    have hzero : ((RxV3.opened k hdrBufferSize hdr true o).step (.start 0 RxV3.idle)).ch.ctrl.log.length = 0 := rfl
    have hseen := hS.seen
    have hle := hQ.seen.le
    obtain rfl : hc = h := by omega
    exact ⟨hI.frame, hrun, rfl, started_releasing hk hdrBufferSize hdr o, rfl, rel, _, hc, hS, hQ.seen⟩
  · show (1 : U8) = lapFlag (lapBit _ 0)
    rw [lapBit_zero]
    rfl

/-- What holds of the queue at any time: it agrees with the driver's channel; the loop of its next sync ends;
a sync releases the same as the driver's, and finds the same hardware pointer exactly if it is in lap. -/
structure Refines (s : UsRx) : Prop where
  agrees : Agrees s
  ends : uspaceStops s.ch.ctrl.hdr s.q (2 * s.ch.ctrl.hdrCount) s.q.uspaceHhp s.q.validFlag = true
  enough : ∀ m, uspaceScan s.ch.ctrl.hdr s.q (2 * s.ch.ctrl.hdrCount + m) s.q.uspaceHhp s.q.validFlag =
    uspaceScan s.ch.ctrl.hdr s.q (2 * s.ch.ctrl.hdrCount) s.q.uspaceHhp s.q.validFlag
  get : ∀ count, s.q.pktsAvailable < count → SameReleased (s.step (.get count)) ∧ (Agrees (s.step (.get count)) ↔ s.InLap)
  put : SameReleased (s.step .put) ∧ (Agrees (s.step .put) ↔ s.InLap)

theorem Inv.refines (hI : Inv k s) : Refines s := by
  obtain ⟨rel, r, h, hS, hH⟩ := hI.subs
  obtain ⟨hhhp, hmhp⟩ := hS.uspace hI.userspace
  have hends : uspaceStops s.ch.ctrl.hdr s.q (2 * s.ch.ctrl.hdrCount) s.q.uspaceHhp s.q.validFlag = true := by
    rw [hI.hdrCount, hS.flag]
    exact uspaceStops_twice hmhp _ _ (by rw [hhhp]; exact Nat.mod_lt _ (by positivity))
  refine ⟨⟨⟨hI.releasing.shp, hI.releasing.sdp⟩, hI.hwptr, BitVec.eq_of_toNat_eq (by rw [hhhp, hH.hhp])⟩, hends,
    fun m => uspaceScan_more _ m _ _ hends, fun count hshort => ?_, ?_⟩
  · obtain ⟨h', hY⟩ := hI.get_synced hshort
    exact ⟨⟨hY.releasing.shp, hY.releasing.sdp⟩, hY.agrees_iff⟩
  · obtain ⟨h', hY⟩ := hI.put_synced
    exact ⟨⟨hY.releasing.shp, hY.releasing.sdp⟩, hY.agrees_iff⟩

/-- In every run whose syncs are in lap the sync in userspace refines the driver's. -/
theorem uspace_rx_sync_refines_in_lap (hk : k ≤ 31) {hdrBufferSize : Nat} (hsize : 2 ^ k ≤ hdrBufferSize)
    (hdr : Nat → V3PacketHdr) (o : Nat → V3RxOpen) (acts : List UsRxAct)
    (hin : Meets UsRx.step SyncsInLap (started k hdrBufferSize hdr o) acts) :
    Refines (run UsRx.step (started k hdrBufferSize hdr o) acts) :=
  (run_inv_of Inv.step acts _ hin (started_inv hk hsize hdr o)).refines

theorem uspace_rx_sync_refines_first_lap :
    Refines (run UsRx.step (started 2 4096 (fun _ => ⟨0, 0, 0, 0, 0⟩) fun _ => ⟨0, true, 3, 0, 0⟩)
      [.receive RxV3.someHdr, .receive RxV3.someHdr, .get 3, .receive RxV3.someHdr, .put, .get 1, .put, .receive RxV3.someHdr,
        .receive RxV3.someHdr, .get 2]) :=
  uspace_rx_sync_refines_in_lap (by decide) (by decide) _ _ _ (by decide +kernel)

/-! ## A search behind the end of the ring -/

theorem run_receive_uspace (hdr : V3PacketHdr) : ∀ (n : Nat) (s : UsRx),
    run UsRx.step s (List.replicate n (.receive hdr)) = { s with ch := (run RxV3.step
      { ch := s.ch, q := fun _ => s.q, start := fun _ => 0, gets := fun _ => [] } (List.replicate n (.receive hdr))).ch }
  | 0, _ => rfl
  | n + 1, s => by
    have hstep : ({ ch := s.ch, q := fun _ => s.q, start := fun _ => 0, gets := fun _ => [] } : RxV3).step (.receive hdr) =
        { ch := (s.receive hdr).ch, q := fun _ => s.q, start := fun _ => 0, gets := fun _ => [] } := by
      unfold UsRx.receive
      simp only [RxV3.step, RxV3.receive]
      split <;> rfl
    rw [List.replicate_succ, List.replicate_succ, run_cons, run_cons, hstep]
    exact run_receive_uspace hdr n (s.receive hdr)

/-- An exclusive ring of 512 headers. -/
def smallRing : UsRx := started 9 4096 (fun _ => ⟨0, 0, 0, 0, 0⟩) fun _ => ⟨0, true, 511, 0, 0⟩

def searchBehindWrap : List UsRxAct :=
  List.replicate 511 (UsRxAct.receive RxV3.someHdr) ++ [UsRxAct.get 511, UsRxAct.put] ++
    List.replicate 3 (UsRxAct.receive RxV3.someHdr) ++ [UsRxAct.get 1, UsRxAct.receive RxV3.someHdr, UsRxAct.get 5]

/-- The driver finds the last header, the search in userspace does not. -/
theorem uspace_search_behind_wrap_misses : ¬ Agrees (run UsRx.step smallRing searchBehindWrap) := by
  have hfull : run UsRx.step smallRing (List.replicate 511 (.receive RxV3.someHdr)) =
      { smallRing with ch := { smallRing.ch with ctrl := { smallRing.ch.ctrl with
          hdr := fun j => if j < 511 then RxV3.someHdr else smallRing.ch.ctrl.hdr j
          log := List.replicate 511 RxV3.someHdr } } } := by
    rw [run_receive_uspace, RxV3.run_receive (k := 9) (by decide +kernel) (by decide +kernel) (by norm_num) (by decide +kernel)
      (by decide +kernel) RxV3.someHdr rfl 511 (by norm_num)]
  intro hA
  have hne : (run UsRx.step smallRing searchBehindWrap).q.uspaceHhp ≠ (run UsRx.step smallRing searchBehindWrap).ch.ctrl.hhp := by
    rw [searchBehindWrap, List.append_assoc, List.append_assoc, run_append, hfull]
    decide +kernel
  exact hne hA.hhp

end UsRx

end NdkSw.Calypte

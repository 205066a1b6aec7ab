/-
The invariant of a protocol 3 RX channel and of its queues, and what each library call does to it.
Positions count the headers written since the controller started. A running queue has released `rel`
of them, gets header `r` next and has seen the first `h`; its valid flag belongs to the lap of `rel`.
-/
import NdkSw.Calypte.RxScan
import NdkSw.Ndp.Subscribe

namespace NdkSw.Calypte

open Ndp Ring

variable {k hc i : Nat} {ch : Channel RxCtrl} {q : RxQueue}

/-! ## The channel -/

/-- What holds of the channel whether it runs or not. -/
structure RxFrame (k : Nat) (ch : Channel RxCtrl) : Prop where
  k31 : k ≤ 31
  mask : IsMask ch.ptrmask k
  ptrmask : ch.ctrl.ptrmask = ch.ptrmask
  size : 2 ^ k ≤ ch.ctrl.hdrBufferSize
  listed : Listed ch
  written : ch.startCount ≠ 0 → Written k ch.ctrl.hdr ch.ctrl.log

/-- The driver's scan stands at position `hc`. -/
structure RxSeen (k hc : Nat) (ch : Channel RxCtrl) : Prop where
  hhp : ch.ctrl.hhp.toNat = hc % 2 ^ k
  flag : ch.ctrl.validFlag = lapFlag (lapBit (2 ^ k) hc)
  hwptr : ch.hwptr.toNat = hc % 2 ^ k
  le : hc ≤ ch.ctrl.log.length

theorem RxSeen.pos {h₀ : Nat} (hF : RxFrame k ch) (hH : RxSeen k h₀ ch) (hlap : ch.ctrl.log.length < h₀ + 2 ^ k) :
    ch.ctrl.pos ch.hwptr = h₀ := by
  have hle := hH.le
  unfold RxCtrl.pos
  rw [hF.ptrmask, (at_ofNat hF.mask.le_width _).toNat_sub_and hF.mask (at_of_mod hH.hwptr) hle (by omega)]
  omega

/-- Two channels that differ in their pointers only. -/
structure SameRing (ch ch' : Channel RxCtrl) : Prop where
  hdr : ch'.ctrl.hdr = ch.ctrl.hdr
  log : ch'.ctrl.log = ch.ctrl.log
  ctrlMask : ch'.ctrl.ptrmask = ch.ctrl.ptrmask
  size : ch'.ctrl.hdrBufferSize = ch.ctrl.hdrBufferSize
  mask : ch'.ptrmask = ch.ptrmask
  startCount : ch'.startCount = ch.startCount
  list : ch'.listSubscriptions = ch.listSubscriptions
  status : ∀ j, (ch'.sub j).status = (ch.sub j).status

theorem SameRing.refl (ch : Channel RxCtrl) : SameRing ch ch := ⟨rfl, rfl, rfl, rfl, rfl, rfl, rfl, fun _ => rfl⟩

theorem RxFrame.same {ch' : Channel RxCtrl} (hF : RxFrame k ch) (hs : SameRing ch ch') : RxFrame k ch' := by
  refine ⟨hF.k31, ?_, ?_, ?_, hF.listed.congr hs.list hs.startCount hs.status, ?_⟩
  · rw [hs.mask]; exact hF.mask
  · rw [hs.ctrlMask, hs.mask]; exact hF.ptrmask
  · rw [hs.size]; exact hF.size
  · rw [hs.startCount, hs.hdr, hs.log]; exact hF.written

/-- The kernel's sync of a running subscription shows everything received. -/
theorem rxsync_spec (hF : RxFrame k ch) (hH : RxSeen k hc ch) (h0 : ch.startCount ≠ 0) (hlap : ch.ctrl.log.length < hc + 2 ^ k)
    (e : RxShown) (i : Nat) (sync : SubscriptionSync) :
    ∃ ch' hwptr, ndpChannelRxsync rxOps e ch i sync = (ch', { sync with hwptr }) ∧ SameRing ch ch' ∧
      RxSeen k ch.ctrl.log.length ch' ∧ hwptr.toNat = ch.ctrl.log.length % 2 ^ k := by
  unfold ndpChannelRxsync
  simp only
  generalize (farthestSwptr _ _ ch.listSubscriptions).2 = w
  -- releasing headers changes nothing that the scan reads
  obtain ⟨c, x, hch, hhdr, hlog, hmask, hsize, hhp, hflag⟩ : ∃ c x,
      (if w ≠ ch.swptr then
        ({ ch with sub := Function.update ch.sub i { ch.sub i with swptr := sync.swptr }
                   swptr := w, ctrl := rxOps.setSwptr ch.ctrl e w } : Channel RxCtrl)
        else { ch with sub := Function.update ch.sub i { ch.sub i with swptr := sync.swptr } }) =
      { ch with sub := Function.update ch.sub i { ch.sub i with swptr := sync.swptr }, swptr := x, ctrl := c } ∧
      c.hdr = ch.ctrl.hdr ∧ c.log = ch.ctrl.log ∧ c.ptrmask = ch.ctrl.ptrmask ∧ c.hdrBufferSize = ch.ctrl.hdrBufferSize ∧
      c.hhp = ch.ctrl.hhp ∧ c.validFlag = ch.ctrl.validFlag := by
    by_cases hw : w ≠ ch.swptr
    · exact ⟨_, w, if_pos hw, rfl, rfl, rfl, rfl, rfl, rfl⟩
    · exact ⟨ch.ctrl, ch.swptr, if_neg hw, rfl, rfl, rfl, rfl, rfl, rfl⟩
  rw [hch]
  obtain ⟨hhp', hhp'', hget⟩ := ndpCtrlRxGetHwptr_spec (c := c) (k := k) (p := hc)
    (by rw [hhdr, hlog]; exact hF.written h0) (by rw [hmask, hF.ptrmask]; exact hF.mask) hF.k31 (by rw [hsize]; exact hF.size)
    (by rw [hhp]; exact hH.hhp) (by rw [hflag]; exact hH.flag) (by rw [hlog]; exact hH.le) (by rw [hlog]; exact hlap)
  have hop : rxOps.getHwptr c e = ndpCtrlRxGetHwptr c := rfl
  rw [hlog] at hhp'' hget
  simp only [hop, hget]
  refine ⟨_, _, rfl, ⟨hhdr, rfl, hmask, hsize, rfl, rfl, rfl, fun j => ?_⟩, ⟨hhp'', rfl, ?_, le_rfl⟩, ?_⟩
  · by_cases hji : j = i
    · subst hji
      simp
    · simp [hji]
  · rw [toNat_setWidth64]; exact hhp''
  · rw [toNat_setWidth64]; exact hhp''

/-! ## The queues -/

/-- A running queue. `R` headers are written. -/
structure RxSub (k R : Nat) (q : RxQueue) (rel r h : Nat) : Prop where
  le : rel ≤ r
  shown : r + q.pktsAvailable.toNat ≤ h
  seen : h ≤ R
  lap : R < rel + 2 ^ k
  swptr : q.sync.swptr.toNat = rel % 2 ^ k
  shp : q.shp.toNat = r % 2 ^ k
  flag : q.validFlag = lapFlag (lapBit (2 ^ k) rel)
  mask : IsMask q.hdrPtrMask k
  uspace : q.userspace = true → q.uspaceHhp.toNat = h % 2 ^ k ∧ IsMask q.uspaceMhp k

/-- What a sync leaves of a queue. -/
structure SameQueue (q q' : RxQueue) : Prop where
  buffer : q'.buffer = q.buffer
  swptr : q'.sync.swptr = q.sync.swptr
  pktsAvailable : q'.pktsAvailable = q.pktsAvailable
  shp : q'.shp = q.shp
  flag : q'.validFlag = q.validFlag
  mask : q'.hdrPtrMask = q.hdrPtrMask
  userspace : q'.userspace = q.userspace

/-- How far a sync looks: through the driver it sees everything; on its own it does so only in the lap of
`rel`, and nothing otherwise. -/
structure Looked (k R : Nat) (userspace : Bool) (rel h h' : Nat) : Prop where
  le : h ≤ h'
  seen : h' ≤ R
  all : (userspace = true → rel % 2 ^ k ≤ h % 2 ^ k) → h' = R
  none : userspace = true → ¬ rel % 2 ^ k ≤ h % 2 ^ k → h' = h

/-- The sync of a running queue whose flag is that of `rel`. -/
theorem rxSync_spec {rel h : Nat} (hF : RxFrame k ch) (hH : RxSeen k hc ch) (hr : (ch.sub i).status = .running) (e : RxShown)
    (hlap : ch.ctrl.log.length < rel + 2 ^ k) (hrel : rel ≤ h) (hh : h ≤ ch.ctrl.log.length) (hhc : q.userspace = false → h ≤ hc)
    (hflag : q.validFlag = lapFlag (lapBit (2 ^ k) rel)) (hm : IsMask q.hdrPtrMask k)
    (hu : q.userspace = true → q.uspaceHhp.toNat = h % 2 ^ k ∧ IsMask q.uspaceMhp k) :
    ∃ ch' q' hc' h', rxSync e i ch q = (ch', q', 0) ∧ SameRing ch ch' ∧ RxSeen k hc' ch' ∧ hc ≤ hc' ∧ SameQueue q q' ∧
      q'.sync.hwptr.toNat = h' % 2 ^ k ∧ Looked k ch.ctrl.log.length q.userspace rel h h' ∧
      (q.userspace = false → h' ≤ hc') ∧ (q.userspace = true → q'.uspaceHhp.toNat = h' % 2 ^ k ∧ IsMask q'.uspaceMhp k) := by
  have h0 := hF.listed.startCount_ne hr
  unfold rxSync
  by_cases hus : q.userspace = true
  · obtain ⟨hhhp, hmhp⟩ := hu hus
    rw [if_pos hus]
    unfold ndpQueueRxSyncV3Us
    simp only
    -- giving pointers back changes nothing that the scan reads
    generalize hq₁ : (if q.sync.swptr ≠ q.uspaceShp.setWidth 64 then _ else q) = q₁
    have hsame : SameQueue q q₁ ∧ q₁.uspaceHhp = q.uspaceHhp ∧ q₁.uspaceMhp = q.uspaceMhp := by
      rw [← hq₁]
      split <;> exact ⟨⟨rfl, rfl, rfl, rfl, rfl, rfl, rfl⟩, rfl, rfl⟩
    obtain ⟨hsame, hhhp', hmhp'⟩ := hsame
    have hfuel : 2 ^ k < 2 * (q₁.hdrPtrMask.toNat + 1) := by
      have hpos : 0 < 2 ^ k := by positivity
      rw [hsame.mask, hm]; omega
    obtain ⟨h', h1, h2, h3, h4, h5⟩ := uspaceScan_from (q := q₁) (hF.written h0) (by rw [hsame.mask]; exact hm)
      (by rw [hmhp']; exact hmhp) (show q₁.uspaceHhp.toNat = _ by rw [hhhp']; exact hhhp) hrel hh hlap hfuel
    rw [← hflag, ← hsame.flag] at h5
    refine ⟨ch, _, hc, h', rfl, SameRing.refl ch, hH, le_rfl,
      ⟨hsame.buffer, hsame.swptr, hsame.pktsAvailable, hsame.shp, hsame.flag, hsame.mask, hsame.userspace⟩, ?_,
      ⟨h1, h2, fun hc => h3 (hc hus), fun _ => h4⟩, fun hc => absurd (hus.symm.trans hc) (by simp), fun _ => ⟨h5, ?_⟩⟩
    · rw [toNat_setWidth64]; exact h5
    · show IsMask q₁.uspaceMhp k
      rw [hmhp']; exact hmhp
  · have hus' : q.userspace = false := by simpa using hus
    obtain ⟨ch', hwptr, hsync, hs, hH', hw⟩ := rxsync_spec hF hH h0 (by have := hhc hus'; omega) e i q.sync
    have hsub : ndpSubscriptionSync rxOps .rx e ch i q.sync = (ch', { q.sync with hwptr }, 0) := by
      unfold ndpSubscriptionSync
      rw [if_neg (by simp [hr])]
      simp only [hsync]
    rw [if_neg hus]
    simp only [hsub]
    exact ⟨ch', _, _, ch.ctrl.log.length, rfl, hs, hH', hH.le, ⟨rfl, rfl, rfl, rfl, rfl, rfl, rfl⟩, hw,
      ⟨hh, le_rfl, fun _ => rfl, fun hc => absurd hc hus⟩, fun _ => le_rfl, fun hc => absurd hc hus⟩

/-! ## Lock, get and put -/

/-- A lock makes everything it looked at available. -/
theorem rxLock_spec {rel r h : Nat} (hF : RxFrame k ch) (hH : RxSeen k hc ch) (hr : (ch.sub i).status = .running)
    (hS : RxSub k ch.ctrl.log.length q rel r h) (hhc : q.userspace = false → h ≤ hc) (e : RxShown) :
    ∃ ch' q' hc' h', ncNdpV3RxLock e i ch q = (ch', q') ∧ SameRing ch ch' ∧ RxSeen k hc' ch' ∧ hc ≤ hc' ∧
      RxSub k ch.ctrl.log.length q' rel r h' ∧ (q.userspace = false → h' ≤ hc') ∧ q'.pktsAvailable.toNat = h' - r ∧
      Looked k ch.ctrl.log.length q.userspace rel h h' ∧ q'.buffer = q.buffer ∧ q'.userspace = q.userspace := by
  have hle := hS.le
  have hshown := hS.shown
  have hlap := hS.lap
  have h31 : 2 ^ k ≤ 2 ^ 31 := Nat.pow_le_pow_right (by norm_num) hF.k31
  obtain ⟨ch', q', hc', h', hsync, hs, hH', hchc, hq, hhw, hL, hh', hu⟩ := rxSync_spec hF hH hr e hS.lap (by omega) hS.seen hhc
    hS.flag hS.mask hS.uspace
  have hL1 := hL.le
  have hL2 := hL.seen
  have hav : ((q'.sync.hwptr - q'.shp.setWidth 64) &&& q'.hdrPtrMask.setWidth 64).toNat = h' - r := by
    refine (at_of_mod hhw).toNat_sub_and ?_ (At.setWidth (by have := hF.k31; omega) (at_of_mod ?_)) (by omega) (by omega)
    · rw [hq.mask]; exact hS.mask.setWidth (by have := hF.k31; omega)
    · rw [hq.shp]; exact hS.shp
  have hav32 : (((q'.sync.hwptr - q'.shp.setWidth 64) &&& q'.hdrPtrMask.setWidth 64).setWidth 32 : U32).toNat = h' - r := by
    rw [BitVec.toNat_setWidth, hav, Nat.mod_eq_of_lt (by omega)]
  unfold ncNdpV3RxLock
  simp only [hsync, ne_eq, not_true_eq_false, if_false]
  refine ⟨ch', _, hc', h', rfl, hs, hH', hchc, ⟨hle, ?_, hL.seen, hlap, ?_, ?_, ?_, ?_, ?_⟩, hh', hav32, hL, hq.buffer, hq.userspace⟩
  · show r + BitVec.toNat _ ≤ h'
    rw [hav32]; omega
  · show q'.sync.swptr.toNat = _
    rw [hq.swptr]; exact hS.swptr
  · show q'.shp.toNat = _
    rw [hq.shp]; exact hS.shp
  · show q'.validFlag = _
    rw [hq.flag]; exact hS.flag
  · show IsMask q'.hdrPtrMask k
    rw [hq.mask]; exact hS.mask
  · intro hus
    exact hu (hq.userspace ▸ hus)

/-- The queue after handing out `n` available headers. -/
theorem RxSub.take {R rel r h : Nat} (hS : RxSub k R q rel r h) {n : U32} (hn : n.toNat ≤ q.pktsAvailable.toNat) (sdp : U32) :
    RxSub k R { q with sdp, shp := (q.shp + n) &&& q.hdrPtrMask, pktsAvailable := q.pktsAvailable - n } rel (r + n.toNat) h := by
  have hle := hS.le
  have hshown := hS.shown
  have hav : (q.pktsAvailable - n).toNat = q.pktsAvailable.toNat - n.toNat := BitVec.toNat_sub_of_le (BitVec.le_def.2 hn)
  refine ⟨by omega, ?_, hS.seen, hS.lap, hS.swptr, ?_, hS.flag, hS.mask, hS.uspace⟩
  · show r + n.toNat + (q.pktsAvailable - n).toNat ≤ h
    omega
  · exact (At.add hS.mask.le_width (at_of_mod hS.shp) (at_toNat n)).toNat_and hS.mask

/-- What a get of a running queue may rely on: it asks for nothing, the pointer has not wrapped around since
the last put, or there is nothing to get. -/
def GetReady (ch : Channel RxCtrl) (q : RxQueue) (count : U32) : Prop :=
  count = 0 ∨ q.sync.swptr.toNat ≤ q.shp.toNat ∨
    if q.userspace then q.uspaceHhp = q.shp
    else (BitVec.ofNat 64 ch.ctrl.log.length - q.shp.setWidth 64) &&& ch.ctrl.ptrmask = 0

instance (ch : Channel RxCtrl) (q : RxQueue) (count : U32) : Decidable (GetReady ch q count) := by
  unfold GetReady; infer_instance

/-- The headers `[r, r + n)` as packets. -/
def packetsFrom (k : Nat) (ch : Channel RxCtrl) (buffer : Int) (r n : Nat) : List NdpPacket :=
  (List.range n).map fun j => v3RxPacket buffer (ch.ctrl.hdr ((r + j) % 2 ^ k))

theorem RxSub.fill {rel r h : Nat} (hF : RxFrame k ch) (h0 : ch.startCount ≠ 0) (hS : RxSub k ch.ctrl.log.length q rel r h) {n : Nat}
    (hn : n ≤ q.pktsAvailable.toNat) (hwrap : rel % 2 ^ k ≤ r % 2 ^ k ∨ n = 0) (sdp : U32) :
    (v3RxFill ch.ctrl.hdr q n 0 (lapFlag (lapBit (2 ^ k) rel)) sdp).1 = packetsFrom k ch q.buffer r n := by
  have hle := hS.le
  have hshown := hS.shown
  have hseen := hS.seen
  have hlap := hS.lap
  rcases hwrap with hwrap | rfl
  · have h31 : 2 ^ k ≤ 2 ^ 31 := Nat.pow_le_pow_right (by norm_num) hF.k31
    have hmod : r % 2 ^ k < 2 ^ k := Nat.mod_lt _ (by positivity)
    have hne : ¬ q.shp + BitVec.ofNat 32 0 = q.hdrPtrMask + 1 := by
      have h2 : (q.hdrPtrMask + 1).toNat = 2 ^ k := by
        rw [BitVec.toNat_add, show (1 : U32).toNat = 1 from rfl, hS.mask, Nat.mod_eq_of_lt (by omega)]
      intro hc
      have := congrArg BitVec.toNat hc
      rw [h2, BitVec.add_zero, hS.shp] at this
      omega
    have hflag : lapBit (2 ^ k) rel = lapBit (2 ^ k) r := (lapBit_eq_iff hle (by omega)).2 hwrap
    rw [v3RxFill_spec (hF.written h0) hS.mask hF.k31 hS.shp (by omega) n 0 _ sdp (by omega) (by rw [if_neg hne, hflag, Nat.add_zero])]
    rfl
  · rfl

theorem packetsFrom_same {ch' : Channel RxCtrl} (hs : SameRing ch ch') (buffer : Int) (r n : Nat) :
    packetsFrom k ch' buffer r n = packetsFrom k ch buffer r n := by
  unfold packetsFrom
  rw [hs.hdr]

/-- The last case of `GetReady` in positions. -/
theorem RxSub.nothing_left {rel r h : Nat} (hF : RxFrame k ch) (hS : RxSub k ch.ctrl.log.length q rel r h)
    (h1 : if q.userspace then q.uspaceHhp = q.shp else (BitVec.ofNat 64 ch.ctrl.log.length - q.shp.setWidth 64) &&& ch.ctrl.ptrmask = 0) :
    (q.userspace = true → h = r) ∧ (¬ q.userspace = true → ch.ctrl.log.length = r) := by
  have hle := hS.le
  have hshown := hS.shown
  have hseen := hS.seen
  have hlap := hS.lap
  refine ⟨fun husr => ?_, fun husr => ?_⟩
  · rw [if_pos husr] at h1
    exact (At.eq_iff (at_of_mod (hS.uspace husr).1) (at_of_mod hS.shp)
      (by rw [(hS.uspace husr).1]; exact Nat.mod_lt _ (by positivity)) (by rw [hS.shp]; exact Nat.mod_lt _ (by positivity))
      (by omega) (by omega)).1 h1
  · rw [if_neg husr, ← BitVec.toNat_inj, hF.ptrmask,
      (at_ofNat hF.mask.le_width _).toNat_sub_and hF.mask (At.setWidth hF.mask.le_width (at_of_mod hS.shp)) (by omega) (by omega),
      show (0 : U64).toNat = 0 from rfl] at h1
    omega

/-- A get that is ready returns the number of packets it fills in, which are the next ones. If it looks at
everything it gets as many as there are or as it asks for. -/
theorem rxGet_spec {rel r h : Nat} (hF : RxFrame k ch) (hH : RxSeen k hc ch) (hr : (ch.sub i).status = .running)
    (hS : RxSub k ch.ctrl.log.length q rel r h) (hhc : q.userspace = false → h ≤ hc) (e : RxShown) (count : U32)
    (hready : GetReady ch q count) :
    ∃ ch' q' hc' h' n, ncNdpV3RxBurstGet e i ch q count = (ch', q', packetsFrom k ch q.buffer r n.toNat, n) ∧
      SameRing ch ch' ∧ RxSeen k hc' ch' ∧ hc ≤ hc' ∧ RxSub k ch.ctrl.log.length q' rel (r + n.toNat) h' ∧
      (q.userspace = false → h' ≤ hc') ∧ q'.buffer = q.buffer ∧ q'.userspace = q.userspace ∧
      ((q.userspace = true → q.sync.swptr.toNat ≤ q.uspaceHhp.toNat) → n.toNat = min count.toNat (ch.ctrl.log.length - r)) := by
  have h0 := hF.listed.startCount_ne hr
  have hle := hS.le
  have hshown := hS.shown
  have hseen := hS.seen
  have hlap := hS.lap
  unfold ncNdpV3RxBurstGet
  by_cases hshort : q.pktsAvailable < count
  · obtain ⟨ch', q', hc', h', hlock, hs, hH', hchc, hS', hh', hav, hL, hbuf, hus⟩ := rxLock_spec hF hH hr hS hhc e
    have hcount : (umin q'.pktsAvailable count).toNat = min (h' - r) count.toNat := by rw [toNat_umin, hav]
    have hpos : 0 < count.toNat := Nat.lt_of_le_of_lt (Nat.zero_le _) (BitVec.lt_def.1 hshort)
    -- the pointer has not wrapped around, or there is nothing to get
    have hwrap : rel % 2 ^ k ≤ r % 2 ^ k ∨ h' = r := by
      rcases hready with h1 | h1 | h1
      · rw [h1] at hpos
        exact absurd hpos (by simp)
      · rw [hS.swptr, hS.shp] at h1
        exact Or.inl h1
      · have hleft := hS.nothing_left hF h1
        by_cases husr : q.userspace = true
        · by_cases hsame : rel % 2 ^ k ≤ h % 2 ^ k
          · exact Or.inl ((hleft.1 husr) ▸ hsame)
          · exact Or.inr ((hL.none husr hsame).trans (hleft.1 husr))
        · have := hL.le
          have := hL.seen
          have := hleft.2 husr
          exact Or.inr (by omega)
    have hS'' : RxSub k ch'.ctrl.log.length q' rel r h' := by rw [hs.log]; exact hS'
    have hfill := hS''.fill (hF.same hs) (by rw [hs.startCount]; exact h0) (n := (umin q'.pktsAvailable count).toNat)
      (by rw [toNat_umin]; exact Nat.min_le_left _ _) (hwrap.imp id fun h1 => by rw [hcount, h1]; simp) q'.sdp
    rw [hbuf, packetsFrom_same hs, ← hS.flag] at hfill
    have hall : (q.userspace = true → q.sync.swptr.toNat ≤ q.uspaceHhp.toNat) →
        (umin q'.pktsAvailable count).toNat = min count.toNat (ch.ctrl.log.length - r) := by
      intro hlook
      rw [hcount, hL.all fun husr => ?_, Nat.min_comm]
      rw [← hS.swptr, ← (hS.uspace husr).1]
      exact hlook husr
    simp only [hshort, if_true, true_and, hlock]
    by_cases hzero : umin q'.pktsAvailable count = 0
    · rw [if_pos hzero]
      rw [hzero] at hall
      exact ⟨ch', q', hc', h', 0, rfl, hs, hH', hchc, hS', hh', hbuf, hus, hall⟩
    · rw [if_neg hzero]
      rcases hres : v3RxFill ch'.ctrl.hdr q' (umin q'.pktsAvailable count).toNat 0 q.validFlag q'.sdp with ⟨packets, sdp⟩
      rw [hres] at hfill
      obtain rfl : packets = _ := hfill
      exact ⟨ch', _, hc', h', umin q'.pktsAvailable count, rfl, hs, hH', hchc,
        hS'.take (by rw [toNat_umin]; exact Nat.min_le_left _ _) _, hh', hbuf, hus, hall⟩
  · have hcount : count.toNat ≤ q.pktsAvailable.toNat := Nat.le_of_not_lt fun hlt => hshort (BitVec.lt_def.2 hlt)
    have hwrap : rel % 2 ^ k ≤ r % 2 ^ k ∨ count.toNat = 0 := by
      rcases hready with h1 | h1 | h1
      · exact Or.inr (by rw [h1]; rfl)
      · rw [hS.swptr, hS.shp] at h1
        exact Or.inl h1
      · refine Or.inr ?_
        have hleft := hS.nothing_left hF h1
        by_cases husr : q.userspace = true
        · have := hleft.1 husr
          omega
        · have := hleft.2 husr
          omega
    have hfill := hS.fill hF h0 hcount hwrap q.sdp
    rw [← hS.flag] at hfill
    simp only [hshort, if_false, false_and]
    rcases hres : v3RxFill ch.ctrl.hdr q count.toNat 0 q.validFlag q.sdp with ⟨packets, sdp⟩
    rw [hres] at hfill
    obtain rfl : packets = _ := hfill
    exact ⟨ch, _, hc, h, count, rfl, SameRing.refl ch, hH, le_rfl, hS.take hcount _, hhc, rfl, rfl, fun _ => by omega⟩

/-- A get that is not ready claims packets and fills in none. -/
theorem rxGet_stale {rel r h : Nat} (hF : RxFrame k ch) (hH : RxSeen k hc ch) (hr : (ch.sub i).status = .running)
    (hS : RxSub k ch.ctrl.log.length q rel r h) (hhc : q.userspace = false → h ≤ hc) (e : RxShown) (count : U32)
    (hready : ¬ GetReady ch q count) : (ncNdpV3RxBurstGet e i ch q count).2.2.1 = [] ∧ (ncNdpV3RxBurstGet e i ch q count).2.2.2 ≠ 0 := by
  have h0 := hF.listed.startCount_ne hr
  have hle := hS.le
  have hshown := hS.shown
  have hseen := hS.seen
  have hlap := hS.lap
  unfold GetReady at hready
  simp only [not_or] at hready
  obtain ⟨hcount, hwrap, hleft⟩ := hready
  rw [hS.swptr, hS.shp] at hwrap
  have hflag := hS.flag
  rw [lapBit_eq_not hle (by omega) hwrap] at hflag
  unfold ncNdpV3RxBurstGet
  by_cases hshort : q.pktsAvailable < count
  · obtain ⟨ch', q', hc', h', hlock, hs, hH', hchc, hS', hh', hav, hL, hbuf, hus⟩ := rxLock_spec hF hH hr hS hhc e
    have hL1 := hL.le
    have hL2 := hL.seen
    -- something was received that the queue looks at
    have hlt : r < h' := by
      by_cases husr : q.userspace = true
      · rw [if_pos husr] at hleft
        have hne : h ≠ r := fun heq => hleft (BitVec.eq_of_toNat_eq (by rw [(hS.uspace husr).1, hS.shp, heq]))
        omega
      · rw [if_neg husr] at hleft
        have hall := hL.all fun hc => absurd hc husr
        have hne : ch.ctrl.log.length ≠ r := by
          intro heq
          refine hleft (BitVec.eq_of_toNat_eq ?_)
          rw [hF.ptrmask, (at_ofNat hF.mask.le_width _).toNat_sub_and hF.mask
            (At.setWidth hF.mask.le_width (at_of_mod hS.shp)) (by omega) (by omega), heq, Nat.sub_self]
          rfl
        omega
    have hne0 : umin q'.pktsAvailable count ≠ 0 := by
      intro heq
      have := congrArg BitVec.toNat heq
      rw [toNat_umin, hav] at this
      have hpos : count.toNat ≠ 0 := fun hz => hcount (BitVec.eq_of_toNat_eq hz)
      have hz : (0 : U32).toNat = 0 := rfl
      omega
    have hfill := v3RxFill_stale (q := q') ((hF.same hs).written (by rw [hs.startCount]; exact h0)) hS'.mask hF.k31 hS'.shp
      (by rw [hs.log]; omega) (by rw [hs.log]; omega) (umin q'.pktsAvailable count).toNat q'.sdp
    rw [← hflag] at hfill
    simp only [hshort, if_true, true_and, hlock, if_neg hne0]
    rcases hres : v3RxFill ch'.ctrl.hdr q' (umin q'.pktsAvailable count).toNat 0 q.validFlag q'.sdp with ⟨packets, sdp⟩
    rw [hres] at hfill
    exact ⟨hfill, hne0⟩
  · have hle' : count.toNat ≤ q.pktsAvailable.toNat := Nat.le_of_not_lt fun hlt => hshort (BitVec.lt_def.2 hlt)
    have hpos : count.toNat ≠ 0 := fun hz => hcount (BitVec.eq_of_toNat_eq hz)
    have hfill := v3RxFill_stale (q := q) (hF.written h0) hS.mask hF.k31 hS.shp (by omega) (by omega) count.toNat q.sdp
    rw [← hflag] at hfill
    simp only [hshort, if_false, false_and]
    rcases hres : v3RxFill ch.ctrl.hdr q count.toNat 0 q.validFlag q.sdp with ⟨packets, sdp⟩
    rw [hres] at hfill
    exact ⟨hfill, hcount⟩

/-- A put releases everything got so far. -/
theorem rxPut_spec {rel r h : Nat} (hF : RxFrame k ch) (hH : RxSeen k hc ch) (hr : (ch.sub i).status = .running)
    (hS : RxSub k ch.ctrl.log.length q rel r h) (hhc : q.userspace = false → h ≤ hc) (e : RxShown) :
    ∃ ch' q' hc' h', ncNdpV3RxBurstPut e i ch q = (ch', q', 0) ∧ SameRing ch ch' ∧ RxSeen k hc' ch' ∧
      hc ≤ hc' ∧ RxSub k ch.ctrl.log.length q' r r h' ∧ (q.userspace = false → h' ≤ hc') ∧ q'.buffer = q.buffer ∧
      q'.userspace = q.userspace ∧ Looked k ch.ctrl.log.length q.userspace rel h h' := by
  have hle := hS.le
  have hshown := hS.shown
  have hseen := hS.seen
  have hlap := hS.lap
  have hmod : r % 2 ^ k < 2 ^ k := Nat.mod_lt _ (by positivity)
  have hsw : ((q.shp &&& q.hdrPtrMask).setWidth 64 : U64).toNat = r % 2 ^ k := by
    rw [toNat_setWidth64, (at_of_mod hS.shp).toNat_and hS.mask]
  obtain ⟨ch', q', hc', h', hsync, hs, hH', hchc, hq, hhw, hL, hh', hu⟩ := rxSync_spec
    (q := { q with sync := { q.sync with swptr := (q.shp &&& q.hdrPtrMask).setWidth 64 } }) hF hH hr e hS.lap (by omega) hS.seen hhc
    hS.flag hS.mask hS.uspace
  have hL1 := hL.le
  have hsw' : q'.sync.swptr.toNat = r % 2 ^ k := by rw [hq.swptr]; exact hsw
  have hlt : q'.sync.swptr < q.sync.swptr ↔ ¬ rel % 2 ^ k ≤ r % 2 ^ k := by
    rw [BitVec.lt_def, hsw', hS.swptr]
    omega
  unfold ncNdpV3RxBurstPut ncNdpV3RxUnlock
  simp only [hsync]
  refine ⟨ch', _, hc', h', rfl, hs, hH', hchc, ?_, hh', ?_, ?_, hL⟩
  · by_cases hwrap : rel % 2 ^ k ≤ r % 2 ^ k
    · rw [if_neg (by rw [hlt]; exact not_not.2 hwrap)]
      refine ⟨le_rfl, by rw [hq.pktsAvailable]; show r + q.pktsAvailable.toNat ≤ h'; omega, hL.seen, by omega, hsw',
        by rw [hq.shp]; exact hS.shp, ?_, by rw [hq.mask]; exact hS.mask, fun hus => hu (hq.userspace ▸ hus)⟩
      rw [hq.flag, ← (lapBit_eq_iff hle (by omega)).2 hwrap]
      exact hS.flag
    · rw [if_pos (by rw [hlt]; exact hwrap)]
      refine ⟨le_rfl, ?_, hL.seen, by omega, hsw', ?_, ?_, ?_, fun hus => hu (hq.userspace ▸ hus)⟩
      · show r + q'.pktsAvailable.toNat ≤ h'
        rw [hq.pktsAvailable]
        show r + q.pktsAvailable.toNat ≤ h'
        omega
      · show q'.shp.toNat = _
        rw [hq.shp]; exact hS.shp
      · show q'.validFlag ^^^ 1 = _
        rw [hq.flag]
        show q.validFlag ^^^ 1 = _
        rw [hS.flag, lapFlag_flip, lapBit_eq_not hle (by omega) hwrap, Bool.not_not]
      · show IsMask q'.hdrPtrMask k
        rw [hq.mask]; exact hS.mask
  · split
    · exact hq.buffer
    · exact hq.buffer
  · split
    · exact hq.userspace
    · exact hq.userspace

/-! ## Calls of a queue that does not run -/

theorem rxSync_stopped (q : RxQueue) (hr : (ch.sub i).status ≠ .running) (e : RxShown) :
    ∃ q' ret, rxSync e i ch q = (ch, q', ret) ∧ q'.hdrPtrMask = q.hdrPtrMask ∧ q'.userspace = q.userspace := by
  unfold rxSync
  by_cases hus : q.userspace = true
  · rw [if_pos hus]
    refine ⟨_, _, rfl, ?_⟩
    unfold ndpQueueRxSyncV3Us
    simp only
    split <;> exact ⟨rfl, rfl⟩
  · have hsync : ndpSubscriptionSync rxOps .rx e ch i q.sync = (ch, q.sync, eBadf) := by
      unfold ndpSubscriptionSync
      rw [if_pos hr]
    rw [if_neg hus]
    simp only [hsync]
    exact ⟨_, _, rfl, rfl, rfl⟩

theorem rxPut_stopped (q : RxQueue) (hr : (ch.sub i).status ≠ .running) (e : RxShown) :
    ∃ q' ret, ncNdpV3RxBurstPut e i ch q = (ch, q', ret) ∧ q'.hdrPtrMask = q.hdrPtrMask ∧ q'.userspace = q.userspace := by
  unfold ncNdpV3RxBurstPut ncNdpV3RxUnlock
  obtain ⟨q', ret, hsync, hm, hu⟩ :=
    rxSync_stopped { q with sync := { q.sync with swptr := (q.shp &&& q.hdrPtrMask).setWidth 64 } } hr e
  simp only [hsync]
  refine ⟨_, ret, rfl, ?_⟩
  split <;> exact ⟨hm, hu⟩

theorem rxGet_stopped (q : RxQueue) (hr : (ch.sub i).status ≠ .running) (e : RxShown) (count : U32) :
    ∃ q' packets ret, ncNdpV3RxBurstGet e i ch q count = (ch, q', packets, ret) ∧
      q'.hdrPtrMask = q.hdrPtrMask ∧ q'.userspace = q.userspace := by
  obtain ⟨q₁, hq₁, hm, hu⟩ : ∃ q₁, (if q.pktsAvailable < count then ncNdpV3RxLock e i ch q else (ch, q)) = (ch, q₁) ∧
      q₁.hdrPtrMask = q.hdrPtrMask ∧ q₁.userspace = q.userspace := by
    split
    · obtain ⟨q', ret, hsync, hm, hu⟩ := rxSync_stopped q hr e
      unfold ncNdpV3RxLock
      simp only [hsync]
      split
      · exact ⟨q', rfl, hm, hu⟩
      · exact ⟨_, rfl, hm, hu⟩
    · exact ⟨q, rfl, rfl, rfl⟩
  unfold ncNdpV3RxBurstGet
  simp only [hq₁]
  generalize (if q.pktsAvailable < count then umin q₁.pktsAvailable count else count) = n
  by_cases hz : q.pktsAvailable < count ∧ n = 0
  · rw [if_pos hz]
    exact ⟨q₁, _, _, rfl, hm, hu⟩
  · rw [if_neg hz]
    exact ⟨_, _, _, rfl, hm, hu⟩

end NdkSw.Calypte

/-
Exactly-once delivery on a protocol 2 RX channel. The invariant counts received packets without
bound: the hardware may write behind the first `p` of them, the channel knows of the first `h`, and
every running subscription has released, got and been shown a position between the two.
-/
import NdkSw.Ndp.RxV2
import NdkSw.Ndp.RxSync

namespace NdkSw.Ndp

open Ring

variable {k p h i : Nat} {ch : Channel RxHdrCtrl} {q : Nat → QueueV2}

/-! ## The channel -/

/-- The channel's pointers stand for the positions: up to `p` released by all, up to `h` seen. -/
structure RxChan (k p h : Nat) (ch : Channel RxHdrCtrl) : Prop where
  k31 : k ≤ 31
  mask : IsMask ch.ptrmask k
  mhp : ch.ctrl.mhp = ch.ptrmask
  hwptr : ch.hwptr.toNat = h % 2 ^ k
  swptr : ch.swptr.toNat = p % 2 ^ k
  ctrl : ch.ctrl.swptr = ch.swptr
  le : p ≤ h
  seen : h ≤ ch.ctrl.log.length
  lap : ch.ctrl.log.length < p + 2 ^ k
  list : ∀ j, j ∈ ch.listSubscriptions ↔ (ch.sub j).status = .running
  nodup : ch.listSubscriptions.Nodup
  startCount : ch.startCount = ch.listSubscriptions.length

theorem RxChan.hardware (hC : RxChan k p h ch) :
    (BitVec.ofNat 64 ch.ctrl.log.length &&& ch.ctrl.mhp).toNat = ch.ctrl.log.length % 2 ^ k := by
  rw [hC.mhp]
  exact (at_ofNat hC.mask.le_width _).toNat_and hC.mask

theorem RxChan.pos (hC : RxChan k p h ch) {x : U64} {n : Nat} (hx : At k x n) (hp : p ≤ n) (hn : n ≤ ch.ctrl.log.length) :
    ch.ctrl.pos x = n := by
  have hlap := hC.lap
  unfold RxHdrCtrl.pos
  rw [hC.mhp, (at_ofNat hC.mask.le_width _).toNat_sub_and hC.mask hx hn (by omega)]
  omega

/-! ## One sync -/

theorem setSwptr_self (hctrl : ch.ctrl.swptr = ch.swptr) (e : Int) : rxHdrOps.setSwptr ch.ctrl e ch.swptr = ch.ctrl := by
  show ({ ch.ctrl with swptr := ch.swptr } : RxHdrCtrl) = ch.ctrl
  rw [← hctrl]

/-- What a sync of `i` makes of the channel: the first `p'` packets are free for the hardware, and `i` has
its new pointer. -/
structure RxSynced (k p : Nat) (ch : Channel RxHdrCtrl) (i : Nat) (swptr : U64) (p' : Nat) (ch' : Channel RxHdrCtrl) :
    Prop where
  chan : RxChan k p' ch.ctrl.log.length ch'
  le : p ≤ p'
  log : ch'.ctrl.log = ch.ctrl.log
  status : ∀ j, (ch'.sub j).status = (ch.sub j).status
  self : (ch'.sub i).swptr = swptr
  other : ∀ j, j ≠ i → ch'.sub j = ch.sub j

/-- An RX sync of a running subscription that releases up to position `rel i`: the hardware's bound `p'`
stays at or before what every running subscription has released. -/
theorem rxsync_synced (hC : RxChan k p h ch) (e : Int) (hr : (ch.sub i).status = .running) (sync : SubscriptionSync) (rel : Nat → Nat)
    (hrel : ∀ j, (ch.sub j).status = .running → j ≠ i → (ch.sub j).swptr.toNat = rel j % 2 ^ k ∧ p ≤ rel j ∧ rel j ≤ h)
    (hsw : sync.swptr.toNat = rel i % 2 ^ k) (hp : p ≤ rel i) (hh : rel i ≤ h) :
    ∃ p', RxSynced k p ch i sync.swptr p' (ndpChannelRxsync rxHdrOps e ch i sync).1 ∧
      (∀ j, (ch.sub j).status = .running → p' ≤ rel j) ∧
      (ndpChannelRxsync rxHdrOps e ch i sync).2.swptr = sync.swptr ∧
      (ndpChannelRxsync rxHdrOps e ch i sync).2.hwptr.toNat = ch.ctrl.log.length % 2 ^ k := by
  have hlap := hC.lap
  have hseen := hC.seen
  obtain ⟨p', w, h1, hph, hw, hmin, hres⟩ := rxsync_released rxHdrOps (setSwptr_self hC.ctrl e) hC.mask hC.hwptr hC.le
    (by omega) hC.list hr sync rel hrel hsw hp hh
  have hstat : ∀ j, ((ch.rxsynced rxHdrOps e i sync.swptr w).sub j).status = (ch.sub j).status := by
    intro j
    by_cases hji : j = i
    · subst hji
      simp [Channel.rxsynced]
    · simp [Channel.rxsynced, hji]
  rw [hres]
  refine ⟨p', ⟨⟨hC.k31, hC.mask, hC.mhp, hC.hardware, hw, rfl, by omega, le_rfl,
    lt_of_lt_of_le hlap (Nat.add_le_add_right h1 _), fun j => ?_, hC.nodup, hC.startCount⟩,
    h1, rfl, hstat, by simp [Channel.rxsynced], fun j hj => by simp [Channel.rxsynced, hj]⟩, hmin, rfl, hC.hardware⟩
  rw [hstat]
  exact hC.list j

/-! ## The queues -/

/-- What never changes in a queue. -/
structure RxQueue (k : Nat) (q : QueueV2) : Prop where
  items : q.hdrItems.toNat = 2 ^ k
  hdr : q.hdr = q.hdrBase
  off : q.off = q.offBase

/-- A running subscription: `rel` packets are released, the next one to get is packet `r`, and the rest up
to what the queue was shown is before `h`. -/
structure RxSub (k p h : Nat) (sub : Subscription) (q : QueueV2) (rel r : Nat) : Prop where
  low : p ≤ rel
  le : rel ≤ r
  shown : r + q.pktsAvailable.toNat ≤ h
  swptr : sub.swptr.toNat = rel % 2 ^ k
  sync : q.sync.swptr = sub.swptr
  rhp : At k q.rhp r
  wrap : q.rhp.toNat + q.pktsAvailable.toNat < 2 * 2 ^ k

theorem RxSub.mono {sub : Subscription} {q : QueueV2} {rel r p' h' : Nat} (hS : RxSub k p h sub q rel r) (hp : p' ≤ rel)
    (hh : h ≤ h') : RxSub k p' h' sub q rel r :=
  ⟨hp, hS.le, hS.shown.trans hh, hS.swptr, hS.sync, hS.rhp, hS.wrap⟩

theorem RxQueue.mask {q : QueueV2} (hq : RxQueue k q) (hk : k ≤ 31) :
    IsMask (q.hdrItems - 1) k ∧ IsMask q.mask k := by
  have hpos : 0 < 2 ^ k := by positivity
  have hm : IsMask (q.hdrItems - 1) k := by
    unfold IsMask
    rw [BitVec.toNat_sub_of_le (BitVec.le_def.2 (by rw [hq.items]; exact hpos)), hq.items,
      show (1 : U32).toNat = 1 from rfl]
    omega
  exact ⟨hm, hm.setWidth (by omega)⟩

theorem rxSubscriptionSync_running (hr : (ch.sub i).status = .running) (e : Int) (sync : SubscriptionSync) :
    ndpSubscriptionSync rxHdrOps .rx e ch i sync =
      ((ndpChannelRxsync rxHdrOps e ch i sync).1, (ndpChannelRxsync rxHdrOps e ch i sync).2, 0) := by
  unfold ndpSubscriptionSync
  rw [if_neg (by simp [hr])]

theorem rxSubscriptionSync_stopped (hr : (ch.sub i).status ≠ .running) (e : Int) (sync : SubscriptionSync) :
    ndpSubscriptionSync rxHdrOps .rx e ch i sync = (ch, sync, eBadf) := by
  unfold ndpSubscriptionSync
  rw [if_pos hr]

/-- All running subscriptions, with their positions. -/
def RxSubs (k p h : Nat) (ch : Channel RxHdrCtrl) (q : Nat → QueueV2) (rel r : Nat → Nat) : Prop :=
  ∀ j, (ch.sub j).status = .running → RxSub k p h (ch.sub j) (q j) (rel j) (r j)

/-- After a sync of `i` that left its queue in order, all running subscriptions are. -/
theorem RxSubs.synced {ch' : Channel RxHdrCtrl} {rel rel' r r' : Nat → Nat} {p' : Nat} {swptr : U64} {q' : QueueV2}
    (hS : RxSubs k p h ch q rel r) (hC : RxChan k p h ch) (hs : RxSynced k p ch i swptr p' ch')
    (hmin : ∀ j, (ch.sub j).status = .running → p' ≤ rel' j) (hrel : ∀ j, j ≠ i → rel' j = rel j) (hr : ∀ j, j ≠ i → r' j = r j)
    (hi : RxSub k p' ch.ctrl.log.length (ch'.sub i) q' (rel' i) (r' i)) :
    RxSubs k p' ch.ctrl.log.length ch' (Function.update q i q') rel' r' := by
  intro j hj
  by_cases hji : j = i
  · subst hji
    rw [Function.update_self]
    exact hi
  · have hj' : (ch.sub j).status = .running := by rw [← hs.status]; exact hj
    have hm := hmin j hj'
    rw [Function.update_of_ne hji, hs.other j hji, hr j hji, hrel j hji]
    rw [hrel j hji] at hm
    exact (hS j hj').mono hm hC.seen

/-! ## Lock, unlock and get -/

/-- What the library knows of the queue after a lock: everything received and not yet got. -/
theorem rxLock_spec {rel r : Nat → Nat} (hC : RxChan k p h ch) (hq : RxQueue k (q i)) (hS : RxSubs k p h ch q rel r)
    (hr : (ch.sub i).status = .running) (e : Int) :
    ∃ p' avail rhp sync, RxSynced k p ch i (q i).sync.swptr p' (ncNdpV2RxLock rxHdrOps e i ch (q i)).1 ∧
      (∀ j, (ch.sub j).status = .running → p' ≤ rel j) ∧
      (ncNdpV2RxLock rxHdrOps e i ch (q i)).2 = { q i with sync, pktsAvailable := avail, rhp } ∧
      sync.swptr = (q i).sync.swptr ∧ avail.toNat = ch.ctrl.log.length - r i ∧ At k rhp (r i) ∧ rhp.toNat < 2 ^ k := by
  have hpos : 0 < 2 ^ k := by positivity
  have hk := hC.k31
  have h31 : 2 ^ k ≤ 2 ^ 31 := Nat.pow_le_pow_right (by norm_num) hk
  have hSi := hS i hr
  have hlow := hSi.low
  have hle := hSi.le
  have hshown := hSi.shown
  have hwrap := hSi.wrap
  have hseen := hC.seen
  have hlap := hC.lap
  obtain ⟨p', hs, hmin, hsw, hhw⟩ := rxsync_synced hC e hr (q i).sync rel
    (fun j hj _ => ⟨(hS j hj).swptr, (hS j hj).low, by have := (hS j hj).le; have := (hS j hj).shown; omega⟩)
    (by rw [hSi.sync]; exact hSi.swptr) hlow (by omega)
  unfold ncNdpV2RxLock
  rw [rxSubscriptionSync_running hr]
  simp only [ne_eq, not_true_eq_false, if_false]
  generalize ndpChannelRxsync rxHdrOps e ch i (q i).sync = res at hs hsw hhw
  obtain ⟨ch', sync⟩ := res
  have hav : ((sync.hwptr - (q i).rhp.setWidth 64) &&& (q i).mask).toNat = ch.ctrl.log.length - r i :=
    (at_of_mod hhw).toNat_sub_and (hq.mask hk).2 (hSi.rhp.setWidth (by omega)) (by omega) (by omega)
  have hav32 : (((sync.hwptr - (q i).rhp.setWidth 64) &&& (q i).mask).setWidth 32 : U32).toNat = ch.ctrl.log.length - r i := by
    rw [BitVec.toNat_setWidth, hav, Nat.mod_eq_of_lt (by omega)]
  by_cases hge : (q i).rhp ≥ (q i).hdrItems
  · have hge' : 2 ^ k ≤ (q i).rhp.toNat := by rw [← hq.items]; exact BitVec.le_def.1 hge
    have hsub : ((q i).rhp - (q i).hdrItems).toNat = (q i).rhp.toNat - 2 ^ k := by
      rw [BitVec.toNat_sub_of_le hge, hq.items]
    refine ⟨p', _, (q i).rhp - (q i).hdrItems, sync, hs, hmin, by rw [if_pos hge]; rfl, hsw, hav32, ?_, by omega⟩
    unfold At
    rw [hsub]
    refine Nat.ModEq.trans ?_ hSi.rhp
    unfold Nat.ModEq
    rw [Nat.mod_eq_sub_mod hge']
  · have hlt : (q i).rhp.toNat < 2 ^ k := by
      rw [← hq.items]; exact Nat.lt_of_not_le fun hc => hge (BitVec.le_def.2 hc)
    exact ⟨p', _, (q i).rhp, sync, hs, hmin, by rw [if_neg hge]; rfl, hsw, hav32, hSi.rhp, hlt⟩

/-- A put releases everything got so far. -/
theorem rxUnlock_spec {rel r : Nat → Nat} (hC : RxChan k p h ch) (hq : RxQueue k (q i)) (hS : RxSubs k p h ch q rel r)
    (hr : (ch.sub i).status = .running) (e : Int) :
    ∃ p' swptr ch' sync, ncNdpV2RxUnlock rxHdrOps e i ch (q i) = (ch', { q i with sync }, 0) ∧
      RxSynced k p ch i swptr p' ch' ∧
      RxSubs k p' ch.ctrl.log.length ch' (Function.update q i { q i with sync }) (Function.update rel i (r i)) r := by
  have hSi := hS i hr
  have hlow := hSi.low
  have hle := hSi.le
  have hshown := hSi.shown
  have hk := hC.k31
  have hsw : ((q i).rhp &&& ((q i).hdrItems - 1)).toNat = r i % 2 ^ k := hSi.rhp.toNat_and (hq.mask hk).1
  obtain ⟨p', hs, hmin, hsync, _⟩ := rxsync_synced hC e hr
    { (q i).sync with swptr := ((q i).rhp &&& ((q i).hdrItems - 1)).setWidth 64 } (Function.update rel i (r i))
    (fun j hj hji => by
      rw [Function.update_of_ne hji]
      have := (hS j hj).le
      have := (hS j hj).shown
      exact ⟨(hS j hj).swptr, (hS j hj).low, by omega⟩)
    (by rw [Function.update_self, toNat_setWidth64]; exact hsw) (by rw [Function.update_self]; omega)
    (by rw [Function.update_self]; omega)
  unfold ncNdpV2RxUnlock
  simp only [rxSubscriptionSync_running hr]
  generalize ndpChannelRxsync rxHdrOps e ch i _ = res at hs hsync
  obtain ⟨ch', sync⟩ := res
  refine ⟨p', _, ch', sync, rfl, hs, hS.synced hC hs hmin (fun j hj => Function.update_of_ne hj ..) (fun j _ => rfl) ?_⟩
  have hi := hmin i hr
  rw [Function.update_self] at hi
  rw [Function.update_self]
  refine ⟨hi, le_rfl, hshown.trans hC.seen, ?_, ?_, hSi.rhp, hSi.wrap⟩
  · rw [hs.self, toNat_setWidth64]; exact hsw
  · rw [hs.self]; exact hsync

/-- Handing out `n` available packets. -/
theorem RxSub.take {sub : Subscription} {q : QueueV2} {rel r : Nat} (hk : k ≤ 31) (hS : RxSub k p h sub q rel r) {n : U32}
    (hn : n.toNat ≤ q.pktsAvailable.toNat) :
    RxSub k p h sub (q.take n) rel (r + n.toNat) := by
  have hle := hS.le
  have hshown := hS.shown
  have hwrap := hS.wrap
  have h31 : 2 ^ k ≤ 2 ^ 31 := Nat.pow_le_pow_right (by norm_num) hk
  have hav : (q.pktsAvailable - n).toNat = q.pktsAvailable.toNat - n.toNat := BitVec.toNat_sub_of_le (BitVec.le_def.2 hn)
  have hrhp : (q.rhp + n).toNat = q.rhp.toNat + n.toNat := by
    rw [BitVec.toNat_add, Nat.mod_eq_of_lt (by omega)]
  refine ⟨hS.low, by omega, ?_, hS.swptr, hS.sync, At.add (by omega) hS.rhp (at_toNat n), ?_⟩
  · show r + n.toNat + (q.pktsAvailable - n).toNat ≤ h
    omega
  · show (q.rhp + n).toNat + (q.pktsAvailable - n).toNat < 2 * 2 ^ k
    omega

theorem v2RxPackets_eq {q : QueueV2} {r : Nat} (mem : V2Mem) (hq : RxQueue k q) (hr : At k q.rhp r) (n : U32) :
    v2RxPackets mem q n =
      (List.range n.toNat).map fun j => v2RxPacket q.buffer (mem.hdr ((r + j) % 2 ^ k)) (mem.off ((r + j) % 2 ^ k)) := by
  have hslot : ∀ j : Nat, (q.rhp.toNat + j) % 2 ^ k = (r + j) % 2 ^ k := fun j => Nat.ModEq.add_right j hr
  have hshadow : ∀ (b : Int) (j : Nat), shadowSlot q.hdrItems.toNat (b + q.rhp.toNat + j - b) = (r + j) % 2 ^ k := by
    intro b j
    unfold shadowSlot
    rw [show b + (q.rhp.toNat : Int) + j - b = ((q.rhp.toNat + j : Nat) : Int) by push_cast; ring, hq.items, ← hslot j,
      ← Int.natCast_mod, Int.toNat_natCast]
  unfold v2RxPackets
  refine List.map_congr_left fun j _ => ?_
  rw [hq.hdr, hq.off, hshadow, hshadow]

/-- A get hands out the next packets received, as many as asked for or as there are. -/
theorem rxGet_spec {rel r : Nat → Nat} (hC : RxChan k p h ch) (hq : RxQueue k (q i)) (hS : RxSubs k p h ch q rel r)
    (hr : (ch.sub i).status = .running) (e : Int) (mem : V2Mem) (count : U32) :
    ∃ p' h' ch' q' n, ncNdpV2RxBurstGet rxHdrOps e i ch mem (q i) count = (ch', q', (List.range n).map fun j =>
        v2RxPacket (q i).buffer (mem.hdr ((r i + j) % 2 ^ k)) (mem.off ((r i + j) % 2 ^ k))) ∧
      n = min count.toNat (ch.ctrl.log.length - r i) ∧ RxChan k p' h' ch' ∧ RxQueue k q' ∧ q'.buffer = (q i).buffer ∧
      RxSubs k p' h' ch' (Function.update q i q') rel (Function.update r i (r i + n)) ∧ ch'.ctrl.log = ch.ctrl.log ∧
      ∀ j, (ch'.sub j).status = (ch.sub j).status := by
  have hSi := hS i hr
  have hle := hSi.le
  have hshown := hSi.shown
  have hseen := hC.seen
  unfold ncNdpV2RxBurstGet
  by_cases hshort : (q i).pktsAvailable < count
  · obtain ⟨p', avail, rhp, sync, hs, hmin, hq', hsync, hav, hrhp, hlt⟩ := rxLock_spec hC hq hS hr e
    simp only [hshort, if_true, true_and]
    generalize ncNdpV2RxLock rxHdrOps e i ch (q i) = res at hs hq'
    obtain ⟨ch', q'⟩ := res
    simp only at hq' hs
    have hqq : RxQueue k q' := by rw [hq']; exact ⟨hq.items, hq.hdr, hq.off⟩
    have hbuf : q'.buffer = (q i).buffer := by rw [hq']
    have hav' : q'.pktsAvailable.toNat = ch.ctrl.log.length - r i := by rw [hq']; exact hav
    have hcount : (umin q'.pktsAvailable count).toNat = min count.toNat (ch.ctrl.log.length - r i) := by
      rw [toNat_umin, hav', Nat.min_comm]
    -- the queue after the lock
    have hlocked : RxSub k p' ch.ctrl.log.length (ch'.sub i) q' (rel i) (r i) := by
      have hlap := hC.lap
      have hlow := hSi.low
      rw [hq']
      refine ⟨hmin i hr, hle, ?_, ?_, ?_, hrhp, ?_⟩
      · show r i + avail.toNat ≤ _
        omega
      · rw [hs.self, hSi.sync]; exact hSi.swptr
      · rw [hs.self]; exact hsync
      · show rhp.toNat + avail.toNat < 2 * 2 ^ k
        omega
    by_cases h0 : umin q'.pktsAvailable count = 0
    · rw [if_pos h0]
      rw [h0] at hcount
      refine ⟨p', _, ch', q', 0, rfl, by simpa using hcount, hs.chan, hqq, hbuf, ?_, hs.log, hs.status⟩
      refine hS.synced hC hs hmin (fun j _ => rfl) (fun j hj => Function.update_of_ne hj ..) ?_
      rw [Function.update_self]
      exact hlocked
    · rw [if_neg h0]
      have hpk := v2RxPackets_eq mem hqq hlocked.rhp (umin q'.pktsAvailable count)
      rw [hbuf] at hpk
      refine ⟨p', _, ch', q'.take (umin q'.pktsAvailable count), (umin q'.pktsAvailable count).toNat, by rw [← hpk], hcount, hs.chan,
        ⟨hqq.items, hqq.hdr, hqq.off⟩, hbuf, ?_, hs.log, hs.status⟩
      refine hS.synced hC hs hmin (fun j _ => rfl) (fun j hj => Function.update_of_ne hj ..) ?_
      rw [Function.update_self]
      exact hlocked.take hC.k31 (by rw [toNat_umin]; exact Nat.min_le_left _ _)
  · have hcount : count.toNat ≤ (q i).pktsAvailable.toNat := Nat.le_of_not_lt fun hlt => hshort (BitVec.lt_def.2 hlt)
    simp only [hshort, if_false, false_and]
    refine ⟨p, h, ch, (q i).take count, count.toNat, by rw [v2RxPackets_eq mem hq hSi.rhp], by omega, hC, ⟨hq.items, hq.hdr, hq.off⟩, rfl,
      fun j hj => ?_, rfl, fun j => rfl⟩
    by_cases hji : j = i
    · subst hji
      rw [Function.update_self, Function.update_self]
      exact hSi.take hC.k31 hcount
    · rw [Function.update_of_ne hji, Function.update_of_ne hji]
      exact hS j hj

theorem rxGet_stopped {q : QueueV2} (hq : RxQueue k q) (hr : (ch.sub i).status ≠ .running) (e : Int) (mem : V2Mem) (count : U32) :
    ∃ q' packets, ncNdpV2RxBurstGet rxHdrOps e i ch mem q count = (ch, q', packets) ∧ RxQueue k q' ∧
      (q.pktsAvailable = 0 → q'.pktsAvailable = 0 ∧ packets = []) := by
  have hlock : ncNdpV2RxLock rxHdrOps e i ch q = (ch, q) := by
    unfold ncNdpV2RxLock
    rw [rxSubscriptionSync_stopped hr]
    rfl
  unfold ncNdpV2RxBurstGet
  by_cases hshort : q.pktsAvailable < count
  · simp only [hshort, if_true, true_and, hlock]
    by_cases h0 : umin q.pktsAvailable count = 0
    · rw [if_pos h0]
      exact ⟨q, [], rfl, hq, fun hz => ⟨hz, rfl⟩⟩
    · rw [if_neg h0]
      refine ⟨_, _, rfl, ⟨hq.items, hq.hdr, hq.off⟩, fun hz => absurd ?_ h0⟩
      rw [hz] at hshort ⊢
      unfold umin
      rw [if_pos hshort]
  · simp only [hshort, if_false, false_and]
    refine ⟨_, _, rfl, ⟨hq.items, hq.hdr, hq.off⟩, fun hz => ?_⟩
    have hc : count = 0 := by
      rw [hz] at hshort
      have := mt BitVec.lt_def.2 hshort
      exact BitVec.eq_of_toNat_eq (by simpa using this)
    subst hc
    exact ⟨by simp [QueueV2.take, hz], rfl⟩

theorem rxUnlock_stopped (q : QueueV2) (hr : (ch.sub i).status ≠ .running) (e : Int) :
    ∃ sync, ncNdpV2RxUnlock rxHdrOps e i ch q = (ch, { q with sync }, eBadf) := by
  unfold ncNdpV2RxUnlock
  simp only [rxSubscriptionSync_stopped hr]
  exact ⟨_, rfl⟩

/-! ## Start and stop -/

/-- The channel after `i` joined it. -/
def rxJoin (ch : Channel RxHdrCtrl) (i : Nat) : Channel RxHdrCtrl :=
  { ch with
    startCount := ch.startCount + 1
    listSubscriptions := ch.listSubscriptions ++ [i]
    sub := Function.update ch.sub i { status := .running, hwptr := ch.hwptr, swptr := ch.hwptr } }

/-- The channel after its controller started. -/
def rxReset (ch : Channel RxHdrCtrl) : Channel RxHdrCtrl :=
  { ch with ctrl := { ch.ctrl with swptr := 0, log := [] }, hwptr := 0, swptr := 0 }

theorem rxStart_cases (ch : Channel RxHdrCtrl) (i : Nat) (ret : Int) (sync : SubscriptionSync) :
    (∃ err, err ≠ 0 ∧ ndpSubscriptionStart rxHdrOps .rx ret ch i sync = (ch, sync, err)) ∨
    ∃ ch₀, (ch₀ = ch ∧ ch.startCount ≠ 0 ∨ ch₀ = rxReset ch ∧ ch.startCount = 0) ∧ (ch.sub i).status = .subscribed ∧
      ndpSubscriptionStart rxHdrOps .rx ret ch i sync =
        (rxJoin ch₀ i, { sync with hwptr := ch₀.hwptr, swptr := ch₀.hwptr }, 0) := by
  unfold ndpSubscriptionStart ndpChannelStart
  by_cases hst : (ch.sub i).status = .subscribed
  · rw [if_neg (not_not.2 hst)]
    by_cases hc : ch.startCount = 0
    · by_cases hret : ret ≠ 0
      · have hop : rxHdrOps.start ch.ctrl ret = (ch.ctrl, ret, 0) := if_pos hret
        refine Or.inl ⟨ret, hret, ?_⟩
        simp only [if_pos hc, hop, if_pos hret]
      · have hop : rxHdrOps.start ch.ctrl ret = ({ ch.ctrl with swptr := 0, log := [] }, 0, 0) := if_neg hret
        refine Or.inr ⟨rxReset ch, Or.inr ⟨rfl, hc⟩, hst, ?_⟩
        simp only [if_pos hc, hop, ne_eq, not_true_eq_false, if_false, Function.update_self, Function.update_idem]
        rfl
    · refine Or.inr ⟨ch, Or.inl ⟨rfl, hc⟩, hst, ?_⟩
      simp only [if_neg hc, ne_eq, not_true_eq_false, if_false, Function.update_self, Function.update_idem]
      rfl
  · rw [if_pos hst]
    exact Or.inl ⟨eBadf, by decide, rfl⟩

theorem RxChan.reset (hC : RxChan k p h ch) : RxChan k 0 0 (rxReset ch) :=
  ⟨hC.k31, hC.mask, hC.mhp, by simp [rxReset], by simp [rxReset], rfl, le_rfl, by simp [rxReset], by simp [rxReset],
    hC.list, hC.nodup, hC.startCount⟩

theorem RxChan.join (hC : RxChan k p h ch) (hi : (ch.sub i).status ≠ .running) : RxChan k p h (rxJoin ch i) := by
  have hnot : i ∉ ch.listSubscriptions := fun hm => hi ((hC.list i).1 hm)
  refine ⟨hC.k31, hC.mask, hC.mhp, hC.hwptr, hC.swptr, hC.ctrl, hC.le, hC.seen, hC.lap, fun j => ?_, ?_, ?_⟩
  · show j ∈ ch.listSubscriptions ++ [i] ↔ (Function.update ch.sub i _ j).status = _
    by_cases hji : j = i
    · subst hji
      simp
    · rw [Function.update_of_ne hji, List.mem_append, List.mem_singleton, hC.list]
      simp [hji]
  · show (ch.listSubscriptions ++ [i]).Nodup
    rw [List.nodup_append]
    exact ⟨hC.nodup, List.nodup_singleton i, fun a ha b hb => by
      rw [List.mem_singleton] at hb; rintro rfl; exact hnot (hb ▸ ha)⟩
  · show ch.startCount + 1 = (ch.listSubscriptions ++ [i]).length
    rw [hC.startCount, List.length_append, List.length_singleton]

/-- The channel after `i` left it. -/
def rxLeave (ch : Channel RxHdrCtrl) (i : Nat) : Channel RxHdrCtrl :=
  { ch with
    startCount := ch.startCount - 1
    listSubscriptions := ch.listSubscriptions.erase i
    sub := Function.update ch.sub i { ch.sub i with status := .subscribed } }

/-- One attempt to stop: the controller refuses, if it is not forced, or `i` is out of the list. -/
theorem rxChannelStop_cases (ch : Channel RxHdrCtrl) (i : Nat) (ret : Int) (force : Bool) : ∃ l,
    force = false ∧ ndpChannelStop rxHdrOps ret ch i force = ({ ch with lockedSub := l }, eAgain) ∨
    ndpChannelStop rxHdrOps ret ch i force = ({ ch with
      lockedSub := l, startCount := ch.startCount - 1, listSubscriptions := ch.listSubscriptions.erase i }, 0) := by
  obtain ⟨l, hl⟩ : ∃ l, (if ch.lockedSub = some i then { ch with lockedSub := none } else ch) = { ch with lockedSub := l } := by
    split
    · exact ⟨none, rfl⟩
    · exact ⟨ch.lockedSub, rfl⟩
  refine ⟨l, ?_⟩
  unfold ndpChannelStop
  simp only [hl]
  by_cases hc : ch.startCount = 1
  · by_cases hret : ret = eAgain ∧ ¬ force = true
    · have hop : rxHdrOps.stop ch.ctrl ret force = (ch.ctrl, eAgain) := by simp only [rxHdrOps, if_pos hret]
      refine Or.inl ⟨by simpa using hret.2, ?_⟩
      simp only [if_pos hc, hop, if_true]
    · have hop : rxHdrOps.stop ch.ctrl ret force = (ch.ctrl, 0) := by simp only [rxHdrOps, if_neg hret]
      have h0 : ¬ (0 : Int) = eAgain := by decide
      refine Or.inr ?_
      simp only [if_pos hc, hop, if_neg h0]
  · refine Or.inr ?_
    simp only [if_neg hc]

theorem rxStop_cases (ch : Channel RxHdrCtrl) (i : Nat) (ret : Int) (force : Bool) :
    ∃ l, (ndpSubscriptionStop rxHdrOps ret ret ch i force).1 = { ch with lockedSub := l } ∨
      (ch.sub i).status = .running ∧
        (ndpSubscriptionStop rxHdrOps ret ret ch i force).1 = rxLeave { ch with lockedSub := l } i := by
  have h0 : ¬ (0 : Int) = eAgain := by decide
  unfold ndpSubscriptionStop
  by_cases hst : (ch.sub i).status = .running
  · rw [if_neg (not_not.2 hst)]
    obtain ⟨l, ⟨_, hs⟩ | hs⟩ := rxChannelStop_cases ch i ret false
    · simp only [hs, if_true]
      cases force with
      | false => exact ⟨l, Or.inl rfl⟩
      | true =>
        obtain ⟨l', ⟨hf, _⟩ | hs'⟩ := rxChannelStop_cases { ch with lockedSub := l } i ret true
        · cases hf
        · refine ⟨l', Or.inr ⟨hst, ?_⟩⟩
          simp only [hs', if_true]
          rfl
    · refine ⟨l, Or.inr ⟨hst, ?_⟩⟩
      simp only [hs, if_neg h0]
      rfl
  · rw [if_pos hst]
    exact ⟨ch.lockedSub, Or.inl rfl⟩

theorem RxChan.leave (hC : RxChan k p h ch) (hi : (ch.sub i).status = .running) : RxChan k p h (rxLeave ch i) := by
  have hmem : i ∈ ch.listSubscriptions := (hC.list i).2 hi
  refine ⟨hC.k31, hC.mask, hC.mhp, hC.hwptr, hC.swptr, hC.ctrl, hC.le, hC.seen, hC.lap, fun j => ?_, hC.nodup.erase i, ?_⟩
  · show j ∈ ch.listSubscriptions.erase i ↔ (Function.update ch.sub i _ j).status = _
    rw [hC.nodup.mem_erase_iff]
    by_cases hji : j = i
    · subst hji
      simp
    · rw [Function.update_of_ne hji, hC.list]
      simp [hji]
  · show ch.startCount - 1 = (ch.listSubscriptions.erase i).length
    rw [List.length_erase_of_mem hmem, hC.startCount]

end NdkSw.Ndp

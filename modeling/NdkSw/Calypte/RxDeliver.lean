/-
Runs of a protocol 3 RX channel. As long as no queue starts with a valid flag or packets of an earlier
run, and no get goes on behind a wrap of the ring that its last put has not seen, every get returns the
number of packets it fills in, and these are the headers written since the start, each once and in order.
-/
import NdkSw.Calypte.RxInv

namespace NdkSw.Calypte

open Ndp Ring

variable {k : Nat}

namespace RxV3

/-! ## What a queue got -/

/-- The packets filled in since the start of queue `i`. -/
def filled (s : RxV3) (i : Nat) : List NdpPacket := (s.gets i).flatMap Prod.snd

/-- The header that queue `i` gets next. -/
def next (s : RxV3) (i : Nat) : Nat := s.start i + (s.filled i).length

/-- Every get of queue `i` since its start returned the number of packets it filled in, and these are the
headers written since, one after the other. -/
structure Delivered (s : RxV3) (i : Nat) : Prop where
  counts : ∀ g ∈ s.gets i, g.1.toNat = g.2.length
  packets : ∀ j pkt, (s.filled i)[j]? = some pkt → ∃ hdr, s.ch.ctrl.log[s.start i + j]? = some hdr ∧
    pkt = v3RxPacket (s.q i).buffer hdr

variable {s : RxV3} {i : Nat}

theorem Delivered.congr {s' : RxV3} (h : Delivered s i) (hgets : s'.gets i = s.gets i) (hstart : s'.start i = s.start i)
    (hbuf : (s'.q i).buffer = (s.q i).buffer) (hlog : s.ch.ctrl.log <+: s'.ch.ctrl.log) : Delivered s' i := by
  have hfilled : s'.filled i = s.filled i := by rw [filled, hgets]; rfl
  refine ⟨by rw [hgets]; exact h.counts, fun j pkt hpkt => ?_⟩
  rw [hfilled] at hpkt
  obtain ⟨hdr, hlog', hp⟩ := h.packets j pkt hpkt
  rw [hstart, hbuf]
  obtain ⟨hlt, _⟩ := List.getElem?_eq_some_iff.1 hlog'
  obtain ⟨t, ht⟩ := hlog
  refine ⟨hdr, ?_, hp⟩
  rw [← ht, List.getElem?_append_left hlt]
  exact hlog'

/-! ## The invariant -/

/-- The running queues; `hc` is where the driver's scan stands. -/
structure Queues (k hc : Nat) (s : RxV3) : Prop where
  seen : RxSeen k hc s.ch
  subs : ∀ i, (s.ch.sub i).status = .running →
    ∃ rel h, RxSub k s.ch.ctrl.log.length (s.q i) rel (s.next i) h ∧ ((s.q i).userspace = false → h ≤ hc)

structure Inv (k : Nat) (userspace : Bool) (s : RxV3) : Prop where
  frame : RxFrame k s.ch
  masks : ∀ i, IsMask (s.q i).hdrPtrMask k
  mode : ∀ i, (s.q i).userspace = userspace
  alone : userspace = true → ∀ i, i ≠ 0 → (s.ch.sub i).status = .init
  queues : s.ch.startCount ≠ 0 → ∃ hc, Queues k hc s
  delivered : ∀ i, (s.ch.sub i).status = .running → Delivered s i

variable {userspace : Bool} {q : RxQueue}

theorem Inv.hdrCount (hI : Inv k userspace s) : s.ch.ctrl.hdrCount = 2 ^ k := by
  rw [RxCtrl.hdrCount, hI.frame.ptrmask]
  exact hI.frame.mask

/-! ## Receiving -/

theorem Inv.receive (hI : Inv k userspace s) (hdr : V3PacketHdr) : Inv k userspace (s.receive hdr) := by
  unfold RxV3.receive
  simp only
  split
  · exact hI
  rename_i hgo
  obtain ⟨h0, hroom⟩ := not_or.1 hgo
  rw [not_not] at hroom
  obtain ⟨hc, hQ⟩ := hI.queues h0
  have hF := hI.frame
  rw [hI.hdrCount]
  refine ⟨⟨hF.k31, hF.mask, hF.ptrmask, hF.size, hF.listed.congr rfl rfl fun _ => rfl, fun h => ?_⟩, hI.masks, hI.mode,
    hI.alone, fun _ => ⟨hc, ⟨⟨hQ.seen.hhp, hQ.seen.flag, hQ.seen.hwptr, ?_⟩, fun i hi => ?_⟩⟩, fun i hi => ?_⟩
  · exact (hF.written h).receive _ rfl
  · show hc ≤ (s.ch.ctrl.log ++ [_]).length
    have := hQ.seen.le
    rw [List.length_append]
    omega
  · obtain ⟨rel, h, hS, hhc⟩ := hQ.subs i hi
    have hle := hS.le
    have hshown := hS.shown
    have hseen := hS.seen
    have hlap := hS.lap
    -- one more header does not reach what `i` has not released
    have hdist : ((BitVec.ofNat 64 s.ch.ctrl.log.length - (s.q i).sync.swptr) &&& s.ch.ctrl.ptrmask).toNat =
        s.ch.ctrl.log.length - rel := by
      rw [hF.ptrmask]
      exact (at_ofNat hF.mask.le_width _).toNat_sub_and hF.mask (at_of_mod hS.swptr) (by omega) (by omega)
    have hne : s.ch.ctrl.log.length - rel ≠ 2 ^ k - 1 := by
      intro heq
      refine hroom i ((hF.listed.list i).2 hi) (BitVec.eq_of_toNat_eq ?_)
      rw [hdist, heq, hF.ptrmask, hF.mask.toNat_eq]
    refine ⟨rel, h, ⟨hle, hshown, ?_, ?_, hS.swptr, hS.shp, hS.flag, hS.mask, hS.uspace⟩, hhc⟩
    · show h ≤ (s.ch.ctrl.log ++ [_]).length
      rw [List.length_append]
      omega
    · show (s.ch.ctrl.log ++ [_]).length < rel + 2 ^ k
      rw [List.length_append, List.length_singleton]
      omega
  · exact (hI.delivered i hi).congr rfl rfl rfl ⟨_, rfl⟩

/-! ## Stop -/

theorem rxOps_stop_forced (c : RxCtrl) (e : RxShown) : (rxOps.stop c e true).2 ≠ eAgain := by
  simp [rxOps, ndpCtrlCalypteRxStop, eAgain]

theorem Inv.stop (hI : Inv k userspace s) (i : Nat) (shown₁ shown₂ : RxShown) : Inv k userspace (s.step (.stop i shown₁ shown₂)) := by
  have hF := hI.frame
  by_cases hr : (s.ch.sub i).status = .running
  · obtain ⟨l, ctrl, hctrl, ⟨hmask, hsize⟩, hstop⟩ := ndpSubscriptionStop_forced rxOps_stop_forced
      (P := fun c : RxCtrl => c.ptrmask = s.ch.ctrl.ptrmask ∧ c.hdrBufferSize = s.ch.ctrl.hdrBufferSize)
      (fun c e f h => h) shown₁ shown₂ s.ch i ⟨rfl, rfl⟩ hr
    simp only [RxV3.step, hstop]
    -- while somebody runs the controller is the same
    have hrun : s.ch.startCount - 1 ≠ 0 → ctrl = s.ch.ctrl := fun h => hctrl (by omega)
    have hother : ∀ j, ((Channel.leave { s.ch with lockedSub := l, ctrl } i).sub j).status = .running →
        (s.ch.sub j).status = .running ∧ s.ch.startCount - 1 ≠ 0 := by
      intro j hj
      have hL : Listed (Channel.leave { s.ch with lockedSub := l, ctrl } i) :=
        Listed.leave (hF.listed.congr rfl rfl fun _ => rfl) hr
      refine ⟨?_, hL.startCount_ne hj⟩
      rw [leave_status] at hj
      split at hj
      · cases hj
      · exact hj
    refine ⟨⟨hF.k31, hF.mask, hmask.trans hF.ptrmask, le_of_le_of_eq hF.size hsize.symm,
      Listed.leave (hF.listed.congr rfl rfl fun _ => rfl) hr, fun h => ?_⟩, hI.masks, hI.mode, fun hu j hj => ?_, fun h => ?_,
      fun j hj => ?_⟩
    · show Written k ctrl.hdr ctrl.log
      rw [hrun h]
      exact hF.written (by intro h0; rw [show s.ch.startCount = 0 from h0] at h; exact h rfl)
    · rw [leave_status]
      have hinit := hI.alone hu j hj
      split
      · rename_i hji
        rw [← hji, hinit] at hr
        cases hr
      · exact hinit
    · have hc' := hrun h
      subst hc'
      obtain ⟨hc, hQ⟩ := hI.queues (by intro h0; rw [show s.ch.startCount = 0 from h0] at h; exact h rfl)
      exact ⟨hc, ⟨hQ.seen.hhp, hQ.seen.flag, hQ.seen.hwptr, hQ.seen.le⟩, fun j hj => hQ.subs j (hother j hj).1⟩
    · obtain ⟨hj', hcount⟩ := hother j hj
      have hc' := hrun hcount
      subst hc'
      exact (hI.delivered j hj').congr rfl rfl rfl List.prefix_rfl
  · simp only [RxV3.step, ndpSubscriptionStop_stopped rxOps shown₁ shown₂ s.ch i true hr]
    exact hI

/-! ## Calls of a running queue -/

/-- A call of a running queue that leaves it in order, and its history too. -/
theorem Inv.called (hI : Inv k userspace s) (hr : (s.ch.sub i).status = .running) {hc hc' rel h : Nat} (hQ : Queues k hc s)
    {ch : Channel RxCtrl} {l : List (U32 × List NdpPacket)} (hs : SameRing s.ch ch) (hH : RxSeen k hc' ch) (hle : hc ≤ hc')
    (hbuf : q.buffer = (s.q i).buffer) (hmode : q.userspace = (s.q i).userspace)
    (hS : RxSub k s.ch.ctrl.log.length q rel (s.start i + (l.flatMap Prod.snd).length) h) (hhc : (s.q i).userspace = false → h ≤ hc')
    (hD : Delivered { s with ch, q := Function.update s.q i q, gets := Function.update s.gets i l } i) :
    Inv k userspace { s with ch, q := Function.update s.q i q, gets := Function.update s.gets i l } := by
  constructor
  case frame => exact hI.frame.same hs
  case masks =>
    intro j
    by_cases hji : j = i
    · subst hji
      simp only [Function.update_self]
      exact hS.mask
    · simp only [Function.update_of_ne hji]
      exact hI.masks j
  case mode =>
    intro j
    by_cases hji : j = i
    · subst hji
      simp only [Function.update_self]
      exact hmode.trans (hI.mode j)
    · simp only [Function.update_of_ne hji]
      exact hI.mode j
  case alone =>
    intro hu j hj
    show (ch.sub j).status = _
    rw [hs.status]
    exact hI.alone hu j hj
  case queues =>
    refine fun _ => ⟨hc', hH, fun j hj => ?_⟩
    have hj' : (s.ch.sub j).status = .running := by rw [← hs.status]; exact hj
    by_cases hji : j = i
    · subst hji
      refine ⟨rel, h, ?_, ?_⟩
      · simp only [next, filled, Function.update_self, hs.log]
        exact hS
      · simp only [Function.update_self, hmode]
        exact hhc
    · obtain ⟨rel', h', hS', hhc''⟩ := hQ.subs j hj'
      refine ⟨rel', h', ?_, ?_⟩
      · simp only [next, filled, Function.update_of_ne hji, hs.log]
        exact hS'
      · simp only [Function.update_of_ne hji]
        exact fun hu => (hhc'' hu).trans hle
  case delivered =>
    intro j hj
    have hj' : (s.ch.sub j).status = .running := by rw [← hs.status]; exact hj
    by_cases hji : j = i
    · subst hji
      exact hD
    · refine (hI.delivered j hj').congr ?_ rfl ?_ ?_
      · simp only [Function.update_of_ne hji]
      · simp only [Function.update_of_ne hji]
      · show s.ch.ctrl.log <+: ch.ctrl.log
        rw [hs.log]

theorem Inv.called_stopped (hI : Inv k userspace s) (hr : (s.ch.sub i).status ≠ .running) (l : List (U32 × List NdpPacket))
    (hm : q.hdrPtrMask = (s.q i).hdrPtrMask) (hmode : q.userspace = (s.q i).userspace) :
    Inv k userspace { s with q := Function.update s.q i q, gets := Function.update s.gets i l } := by
  have hne : ∀ j, (s.ch.sub j).status = .running → j ≠ i := fun j hj hji => hr (hji ▸ hj)
  constructor
  case frame => exact hI.frame
  case masks =>
    intro j
    by_cases hji : j = i
    · subst hji
      simp only [Function.update_self, hm]
      exact hI.masks j
    · simp only [Function.update_of_ne hji]
      exact hI.masks j
  case mode =>
    intro j
    by_cases hji : j = i
    · subst hji
      simp only [Function.update_self]
      exact hmode.trans (hI.mode j)
    · simp only [Function.update_of_ne hji]
      exact hI.mode j
  case alone => exact hI.alone
  case queues =>
    intro h0
    obtain ⟨hc, hQ⟩ := hI.queues h0
    refine ⟨hc, hQ.seen, fun j hj => ?_⟩
    simp only [next, filled, Function.update_of_ne (hne j hj)]
    exact hQ.subs j hj
  case delivered =>
    intro j hj
    refine (hI.delivered j hj).congr ?_ rfl ?_ List.prefix_rfl
    · simp only [Function.update_of_ne (hne j hj)]
    · simp only [Function.update_of_ne (hne j hj)]

/-! ## Get and put -/

theorem Inv.get {s : RxV3} (hI : Inv k userspace s) (i : Nat) (count : U32)
    (hready : (s.ch.sub i).status = .running → GetReady s.ch (s.q i) count) : Inv k userspace (s.step (.get i count)) := by
  by_cases hr : (s.ch.sub i).status = .running
  · have h0 := hI.frame.listed.startCount_ne hr
    obtain ⟨hc, hQ⟩ := hI.queues h0
    obtain ⟨rel, h, hS, hhc⟩ := hQ.subs i hr
    have hD := hI.delivered i hr
    obtain ⟨ch', q', hc', h', n, hget, hs, hH', hle, hS', hh', hbuf, hmode, _⟩ :=
      rxGet_spec hI.frame hQ.seen hr hS hhc idle count (hready hr)
    have hlen : (packetsFrom k s.ch (s.q i).buffer (s.next i) n.toNat).length = n.toNat := by simp [packetsFrom]
    have hfill : (s.gets i ++ [(n, packetsFrom k s.ch (s.q i).buffer (s.next i) n.toNat)]).flatMap Prod.snd =
        s.filled i ++ packetsFrom k s.ch (s.q i).buffer (s.next i) n.toNat := by
      rw [List.flatMap_append, List.flatMap_singleton]
      rfl
    have hS'' : RxSub k s.ch.ctrl.log.length q' rel (s.start i + ((s.gets i ++
        [(n, packetsFrom k s.ch (s.q i).buffer (s.next i) n.toNat)]).flatMap Prod.snd).length) h' := by
      rw [hfill, List.length_append, hlen, ← Nat.add_assoc]
      exact hS'
    simp only [RxV3.step, hget]
    refine hI.called hr hQ hs hH' hle hbuf hmode hS'' hh' ⟨fun g hg => ?_, fun j pkt hpkt => ?_⟩
    · simp only [Function.update_self] at hg
      rcases List.mem_append.1 hg with hg | hg
      · exact hD.counts g hg
      · rw [List.mem_singleton] at hg
        rw [hg]
        exact hlen.symm
    · simp only [filled, Function.update_self] at hpkt
      rw [hfill] at hpkt
      simp only [Function.update_self, hs.log, hbuf]
      rcases Nat.lt_or_ge j (s.filled i).length with hlt | hge
      · rw [List.getElem?_append_left hlt] at hpkt
        exact hD.packets j pkt hpkt
      · -- a packet of this get: the ring still holds its header
        rw [List.getElem?_append_right hge] at hpkt
        simp only [packetsFrom, List.getElem?_map] at hpkt
        obtain ⟨m, hm, rfl⟩ := Option.map_eq_some_iff.1 hpkt
        obtain ⟨hlt, hm'⟩ := List.getElem?_eq_some_iff.1 hm
        rw [List.getElem_range] at hm'
        rw [List.length_range] at hlt
        have hnext : s.next i = s.start i + (s.filled i).length := rfl
        have hshown := hS'.shown
        have hseen := hS'.seen
        have hlap := hS.lap
        have hrel := hS.le
        have hj : j - (s.filled i).length = m := hm'
        have hpos : s.next i + m < s.ch.ctrl.log.length := by omega
        rw [show s.start i + j = s.next i + m by omega]
        refine ⟨_, List.getElem?_eq_getElem hpos, ?_⟩
        rw [(hI.frame.written h0).header hpos (by omega)]
        rfl
  · obtain ⟨q', packets, ret, hget, hm, hmode⟩ := rxGet_stopped (s.q i) hr idle count
    simp only [RxV3.step, hget]
    exact hI.called_stopped hr _ hm hmode

theorem Inv.put (hI : Inv k userspace s) (i : Nat) : Inv k userspace (s.step (.put i)) := by
  have hgets : s.gets = Function.update s.gets i (s.gets i) := (Function.update_eq_self i s.gets).symm
  by_cases hr : (s.ch.sub i).status = .running
  · obtain ⟨hc, hQ⟩ := hI.queues (hI.frame.listed.startCount_ne hr)
    obtain ⟨rel, h, hS, hhc⟩ := hQ.subs i hr
    obtain ⟨ch', q', hc', h', hput, hs, hH', hle, hS', hh', hbuf, hmode, _⟩ := rxPut_spec hI.frame hQ.seen hr hS hhc idle
    simp only [RxV3.step, hput]
    rw [hgets]
    refine hI.called hr hQ hs hH' hle hbuf hmode hS' hh' ((hI.delivered i hr).congr ?_ rfl ?_ ?_)
    · simp only [Function.update_self]
    · simp only [Function.update_self, hbuf]
    · show s.ch.ctrl.log <+: ch'.ctrl.log
      rw [hs.log]
  · obtain ⟨q', ret, hput, hm, hmode⟩ := rxPut_stopped (s.q i) hr idle
    simp only [RxV3.step, hput]
    rw [hgets]
    exact hI.called_stopped hr _ hm hmode

/-! ## Start -/

/-- Where a start of the channel begins. -/
def startPos (s : RxV3) : Nat := if s.ch.startCount = 0 then 0 else s.ch.ctrl.pos s.ch.hwptr

/-- What a start that succeeds may rely on: nothing is left of an earlier run of the queue, and its valid
flag is that of the lap it begins in. -/
def StartReady (s : RxV3) (i : Nat) (shown : RxShown) : Prop :=
  (s.ch.sub i).status = .subscribed → (s.ch.startCount = 0 → shown.ret = 0) →
    (s.q i).pktsAvailable = 0 ∧ (s.q i).validFlag = lapFlag (lapBit s.ch.ctrl.hdrCount s.startPos) ∧
      ((s.q i).userspace = true → (s.q i).shp = 0 ∧ (s.q i).uspaceHhp = 0)

instance (s : RxV3) (i : Nat) (shown : RxShown) : Decidable (StartReady s i shown) := by
  unfold StartReady; infer_instance

/-- The channel `ch₀` that queue `i` is about to join, with its scan at position `h₀`. -/
structure Joinable (k : Nat) (userspace : Bool) (s : RxV3) (ch₀ : Channel RxCtrl) (h₀ : Nat) : Prop where
  frame : RxFrame k ch₀
  written : Written k ch₀.ctrl.hdr ch₀.ctrl.log
  seen : RxSeen k h₀ ch₀
  lap : ch₀.ctrl.log.length < h₀ + 2 ^ k
  sub : ch₀.sub = s.ch.sub
  pos : h₀ = s.startPos
  uspace : userspace = true → h₀ = 0 ∧ IsMask ch₀.ctrl.mhp k
  others : ∀ j, (s.ch.sub j).status = .running → ch₀ = s.ch ∧
    ∃ rel h, RxSub k s.ch.ctrl.log.length (s.q j) rel (s.next j) h ∧ ((s.q j).userspace = false → h ≤ h₀)

theorem Inv.joinable_running (hI : Inv k userspace s) (hst : (s.ch.sub i).status = .subscribed) (h0 : s.ch.startCount ≠ 0) :
    ∃ hc, Joinable k userspace s s.ch hc := by
  obtain ⟨hc, hQ⟩ := hI.queues h0
  obtain ⟨j, hj⟩ := hI.frame.listed.exists_running h0
  have hus : userspace = false := by
    by_contra hne
    have hall : ∀ m, (s.ch.sub m).status ≠ .init → m = 0 := fun m hm => by
      by_contra hm0
      exact hm (hI.alone (by simpa using hne) m hm0)
    have hi0 := hall i (by rw [hst]; simp)
    have hj0 := hall j (by rw [hj]; simp)
    rw [hi0, ← hj0, hj] at hst
    cases hst
  obtain ⟨rel, h, hS, hhc⟩ := hQ.subs j hj
  have hle := hS.le
  have hshown := hS.shown
  have hlap := hS.lap
  have hh := hhc ((hI.mode j).trans hus)
  refine ⟨hc, hI.frame, hI.frame.written h0, hQ.seen, by omega, rfl, ?_, fun hu => absurd (hu.symm.trans hus) (by simp),
    fun m hm => ⟨rfl, hQ.subs m hm⟩⟩
  rw [startPos, if_neg h0, hQ.seen.pos hI.frame (by omega)]

/-- Starting the controller. -/
theorem Inv.joinable_first (hI : Inv k userspace s) {shown : RxShown} (h0 : s.ch.startCount = 0) (hret : shown.ret = 0) :
    Joinable k userspace s (s.ch.reset (rxOps.start s.ch.ctrl shown).1 (rxOps.start s.ch.ctrl shown).2.2) 0 := by
  have hF := hI.frame
  have hk := hF.k31
  have h31 : 2 ^ k < 2 ^ 32 := Nat.pow_lt_pow_right (by norm_num) (by omega)
  have hpos : 0 < 2 ^ k := by positivity
  have hcount := hI.hdrCount
  have hop : rxOps.start s.ch.ctrl shown = ({ s.ch.ctrl with
      hdr := fun j => if j < s.ch.ctrl.hdrCount then { s.ch.ctrl.hdr j with valid := 0 } else s.ch.ctrl.hdr j
      log := [], mdp := BitVec.ofNat 32 s.ch.ctrl.hdrCount - 1, mhp := BitVec.ofNat 32 s.ch.ctrl.hdrCount - 1
      sdp := 0, shp := 0, hhp := 0, validFlag := 1 }, 0, 0) := by
    simp only [rxOps, ndpCtrlCalypteRxStart]
    rw [if_neg (not_not.2 hret)]
    rfl
  rw [hop]
  refine ⟨⟨hk, hF.mask, hF.ptrmask, hF.size, hF.listed.congr rfl rfl fun _ => rfl, fun h => absurd h0 h⟩,
    Written.cleared fun j hj => ?_, ⟨by simp [Channel.reset], ?_, by simp [Channel.reset], le_rfl⟩, ?_, rfl, ?_, fun _ => ⟨rfl, ?_⟩,
    fun j hj => absurd hj (hF.listed.idle h0 j)⟩
  · show (if j < s.ch.ctrl.hdrCount then { s.ch.ctrl.hdr j with valid := 0 } else s.ch.ctrl.hdr j).valid = 0
    rw [if_pos (by rw [hcount]; exact hj)]
  · show (1 : U8) = lapFlag (lapBit (2 ^ k) 0)
    rw [lapBit_zero]
    rfl
  · show (0 : Nat) < 0 + 2 ^ k
    omega
  · rw [startPos, if_pos h0]
  · show IsMask (BitVec.ofNat 32 s.ch.ctrl.hdrCount - 1) k
    unfold IsMask
    have h1 : (BitVec.ofNat 32 (2 ^ k)).toNat = 2 ^ k := by rw [BitVec.toNat_ofNat, Nat.mod_eq_of_lt h31]
    rw [hcount, BitVec.toNat_sub_of_le (BitVec.le_def.2 (by rw [h1]; exact hpos)), h1, show (1 : U32).toNat = 1 from rfl]
    omega

/-- A queue that is ready joins the channel at `h₀`. -/
theorem Inv.joined (hI : Inv k userspace s) (hst : (s.ch.sub i).status = .subscribed) {ch₀ : Channel RxCtrl} {h₀ : Nat}
    (hJ : Joinable k userspace s ch₀ h₀) (hq : RxSub k ch₀.ctrl.log.length q h₀ h₀ h₀) (hmode : q.userspace = (s.q i).userspace) :
    Inv k userspace { ch := ch₀.join i, q := Function.update s.q i q, start := Function.update s.start i h₀
                      gets := Function.update s.gets i [] } := by
  have hF := hJ.frame
  have hnot : (ch₀.sub i).status ≠ .running := by rw [hJ.sub, hst]; simp
  have hrun : ∀ j, ((ch₀.join i).sub j).status = .running → j ≠ i → (s.ch.sub j).status = .running := by
    intro j hj hji
    rw [join_status, if_neg hji, hJ.sub] at hj
    exact hj
  constructor
  case frame => exact ⟨hF.k31, hF.mask, hF.ptrmask, hF.size, hF.listed.join hnot, fun _ => hJ.written⟩
  case masks =>
    intro j
    by_cases hji : j = i
    · subst hji
      simp only [Function.update_self]
      exact hq.mask
    · simp only [Function.update_of_ne hji]
      exact hI.masks j
  case mode =>
    intro j
    by_cases hji : j = i
    · subst hji
      simp only [Function.update_self]
      exact hmode.trans (hI.mode j)
    · simp only [Function.update_of_ne hji]
      exact hI.mode j
  case alone =>
    intro hu j hj
    have hinit := hI.alone hu j hj
    have hji : j ≠ i := fun hji => by rw [← hji, hinit] at hst; cases hst
    rw [join_status, if_neg hji, hJ.sub]
    exact hinit
  case queues =>
    refine fun _ => ⟨h₀, ⟨hJ.seen.hhp, hJ.seen.flag, hJ.seen.hwptr, hJ.seen.le⟩, fun j hj => ?_⟩
    by_cases hji : j = i
    · subst hji
      refine ⟨h₀, h₀, ?_, fun _ => le_rfl⟩
      simp only [next, filled, Function.update_self, List.flatMap_nil, List.length_nil, Nat.add_zero]
      exact hq
    · obtain ⟨rfl, rel, h, hS, hhc⟩ := hJ.others j (hrun j hj hji)
      refine ⟨rel, h, ?_, ?_⟩
      · simp only [next, filled, Function.update_of_ne hji]
        exact hS
      · simp only [Function.update_of_ne hji]
        exact hhc
  case delivered =>
    intro j hj
    by_cases hji : j = i
    · subst hji
      refine ⟨fun g hg => ?_, fun m pkt hpkt => ?_⟩
      · simp only [Function.update_self] at hg
        cases hg
      · simp only [filled, Function.update_self] at hpkt
        cases hpkt
    · obtain ⟨rfl, _⟩ := hJ.others j (hrun j hj hji)
      refine (hI.delivered j (hrun j hj hji)).congr ?_ ?_ ?_ List.prefix_rfl
      · simp only [Function.update_of_ne hji]
      · simp only [Function.update_of_ne hji]
      · simp only [Function.update_of_ne hji]

theorem Inv.start {s : RxV3} (hI : Inv k userspace s) (i : Nat) (shown : RxShown) (hready : StartReady s i shown) :
    Inv k userspace (s.step (.start i shown)) := by
  have hF := hI.frame
  rcases ndpSubscriptionStart_cases rxOps .rx shown s.ch i (s.q i).sync with ⟨ctrl, err, he, hs, hor⟩ | ⟨ch₀, hch, hst, hs⟩
  · simp only [RxV3.step, ncNdpV3RxQueueStart, hs, if_pos he, Function.update_eq_self]
    rcases hor with rfl | ⟨h0, rfl, hret⟩
    · exact hI
    · -- the failed start of a controller that nobody uses
      have hret' : shown.ret ≠ 0 := by
        intro hz
        simp [rxOps, ndpCtrlCalypteRxStart, hz] at hret
      have hidle := hF.listed.idle h0
      have hop : (rxOps.start s.ch.ctrl shown).1 = { s.ch.ctrl with
          hdr := fun j => if j < s.ch.ctrl.hdrCount then { s.ch.ctrl.hdr j with valid := 0 } else s.ch.ctrl.hdr j
          log := [] } := by
        simp only [rxOps, ndpCtrlCalypteRxStart]
        rw [if_pos hret']
      rw [hop]
      exact ⟨⟨hF.k31, hF.mask, hF.ptrmask, hF.size, hF.listed.congr rfl rfl fun _ => rfl, fun h => absurd h0 h⟩, hI.masks,
        hI.mode, hI.alone, fun h => absurd h0 h, fun j hj => absurd hj (hidle j)⟩
  · obtain ⟨h₀, hJ, hret⟩ : ∃ h₀, Joinable k userspace s ch₀ h₀ ∧ (s.ch.startCount = 0 → shown.ret = 0) := by
      rcases hch with ⟨rfl, h0⟩ | ⟨rfl, h0, hret⟩
      · obtain ⟨hc, hJ⟩ := hI.joinable_running hst h0
        exact ⟨hc, hJ, fun h => absurd h h0⟩
      · have hret' : shown.ret = 0 := by
          by_contra hne
          simp [rxOps, ndpCtrlCalypteRxStart, hne] at hret
        exact ⟨0, hI.joinable_first h0 hret', fun _ => hret'⟩
    obtain ⟨hpk, hflag, huser⟩ := hready hst hret
    have hk := hF.k31
    have hlt : h₀ % 2 ^ k < 2 ^ 32 :=
      lt_of_lt_of_le (Nat.mod_lt _ (by positivity)) (Nat.pow_le_pow_right (by norm_num) (by omega))
    have hpos₀ : ch₀.ctrl.pos ch₀.hwptr = h₀ := hJ.seen.pos hJ.frame hJ.lap
    have hpos : (ch₀.join i).ctrl.pos (ch₀.join i).hwptr = h₀ := hpos₀
    rw [hI.hdrCount, ← hJ.pos] at hflag
    simp only [RxV3.step, ncNdpV3RxQueueStart, hs, ne_eq, not_true_eq_false, if_false]
    by_cases hus : (s.q i).userspace = true
    · obtain ⟨hshp, hhhp⟩ := huser hus
      obtain ⟨h00, hmhp⟩ := hJ.uspace ((hI.mode i).symm.trans hus)
      subst h00
      simp only [if_pos hus, hpos, not_true_eq_false, if_false]
      refine hI.joined hst hJ ⟨le_rfl, ?_, hJ.seen.le, hJ.lap, hJ.seen.hwptr, ?_, hflag, hI.masks i, fun _ => ⟨?_, hmhp⟩⟩ rfl
      · show 0 + (s.q i).pktsAvailable.toNat ≤ 0
        rw [hpk]
        rfl
      · show (s.q i).shp.toNat = 0 % 2 ^ k
        rw [hshp]
        simp
      · show (s.q i).uspaceHhp.toNat = 0 % 2 ^ k
        rw [hhhp]
        simp
    · simp only [if_neg hus, hpos, not_true_eq_false, if_false]
      refine hI.joined hst hJ ⟨le_rfl, ?_, hJ.seen.le, hJ.lap, hJ.seen.hwptr, ?_, hflag, hI.masks i, fun hu => absurd hu hus⟩ rfl
      · show h₀ + (s.q i).pktsAvailable.toNat ≤ h₀
        rw [hpk]
        simp
      · show (ch₀.hwptr.setWidth 32 : U32).toNat = _
        rw [BitVec.toNat_setWidth, hJ.seen.hwptr, Nat.mod_eq_of_lt hlt]

/-! ## Runs -/

/-- The condition on a step: starts and gets are ready. -/
def Ready (s : RxV3) : RxV3Act → Prop
  | .start i shown => StartReady s i shown
  | .get i count => (s.ch.sub i).status = .running → GetReady s.ch (s.q i) count
  | _ => True

instance (s : RxV3) : (a : RxV3Act) → Decidable (Ready s a)
  | .start i shown => inferInstanceAs (Decidable (StartReady s i shown))
  | .get i count => inferInstanceAs (Decidable (_ → GetReady s.ch (s.q i) count))
  | .stop _ _ _ => inferInstanceAs (Decidable True)
  | .receive _ => inferInstanceAs (Decidable True)
  | .put _ => inferInstanceAs (Decidable True)

theorem Inv.step (s : RxV3) (a : RxV3Act) (ha : Ready s a) (hI : Inv k userspace s) : Inv k userspace (s.step a) := by
  cases a with
  | start i shown => exact hI.start i shown ha
  | stop i shown₁ shown₂ => exact hI.stop i shown₁ shown₂
  | receive hdr => exact hI.receive hdr
  | get i count => exact hI.get i count ha
  | put i => exact hI.put i

theorem inv_opened (hk : k ≤ 31) {hdrBufferSize : Nat} (hsize : 2 ^ k ≤ hdrBufferSize) (hdr : Nat → V3PacketHdr)
    (userspace : Bool) (o : Nat → V3RxOpen) : Inv k userspace (opened k hdrBufferSize hdr userspace o) := by
  have h31 : 2 ^ k < 2 ^ 32 := Nat.pow_lt_pow_right (by norm_num) (by omega)
  have hpos : 0 < 2 ^ k := by positivity
  have hstat : ∀ j, ((opened k hdrBufferSize hdr userspace o).ch.sub j).status ≠ .running := by
    intro j
    simp only [opened]
    split <;> simp
  refine ⟨⟨hk, isMask_ofNat (by omega), rfl, hsize, ⟨fun j => ?_, List.nodup_nil, rfl⟩, fun h => absurd rfl h⟩, fun i => ?_,
    fun i => rfl, fun hu i hi => ?_, fun h => absurd rfl h, fun i hi => absurd hi (hstat i)⟩
  · constructor
    · intro hj
      cases hj
    · intro hj
      exact absurd hj (hstat j)
  · show IsMask (BitVec.ofNat 32 (2 ^ k) - 1) k
    have h1 : (BitVec.ofNat 32 (2 ^ k)).toNat = 2 ^ k := by rw [BitVec.toNat_ofNat, Nat.mod_eq_of_lt h31]
    unfold IsMask
    rw [BitVec.toNat_sub_of_le (BitVec.le_def.2 (by rw [h1]; exact hpos)), h1, show (1 : U32).toNat = 1 from rfl]
    omega
  · simp [opened, hu, hi]

/-! ## The theorem -/

/-- What a running queue can rely on: its gets so far returned the number of packets they filled in, which
are the headers written since its start, in order; the next get does so exactly if it is ready, and then
returns as many packets as there are or as it asks for, once the queue looks at all of them. -/
structure Served (s : RxV3) (i : Nat) : Prop where
  delivered : Delivered s i
  written : s.next i ≤ s.ch.ctrl.log.length
  counts : ∀ count, (ncNdpV3RxBurstGet idle i s.ch (s.q i) count).2.2.2.toNat =
    (ncNdpV3RxBurstGet idle i s.ch (s.q i) count).2.2.1.length ↔ GetReady s.ch (s.q i) count
  gets : ∀ count, GetReady s.ch (s.q i) count →
    ((s.q i).userspace = true → (s.q i).sync.swptr.toNat ≤ (s.q i).uspaceHhp.toNat) →
    (ncNdpV3RxBurstGet idle i s.ch (s.q i) count).2.2.2.toNat = min count.toNat (s.ch.ctrl.log.length - s.next i)

/-- In every run whose starts and gets are ready every running queue is served. -/
theorem rx_exactly_once_when_ready (hk : k ≤ 31) {hdrBufferSize : Nat} (hsize : 2 ^ k ≤ hdrBufferSize)
    (hdr : Nat → V3PacketHdr) (userspace : Bool) (o : Nat → V3RxOpen) (acts : List RxV3Act)
    (hready : Meets RxV3.step Ready (opened k hdrBufferSize hdr userspace o) acts) (i : Nat)
    (hi : ((run RxV3.step (opened k hdrBufferSize hdr userspace o) acts).ch.sub i).status = .running) :
    Served (run RxV3.step (opened k hdrBufferSize hdr userspace o) acts) i := by
  have hI : Inv k userspace (run RxV3.step (opened k hdrBufferSize hdr userspace o) acts) :=
    run_inv_of Inv.step acts _ hready (inv_opened hk hsize hdr userspace o)
  generalize run RxV3.step (opened k hdrBufferSize hdr userspace o) acts = s at hi hI
  obtain ⟨hc, hQ⟩ := hI.queues (hI.frame.listed.startCount_ne hi)
  obtain ⟨rel, h, hS, hhc⟩ := hQ.subs i hi
  have hshown := hS.shown
  have hseen := hS.seen
  refine ⟨hI.delivered i hi, by omega, fun count => ⟨fun heq => ?_, fun hget => ?_⟩, fun count hget hlook => ?_⟩
  · by_contra hne
    obtain ⟨h1, h2⟩ := rxGet_stale hI.frame hQ.seen hi hS hhc idle count hne
    rw [h1] at heq
    exact h2 (BitVec.eq_of_toNat_eq heq)
  · obtain ⟨_, _, _, _, n, hres, _⟩ := rxGet_spec hI.frame hQ.seen hi hS hhc idle count hget
    rw [hres]
    simp [packetsFrom]
  · obtain ⟨_, _, _, _, n, hres, _, _, _, _, _, _, _, hn⟩ := rxGet_spec hI.frame hQ.seen hi hS hhc idle count hget
    rw [hres]
    exact hn hlook

/-! ## Several gets across the end of the ring -/

/-- A ring of 512 headers, the smallest one the driver allocates. -/
def smallRing : RxV3 := opened 9 4096 (fun _ => ⟨0, 0, 0, 0, 0⟩) false fun _ => ⟨0, false, 511, 0, 0⟩

/-- The header all these runs receive, as it is written in the first lap. -/
def someHdr : V3PacketHdr := ⟨60, 0, 1, 0, 0⟩

theorem exactly_once_across_the_wrap :
    Served (run RxV3.step (opened 2 4096 (fun _ => ⟨0, 0, 0, 0, 0⟩) false fun _ => ⟨0, false, 3, 0, 0⟩)
      [.start 0 idle, .receive someHdr, .receive someHdr, .receive someHdr, .get 0 2, .put 0, .receive someHdr, .receive someHdr,
        .get 0 3, .put 0, .receive someHdr, .get 0 1]) 0 :=
  rx_exactly_once_when_ready (by decide) (by decide) _ _ _ _ (by decide +kernel) 0 (by decide +kernel)

/-- Filling a ring that was just started. -/
theorem run_receive {s : RxV3} (h0 : s.ch.startCount ≠ 0) (hc : s.ch.ctrl.hdrCount = 2 ^ k) (hk : k ≤ 64)
    (hlog : s.ch.ctrl.log = []) (hsw : ∀ j ∈ s.ch.listSubscriptions, (s.q j).sync.swptr = 0) (hdr : V3PacketHdr)
    (hv : hdr.valid = 1) : ∀ n, n < 2 ^ k → run RxV3.step s (List.replicate n (.receive hdr)) =
      { s with ch := { s.ch with ctrl := { s.ch.ctrl with
          hdr := fun j => if j < n then hdr else s.ch.ctrl.hdr j
          log := List.replicate n hdr } } }
  | 0, _ => by
    simp [← hlog]
  | n + 1, hn => by
    have hm : IsMask s.ch.ctrl.ptrmask k := hc
    rw [List.replicate_succ', run_append, run_receive h0 hc hk hlog hsw hdr hv n (by omega)]
    simp only [run_cons, run_nil, RxV3.step, RxV3.receive]
    rw [if_neg]
    · have hbit : lapBit (2 ^ k) n = true := by simp [lapBit, Nat.div_eq_of_lt (show n < 2 ^ k by omega)]
      have hd : ({ hdr with valid := BitVec.ofBool true } : V3PacketHdr) = hdr := by
        show ({ hdr with valid := 1 } : V3PacketHdr) = hdr
        rw [← hv]
      have hcount : ({ s.ch.ctrl with
          hdr := fun j => if j < n then hdr else s.ch.ctrl.hdr j, log := List.replicate n hdr } : RxCtrl).hdrCount = 2 ^ k := hc
      have hfun : Function.update (fun j => if j < n then hdr else s.ch.ctrl.hdr j) n hdr =
          fun j => if j < n + 1 then hdr else s.ch.ctrl.hdr j := by
        funext j
        by_cases hj : j = n
        · subst hj
          simp
        · rw [Function.update_of_ne hj]
          by_cases hlt : j < n
          · rw [if_pos hlt, if_pos (by omega)]
          · rw [if_neg hlt, if_neg (by omega)]
      rw [hcount, List.length_replicate, Nat.mod_eq_of_lt (by omega), hbit, hd, hfun, ← List.replicate_succ']
    · rintro (h | h)
      · exact h0 h
      · refine h fun j hj heq => ?_
        have hlen := congrArg BitVec.toNat heq
        have hzero : At k (0 : U64) 0 := Nat.ModEq.refl 0
        simp only [List.length_replicate, hsw j hj] at hlen
        rw [(at_ofNat hk n).toNat_sub_and hm hzero (Nat.zero_le n) (by omega), hm.toNat_eq] at hlen
        omega

def wrapRun : List RxV3Act :=
  [RxV3Act.start 0 idle] ++ List.replicate 511 (RxV3Act.receive someHdr) ++ [RxV3Act.get 0 511, RxV3Act.put 0] ++
    List.replicate 3 (RxV3Act.receive someHdr) ++ [RxV3Act.get 0 2, RxV3Act.get 0 1]

/-- The last of two gets behind the end of the ring claims a packet and fills in none. -/
theorem get_behind_wrap_fills_nothing :
    ((run RxV3.step smallRing wrapRun).ch.sub 0).status = .running ∧ ¬ Delivered (run RxV3.step smallRing wrapRun) 0 := by
  have hfull : run RxV3.step smallRing ([.start 0 idle] ++ List.replicate 511 (.receive someHdr)) =
      { smallRing.step (.start 0 idle) with ch := { (smallRing.step (.start 0 idle)).ch with
        ctrl := { (smallRing.step (.start 0 idle)).ch.ctrl with
          hdr := fun j => if j < 511 then someHdr else (smallRing.step (.start 0 idle)).ch.ctrl.hdr j
          log := List.replicate 511 someHdr } } } := by
    rw [run_append, run_cons, run_nil]
    exact run_receive (k := 9) (by decide +kernel) (by decide +kernel) (by norm_num) (by decide +kernel) (by decide +kernel)
      someHdr rfl 511 (by norm_num)
  have hlast : ((run RxV3.step smallRing wrapRun).gets 0).getLast? = some (1, []) := by
    rw [wrapRun, List.append_assoc, List.append_assoc, run_append, hfull]
    decide +kernel
  refine ⟨?_, fun hD => ?_⟩
  · rw [wrapRun, List.append_assoc, List.append_assoc, run_append, hfull]
    decide +kernel
  · have := hD.counts _ (List.mem_of_getLast? hlast)
    simp at this

end RxV3

end NdkSw.Calypte

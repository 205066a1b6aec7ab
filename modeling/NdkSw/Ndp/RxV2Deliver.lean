/-
Runs of a protocol 2 RX channel: every running subscription gets every packet received since its
start exactly once and in order, and the hardware is never allowed behind a packet that a running
subscription has not released.
-/
import NdkSw.Ndp.RxV2Inv

namespace NdkSw.Ndp

open Ring

variable {k : Nat}

namespace RxV2

/-- The packet that subscription `i` gets next. -/
def next (s : RxV2) (i : Nat) : Nat := (s.start i).getD 0 + (s.got i).length

/-- The `j`-th packet that `i` got is the `j`-th one received since position `a`. -/
def GotFrom (s : RxV2) (i a : Nat) : Prop :=
  ∀ j pkt, (s.got i)[j]? = some pkt → ∃ hdr, s.ch.ctrl.log[a + j]? = some hdr ∧
    pkt = v2RxPacket (s.q i).buffer hdr (s.mem.off ((a + j) % (s.q i).hdrItems.toNat))

structure Inv (k : Nat) (s : RxV2) : Prop where
  queues : ∀ i, RxQueue k (s.q i)
  mem : HoldsLast (2 ^ k) s.mem.hdr s.ch.ctrl.log
  subs : ∃ p h, RxChan k p h s.ch ∧ RxSubs k p h s.ch s.q s.released s.next
  got : ∀ i, (s.ch.sub i).status = .running → ∃ a, s.start i = some a ∧ s.GotFrom i a
  fresh : ∀ i, s.start i = none → (s.ch.sub i).status ≠ .running ∧ (s.q i).pktsAvailable = 0 ∧ s.got i = []

/-! ## Steps -/

variable {s : RxV2}

theorem Inv.receive (hI : Inv k s) (hdr : V2PacketHdr) : Inv k (s.receive hdr) := by
  obtain ⟨p, h, hC, hS⟩ := hI.subs
  unfold RxV2.receive
  simp only
  split
  · exact hI
  rename_i hroom
  have hle := hC.le
  have hseen := hC.seen
  have hlap := hC.lap
  -- the hardware stays less than one lap ahead of the released packets
  have hdist : ((BitVec.ofNat 64 s.ch.ctrl.log.length - s.ch.ctrl.swptr) &&& s.ch.ctrl.mhp).toNat =
      s.ch.ctrl.log.length - p := by
    rw [hC.mhp, hC.ctrl]
    exact (at_ofNat hC.mask.le_width _).toNat_sub_and hC.mask (at_of_mod hC.swptr) (by omega) (by omega)
  have hne : s.ch.ctrl.log.length - p ≠ 2 ^ k - 1 := by
    intro heq
    refine hroom (Or.inr (BitVec.eq_of_toNat_eq ?_))
    rw [hdist, heq, hC.mhp, hC.mask.toNat_eq]
  refine ⟨hI.queues, ?_, ⟨p, h, ⟨hC.k31, hC.mask, hC.mhp, hC.hwptr, hC.swptr, hC.ctrl, hle, ?_, ?_, hC.list, hC.nodup,
    hC.startCount⟩, hS⟩, fun i hi => ?_, hI.fresh⟩
  · show HoldsLast _ (Function.update s.mem.hdr _ hdr) (s.ch.ctrl.log ++ [hdr])
    rw [hC.hardware]
    exact hI.mem.write rfl
  · show h ≤ (s.ch.ctrl.log ++ [hdr]).length
    rw [List.length_append]; omega
  · show (s.ch.ctrl.log ++ [hdr]).length < p + 2 ^ k
    rw [List.length_append, List.length_singleton]; omega
  · obtain ⟨a, ha, hg⟩ := hI.got i hi
    refine ⟨a, ha, fun j pkt hpkt => ?_⟩
    obtain ⟨hd, hlog, rfl⟩ := hg j pkt hpkt
    refine ⟨hd, ?_, rfl⟩
    rw [List.getElem?_append_left (List.getElem?_eq_some_iff.1 hlog).1]
    exact hlog

theorem Inv.stop (hI : Inv k s) (i : Nat) (ret : Int) (force : Bool) :
    Inv k { s with ch := (ndpSubscriptionStop rxHdrOps ret ret s.ch i force).1 } := by
  obtain ⟨p, h, hC, hS⟩ := hI.subs
  obtain ⟨l, hch | ⟨hrun, hch⟩⟩ := rxStop_cases s.ch i ret force
  · rw [hch]
    exact ⟨hI.queues, hI.mem, ⟨p, h, ⟨hC.k31, hC.mask, hC.mhp, hC.hwptr, hC.swptr, hC.ctrl, hC.le, hC.seen, hC.lap, hC.list,
      hC.nodup, hC.startCount⟩, hS⟩, hI.got, hI.fresh⟩
  · rw [hch]
    have hC' : RxChan k p h (rxLeave { s.ch with lockedSub := l } i) :=
      RxChan.leave ⟨hC.k31, hC.mask, hC.mhp, hC.hwptr, hC.swptr, hC.ctrl, hC.le, hC.seen, hC.lap, hC.list,
        hC.nodup, hC.startCount⟩ hrun
    -- who still runs is not `i`
    have hother : ∀ j, ((rxLeave { s.ch with lockedSub := l } i).sub j).status = .running →
        (rxLeave { s.ch with lockedSub := l } i).sub j = s.ch.sub j := by
      intro j hj
      have hji : j ≠ i := by
        rintro rfl
        simp [rxLeave] at hj
      exact Function.update_of_ne hji ..
    refine ⟨hI.queues, hI.mem, ⟨p, h, hC', fun j hj => ?_⟩, fun j hj => ?_, fun j hj => ?_⟩
    · have hj' := hj
      rw [hother j hj] at hj'
      rw [hother j hj]
      exact hS j hj'
    · have hj' := hj
      rw [hother j hj] at hj'
      exact hI.got j hj'
    · obtain ⟨h1, h2, h3⟩ := hI.fresh j hj
      refine ⟨fun hr => h1 ?_, h2, h3⟩
      rw [← hother j hr]
      exact hr

theorem Inv.get {s : RxV2} (hI : Inv k s) (i : Nat) (count : U32) : Inv k (s.step (.get i count)) := by
  obtain ⟨p, h, hC, hS⟩ := hI.subs
  simp only [RxV2.step]
  by_cases hr : (s.ch.sub i).status = .running
  · obtain ⟨p', h', ch', q', n, hget, hn, hC', hq', hbuf, hS', hlog, hstat⟩ := rxGet_spec hC (hI.queues i) hS hr 0 s.mem count
    obtain ⟨a, ha, hg⟩ := hI.got i hr
    have hnext : s.next i = a + (s.got i).length := by rw [RxV2.next, ha]; rfl
    have hSi := hS i hr
    have hlow := hSi.low
    have hle := hSi.le
    have hlap := hC.lap
    rw [hget]
    constructor
    case queues =>
      intro j
      by_cases hji : j = i
      · subst hji
        simp only [Function.update_self]; exact hq'
      · simp only [Function.update_of_ne hji]; exact hI.queues j
    case mem =>
      rw [hlog]
      exact hI.mem
    case subs =>
      refine ⟨p', h', hC', ?_⟩
      convert hS' using 1
      funext j
      by_cases hji : j = i
      · subst hji
        simp only [RxV2.next, Function.update_self, List.length_append, List.length_map, List.length_range]
        omega
      · simp only [RxV2.next, Function.update_of_ne hji]
    case got =>
      intro j hj
      rw [hstat] at hj
      by_cases hji : j = i
      · subst hji
        refine ⟨a, ha, fun m pkt hpkt => ?_⟩
        simp only [Function.update_self, hlog] at hpkt ⊢
        rcases Nat.lt_or_ge m (s.got j).length with hlt | hge
        · rw [List.getElem?_append_left hlt] at hpkt
          obtain ⟨hdr, h1, h2⟩ := hg m pkt hpkt
          rw [hbuf, hq'.items, ← (hI.queues j).items]
          exact ⟨hdr, h1, h2⟩
        · -- a new packet: the ring still holds its header
          rw [List.getElem?_append_right hge, List.getElem?_map] at hpkt
          obtain ⟨m', hm', rfl⟩ := Option.map_eq_some_iff.1 hpkt
          obtain ⟨hlt', hm''⟩ := List.getElem?_eq_some_iff.1 hm'
          rw [List.getElem_range] at hm''
          rw [List.length_range] at hlt'
          have hpos : s.next j + m' < s.ch.ctrl.log.length := by omega
          have hslot := hI.mem _ _ (List.getElem?_eq_getElem hpos) (by omega)
          rw [hbuf, hq'.items, show a + m = s.next j + m' by omega]
          exact ⟨_, List.getElem?_eq_getElem hpos, by rw [hslot]⟩
      · obtain ⟨b, hb, hgb⟩ := hI.got j hj
        refine ⟨b, hb, ?_⟩
        unfold RxV2.GotFrom
        simp only [Function.update_of_ne hji, hlog]
        exact hgb
    case fresh =>
      intro j hj
      have hji : j ≠ i := by
        rintro rfl
        rw [ha] at hj
        cases hj
      obtain ⟨h1, h2, h3⟩ := hI.fresh j hj
      simp only [Function.update_of_ne hji]
      exact ⟨by rw [hstat]; exact h1, h2, h3⟩
  · obtain ⟨q', packets, hget, hq', hz⟩ := rxGet_stopped (hI.queues i) hr 0 s.mem count
    rw [hget]
    have hne : ∀ j, (s.ch.sub j).status = .running → j ≠ i := fun j hj hji => hr (hji ▸ hj)
    constructor
    case queues =>
      intro j
      by_cases hji : j = i
      · subst hji
        simp only [Function.update_self]; exact hq'
      · simp only [Function.update_of_ne hji]; exact hI.queues j
    case mem => exact hI.mem
    case subs =>
      refine ⟨p, h, hC, fun j hj => ?_⟩
      simp only [RxV2.next, Function.update_of_ne (hne j hj)]
      exact hS j hj
    case got =>
      intro j hj
      obtain ⟨a, ha, hg⟩ := hI.got j hj
      refine ⟨a, ha, ?_⟩
      unfold RxV2.GotFrom
      simp only [Function.update_of_ne (hne j hj)]
      exact hg
    case fresh =>
      intro j hj
      obtain ⟨h1, h2, h3⟩ := hI.fresh j hj
      by_cases hji : j = i
      · subst hji
        obtain ⟨h4, h5⟩ := hz h2
        simp only [Function.update_self]
        exact ⟨h1, h4, by rw [h3, h5]; rfl⟩
      · simp only [Function.update_of_ne hji]
        exact ⟨h1, h2, h3⟩

/-- A call that leaves the channel alone and changes in the queue of `i` nothing but the sync pointers. -/
theorem Inv.setSync (hI : Inv k s) {i : Nat} (hr : (s.ch.sub i).status ≠ .running) (sync : SubscriptionSync) :
    Inv k { s with q := Function.update s.q i { s.q i with sync } } := by
  obtain ⟨p, h, hC, hS⟩ := hI.subs
  have hne : ∀ j, (s.ch.sub j).status = .running → j ≠ i := fun j hj hji => hr (hji ▸ hj)
  constructor
  case queues =>
    intro j
    have hq := hI.queues j
    by_cases hji : j = i
    · subst hji
      simp only [Function.update_self]
      exact ⟨hq.items, hq.hdr, hq.off⟩
    · simp only [Function.update_of_ne hji]; exact hq
  case mem => exact hI.mem
  case subs =>
    refine ⟨p, h, hC, fun j hj => ?_⟩
    simp only [Function.update_of_ne (hne j hj)]
    exact hS j hj
  case got =>
    intro j hj
    obtain ⟨a, ha, hg⟩ := hI.got j hj
    refine ⟨a, ha, ?_⟩
    unfold RxV2.GotFrom
    simp only [Function.update_of_ne (hne j hj)]
    exact hg
  case fresh =>
    intro j hj
    obtain ⟨h1, h2, h3⟩ := hI.fresh j hj
    by_cases hji : j = i
    · subst hji
      simp only [Function.update_self]
      exact ⟨h1, h2, h3⟩
    · simp only [Function.update_of_ne hji]
      exact ⟨h1, h2, h3⟩

theorem Inv.put (hI : Inv k s) (i : Nat) : Inv k (s.step (.put i)) := by
  obtain ⟨p, h, hC, hS⟩ := hI.subs
  by_cases hr : (s.ch.sub i).status = .running
  · obtain ⟨p', swptr, ch', sync, hres, hs, hS'⟩ := rxUnlock_spec hC (hI.queues i) hS hr 0
    simp only [RxV2.step, ncNdpV2RxBurstPut, hres, ne_eq, not_true_eq_false, if_false]
    constructor
    case queues =>
      intro j
      have hq := hI.queues j
      by_cases hji : j = i
      · subst hji
        simp only [Function.update_self]
        exact ⟨hq.items, hq.hdr, hq.off⟩
      · simp only [Function.update_of_ne hji]; exact hq
    case mem =>
      rw [hs.log]
      exact hI.mem
    case subs => exact ⟨p', _, hs.chan, hS'⟩
    case got =>
      intro j hj
      rw [hs.status] at hj
      obtain ⟨a, ha, hg⟩ := hI.got j hj
      refine ⟨a, ha, fun m pkt hpkt => ?_⟩
      rw [hs.log]
      by_cases hji : j = i
      · subst hji
        simp only [Function.update_self]
        exact hg m pkt hpkt
      · simp only [Function.update_of_ne hji]
        exact hg m pkt hpkt
    case fresh =>
      intro j hj
      obtain ⟨h1, h2, h3⟩ := hI.fresh j hj
      have hji : j ≠ i := fun hji => h1 (hji ▸ hr)
      simp only [Function.update_of_ne hji]
      exact ⟨by rw [hs.status]; exact h1, h2, h3⟩
  · obtain ⟨sync, hres⟩ := rxUnlock_stopped (s.q i) hr 0
    have he : eBadf ≠ 0 := by decide
    simp only [RxV2.step, ncNdpV2RxBurstPut, hres, if_pos he]
    exact hI.setSync hr sync

theorem Inv.start (hI : Inv k s) (i : Nat) (ret : Int) : Inv k (s.step (.start i ret)) := by
  obtain ⟨p, h, hC, hS⟩ := hI.subs
  by_cases hst : s.start i = none
  · have hst' : ¬ s.start i ≠ none := not_not.2 hst
    obtain ⟨hrun, hpk, hgot⟩ := hI.fresh i hst
    rcases rxStart_cases s.ch i ret (s.q i).sync with ⟨err, he, hs⟩ | ⟨ch₀, hch, _, hs⟩
    · simp only [RxV2.step, ncNdpV2RxQueueStart, if_neg hst', hs, if_pos he]
      exact hI.setSync hrun _
    · simp only [RxV2.step, ncNdpV2RxQueueStart, if_neg hst', hs, ne_eq, not_true_eq_false, if_false]
      -- either the ring is empty and nobody runs, or nothing is lost
      obtain ⟨p₀, h₀, hC₀, hS₀, hmem, hsub, hlog⟩ : ∃ p₀ h₀, RxChan k p₀ h₀ ch₀ ∧
          RxSubs k p₀ h₀ ch₀ s.q s.released s.next ∧ HoldsLast (2 ^ k) s.mem.hdr ch₀.ctrl.log ∧ ch₀.sub = s.ch.sub ∧
          ∀ j, (s.ch.sub j).status = .running → ch₀.ctrl.log = s.ch.ctrl.log := by
        rcases hch with ⟨rfl, _⟩ | ⟨rfl, hzero⟩
        · exact ⟨p, h, hC, hS, hI.mem, rfl, fun _ _ => rfl⟩
        · have hnone : ∀ j, (s.ch.sub j).status ≠ .running := by
            intro j hj
            have hlen := hC.startCount
            rw [hzero] at hlen
            have := (hC.list j).2 hj
            rw [List.length_eq_zero_iff.1 hlen.symm] at this
            cases this
          exact ⟨0, 0, hC.reset, fun j hj => absurd hj (hnone j), HoldsLast.nil _ _, rfl, fun j hj => absurd hj (hnone j)⟩
      have hlt : ch₀.hwptr.toNat < 2 ^ 32 := by
        rw [hC₀.hwptr]
        exact lt_of_lt_of_le (Nat.mod_lt _ (by positivity)) (Nat.pow_le_pow_right (by norm_num) (by have := hC₀.k31; omega))
      have hpos : (rxJoin ch₀ i).ctrl.pos (rxJoin ch₀ i).hwptr = h₀ := hC₀.pos (at_of_mod hC₀.hwptr) hC₀.le hC₀.seen
      rw [hpos]
      have hother : ∀ j, j ≠ i → (rxJoin ch₀ i).sub j = s.ch.sub j := by
        intro j hj
        rw [← hsub]
        exact Function.update_of_ne hj ..
      constructor
      case queues =>
        intro j
        have hq := hI.queues j
        by_cases hji : j = i
        · subst hji
          simp only [Function.update_self]
          exact ⟨hq.items, hq.hdr, hq.off⟩
        · simp only [Function.update_of_ne hji]; exact hq
      case mem => exact hmem
      case subs =>
        refine ⟨p₀, h₀, hC₀.join (by rw [hsub]; exact hrun), fun j hj => ?_⟩
        by_cases hji : j = i
        · subst hji
          simp only [RxV2.next, Function.update_self, hgot, rxJoin, Option.getD_some, List.length_nil, Nat.add_zero]
          refine ⟨hC₀.le, le_rfl, ?_, hC₀.hwptr, rfl, ?_, ?_⟩
          · simp [hpk]
          · exact (at_of_mod hC₀.hwptr).setWidth (by have := hC₀.k31; omega)
          · have hmod : h₀ % 2 ^ k < 2 ^ k := Nat.mod_lt _ (by positivity)
            have hz : (0 : U32).toNat = 0 := rfl
            rw [hpk, BitVec.toNat_setWidth, Nat.mod_eq_of_lt hlt, hC₀.hwptr, hz]
            omega
        · rw [hother j hji, ← hsub] at hj
          simp only [RxV2.next, Function.update_of_ne hji, hother j hji]
          have hj' := hS₀ j hj
          rw [hsub] at hj'
          exact hj'
      case got =>
        intro j hj
        by_cases hji : j = i
        · subst hji
          refine ⟨h₀, by simp only [Function.update_self], fun m pkt hpkt => ?_⟩
          simp only [hgot] at hpkt
          cases hpkt
        · rw [hother j hji] at hj
          obtain ⟨a, ha, hg⟩ := hI.got j hj
          refine ⟨a, by simp only [Function.update_of_ne hji]; exact ha, ?_⟩
          unfold RxV2.GotFrom
          simp only [Function.update_of_ne hji]
          show ∀ m pkt, _ → ∃ hdr, ch₀.ctrl.log[a + m]? = some hdr ∧ _
          rw [hlog j hj]
          exact hg
      case fresh =>
        intro j hj
        have hji : j ≠ i := by
          rintro rfl
          simp only [Function.update_self] at hj
          cases hj
        simp only [Function.update_of_ne hji] at hj ⊢
        rw [hother j hji]
        exact hI.fresh j hj
  · simp only [RxV2.step, ne_eq, hst, not_false_eq_true, if_true]
    exact hI

theorem Inv.step (s : RxV2) (a : RxV2Act) (hI : Inv k s) : Inv k (s.step a) := by
  cases a with
  | start i ret => exact hI.start i ret
  | stop i ret force => exact hI.stop i ret force
  | receive hdr => exact hI.receive hdr
  | get i count => exact hI.get i count
  | put i => exact hI.put i

theorem inv_opened (hk : k ≤ 31) (mem : V2Mem) (o : Nat → V2Open) : Inv k (opened k mem o) := by
  have h31 : 2 ^ k < 2 ^ 32 := Nat.pow_lt_pow_right (by norm_num) (by omega)
  have hstat : ∀ j, ((opened k mem o).ch.sub j).status ≠ .running := fun j => by simp [opened]
  refine ⟨fun i => ⟨?_, rfl, rfl⟩, HoldsLast.nil _ _,
    ⟨0, 0, ⟨hk, isMask_ofNat (by omega), rfl, by simp [opened], by simp [opened], rfl, le_rfl, le_rfl, by simp [opened],
      fun j => by simp [opened], List.nodup_nil, rfl⟩, fun j hj => absurd hj (hstat j)⟩,
    fun i hi => absurd hi (hstat i), fun i _ => ⟨hstat i, rfl, rfl⟩⟩
  show (BitVec.ofNat 32 (2 ^ k)).toNat = 2 ^ k
  rw [BitVec.toNat_ofNat, Nat.mod_eq_of_lt h31]

/-! ## The theorem -/

/-- What a running subscription `i` can rely on: it got exactly the packets received since the channel
pointer at its start, in order; the next get returns the packets that follow, as many as there are or as
it asks for; and the pointer the hardware was given last is not behind a packet that `i` has not released. -/
structure Served (s : RxV2) (i : Nat) : Prop where
  got : ∃ a, s.start i = some a ∧ s.next i = a + (s.got i).length ∧ s.GotFrom i a
  gets : ∀ count : U32, (ncNdpV2RxBurstGet rxHdrOps 0 i s.ch s.mem (s.q i) count).2.2.length =
    min count.toNat (s.ch.ctrl.log.length - s.next i)
  released : s.released i ≤ s.next i ∧ s.next i ≤ s.ch.ctrl.log.length
  kept : s.ch.ctrl.pos s.ch.ctrl.swptr ≤ s.released i

/-- In every run of a channel with a ring of `2 ^ k` headers every running subscription is served. -/
theorem exactly_once_in_order (hk : k ≤ 31) (mem : V2Mem) (o : Nat → V2Open) (acts : List RxV2Act) (i : Nat)
    (hi : ((run RxV2.step (opened k mem o) acts).ch.sub i).status = .running) :
    Served (run RxV2.step (opened k mem o) acts) i := by
  have hI : Inv k (run RxV2.step (opened k mem o) acts) := run_inv Inv.step acts _ (inv_opened hk mem o)
  generalize run RxV2.step (opened k mem o) acts = s at hi hI
  obtain ⟨p, h, hC, hS⟩ := hI.subs
  obtain ⟨a, ha, hg⟩ := hI.got i hi
  have hSi := hS i hi
  have hle := hSi.le
  have hshown := hSi.shown
  have hseen := hC.seen
  have hlow := hSi.low
  refine ⟨⟨a, ha, by rw [RxV2.next, ha]; rfl, hg⟩, fun count => ?_, ⟨hle, by omega⟩, ?_⟩
  · obtain ⟨_, _, _, _, n, hget, hn, _⟩ := rxGet_spec hC (hI.queues i) hS hi 0 s.mem count
    rw [hget, List.length_map, List.length_range, hn]
  · rw [hC.ctrl, hC.pos (at_of_mod hC.swptr) le_rfl (by omega)]
    exact hlow

theorem exactly_once_in_order_second_reader :
    Served (run RxV2.step (opened 2 { hdr := fun _ => ⟨0, 0, 0⟩, off := fun j => BitVec.ofNat 64 (4096 * j) }
      fun _ => ⟨0, 0, 0, 0, 0, 4096⟩)
      [.start 0 0, .receive ⟨60, 0, 0⟩, .get 0 1, .start 1 0, .receive ⟨64, 0, 0⟩, .receive ⟨68, 0, 0⟩, .put 0, .get 1 5,
        .receive ⟨72, 0, 0⟩]) 1 :=
  exactly_once_in_order (by decide) _ _ _ 1 (by decide +kernel)

end RxV2

end NdkSw.Ndp

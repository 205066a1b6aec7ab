/-
Recycling of RX buffers. Descriptors and headers are counted along the stream: `pos h` is the place
in it behind the `h`-th buffer, so that the headers up to `h` give back exactly `pos h` descriptors.
-/
import NdkSw.Medusa.RxStream

namespace NdkSw.Medusa

open Ndp Ring

variable {R : MpsRing} {k : Nat}

/-! ## Places in the stream -/

/-- The number of descriptors of the first `h` buffers. -/
def MpsRing.pos (R : MpsRing) (h : Nat) : Nat :=
  (R.descs h).length

/-- The descriptors of buffer `h`: 2 if it needs a type-0 before its type-2. -/
def MpsRing.cost (R : MpsRing) (h : Nat) : Nat :=
  ((R.buffer h).descs (R.upper h)).length

theorem MpsRing.cost_eq (R : MpsRing) (h : Nat) : R.cost h = 1 ∨ R.cost h = 2 := by
  unfold MpsRing.cost DmaBuffer.descs
  split
  · exact Or.inr rfl
  · exact Or.inl rfl

theorem MpsRing.pos_succ (R : MpsRing) (h : Nat) :
    R.pos (h + 1) = R.pos h + R.cost h := by
  unfold MpsRing.pos MpsRing.cost
  rw [R.descs_succ, List.length_append]

theorem MpsRing.pos_eq_sum (R : MpsRing) (h : Nat) : R.pos h = ((List.range h).map R.cost).sum := by
  induction h with
  | zero => rfl
  | succ h ih => rw [R.pos_succ, ih, List.range_succ, List.map_append, List.sum_append, List.map_singleton, List.sum_singleton]

theorem MpsRing.descs_le (R : MpsRing) {h t : Nat} (hle : h ≤ t) : ∃ rest, R.descs t = R.descs h ++ rest := by
  induction t, hle using Nat.le_induction with
  | base => exact ⟨[], by rw [List.append_nil]⟩
  | succ t _ ih =>
    obtain ⟨rest, hr⟩ := ih
    exact ⟨_, by rw [R.descs_succ, hr, List.append_assoc]⟩

theorem MpsRing.pos_mono (R : MpsRing) {h t : Nat} (hle : h ≤ t) : R.pos h ≤ R.pos t := by
  obtain ⟨rest, hr⟩ := R.descs_le hle
  unfold MpsRing.pos
  rw [hr, List.length_append]
  exact Nat.le_add_right _ _

theorem MpsRing.sub_le_pos (R : MpsRing) {h t : Nat} (hle : h ≤ t) :
    t - h ≤ R.pos t - R.pos h := by
  induction t, hle using Nat.le_induction with
  | base => simp
  | succ t hht ih =>
    have hmono := R.pos_mono hht
    have hcost := R.cost_eq t
    rw [R.pos_succ]
    omega

variable {ctrl : RxCtrl} {t : Nat} {pend : Bool}

theorem Filled.length (h : Filled R ctrl t pend) :
    ctrl.written.length = R.pos t + (if pend then 1 else 0) := by
  rw [h.written, List.length_append]
  cases pend <;> rfl

/-- The descriptor behind the first `h` buffers is a type-0 exactly if the next one takes two. -/
theorem Filled.next (hf : Filled R ctrl t pend) {h : Nat} (hlt : h < t) :
    ∃ d, ctrl.written[R.pos h]? = some d ∧
      R.cost h = if descType d = 0 then 2 else 1 := by
  obtain ⟨rest, hr⟩ := R.descs_le (Nat.succ_le_of_lt hlt)
  rw [hf.written, hr, R.descs_succ]
  unfold MpsRing.pos MpsRing.cost
  rw [List.append_assoc, List.append_assoc, List.getElem?_append_right le_rfl, Nat.sub_self]
  unfold DmaBuffer.descs
  split
  · exact ⟨_, rfl, by simp⟩
  · exact ⟨_, rfl, by simp⟩

theorem Filled.next_end (hf : Filled R ctrl t true) :
    ctrl.written[R.pos t]? = some (ncNdpRxDesc0 (R.buffer t).addr) := by
  rw [hf.written]
  unfold MpsRing.pos
  rw [List.getElem?_append_right le_rfl, Nat.sub_self]
  rfl

/-! ## The invariant -/

/-- The system between two steps: `t` buffers described, the hardware through with `hwHdrs` of them,
of which `relHdrs` are released. -/
structure RxInvAt (R : MpsRing) (k : Nat) (s : RxSys) (t : Nat) (pend : Bool) :
    Prop where
  ready : Ready R k s.ctrl t pend
  burst : 64 ≤ 2 ^ k
  mhp : IsMask s.ctrl.c.mhp k
  reg : s.ctrl.regSdp = s.ctrl.c.sdp
  off : ∀ j, j < 2 ^ k → s.ctrl.off j = (R.walk j).offset
  relLe : s.relHdrs ≤ s.hwHdrs
  hwLe : s.hwHdrs ≤ t
  hwDescs : s.hwDescs = R.pos s.hwHdrs
  took : s.took = (List.range s.hwHdrs).map R.cost
  relDescs : s.relDescs = R.pos s.relHdrs
  shp : s.ctrl.c.shp.toNat = s.relHdrs % 2 ^ k
  account : s.ctrl.written.length + s.ctrl.freeDesc.toNat = s.relDescs + (2 ^ k - 64)
  hdrs : ∀ h, s.relHdrs ≤ h → h < s.hwHdrs →
    (s.ctrl.hdr (h % 2 ^ k)).freeDesc = BitVec.ofNat 2 (R.cost h)

variable {s : RxSys}

theorem RxInvAt.count (hI : RxInvAt R k s t pend) : s.ctrl.count.toNat = 2 ^ k := by
  have hn : 0 < R.cfg.bufferCount.toNat := by rw [hI.ready.size]; positivity
  unfold RxCtrl.count
  rw [hI.ready.mps, R.walk_cfg hn, hI.ready.size]

/-- At most `2 ^ k - 64` descriptors are not released. -/
theorem RxInvAt.inFlight (hI : RxInvAt R k s t pend) :
    s.ctrl.written.length ≤ R.pos s.relHdrs + (2 ^ k - 64) := by
  have := hI.account
  rw [hI.relDescs] at this
  omega

theorem RxInvAt.buffers (hI : RxInvAt R k s t pend) : t ≤ s.relHdrs + (2 ^ k - 64) := by
  have h1 := hI.inFlight
  have h2 := hI.ready.toFilled.length
  have h3 := R.sub_le_pos (hI.relLe.trans hI.hwLe)
  have h4 := R.pos_mono (hI.relLe.trans hI.hwLe)
  omega

/-! ## The hardware receives -/

/-- A packet is received exactly if a described buffer is left, and takes its descriptors. -/
theorem RxInvAt.receive (hI : RxInvAt R k s t pend) (hdr : NcNdpHdr) : RxInvAt R k (s.receive hdr) t pend := by
  have hn := hI.count
  have hpos : 0 < 2 ^ k := by positivity
  have hfly := hI.inFlight
  have hlen := hI.ready.toFilled.length
  have hrel := R.pos_mono hI.relLe
  have hhw := R.pos_mono hI.hwLe
  have hburst := hI.burst
  have havail : (s.ctrl.regSdp.toNat + 2 ^ k - s.hwDescs % 2 ^ k) % 2 ^ k = s.ctrl.written.length - s.hwDescs := by
    rw [hI.reg, hI.ready.sdp, hI.hwDescs]
    exact mod_distance (by omega) (by omega)
  -- what stands at the hardware's place in the ring
  have hring : ∀ d, s.ctrl.written[R.pos s.hwHdrs]? = some d → s.ctrl.desc (s.hwDescs % 2 ^ k) = d := by
    intro d hd
    have := hI.ready.ring _ d hd (by rw [hI.ready.size]; omega)
    rwa [hI.ready.size, ← hI.hwDescs] at this
  unfold RxSys.receive
  simp only [hn, havail]
  rcases Nat.lt_or_ge s.hwHdrs t with hlt | hge
  · obtain ⟨d, hd, hcost⟩ := hI.ready.toFilled.next hlt
    have hnext := R.pos_mono (Nat.succ_le_of_lt hlt)
    have hbuf := hI.buffers
    rw [R.pos_succ] at hnext
    simp only [hring d hd, ← hcost]
    rw [if_neg (by rw [hI.hwDescs]; omega)]
    refine ⟨hI.ready.congr rfl rfl rfl rfl rfl rfl rfl, hburst, hI.mhp, hI.reg, hI.off, Nat.le_succ_of_le hI.relLe, hlt,
      ?_, ?_, hI.relDescs, hI.shp, hI.account, fun h h1 h2 => ?_⟩
    · show s.hwDescs + R.cost s.hwHdrs = R.pos (s.hwHdrs + 1)
      rw [R.pos_succ, hI.hwDescs]
    · show s.took ++ [R.cost s.hwHdrs] = (List.range (s.hwHdrs + 1)).map R.cost
      rw [hI.took, List.range_succ, List.map_append, List.map_singleton]
    · show (Function.update s.ctrl.hdr (s.hwHdrs % 2 ^ k) _ (h % 2 ^ k)).freeDesc = _
      have h2' : h < s.hwHdrs + 1 := h2
      have h1' : s.relHdrs ≤ h := h1
      by_cases hh : h = s.hwHdrs
      · rw [hh, Function.update_self]
      · have hne : h % 2 ^ k ≠ s.hwHdrs % 2 ^ k := fun he => hh (slot_inj he (by omega) (by omega))
        rw [Function.update_of_ne hne]
        exact hI.hdrs h h1' (by omega)
  · -- all buffers are used up; at most a type-0 descriptor is left
    have heq : s.hwHdrs = t := le_antisymm hI.hwLe hge
    have hwait : s.ctrl.written.length - s.hwDescs < if descType (s.ctrl.desc (s.hwDescs % 2 ^ k)) = 0 then 2 else 1 := by
      rw [hI.hwDescs, heq, hlen]
      cases pend with
      | false =>
        simp only [Bool.false_eq_true, if_false, Nat.add_zero, Nat.sub_self]
        split <;> omega
      | true =>
        have hd := hring _ (heq ▸ hI.ready.toFilled.next_end)
        rw [hI.hwDescs, heq] at hd
        rw [hd, if_pos (descType_desc0 _)]
        simp
    rw [if_pos hwait]
    exact hI

/-! ## Recycling -/

/-- The headers give back the descriptors their packets took. -/
theorem RxInvAt.freeCounts (hI : RxInvAt R k s t pend) {n : Nat} (hn : s.relHdrs + n ≤ s.hwHdrs) :
    (s.ctrl.freeCounts s.ctrl.c.shp n).1.toNat + 2 * (s.ctrl.freeCounts s.ctrl.c.shp n).2.toNat =
      R.pos (s.relHdrs + n) - R.pos s.relHdrs := by
  have hpow : 2 ^ k ≤ 2 ^ 32 := Nat.pow_le_pow_right (by norm_num) hI.mhp.le_width
  have hlen := hI.ready.toFilled.length
  have hfly := hI.inFlight
  have hburst := hI.burst
  induction n with
  | zero => simp [RxCtrl.freeCounts]
  | succ n ih =>
    have ih := ih (by omega)
    have hslot : (s.ctrl.c.shp.toNat + n) % s.ctrl.count.toNat = (s.relHdrs + n) % 2 ^ k := by
      rw [hI.shp, hI.count, Nat.mod_add_mod]
    have hhdr := hI.hdrs (s.relHdrs + n) (by omega) (by omega)
    have hmono := R.pos_mono (show s.relHdrs ≤ s.relHdrs + n by omega)
    have htop := R.pos_mono (show s.relHdrs + n + 1 ≤ t by have := hI.hwLe; omega)
    rw [← Nat.add_assoc, R.pos_succ]
    rw [R.pos_succ] at htop
    rw [RxCtrl.freeCounts, hslot]
    generalize s.ctrl.freeCounts s.ctrl.c.shp n = counts at ih ⊢
    obtain ⟨free, free2⟩ := counts
    simp only at ih ⊢
    rcases R.cost_eq (s.relHdrs + n) with hc | hc
    · rw [hc] at hhdr htop
      rw [hhdr, if_pos (by decide), hc]
      show (free + 1).toNat + 2 * free2.toNat = _
      rw [BitVec.toNat_add, show (1 : U32).toNat = 1 from rfl, Nat.mod_eq_of_lt (by omega)]
      omega
    · rw [hc] at hhdr htop
      rw [hhdr, if_neg (by decide), if_pos (by decide), hc]
      show free.toNat + 2 * (free2 + 1).toNat = _
      rw [BitVec.toNat_add, show (1 : U32).toNat = 1 from rfl, Nat.mod_eq_of_lt (by omega)]
      omega

theorem RxInvAt.freed (hI : RxInvAt R k s t pend) {n : Nat} (hn : s.relHdrs + n ≤ s.hwHdrs) :
    (s.ctrl.freed s.ctrl.c.shp n).toNat = R.pos (s.relHdrs + n) - R.pos s.relHdrs := by
  have hpow : 2 ^ k ≤ 2 ^ 32 := Nat.pow_le_pow_right (by norm_num) hI.mhp.le_width
  have hlen := hI.ready.toFilled.length
  have hfly := hI.inFlight
  have hburst := hI.burst
  have hsum := hI.freeCounts hn
  have htop := R.pos_mono (hn.trans hI.hwLe)
  unfold RxCtrl.freed
  rw [BitVec.toNat_add, BitVec.toNat_mul, show (2 : U32).toNat = 2 from rfl, Nat.mod_eq_of_lt (by omega : _ * 2 < 2 ^ 32),
    Nat.mod_eq_of_lt (by omega)]
  omega

/-- The refill loop turns free descriptors into written ones, 64 at a time. -/
theorem Ready.refill (fuel : Nat) (h : Ready R k ctrl t pend) :
    ∃ t' pend', t ≤ t' ∧ Ready R k (mpsRefill R.pageSize fuel ctrl).1 t' pend' ∧
      (mpsRefill R.pageSize fuel ctrl).1.written.length + (mpsRefill R.pageSize fuel ctrl).1.freeDesc.toNat =
        ctrl.written.length + ctrl.freeDesc.toNat ∧
      SameBut { ctrl with freeDesc := (mpsRefill R.pageSize fuel ctrl).1.freeDesc } (mpsRefill R.pageSize fuel ctrl).1 ∧
      ((mpsRefill R.pageSize fuel ctrl).2 = false → (mpsRefill R.pageSize fuel ctrl).1 = ctrl) := by
  induction fuel generalizing ctrl t pend with
  | zero => exact ⟨t, pend, le_rfl, h, rfl, SameBut.refl _, fun _ => rfl⟩
  | succ fuel ih =>
    by_cases hb : ctrl.freeDesc ≥ ndpCtrlRxDescBurst
    · obtain ⟨t₁, pend₁, ht1, h1, hlen, hsame⟩ := h.fill (ndpCtrlRxDescBurst.setWidth 64)
      have hstep : mpsRefill R.pageSize (fuel + 1) ctrl =
          ((mpsRefill R.pageSize fuel { ndpCtrlMpsFillRxDescs R.pageSize ctrl (ndpCtrlRxDescBurst.setWidth 64) with
            freeDesc := ctrl.freeDesc - ndpCtrlRxDescBurst }).1, true) := by
        rw [mpsRefill, if_pos hb]
        dsimp only
        rw [hsame.freeDesc]
      rw [hstep]
      generalize ndpCtrlMpsFillRxDescs R.pageSize ctrl (ndpCtrlRxDescBurst.setWidth 64) = ctrl₁ at h1 hlen hsame
      have h1' : Ready R k { ctrl₁ with freeDesc := ctrl.freeDesc - ndpCtrlRxDescBurst } t₁ pend₁ :=
        h1.congr rfl rfl rfl rfl rfl rfl rfl
      obtain ⟨t₂, pend₂, ht2, h2, hsum, hsame2, _⟩ := ih h1'
      have hle : ndpCtrlRxDescBurst.toNat ≤ ctrl.freeDesc.toNat := BitVec.le_def.1 hb
      refine ⟨t₂, pend₂, ht1.trans ht2, h2, ?_, ⟨rfl, hsame2.off.trans hsame.off, hsame2.hdr.trans hsame.hdr,
        hsame2.regSdp.trans hsame.regSdp, hsame2.mdp.trans hsame.mdp, hsame2.mhp.trans hsame.mhp,
        hsame2.shp.trans hsame.shp⟩, fun h0 => absurd h0 (by simp)⟩
      refine hsum.trans ?_
      show ctrl₁.written.length + (ctrl.freeDesc - ndpCtrlRxDescBurst).toNat = _
      rw [hlen, BitVec.toNat_sub_of_le hb]
      have h64 : (ndpCtrlRxDescBurst.setWidth 64 : U64).toNat = 64 := rfl
      have h64' : ndpCtrlRxDescBurst.toNat = 64 := rfl
      omega
    · have hstep : mpsRefill R.pageSize (fuel + 1) ctrl = (ctrl, false) := by rw [mpsRefill, if_neg hb]
      rw [hstep]
      exact ⟨t, pend, le_rfl, h, rfl, SameBut.refl _, fun _ => rfl⟩

/-- Releasing headers keeps the account: what they give back is written again or stays free. -/
theorem RxInvAt.release (hI : RxInvAt R k s t pend) (n : Nat) :
    ∃ t' pend', RxInvAt R k (s.release R.pageSize n) t' pend' := by
  have hrel := hI.relLe
  have hhw := hI.hwLe
  have hbuf := hI.buffers
  have hburst := hI.burst
  have hk : k ≤ 32 := hI.mhp.le_width
  have hpow : 2 ^ k ≤ 2 ^ 32 := Nat.pow_le_pow_right (by norm_num) hk
  unfold RxSys.release
  generalize hm : min n (s.hwHdrs - s.relHdrs) = m
  have hle : s.relHdrs + m ≤ s.hwHdrs := by omega
  have hfreed := hI.freed hle
  -- the pointer passed to `set_swptr`, and the headers it covers
  have hshp : At k s.ctrl.c.shp s.relHdrs := at_of_mod hI.shp
  have hptr : ((s.ctrl.c.shp + BitVec.ofNat 32 m) &&& s.ctrl.c.mhp).toNat = (s.relHdrs + m) % 2 ^ k :=
    (At.add hk hshp (at_ofNat hk m)).toNat_and hI.mhp
  have hptr64 : At k (((s.ctrl.c.shp + BitVec.ofNat 32 m) &&& s.ctrl.c.mhp).setWidth 64 : U64) (s.relHdrs + m) :=
    (at_of_mod hptr).setWidth (by omega)
  have hcount : ((((s.ctrl.c.shp + BitVec.ofNat 32 m) &&& s.ctrl.c.mhp).setWidth 64 - s.ctrl.c.shp.setWidth 64) &&&
      s.ctrl.c.mhp.setWidth 64).toNat = m := by
    rw [hptr64.toNat_sub_and (hI.mhp.setWidth (by omega)) (hshp.setWidth (by omega)) (by omega) (by omega)]
    omega
  have hback : (((s.ctrl.c.shp + BitVec.ofNat 32 m) &&& s.ctrl.c.mhp).setWidth 64 : U64).setWidth 32 =
      (s.ctrl.c.shp + BitVec.ofNat 32 m) &&& s.ctrl.c.mhp := by
    apply BitVec.eq_of_toNat_eq
    simp
  have hfree : (s.ctrl.freeDesc + s.ctrl.freed s.ctrl.c.shp m).toNat =
      s.ctrl.freeDesc.toNat + (R.pos (s.relHdrs + m) - R.pos s.relHdrs) := by
    have h1 := hI.account
    have h2 := hI.ready.toFilled.length
    have h3 := R.pos_mono (hle.trans hhw)
    rw [hI.relDescs] at h1
    rw [BitVec.toNat_add, hfreed, Nat.mod_eq_of_lt (by omega)]
  unfold ndpCtrlMedusaRxSetSwptr
  simp only [hcount, hback]
  have h0 : Ready R k { s.ctrl with
      freeDesc := s.ctrl.freeDesc + s.ctrl.freed s.ctrl.c.shp m
      c := { s.ctrl.c with shp := (s.ctrl.c.shp + BitVec.ofNat 32 m) &&& s.ctrl.c.mhp } } t pend :=
    hI.ready.congr rfl rfl rfl rfl rfl rfl rfl
  obtain ⟨t', pend', ht, hr, hsum, hsame, hnone⟩ := h0.refill (s.ctrl.freeDesc + s.ctrl.freed s.ctrl.c.shp m).toNat
  generalize mpsRefill R.pageSize (s.ctrl.freeDesc + s.ctrl.freed s.ctrl.c.shp m).toNat _ = r at hr hsum hsame hnone
  obtain ⟨ctrl', flushed⟩ := r
  have hmono := R.pos_mono (Nat.le_add_right s.relHdrs m)
  -- what the hardware took for the released packets is what their headers give back
  have hrd : (s.took.take (s.relHdrs + m)).sum = R.pos (s.relHdrs + m) := by
    rw [hI.took, ← List.map_take, List.take_range, Nat.min_eq_left hle, R.pos_eq_sum]
  have hacc : ctrl'.written.length + ctrl'.freeDesc.toNat = (s.took.take (s.relHdrs + m)).sum + (2 ^ k - 64) := by
    have h1 := hI.account
    have h2 : ctrl'.written.length + ctrl'.freeDesc.toNat =
      s.ctrl.written.length + (s.ctrl.freeDesc + s.ctrl.freed s.ctrl.c.shp m).toNat := hsum
    rw [hrd]
    rw [hfree] at h2
    rw [hI.relDescs] at h1
    omega
  have hmhp : IsMask ctrl'.c.mhp k := by rw [hsame.mhp]; exact hI.mhp
  have hoff : ∀ j, j < 2 ^ k → ctrl'.off j = (R.walk j).offset := by rw [hsame.off]; exact hI.off
  have hshp' : ctrl'.c.shp.toNat = (s.relHdrs + m) % 2 ^ k := by rw [hsame.shp]; exact hptr
  have hhdrs : ∀ h, s.relHdrs + m ≤ h → h < s.hwHdrs → (ctrl'.hdr (h % 2 ^ k)).freeDesc = BitVec.ofNat 2 (R.cost h) := by
    rw [hsame.hdr]
    exact fun h h1 h2 => hI.hdrs h (by omega) h2
  refine ⟨t', pend', ?_⟩
  cases flushed with
  | true =>
    exact ⟨hr.congr rfl rfl rfl rfl rfl rfl rfl, hburst, hmhp, rfl, hoff, hle, hhw.trans ht, hI.hwDescs, hI.took, hrd, hshp', hacc,
      hhdrs⟩
  | false =>
    have hreg : ctrl'.regSdp = ctrl'.c.sdp := by
      have heq : ctrl' = _ := hnone rfl
      rw [heq]; exact hI.reg
    exact ⟨hr, hburst, hmhp, hreg, hoff, hle, hhw.trans ht, hI.hwDescs, hI.took, hrd, hshp', hacc, hhdrs⟩

/-! ## Start and runs -/

theorem RxInvAt.start {ctrl' : RxCtrl} {env₁ env₂ : StartEnv} (hcount : 64 ≤ R.cfg.bufferCount.toNat) (hcfg : ctrl.mps.cfg = R.cfg)
    (hblocks : ctrl.blocks = R.blocks) (hs : ndpCtrlMedusaRxStart R.pageSize env₁ env₂ ctrl = (ctrl', 0)) :
    ∃ k t pend, RxInvAt R k ⟨ctrl', true, 0, 0, [], 0, 0⟩ t pend := by
  obtain ⟨k, t, pend, hr, hmhp, hreg, hoff, hshp, hfree, hlen⟩ := Ready.start (by omega) hcfg hblocks hs
  have hfill : (R.cfg.bufferCount - ndpCtrlRxDescBurst).toNat = 2 ^ k - 64 := by
    have hle : ndpCtrlRxDescBurst ≤ R.cfg.bufferCount := BitVec.le_def.2 hcount
    rw [BitVec.toNat_sub_of_le hle, hr.size]
    rfl
  rw [hfill] at hlen
  have hsize := hr.size
  refine ⟨k, t, pend, hr, by omega, hmhp, hreg, hoff, le_rfl, Nat.zero_le _, rfl, rfl, rfl, ?_, ?_,
    fun h h1 h2 => absurd h2 (Nat.not_lt_zero _)⟩
  · show ctrl'.c.shp.toNat = 0 % 2 ^ k
    rw [hshp]; simp
  · show ctrl'.written.length + ctrl'.freeDesc.toNat = 0 + (2 ^ k - 64)
    rw [hlen, hfree]; simp

/-- The invariant of a system attached to the ring `R`. -/
structure RxInv (R : MpsRing) (s : RxSys) : Prop where
  cfg : s.ctrl.mps.cfg = R.cfg
  blocks : s.ctrl.blocks = R.blocks
  running : s.running = true → ∃ k t pend, RxInvAt R k s t pend

theorem RxInvAt.inv (hI : RxInvAt R k s t pend) : RxInv R s := by
  have hn : 0 < R.cfg.bufferCount.toNat := by rw [hI.ready.size]; positivity
  exact ⟨by rw [hI.ready.mps]; exact R.walk_cfg hn t, hI.ready.blocks_eq, fun _ => ⟨k, t, pend, hI⟩⟩

theorem RxInv.step (hcount : 64 ≤ R.cfg.bufferCount.toNat) (s : RxSys) (a : RxAct) (hI : RxInv R s) :
    RxInv R (s.step R.pageSize a) := by
  cases a with
  | start env₁ env₂ =>
    rcases hs : ndpCtrlMedusaRxStart R.pageSize env₁ env₂ s.ctrl with ⟨ctrl', ret⟩
    simp only [RxSys.step, hs]
    by_cases hret : ret = 0
    · subst hret
      obtain ⟨k, t, pend, h⟩ := RxInvAt.start hcount hI.cfg hI.blocks hs
      simpa using h.inv
    · have hfail : ctrl'.mps = s.ctrl.mps ∧ ctrl'.blocks = s.ctrl.blocks := by
        unfold ndpCtrlMedusaRxStart at hs
        rcases hc : ndpCtrlStart .rx env₁ env₂ s.ctrl.c s.ctrl.count s.ctrl.count with ⟨c, ret'⟩
        rw [hc] at hs
        simp only at hs
        split at hs
        · cases hs; exact ⟨rfl, rfl⟩
        · exact absurd (Prod.mk.inj hs).2.symm hret
      refine ⟨by rw [← hI.cfg, ← hfail.1], hfail.2.trans hI.blocks, fun h => absurd (of_decide_eq_true h) hret⟩
  | receive hdr =>
    simp only [RxSys.step]
    by_cases hr : s.running = true
    · obtain ⟨k, t, pend, h⟩ := hI.running hr
      rw [if_pos hr]
      exact (h.receive hdr).inv
    · rw [if_neg hr]; exact hI
  | setSwptr n =>
    simp only [RxSys.step]
    by_cases hr : s.running = true
    · obtain ⟨k, t, pend, h⟩ := hI.running hr
      obtain ⟨t', pend', h'⟩ := h.release n
      rw [if_pos hr]
      exact h'.inv
    · rw [if_neg hr]; exact hI

/-! ## Recycling is sound -/

theorem Filled.type2 (h : Filled R ctrl t pend) :
    type2Descs ctrl.written = (List.range t).map fun j =>
      ncNdpRxDesc2 ((R.walk j).addr R.blocks) (R.cfg.bufferSize.setWidth 16) 0 := by
  have hpend : type2Descs (if pend = true then [ncNdpRxDesc0 (R.buffer t).addr] else []) = [] := by
    cases pend with
    | false => rfl
    | true => simp [type2Descs]
  rw [h.written, type2Descs_append, hpend, List.append_nil]
  unfold MpsRing.descs
  rw [type2Descs_encode]
  unfold MpsRing.buffers
  rw [List.map_map]
  rfl

/-- What recycling promises of a running system, on a ring of `n` buffers. -/
structure Recycled (R : MpsRing) (s : RxSys) : Prop where
  /-- Descriptors written and not released, and those free, are all but 64 of the ring. -/
  account : s.ctrl.written.length + s.ctrl.freeDesc.toNat = s.relDescs + (s.ctrl.c.mdp.toNat + 1 - 64)
  /-- The released descriptors are those of the buffers of the released headers. -/
  released : s.relDescs = R.pos s.relHdrs ∧ s.hwDescs = R.pos s.hwHdrs
  /-- A descriptor stays in its slot until the hardware is through with it and its header is released. -/
  owned : s.relDescs ≤ s.hwDescs ∧ s.hwDescs ≤ s.ctrl.written.length ∧
    ∀ p d, s.relDescs ≤ p → s.ctrl.written[p]? = some d → s.ctrl.desc (p % R.cfg.bufferCount.toNat) = d
  /-- The `j`-th type-2 descriptor describes buffer `j` modulo the ring, and so does the offset table. -/
  describes : ∀ j d, (type2Descs s.ctrl.written)[j]? = some d →
    d = ncNdpRxDesc2 ((R.walk (j % R.cfg.bufferCount.toNat)).addr R.blocks) (R.cfg.bufferSize.setWidth 16) 0 ∧
      s.ctrl.off (j % R.cfg.bufferCount.toNat) = (R.walk (j % R.cfg.bufferCount.toNat)).offset
  /-- The buffers given to the hardware whose headers are not released are all different. -/
  distinct : ∀ i j, s.relHdrs ≤ i → i < j → j < (type2Descs s.ctrl.written).length →
    i % R.cfg.bufferCount.toNat ≠ j % R.cfg.bufferCount.toNat

theorem RxInvAt.recycled (hI : RxInvAt R k s t pend) : Recycled R s := by
  have hn : 0 < R.cfg.bufferCount.toNat := by rw [hI.ready.size]; positivity
  have hburst := hI.burst
  have hlen := hI.ready.toFilled.length
  refine ⟨?_, ⟨hI.relDescs, hI.hwDescs⟩, ⟨?_, ?_, fun p d hp hd => ?_⟩, fun j d hd => ?_, fun i j hi hij hj he => ?_⟩
  · rw [hI.account, hI.ready.mdp]
  · rw [hI.relDescs, hI.hwDescs]; exact R.pos_mono hI.relLe
  · rw [hI.hwDescs, hlen]; exact (R.pos_mono hI.hwLe).trans (Nat.le_add_right _ _)
  · refine hI.ready.ring p d hd ?_
    have := hI.inFlight
    rw [hI.relDescs] at hp
    rw [hI.ready.size]; omega
  · have hwalk : R.walk (j % R.cfg.bufferCount.toNat) = R.walk j := (mpsWalk_mod hn j).symm
    rw [hI.ready.toFilled.type2, List.getElem?_map] at hd
    obtain ⟨m, hm, rfl⟩ := Option.map_eq_some_iff.1 hd
    obtain ⟨_, rfl⟩ := List.getElem?_eq_some_iff.1 hm
    refine ⟨by rw [hwalk]; simp, ?_⟩
    rw [hI.ready.size]
    exact hI.off _ (Nat.mod_lt _ (by positivity))
  · rw [hI.ready.toFilled.type2, List.length_map, List.length_range] at hj
    have hbuf := hI.buffers
    rw [hI.ready.size] at he
    have := slot_inj he (by omega) (by omega)
    omega

/-- In every run of a controller attached to a ring of at least 64 buffers, in any order of starts,
received packets and releases of received headers, recycling keeps its promises while it is running. -/
theorem rx_recycling (R : MpsRing) (hcount : 64 ≤ R.cfg.bufferCount.toNat) (s₀ : RxSys) (hcfg : s₀.ctrl.mps.cfg = R.cfg)
    (hblocks : s₀.ctrl.blocks = R.blocks) (hstop : s₀.running = false) (acts : List RxAct)
    (hrun : (run (RxSys.step R.pageSize) s₀ acts).running = true) :
    Recycled R (run (RxSys.step R.pageSize) s₀ acts) := by
  have h₀ : RxInv R s₀ := ⟨hcfg, hblocks, fun h => absurd h (by simp [hstop])⟩
  obtain ⟨k, t, pend, hI⟩ := (run_inv (RxInv.step hcount) acts s₀ h₀).running hrun
  exact hI.recycled

/-- A ring of 128 buffers in one block, and the controller attached to it before its first start. -/
def oneBlockRing : MpsRing where
  pageSize := 4096
  cfg := { bufferCount := 128, bufferSize := 4096, blockCount := 1, blockSize := 0x400000, initialOffset := 64 }
  blocks _ := 0x1234560000

def oneBlockSys : RxSys where
  ctrl :=
    { c := ⟨0, 0, 0, 0, 0, 0, 0⟩, freeDesc := 0, mps := oneBlockRing.cfg.first, blocks := oneBlockRing.blocks
      desc := fun _ => 0, off := fun _ => 0, hdr := fun _ => ⟨0, 0, 0, 0, 0⟩, regSdp := 0, written := [] }
  running := false
  hwDescs := 0
  hwHdrs := 0
  took := []
  relHdrs := 0
  relDescs := 0

theorem rx_recycling_one_packet :
    Recycled oneBlockRing (run (RxSys.step 4096) oneBlockSys
      [.start ⟨0, false, 1023, 1023⟩ ⟨0, false, 1023, 1023⟩, .receive ⟨60, 0, 0, 0, 0⟩, .setSwptr 1]) :=
  rx_recycling oneBlockRing (by decide) oneBlockSys rfl rfl rfl _ (by decide +kernel)

end NdkSw.Medusa

/-
The descriptor stream of an RX controller: after any number of fills it is the encoding of the
buffers in walk order, up to a type-0 descriptor whose buffer waits for the next fill; and the ring
holds its last lap.
-/
import NdkSw.Medusa.Rx

namespace NdkSw.Medusa

open Ndp Ring

/-- The `k`-th buffer of the walk. -/
def MpsRing.buffer (R : MpsRing) (k : Nat) : DmaBuffer :=
  { addr := (R.walk k).addr R.blocks, len := R.cfg.bufferSize.setWidth 16, metaBits := 0 }

/-- The first `n` buffers of the walk. -/
def MpsRing.buffers (R : MpsRing) (n : Nat) : List DmaBuffer :=
  (List.range n).map (R.buffer)

theorem MpsRing.buffers_succ (R : MpsRing) (n : Nat) : R.buffers (n + 1) =
    R.buffers n ++ [R.buffer n] := by
  unfold MpsRing.buffers
  rw [List.range_succ, List.map_append]; rfl

/-- The upper address behind the first `n` buffers since a start. -/
def MpsRing.upper (R : MpsRing) (n : Nat) : U64 :=
  upperAfter noUpperAddr (R.buffers n)

theorem MpsRing.upper_succ (R : MpsRing) (n : Nat) :
    R.upper (n + 1) = ndpCtrlDescUpperAddr (R.buffer n).addr := by
  unfold MpsRing.upper
  rw [R.buffers_succ, upperAfter_append]; rfl

/-- The stream of the first `n` buffers. -/
def MpsRing.descs (R : MpsRing) (n : Nat) : List U64 :=
  encode noUpperAddr (R.buffers n)

theorem MpsRing.descs_succ (R : MpsRing) (n : Nat) : R.descs (n + 1) =
    R.descs n ++ (R.buffer n).descs (R.upper n) := by
  unfold MpsRing.descs MpsRing.upper
  rw [R.buffers_succ, encode_concat]

variable {R : MpsRing}

/-- The controller has described `t` buffers, and with `pend` written the type-0 descriptor of the
next one. The ring holds the last `desc_count` descriptors of the stream. -/
structure Filled (R : MpsRing) (ctrl : RxCtrl) (t : Nat) (pend : Bool) : Prop where
  blocks_eq : ctrl.blocks = R.blocks
  mps : ctrl.mps = R.walk t
  written : ctrl.written = R.descs t ++
    if pend then [ncNdpRxDesc0 (R.buffer t).addr] else []
  last : ctrl.c.lastUpperAddr = if pend then ndpCtrlDescUpperAddr (R.buffer t).addr
    else R.upper t
  fresh : pend = true → ndpCtrlDescUpperAddr (R.buffer t).addr ≠ R.upper t
  ring : HoldsLast R.cfg.bufferCount.toNat ctrl.desc ctrl.written

/-- What a fill does not touch. -/
structure SameBut (ctrl ctrl' : RxCtrl) : Prop where
  freeDesc : ctrl'.freeDesc = ctrl.freeDesc
  off : ctrl'.off = ctrl.off
  hdr : ctrl'.hdr = ctrl.hdr
  regSdp : ctrl'.regSdp = ctrl.regSdp
  mdp : ctrl'.c.mdp = ctrl.c.mdp
  mhp : ctrl'.c.mhp = ctrl.c.mhp
  shp : ctrl'.c.shp = ctrl.c.shp

theorem SameBut.refl (ctrl : RxCtrl) : SameBut ctrl ctrl := ⟨rfl, rfl, rfl, rfl, rfl, rfl, rfl⟩

theorem SameBut.trans {a b c : RxCtrl} (h : SameBut a b) (h' : SameBut b c) : SameBut a c :=
  ⟨h'.freeDesc.trans h.freeDesc, h'.off.trans h.off, h'.hdr.trans h.hdr, h'.regSdp.trans h.regSdp,
    h'.mdp.trans h.mdp, h'.mhp.trans h.mhp, h'.shp.trans h.shp⟩

variable {ctrl : RxCtrl} {t : Nat} {pend : Bool}

/-- One round appends one descriptor: the type-0 of the next buffer if that has a new upper address
and none was written for it, else its type-2. -/
theorem Filled.round (hn : 0 < R.cfg.bufferCount.toNat) (h : Filled R ctrl t pend) {sdp : U32} {i : Nat}
    (hi : (sdp.toNat + i) % R.cfg.bufferCount.toNat = ctrl.written.length % R.cfg.bufferCount.toNat) :
    ∃ t' pend', t ≤ t' ∧ Filled R (mpsFillRound R.pageSize sdp i ctrl) t' pend' ∧
      (mpsFillRound R.pageSize sdp i ctrl).written.length = ctrl.written.length + 1 ∧
      SameBut ctrl (mpsFillRound R.pageSize sdp i ctrl) := by
  have hcfg : ctrl.mps.cfg = R.cfg := by rw [h.mps]; exact R.walk_cfg hn t
  have haddr : ctrl.mps.addr ctrl.blocks = (R.buffer t).addr := by
    rw [h.mps, h.blocks_eq]; rfl
  have hcount : ctrl.count = R.cfg.bufferCount := by unfold RxCtrl.count; rw [hcfg]
  unfold mpsFillRound
  simp only [haddr, hcfg]
  by_cases hne : ndpCtrlDescUpperAddr (R.buffer t).addr ≠ ctrl.c.lastUpperAddr
  · -- a new upper address: no type-0 descriptor was pending
    have hpend : pend = false := by
      cases pend with
      | false => rfl
      | true => exact absurd h.last.symm hne
    subst hpend
    have hlast := h.last
    have hw := h.written
    simp only [Bool.false_eq_true, if_false, List.append_nil] at hlast hw
    rw [if_pos hne]
    refine ⟨t, true, le_rfl, ⟨h.blocks_eq, h.mps, ?_, rfl, fun _ => hlast ▸ hne, ?_⟩, by simp [RxCtrl.writeDesc],
      ⟨rfl, rfl, rfl, rfl, rfl, rfl, rfl⟩⟩
    · show ctrl.written ++ [_] = _
      rw [hw]; rfl
    · show HoldsLast _ (Function.update ctrl.desc (_ % ctrl.count.toNat) _) (ctrl.written ++ [_])
      rw [hcount]
      exact h.ring.write hi
  · rw [if_neg hne]
    have hlast := not_not.1 hne
    refine ⟨t + 1, false, Nat.le_succ t, ⟨h.blocks_eq, ?_, ?_, ?_, fun h0 => absurd h0 (by simp), ?_⟩, by simp [RxCtrl.writeDesc],
      ⟨rfl, rfl, rfl, rfl, rfl, rfl, rfl⟩⟩
    · show (ndpCtrlMedusaMpsInc R.pageSize ctrl.mps).1 = _
      rw [h.mps]; rfl
    · show ctrl.written ++ [_] = _
      rw [h.written, R.descs_succ]
      unfold DmaBuffer.descs ncNdpRxDesc2
      cases pend with
      | true =>
        rw [if_pos (h.fresh rfl)]
        simp [MpsRing.buffer]
      | false =>
        have hup := h.last
        simp only [Bool.false_eq_true, if_false] at hup
        rw [if_neg (not_not.2 (hlast.trans hup))]
        simp [MpsRing.buffer]
    · show ctrl.c.lastUpperAddr = _
      simp only [Bool.false_eq_true, if_false]
      rw [R.upper_succ, hlast]
    · show HoldsLast _ (Function.update ctrl.desc (_ % ctrl.count.toNat) _) (ctrl.written ++ [_])
      rw [hcount]
      exact h.ring.write hi

theorem Filled.rounds (hn : 0 < R.cfg.bufferCount.toNat) (h : Filled R ctrl t pend) {sdp : U32}
    (hsdp : sdp.toNat % R.cfg.bufferCount.toNat = ctrl.written.length % R.cfg.bufferCount.toNat) (n : Nat) :
    ∃ t' pend', t ≤ t' ∧ Filled R (mpsFillRounds R.pageSize sdp ctrl n) t' pend' ∧
      (mpsFillRounds R.pageSize sdp ctrl n).written.length = ctrl.written.length + n ∧
      SameBut ctrl (mpsFillRounds R.pageSize sdp ctrl n) := by
  induction n with
  | zero => exact ⟨t, pend, le_rfl, h, rfl, SameBut.refl ctrl⟩
  | succ n ih =>
    obtain ⟨t₁, pend₁, ht1, h1, hlen, hsame⟩ := ih
    have hi : (sdp.toNat + n) % R.cfg.bufferCount.toNat =
        (mpsFillRounds R.pageSize sdp ctrl n).written.length % R.cfg.bufferCount.toNat := by
      rw [hlen, Nat.add_mod, hsdp, ← Nat.add_mod]
    obtain ⟨t₂, pend₂, ht2, h2, hlen2, hsame2⟩ := h1.round hn hi
    exact ⟨t₂, pend₂, ht1.trans ht2, h2, by rw [mpsFillRounds, hlen2, hlen]; omega, hsame.trans hsame2⟩

/-- A controller between two fills: its ring has `2 ^ k` descriptors and `sdp` stands at the end of the
stream. -/
structure Ready (R : MpsRing) (k : Nat) (ctrl : RxCtrl) (t : Nat)
    (pend : Bool) : Prop extends Filled R ctrl t pend where
  size : R.cfg.bufferCount.toNat = 2 ^ k
  mdp : IsMask ctrl.c.mdp k
  sdp : ctrl.c.sdp.toNat = ctrl.written.length % 2 ^ k

theorem Ready.congr {k : Nat} {ctrl' : RxCtrl} (h : Ready R k ctrl t pend) (hb : ctrl'.blocks = ctrl.blocks)
    (hm : ctrl'.mps = ctrl.mps) (hw : ctrl'.written = ctrl.written) (hd : ctrl'.desc = ctrl.desc)
    (hl : ctrl'.c.lastUpperAddr = ctrl.c.lastUpperAddr) (hmdp : ctrl'.c.mdp = ctrl.c.mdp) (hs : ctrl'.c.sdp = ctrl.c.sdp) :
    Ready R k ctrl' t pend :=
  ⟨⟨hb.trans h.blocks_eq, hm.trans h.mps, hw.trans h.written, hl.trans h.last, h.fresh,
    by rw [hw, hd]; exact h.ring⟩, h.size, by rw [hmdp]; exact h.mdp, by rw [hs, hw]; exact h.sdp⟩

/-- A fill appends `count` descriptors to the stream. -/
theorem Ready.fill {k : Nat} (h : Ready R k ctrl t pend) (count : U64) :
    ∃ t' pend', t ≤ t' ∧ Ready R k (ndpCtrlMpsFillRxDescs R.pageSize ctrl count) t' pend' ∧
      (ndpCtrlMpsFillRxDescs R.pageSize ctrl count).written.length = ctrl.written.length + count.toNat ∧
      SameBut ctrl (ndpCtrlMpsFillRxDescs R.pageSize ctrl count) := by
  have hpos : 0 < R.cfg.bufferCount.toNat := by rw [h.size]; positivity
  have hk : k ≤ 32 := h.mdp.le_width
  have hs : ctrl.c.sdp.toNat % R.cfg.bufferCount.toNat = ctrl.written.length % R.cfg.bufferCount.toNat := by
    rw [h.sdp, h.size, Nat.mod_mod]
  obtain ⟨t', pend', ht, hf, hlen, hsame⟩ := h.toFilled.rounds hpos hs count.toNat
  unfold ndpCtrlMpsFillRxDescs
  dsimp only
  generalize mpsFillRounds R.pageSize ctrl.c.sdp ctrl count.toNat = ctrl' at hf hlen hsame
  have hm : IsMask ctrl'.c.mdp k := by rw [hsame.mdp]; exact h.mdp
  have hsdp : At k (ctrl.c.sdp.setWidth 64 + count) ctrl'.written.length := by
    rw [hlen]
    exact At.add (by omega) ((at_of_mod h.sdp).setWidth (by omega)) (at_toNat count)
  have hand := (hsdp.and (hm.setWidth (v := 64) (by omega))).setWidth (v := 32) hk
  refine ⟨t', pend', ht, ⟨⟨hf.blocks_eq, hf.mps, hf.written, hf.last, hf.fresh, hf.ring⟩, h.size, hm, ?_⟩, hlen,
    ⟨hsame.freeDesc, hsame.off, hsame.hdr, hsame.regSdp, hsame.mdp, hsame.mhp, hsame.shp⟩⟩
  refine hand.toNat_eq ?_
  rw [BitVec.toNat_setWidth]
  refine lt_of_le_of_lt (Nat.mod_le _ _) ?_
  exact (hm.setWidth (v := 64) (by omega)).toNat_and_lt _

/-- A start that succeeds leaves nothing of the stream before it, and fills all but 64 descriptors of
the ring. -/
theorem Ready.start {ctrl' : RxCtrl} {env₁ env₂ : StartEnv} (hn : 0 < R.cfg.bufferCount.toNat) (hcfg : ctrl.mps.cfg = R.cfg)
    (hblocks : ctrl.blocks = R.blocks) (hs : ndpCtrlMedusaRxStart R.pageSize env₁ env₂ ctrl = (ctrl', 0)) :
    ∃ k t pend, Ready R k ctrl' t pend ∧ IsMask ctrl'.c.mhp k ∧ ctrl'.regSdp = ctrl'.c.sdp ∧
      (∀ j < 2 ^ k, ctrl'.off j = (R.walk j).offset) ∧ ctrl'.c.shp = 0 ∧ ctrl'.freeDesc = 0 ∧
      ctrl'.written.length = (R.cfg.bufferCount - ndpCtrlRxDescBurst).toNat := by
  unfold ndpCtrlMedusaRxStart at hs
  rcases hc : ndpCtrlStart .rx env₁ env₂ ctrl.c ctrl.count ctrl.count with ⟨c, ret⟩
  rw [hc] at hs
  simp only at hs
  split at hs
  · rename_i hret
    exact absurd (Prod.mk.inj hs).2 hret
  rename_i hret
  rw [not_not.1 hret] at hc
  obtain ⟨hc', hpow⟩ := ndpCtrlStart_ok hc
  have hcnt : ctrl.count = R.cfg.bufferCount := by unfold RxCtrl.count; rw [hcfg]
  rw [hcnt] at hc' hpow hs
  obtain ⟨k, hk, hmask⟩ := pow2_of_start hn hpow
  rw [metaFirst_eq_first hcfg, mpsOffsets_first hn] at hs
  simp only at hs
  -- the controller before its first fill
  have h0 : Ready R k { ctrl with
      c, mps := R.cfg.first
      off := fun j => ((List.range R.cfg.bufferCount.toNat).map fun j =>
        (mpsWalk R.pageSize R.cfg.first j).offset).getD j (ctrl.off j)
      regSdp := 0, written := [] } 0 false := by
    refine ⟨⟨hblocks, rfl, rfl, ?_, fun h => absurd h (by simp), fun p d hp => absurd hp (by simp)⟩, hk, ?_, ?_⟩
    · rw [hc']; rfl
    · rw [hc']; exact hmask
    · rw [hc']; simp
  obtain ⟨t, pend, _, hr, hlen, hsame⟩ := h0.fill ((c.mdp + 1 - ndpCtrlRxDescBurst).setWidth 64)
  have hfill : ((c.mdp + 1 - ndpCtrlRxDescBurst).setWidth 64 : U64).toNat = (R.cfg.bufferCount - ndpCtrlRxDescBurst).toNat := by
    rw [hc', toNat_setWidth64, BitVec.sub_add_cancel]
  generalize ndpCtrlMpsFillRxDescs R.pageSize _ _ = ctrl₁ at hs hr hlen hsame
  cases hs
  rw [hfill] at hlen
  refine ⟨k, t, pend, hr.congr rfl rfl rfl rfl rfl rfl rfl, ?_, rfl, fun j hj => ?_, ?_, rfl, ?_⟩
  · show IsMask ctrl₁.c.mhp k
    rw [hsame.mhp]; show IsMask c.mhp k
    rw [hc']; exact hmask
  · show ctrl₁.off j = _
    rw [hsame.off]
    show List.getD _ j _ = _
    rw [List.getD_eq_getElem?_getD, hk]
    simp [hj, MpsRing.walk]
  · show ctrl₁.c.shp = 0
    rw [hsame.shp]; show c.shp = _
    rw [hc']
  · rw [hlen]; simp

/-! ## What the hardware decodes -/

theorem Filled.decode (h : Filled R ctrl t pend) (up : U64) :
    decode up ctrl.written = (R.buffers t).map fun b => (b.addr, b.len) := by
  rw [h.written]
  unfold MpsRing.descs
  rw [decode_encode _ _ _ _ (Or.inr upperAddr_ne_noUpperAddr)]
  cases pend with
  | false => simp [Medusa.decode]
  | true => simp [Medusa.decode]

theorem Filled.chain (h : Filled R ctrl t pend) :
    ctrl.written.IsChain fun d e => ¬ BothType0 d e := by
  rw [h.written]
  refine encode_chain _ _ _ ?_
  cases pend with
  | false => exact List.isChain_nil
  | true => exact List.isChain_singleton _

theorem Filled.head (h : Filled R ctrl t pend) {d : U64} (hd : ctrl.written.head? = some d) :
    descType d = 0 := by
  rw [h.written] at hd
  refine head_encode _ (fun e he => ?_) hd
  cases pend with
  | false => cases he
  | true => cases he; exact descType_desc0 _

end NdkSw.Medusa

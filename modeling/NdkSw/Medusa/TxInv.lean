/-
Descriptor accounting of a TX controller. Positions in the descriptor stream are counted without
bound: of all descriptors written the first `f` are flushed to the hardware and the first `d` of these
are completed. These facts survive everything, also a wait that a kill signal ends.
-/
import NdkSw.Medusa.Tx

namespace NdkSw.Medusa

open Ndp Ring

variable {pageSize sdp : U32} {k d f n : Nat} {ctrl ctrl' : TxCtrl}

/-! ## The descriptor ring -/

/-- The accounting of a ring of `2 ^ k` descriptors. -/
structure TxDescs (k d f : Nat) (ctrl : TxCtrl) : Prop where
  count : ctrl.count.toNat = 2 ^ k
  mdp : IsMask ctrl.c.mdp k
  mhp : IsMask ctrl.c.mhp k
  ring : HoldsLast (2 ^ k) ctrl.desc ctrl.written
  hdp : ctrl.c.hdp.toNat = d % 2 ^ k
  reg : ctrl.regSdp.toNat = f % 2 ^ k
  le : d ≤ f
  flushed : f ≤ ctrl.written.length
  free : ctrl.freeDesc.toNat + (ctrl.written.length - d) = 2 ^ k - 1
  hhp : ctrl.c.hhp.toNat = (type2Descs (ctrl.written.take d)).length % 2 ^ k

/-- What looking at the hardware does not change. -/
structure TxSame (ctrl ctrl' : TxCtrl) : Prop where
  sdp : ctrl'.c.sdp = ctrl.c.sdp
  shp : ctrl'.c.shp = ctrl.c.shp
  mdp : ctrl'.c.mdp = ctrl.c.mdp
  mhp : ctrl'.c.mhp = ctrl.c.mhp
  cfg : ctrl'.mps.cfg = ctrl.mps.cfg
  regSdp : ctrl'.regSdp = ctrl.regSdp
  mode : ctrl'.mode = ctrl.mode
  blocks : ctrl'.blocks = ctrl.blocks
  off : ctrl'.off = ctrl.off
  hdr : ctrl'.hdr = ctrl.hdr

theorem TxSame.refl (ctrl : TxCtrl) : TxSame ctrl ctrl := ⟨rfl, rfl, rfl, rfl, rfl, rfl, rfl, rfl, rfl, rfl⟩

theorem TxSame.trans {a b c : TxCtrl} (h : TxSame a b) (h' : TxSame b c) : TxSame a c :=
  ⟨h'.sdp.trans h.sdp, h'.shp.trans h.shp, h'.mdp.trans h.mdp, h'.mhp.trans h.mhp, h'.cfg.trans h.cfg,
    h'.regSdp.trans h.regSdp, h'.mode.trans h.mode, h'.blocks.trans h.blocks, h'.off.trans h.off, h'.hdr.trans h.hdr⟩

theorem TxSame.count (h : TxSame ctrl ctrl') : ctrl'.count = ctrl.count := congrArg NdpCtrlCfg.bufferCount h.cfg

/-- Looking at the hardware touches the completion pointers and the free descriptors only. -/
structure Looked (ctrl ctrl' : TxCtrl) : Prop extends TxSame ctrl ctrl' where
  mps : ctrl'.mps = ctrl.mps
  last : ctrl'.c.lastUpperAddr = ctrl.c.lastUpperAddr
  desc : ctrl'.desc = ctrl.desc
  written : ctrl'.written = ctrl.written
  converted : ctrl'.converted = ctrl.converted

theorem Looked.refl (ctrl : TxCtrl) : Looked ctrl ctrl := ⟨TxSame.refl ctrl, rfl, rfl, rfl, rfl, rfl⟩

theorem Looked.trans {a b c : TxCtrl} (h : Looked a b) (h' : Looked b c) : Looked a c :=
  ⟨h.toTxSame.trans h'.toTxSame, h'.mps.trans h.mps, h'.last.trans h.last, h'.desc.trans h.desc, h'.written.trans h.written,
    h'.converted.trans h.converted⟩

theorem getHwptr_looked (ctrl : TxCtrl) (hw : Nat) : Looked ctrl (ndpCtrlMedusaTxGetHwptr ctrl hw).1 :=
  ⟨⟨rfl, rfl, rfl, rfl, rfl, rfl, rfl, rfl, rfl, rfl⟩, rfl, rfl, rfl, rfl, rfl⟩

theorem TxDescs.freeHdrs (h : TxDescs k d f ctrl) (hn : d + n ≤ ctrl.written.length) :
    (type2Descs (ctrl.written.take d)).length + ctrl.freeHdrs ctrl.c.hdp n =
      (type2Descs (ctrl.written.take (d + n))).length := by
  have hfree := h.free
  have hpos : 0 < 2 ^ k := by positivity
  induction n with
  | zero => simp [TxCtrl.freeHdrs]
  | succ n ih =>
    have hlt : d + n < ctrl.written.length := by omega
    have hslot : ctrl.desc ((ctrl.c.hdp.toNat + n) % ctrl.count.toNat) = ctrl.written[d + n] := by
      rw [h.hdp, h.count, Nat.mod_add_mod]
      exact h.ring _ _ (List.getElem?_eq_getElem hlt) (by omega)
    have ih := ih (by omega)
    unfold TxCtrl.freeHdrs at ih ⊢
    rw [← Nat.add_assoc, List.take_succ_eq_append_getElem hlt, type2Descs_append, List.length_append, ← ih,
      List.range_succ, List.filter_append, List.length_append, Nat.add_assoc]
    congr 2
    simp only [type2Descs, List.filter_cons, List.filter_nil, hslot]
    split
    · rfl
    · rfl

theorem TxDescs.getHwptr (h : TxDescs k d f ctrl) (hw : Nat) :
    TxDescs k (d + min hw (f - d)) f (ndpCtrlMedusaTxGetHwptr ctrl hw).1 := by
  have hle := h.le
  have hfl := h.flushed
  have hfree := h.free
  have hpos : 0 < 2 ^ k := by positivity
  have hk : k ≤ 32 := h.mdp.le_width
  have hpow : 2 ^ k ≤ 2 ^ 32 := Nat.pow_le_pow_right (by norm_num) hk
  have hfly : ((ctrl.regSdp - ctrl.c.hdp) &&& ctrl.c.mdp).toNat = f - d :=
    (at_of_mod h.reg).toNat_sub_and h.mdp (at_of_mod h.hdp) hle (by omega)
  have hnew : ((ctrl.c.hdp + BitVec.ofNat 32 (min hw (f - d))) &&& ctrl.c.mdp).toNat = (d + min hw (f - d)) % 2 ^ k :=
    (At.add hk (at_of_mod h.hdp) (at_ofNat hk _)).toNat_and h.mdp
  have hcount : ((((ctrl.c.hdp + BitVec.ofNat 32 (min hw (f - d))) &&& ctrl.c.mdp) - ctrl.c.hdp) &&& ctrl.c.mdp).toNat =
      min hw (f - d) := by
    rw [(at_of_mod hnew).toNat_sub_and h.mdp (at_of_mod h.hdp) (by omega) (by omega)]
    omega
  unfold ndpCtrlMedusaTxGetHwptr
  simp only [hfly]
  refine ⟨h.count, h.mdp, h.mhp, h.ring, hnew, h.reg, by omega, hfl, ?_, ?_⟩
  · show (ctrl.freeDesc + _).toNat + (ctrl.written.length - _) = _
    rw [BitVec.toNat_add, hcount, Nat.mod_eq_of_lt (by omega)]
    omega
  · show ((ctrl.c.hhp + BitVec.ofNat 32 _) &&& ctrl.c.mhp).toNat = _
    rw [hcount, (At.add hk (at_of_mod h.hhp) (at_ofNat hk _)).toNat_and h.mhp, h.freeHdrs (by omega)]

/-- A wait ends with enough free descriptors, or at a poll with a kill signal. -/
theorem TxDescs.wait {count : U32} : ∀ (polls : List Poll) {ctrl : TxCtrl} {d : Nat} {killed : Bool} {rest : List Poll},
    TxDescs k d f ctrl → ndpCtrlMedusaTxWaitForFreeDesc count ctrl polls = some (ctrl', killed, rest) →
    ∃ d', d ≤ d' ∧ TxDescs k d' f ctrl' ∧ Looked ctrl ctrl' ∧ (killed = false → count.toNat ≤ ctrl'.freeDesc.toNat) ∧
      (killed = true → ∃ p ∈ polls, p.kill = true) ∧ ∀ p ∈ rest, p ∈ polls
  | [], ctrl, d, killed, rest, h, hw => by
    rw [ndpCtrlMedusaTxWaitForFreeDesc] at hw
    split at hw
    · cases hw
    · rename_i hlt
      cases hw
      exact ⟨d, le_rfl, h, Looked.refl _, fun _ => Nat.le_of_not_lt fun hl => hlt (BitVec.lt_def.2 hl),
        fun hk => absurd hk (by simp), fun p hp => hp⟩
  | p :: polls, ctrl, d, killed, rest, h, hw => by
    rw [ndpCtrlMedusaTxWaitForFreeDesc] at hw
    split at hw
    · simp only at hw
      split at hw
      · rename_i hkill
        cases hw
        exact ⟨_, Nat.le_add_right _ _, h.getHwptr p.hw, getHwptr_looked _ _, fun hk => absurd hk (by simp),
          fun _ => ⟨p, List.mem_cons_self, hkill⟩, fun q hq => List.mem_cons_of_mem _ hq⟩
      · obtain ⟨d', hd, hD, hL, hf, hkl, hr⟩ := TxDescs.wait polls (h.getHwptr p.hw) hw
        refine ⟨d', by omega, hD, (getHwptr_looked _ _).trans hL, hf, fun hk => ?_, fun q hq => List.mem_cons_of_mem _ (hr q hq)⟩
        obtain ⟨q, hq, hqk⟩ := hkl hk
        exact ⟨q, List.mem_cons_of_mem _ hq, hqk⟩
    · rename_i hlt
      cases hw
      exact ⟨d, le_rfl, h, Looked.refl _, fun _ => Nat.le_of_not_lt fun hl => hlt (BitVec.lt_def.2 hl),
        fun hk => absurd hk (by simp), fun q hq => hq⟩

/-! ## Converting headers -/

/-- The stream is the encoding of what was converted since the start. -/
structure TxStream (ctrl : TxCtrl) : Prop where
  written : ctrl.written = encode noUpperAddr (ctrl.converted.map (·.buffer))
  last : ctrl.c.lastUpperAddr = upperAfter noUpperAddr (ctrl.converted.map (·.buffer))

theorem Looked.stream (hL : Looked ctrl ctrl') (h : TxStream ctrl) : TxStream ctrl' :=
  ⟨by rw [hL.written, hL.converted]; exact h.written, by rw [hL.last, hL.converted]; exact h.last⟩

theorem TxDescs.write (h : TxDescs k d f ctrl) {sdp : U32} (hs : At k sdp ctrl.written.length)
    (hfree : 1 ≤ ctrl.freeDesc.toNat) (x : U64) : TxDescs k d f (ctrl.writeDesc sdp x) := by
  have hfl := h.flushed
  have hle := h.le
  have hfr := h.free
  refine ⟨h.count, h.mdp, h.mhp, ?_, h.hdp, h.reg, h.le, ?_, ?_, ?_⟩
  · show HoldsLast _ (Function.update ctrl.desc (sdp.toNat % ctrl.count.toNat) x) (ctrl.written ++ [x])
    rw [h.count]
    exact h.ring.write hs
  · show f ≤ (ctrl.written ++ [x]).length
    rw [List.length_append]; omega
  · show (ctrl.freeDesc - 1).toNat + ((ctrl.written ++ [x]).length - d) = _
    have h1 : (1 : U32) ≤ ctrl.freeDesc := BitVec.le_def.2 hfree
    rw [BitVec.toNat_sub_of_le h1, List.length_append, show (1 : U32).toNat = 1 from rfl, List.length_singleton]
    omega
  · show ctrl.c.hhp.toNat = (type2Descs ((ctrl.written ++ [x]).take d)).length % 2 ^ k
    rw [List.take_append_of_le_length (by omega)]
    exact h.hhp

/-- The `j`-th header a call converts when it starts at `shp` with the walk at `mps`. -/
def conversion (pageSize : U32) (ctrl : TxCtrl) (shp : Nat) (j : Nat) : Conversion :=
  let slot := (shp + j) % ctrl.count.toNat
  let mps := mpsWalk pageSize ctrl.mps j
  { slot, index := mps.bufferIndex.toNat
    buffer :=
      { addr := if ctrl.mode = .user then ctrl.off slot else mps.addr ctrl.blocks
        len := (ctrl.hdr slot).frameLen, metaBits := (ctrl.hdr slot).metaBits.setWidth 16 } }

theorem At.succ {x : U32} (hk : k ≤ 32) (h : At k x n) : At k (x + 1) (n + 1) :=
  At.add hk h (at_ofNat hk 1)

theorem TxDescs.desc0 (h : TxDescs k d f ctrl) (hs : At k sdp ctrl.written.length) (hfree : 1 ≤ ctrl.freeDesc.toNat) (b : DmaBuffer) :
    TxDescs k d f (txWriteDesc0 ctrl sdp b.addr).1 ∧
      At k (txWriteDesc0 ctrl sdp b.addr).2 (txWriteDesc0 ctrl sdp b.addr).1.written.length ∧
      (txWriteDesc0 ctrl sdp b.addr).1.written ++ [type2Desc b.addr b.len b.metaBits 0] =
        ctrl.written ++ b.descs ctrl.c.lastUpperAddr ∧
      (txWriteDesc0 ctrl sdp b.addr).1.c.lastUpperAddr = ndpCtrlDescUpperAddr b.addr ∧
      TxSame ctrl (txWriteDesc0 ctrl sdp b.addr).1 ∧ (txWriteDesc0 ctrl sdp b.addr).1.mps = ctrl.mps ∧
      (txWriteDesc0 ctrl sdp b.addr).1.converted = ctrl.converted := by
  have hk : k ≤ 32 := h.mdp.le_width
  unfold txWriteDesc0 DmaBuffer.descs
  by_cases hne : ndpCtrlDescUpperAddr b.addr ≠ ctrl.c.lastUpperAddr
  · rw [if_pos hne, if_pos hne]
    have h' : TxDescs k d f { ctrl with c := { ctrl.c with lastUpperAddr := ndpCtrlDescUpperAddr b.addr } } :=
      ⟨h.count, h.mdp, h.mhp, h.ring, h.hdp, h.reg, h.le, h.flushed, h.free, h.hhp⟩
    refine ⟨h'.write hs hfree _, ?_, ?_, rfl, ⟨rfl, rfl, rfl, rfl, rfl, rfl, rfl, rfl, rfl, rfl⟩, rfl, rfl⟩
    · show At k (sdp + 1) (ctrl.written ++ [_]).length
      rw [List.length_append]
      exact At.succ hk hs
    · show (ctrl.written ++ [_]) ++ [_] = _
      rw [List.append_assoc]; rfl
  · rw [if_neg hne, if_neg hne]
    exact ⟨h, hs, rfl, (not_not.1 hne).symm, TxSame.refl ctrl, rfl, rfl⟩

theorem TxDescs.desc2 (h : TxDescs k d f ctrl) (hs : At k sdp ctrl.written.length) (hfree : 1 ≤ ctrl.freeDesc.toNat) (slot : Nat)
    (addr : U64) :
    TxDescs k d f (txWriteDesc2 pageSize ctrl sdp slot addr).1 ∧
      At k (txWriteDesc2 pageSize ctrl sdp slot addr).2 (txWriteDesc2 pageSize ctrl sdp slot addr).1.written.length ∧
      TxSame ctrl (txWriteDesc2 pageSize ctrl sdp slot addr).1 := by
  have hnew := h.write hs hfree (ncNdpTxDesc2 addr (ctrl.hdr slot).frameLen ((ctrl.hdr slot).metaBits.setWidth 16) 0)
  have hcfg : (txWriteDesc2 pageSize ctrl sdp slot addr).1.mps.cfg = ctrl.mps.cfg := mpsInc_cfg ctrl.mps
  refine ⟨⟨?_, hnew.mdp, hnew.mhp, hnew.ring, hnew.hdp, hnew.reg, hnew.le, hnew.flushed, hnew.free, hnew.hhp⟩, ?_,
    ⟨rfl, rfl, rfl, rfl, hcfg, rfl, rfl, rfl, rfl, rfl⟩⟩
  · unfold TxCtrl.count
    rw [hcfg]; exact h.count
  · show At k (sdp + 1) (ctrl.written ++ [_]).length
    rw [List.length_append]
    exact At.succ h.mdp.le_width hs

theorem DmaBuffer.length_descs (last : U64) (b : DmaBuffer) :
    (b.descs last).length = if ndpCtrlDescUpperAddr b.addr ≠ last then 2 else 1 := by
  unfold DmaBuffer.descs; split <;> rfl

/-- One packet, with at least two free descriptors. -/
theorem TxDescs.packet (h : TxDescs k d f ctrl) (hs : At k sdp ctrl.written.length) (hfree : 2 ≤ ctrl.freeDesc.toNat)
    (hst : TxStream ctrl) (shp : Nat) {cv : Conversion} (hcv : cv = conversion pageSize ctrl shp 0) {sdp' : U32}
    (hr : txPacket pageSize ctrl sdp cv.slot cv.buffer.addr = (ctrl', sdp')) :
    TxDescs k d f ctrl' ∧ At k sdp' ctrl'.written.length ∧ TxStream ctrl' ∧ TxSame ctrl ctrl' ∧
      ctrl'.mps = (ndpCtrlMedusaMpsInc pageSize ctrl.mps).1 ∧ ctrl'.converted = ctrl.converted ++ [cv] := by
  obtain ⟨h0, hs0, hw0, hl0, hsame, hmps, hconv⟩ := h.desc0 hs (by omega) cv.buffer
  unfold txPacket at hr
  generalize txWriteDesc0 ctrl sdp cv.buffer.addr = x at h0 hs0 hw0 hl0 hsame hmps hconv hr
  obtain ⟨ctrl₀, sdp₀⟩ := x
  simp only at h0 hs0 hw0 hl0 hsame hmps hconv hr
  have hfree₀ : 1 ≤ ctrl₀.freeDesc.toNat := by
    have h1 := h.free
    have h2 := h0.free
    have h3 := h.flushed
    have h4 := h.le
    have hlen := congrArg List.length hw0
    have hd : (cv.buffer.descs ctrl.c.lastUpperAddr).length ≤ 2 := by
      rw [DmaBuffer.length_descs]; split <;> omega
    rw [List.length_append, List.length_append, List.length_singleton] at hlen
    omega
  obtain ⟨h2, hs2, hsame2⟩ := h0.desc2 hs0 hfree₀ cv.slot cv.buffer.addr
  have hc2 : (txWriteDesc2 pageSize ctrl₀ sdp₀ cv.slot cv.buffer.addr).1.converted = ctrl.converted ++ [cv] := by
    show ctrl₀.converted ++ [_] = _
    rw [hconv, hmps, hsame.hdr, hcv]; rfl
  have hw2 : (txWriteDesc2 pageSize ctrl₀ sdp₀ cv.slot cv.buffer.addr).1.written =
      ctrl.written ++ cv.buffer.descs ctrl.c.lastUpperAddr := by
    show ctrl₀.written ++ [_] = _
    rw [← hw0, hsame.hdr, hcv]; rfl
  rw [hr] at h2 hs2 hsame2 hc2 hw2
  refine ⟨h2, hs2, ⟨?_, ?_⟩, hsame.trans hsame2, ?_, hc2⟩
  · rw [hw2, hc2, List.map_append, List.map_singleton, encode_concat, ← hst.last, ← hst.written]
  · have hl : ctrl'.c.lastUpperAddr = ctrl₀.c.lastUpperAddr := by
      rw [show ctrl' = (txWriteDesc2 pageSize ctrl₀ sdp₀ cv.slot cv.buffer.addr).1 by rw [hr]]; rfl
    rw [hl, hl0, hc2, List.map_append, upperAfter_append]; rfl
  · rw [show ctrl' = (txWriteDesc2 pageSize ctrl₀ sdp₀ cv.slot cv.buffer.addr).1 by rw [hr], ← hmps]; rfl

/-- What the loop has done when it is left after `m` headers. -/
structure ConvertedTo (pageSize : U32) (k d f : Nat) (ctrl : TxCtrl) (shp m : Nat) (ctrl' : TxCtrl) (sdp' : U32) : Prop where
  descs : ∃ d', d ≤ d' ∧ TxDescs k d' f ctrl'
  sdp : At k sdp' ctrl'.written.length
  stream : TxStream ctrl'
  same : TxSame ctrl ctrl'
  mps : ctrl'.mps = mpsWalk pageSize ctrl.mps m
  converted : ctrl'.converted = ctrl.converted ++ (List.range m).map (conversion pageSize ctrl shp)

theorem conversion_looked (hL : Looked ctrl ctrl') (shp j : Nat) :
    conversion pageSize ctrl' shp j = conversion pageSize ctrl shp j := by
  unfold conversion
  rw [hL.toTxSame.count, hL.mps, hL.mode, hL.off, hL.blocks, hL.hdr]

theorem conversion_next (hS : TxSame ctrl ctrl') (hm : ctrl'.mps = (ndpCtrlMedusaMpsInc pageSize ctrl.mps).1) (shp j : Nat) :
    conversion pageSize ctrl' (shp + 1) j = conversion pageSize ctrl shp (j + 1) := by
  unfold conversion
  rw [hS.count, hm, hS.mode, hS.off, hS.blocks, hS.hdr, mpsWalk_inc, Nat.add_right_comm, Nat.add_assoc]

/-- What one round of the loop does that finds two free descriptors; `d` is taken after the wait. -/
structure Round (pageSize : U32) (k d f : Nat) (ctrl : TxCtrl) (shp : Nat) (ctrl' : TxCtrl) (sdp' : U32) : Prop where
  descs : TxDescs k d f ctrl'
  sdp : At k sdp' ctrl'.written.length
  stream : TxStream ctrl'
  same : TxSame ctrl ctrl'
  mps : ctrl'.mps = (ndpCtrlMedusaMpsInc pageSize ctrl.mps).1
  converted : ctrl'.converted = ctrl.converted ++ [conversion pageSize ctrl shp 0]
  room : ctrl.written.length + 2 ≤ f + (2 ^ k - 1)

theorem txConvert_round (pageSize shp : U32) (i : Nat) {polls polls₁ : List Poll} {ctrl₁ : TxCtrl} (hs : At k sdp ctrl.written.length)
    (hst : TxStream ctrl) (h₁ : TxDescs k d f ctrl₁) (hL : Looked ctrl ctrl₁) (hfree : 2 ≤ ctrl₁.freeDesc.toNat)
    (hw : ndpCtrlMedusaTxWaitForFreeDesc 2 ctrl polls = some (ctrl₁, false, polls₁)) :
    ∃ ctrl₂ sdp₂, Round pageSize k d f ctrl (shp.toNat + i) ctrl₂ sdp₂ ∧ ∀ n,
      txConvert pageSize shp (n + 1) i ctrl sdp polls = txConvert pageSize shp n (i + 1) ctrl₂ sdp₂ polls₁ := by
  have hs₁ : At k sdp ctrl₁.written.length := by rw [hL.written]; exact hs
  have hcv : conversion pageSize ctrl (shp.toNat + i) 0 = conversion pageSize ctrl₁ (shp.toNat + i) 0 :=
    (conversion_looked hL _ _).symm
  rcases hp : txPacket pageSize ctrl₁ sdp (conversion pageSize ctrl (shp.toNat + i) 0).slot
    (conversion pageSize ctrl (shp.toNat + i) 0).buffer.addr with ⟨ctrl₂, sdp₂⟩
  obtain ⟨h₂, hs₂, hst₂, hsame₂, hmps₂, hconv₂⟩ := h₁.packet hs₁ hfree (hL.stream hst) (shp.toNat + i) hcv hp
  refine ⟨ctrl₂, sdp₂, ⟨h₂, hs₂, hst₂, hL.toTxSame.trans hsame₂, by rw [hmps₂, hL.mps],
    by rw [hconv₂, hL.converted], ?_⟩, fun n => ?_⟩
  · have hfr := h₁.free
    have hle := h₁.le
    rw [hL.written] at hfr
    omega
  · have hp' : txPacket pageSize ctrl₁ sdp ((shp.toNat + i) % ctrl.count.toNat)
        (ctrl.addr ((shp.toNat + i) % ctrl.count.toNat)) = (ctrl₂, sdp₂) := hp
    rw [txConvert]
    simp only [hw, hp']

/-- The loop converts all its headers, unless a poll with a kill signal ends it. -/
theorem txConvert_spec (shp : U32) : ∀ (n i : Nat) {ctrl : TxCtrl} {sdp : U32} {polls : List Poll} {d : Nat} {ctrl' : TxCtrl}
    {sdp' : U32} {killed : Bool} {rest : List Poll}, TxDescs k d f ctrl → At k sdp ctrl.written.length → TxStream ctrl →
    txConvert pageSize shp n i ctrl sdp polls = some (ctrl', sdp', killed, rest) →
    ∃ m, ConvertedTo pageSize k d f ctrl (shp.toNat + i) m ctrl' sdp' ∧ (killed = false → m = n) ∧
      (killed = true → m < n ∧ ∃ p ∈ polls, p.kill = true)
  | 0, i, ctrl, sdp, polls, d, ctrl', sdp', killed, rest, h, hs, hst, hc => by
    rw [txConvert] at hc
    cases hc
    exact ⟨0, ⟨⟨d, le_rfl, h⟩, hs, hst, TxSame.refl _, rfl, by simp⟩, fun _ => rfl, fun hk => absurd hk (by simp)⟩
  | n + 1, i, ctrl, sdp, polls, d, ctrl', sdp', killed, rest, h, hs, hst, hc => by
    rcases hw : ndpCtrlMedusaTxWaitForFreeDesc 2 ctrl polls with _ | ⟨ctrl₁, killed₁, polls₁⟩
    · rw [txConvert, hw] at hc; cases hc
    obtain ⟨d₁, hd₁, h₁, hL, hfree, hkill, hrest⟩ := TxDescs.wait polls h hw
    cases killed₁ with
    | true =>
      rw [txConvert, hw] at hc
      cases hc
      refine ⟨0, ⟨⟨d₁, hd₁, h₁⟩, by rw [hL.written]; exact hs, hL.stream hst, hL.toTxSame, hL.mps, by simp [hL.converted]⟩,
        fun hk => absurd hk (by simp), fun _ => ⟨Nat.succ_pos n, hkill rfl⟩⟩
    | false =>
      obtain ⟨ctrl₂, sdp₂, hr, hnext⟩ := txConvert_round pageSize shp i hs hst h₁ hL (hfree rfl) hw
      rw [hnext] at hc
      obtain ⟨m, hm, hall, hkilled⟩ := txConvert_spec shp n (i + 1) hr.descs hr.sdp hr.stream hc
      obtain ⟨d', hd', hD⟩ := hm.descs
      refine ⟨m + 1, ⟨⟨d', by omega, hD⟩, hm.sdp, hm.stream, hr.same.trans hm.same, ?_, ?_⟩, fun hk => by rw [hall hk],
        fun hk => ?_⟩
      · rw [hm.mps, hr.mps, mpsWalk_inc]
      · rw [hm.converted, hr.converted, List.append_assoc, List.range_succ_eq_map, List.map_cons, List.map_map]
        congr 1
        rw [List.singleton_append]
        congr 1
        refine List.map_congr_left fun j _ => ?_
        exact conversion_next hr.same hr.mps (shp.toNat + i) j
      · obtain ⟨hlt, p, hp, hpk⟩ := hkilled hk
        exact ⟨Nat.succ_lt_succ hlt, p, hrest p hp, hpk⟩

/-! ## Between calls -/

/-- A started controller between two calls: all written descriptors are flushed. -/
structure TxFlushed (k d : Nat) (ctrl : TxCtrl) : Prop where
  descs : TxDescs k d ctrl.written.length ctrl
  sdp : ctrl.c.sdp.toNat = ctrl.written.length % 2 ^ k
  stream : TxStream ctrl

theorem TxFlushed.setMem (h : TxFlushed k d ctrl) (mode : CtrlMode) (off : Nat → U64) (hdr : Nat → NcNdpHdr) :
    TxFlushed k d { ctrl with mode, off, hdr } :=
  ⟨⟨h.descs.count, h.descs.mdp, h.descs.mhp, h.descs.ring, h.descs.hdp, h.descs.reg, h.descs.le, h.descs.flushed,
    h.descs.free, h.descs.hhp⟩, h.sdp, ⟨h.stream.written, h.stream.last⟩⟩

theorem TxFlushed.getHwptr (h : TxFlushed k d ctrl) (hw : Nat) :
    TxFlushed k (d + min hw (ctrl.written.length - d)) (ndpCtrlMedusaTxGetHwptr ctrl hw).1 :=
  ⟨h.descs.getHwptr hw, h.sdp, (getHwptr_looked ctrl hw).stream h.stream⟩

/-- What publishing `n` headers does: the first `m` are converted, all of them unless a poll with a kill
signal ended the loop. -/
structure Published (pageSize : U32) (k d n : Nat) (ctrl : TxCtrl) (polls : List Poll) (m : Nat) (killed : Bool)
    (ctrl' : TxCtrl) (rest : List Poll) : Prop where
  flushed : ∃ d', d ≤ d' ∧ TxFlushed k d' ctrl'
  mode : ctrl'.mode = ctrl.mode
  blocks : ctrl'.blocks = ctrl.blocks
  mps : ctrl'.mps = mpsWalk pageSize ctrl.mps m
  converted : ctrl'.converted = ctrl.converted ++ (List.range m).map (conversion pageSize ctrl ctrl.c.shp.toNat)
  outcome : (txConvert pageSize ctrl.c.shp n 0 ctrl ctrl.c.sdp polls).map (·.2.2) = some (killed, rest)
  all : killed = false → m = n
  abort : killed = true → m < n ∧ ∃ p ∈ polls, p.kill = true

theorem TxFlushed.setSwptr (h : TxFlushed k d ctrl) {ptr : U64} {polls rest : List Poll}
    (hc : ndpCtrlMedusaTxSetSwptr pageSize ctrl ptr polls = some (ctrl', rest)) :
    ctrl'.c.shp = ptr.setWidth 32 ∧ ∃ m killed, Published pageSize k d
      ((ptr - ctrl.c.shp.setWidth 64) &&& ctrl.c.mhp.setWidth 64).toNat ctrl polls m killed ctrl' rest := by
  unfold ndpCtrlMedusaTxSetSwptr at hc
  simp only at hc
  generalize ((ptr - ctrl.c.shp.setWidth 64) &&& ctrl.c.mhp.setWidth 64).toNat = n at hc ⊢
  rcases hconv : txConvert pageSize ctrl.c.shp n 0 ctrl ctrl.c.sdp polls with _ | ⟨ctrl₁, sdp₁, killed, rest₁⟩
  · rw [hconv] at hc; cases hc
  rw [hconv] at hc
  cases hc
  obtain ⟨m, hm, hall, hkill⟩ := txConvert_spec ctrl.c.shp n 0 h.descs (at_of_mod h.sdp) h.stream hconv
  obtain ⟨d', hd', hD⟩ := hm.descs
  rw [Nat.add_zero] at hm
  have hsdp : (sdp₁ &&& ctrl₁.c.mdp).toNat = ctrl₁.written.length % 2 ^ k := hm.sdp.toNat_and hD.mdp
  refine ⟨rfl, m, killed, ⟨⟨d', hd', ⟨⟨hD.count, hD.mdp, hD.mhp, hD.ring, hD.hdp, hsdp, hD.le.trans hD.flushed, le_rfl,
    hD.free, hD.hhp⟩, hsdp, ⟨hm.stream.written, hm.stream.last⟩⟩⟩, hm.same.mode, hm.same.blocks, hm.mps, hm.converted,
    by rw [hconv]; rfl, hall, hkill⟩⟩

/-- A controller on the ring `R` in packet-simple mode: the walk has made one step for every converted
header. -/
structure TxLive (R : MpsRing) (k d : Nat) (ctrl : TxCtrl) : Prop extends TxFlushed k d ctrl where
  size : R.cfg.bufferCount.toNat = 2 ^ k
  mode : ctrl.mode = .packetSimple
  blocks : ctrl.blocks = R.blocks
  mps : ctrl.mps = R.walk ctrl.converted.length
  index : ∀ j cv, ctrl.converted[j]? = some cv → cv.index = j % 2 ^ k ∧ cv.buffer.addr = (R.walk j).addr R.blocks

variable {R : MpsRing}

theorem TxLive.setHdr (h : TxLive R k d ctrl) (hdr : Nat → NcNdpHdr) : TxLive R k d { ctrl with hdr } :=
  ⟨h.toTxFlushed.setMem ctrl.mode ctrl.off hdr, h.size, h.mode, h.blocks, h.mps, h.index⟩

theorem TxLive.getHwptr (h : TxLive R k d ctrl) (hw : Nat) :
    TxLive R k (d + min hw (ctrl.written.length - d)) (ndpCtrlMedusaTxGetHwptr ctrl hw).1 :=
  ⟨h.toTxFlushed.getHwptr hw, h.size, h.mode, h.blocks, h.mps, h.index⟩

theorem TxLive.conversion (h : TxLive R k d ctrl) (shp j : Nat) :
    (conversion R.pageSize ctrl shp j).index = (ctrl.converted.length + j) % 2 ^ k ∧
      (conversion R.pageSize ctrl shp j).buffer.addr = (R.walk (ctrl.converted.length + j)).addr R.blocks ∧
      (conversion R.pageSize ctrl shp j).slot = (shp + j) % 2 ^ k := by
  have hn : 0 < R.cfg.bufferCount.toNat := by rw [h.size]; positivity
  have hw : mpsWalk R.pageSize ctrl.mps j = R.walk (ctrl.converted.length + j) := by
    rw [h.mps]; exact mpsWalk_add _ _ _
  unfold Medusa.conversion
  simp only [hw, h.mode, h.blocks, h.descs.count]
  refine ⟨?_, rfl, trivial⟩
  rw [← h.size]
  exact (mpsWalk_index hn _).2

theorem TxDescs.toNat_ptrAfter (h : TxDescs k d f ctrl) (n : Nat) :
    ((ctrl.c.shp + BitVec.ofNat 32 n) &&& ctrl.c.mhp).toNat = (ctrl.c.shp.toNat + n) % 2 ^ k :=
  (At.add h.mhp.le_width (at_toNat _) (at_ofNat h.mhp.le_width n)).toNat_and h.mhp

/-- The pointer behind `n` more headers publishes `n` of them. -/
theorem TxDescs.publish_count (h : TxDescs k d f ctrl) (hn : n < 2 ^ k) :
    ((ctrl.ptrAfter n - ctrl.c.shp.setWidth 64) &&& ctrl.c.mhp.setWidth 64).toNat = n := by
  have hk : k ≤ 32 := h.mhp.le_width
  have h64 : At k (ctrl.ptrAfter n) (ctrl.c.shp.toNat + n) := (at_of_mod (h.toNat_ptrAfter n)).setWidth (by omega)
  rw [h64.toNat_sub_and (h.mhp.setWidth (by omega)) ((at_toNat ctrl.c.shp).setWidth (by omega)) (by omega) (by omega)]
  omega

/-- Publishing keeps the walk in step with the conversions; the pointer moves behind all headers in any
case. -/
theorem TxLive.setSwptr (h : TxLive R k d ctrl) (hn : n < 2 ^ k) {polls rest : List Poll}
    (hc : ndpCtrlMedusaTxSetSwptr R.pageSize ctrl (ctrl.ptrAfter n) polls = some (ctrl', rest)) :
    ctrl'.c.shp.toNat = (ctrl.c.shp.toNat + n) % 2 ^ k ∧ (∃ d', TxLive R k d' ctrl') ∧
      ∃ m killed, Published R.pageSize k d n ctrl polls m killed ctrl' rest := by
  obtain ⟨hshp, m, killed, hp⟩ := h.toTxFlushed.setSwptr hc
  rw [h.descs.publish_count hn] at hp
  obtain ⟨d', _, hF⟩ := hp.flushed
  refine ⟨?_, ⟨d', hF, h.size, hp.mode.trans h.mode, hp.blocks.trans h.blocks, ?_, fun j cv hcv => ?_⟩, m, killed, hp⟩
  · rw [hshp, ← h.descs.toNat_ptrAfter n]
    simp [TxCtrl.ptrAfter]
  · rw [hp.mps, hp.converted, h.mps, List.length_append, List.length_map, List.length_range]
    exact mpsWalk_add _ _ _
  · rw [hp.converted] at hcv
    rcases Nat.lt_or_ge j ctrl.converted.length with hlt | hge
    · rw [List.getElem?_append_left hlt] at hcv
      exact h.index j cv hcv
    · rw [List.getElem?_append_right hge, List.getElem?_map] at hcv
      obtain ⟨i, hi, rfl⟩ := Option.map_eq_some_iff.1 hcv
      obtain ⟨_, hi'⟩ := List.getElem?_eq_some_iff.1 hi
      rw [List.getElem_range] at hi'
      obtain ⟨h1, h2, _⟩ := h.conversion ctrl.c.shp.toNat i
      rw [show j = ctrl.converted.length + i by omega]
      exact ⟨h1, h2⟩

/-! ## Start and runs -/

/-- Headers and buffers are in step: the next header slot is the walk's next buffer, and so was every
converted one. -/
structure InStep (k : Nat) (ctrl : TxCtrl) : Prop where
  shp : ctrl.c.shp.toNat = ctrl.converted.length % 2 ^ k
  slot : ∀ j cv, ctrl.converted[j]? = some cv → cv.slot = j % 2 ^ k

theorem TxLive.start {env₁ env₂ : StartEnv} (hn : 0 < R.cfg.bufferCount.toNat) (hcfg : ctrl.mps.cfg = R.cfg)
    (hblocks : ctrl.blocks = R.blocks) (hs : ndpCtrlMedusaTxStart R.pageSize env₁ env₂ ctrl = (ctrl', 0)) :
    ∃ k, TxLive R k 0 ctrl' ∧ InStep k ctrl' ∧ ctrl'.written = [] ∧ ctrl'.converted = [] ∧ ctrl'.c =
      { lastUpperAddr := noUpperAddr, mdp := R.cfg.bufferCount - 1, mhp := R.cfg.bufferCount - 1, sdp := 0, hdp := 0
        shp := 0, hhp := 0 } := by
  unfold ndpCtrlMedusaTxStart at hs
  rcases hc : ndpCtrlStart .tx env₁ env₂ ctrl.c ctrl.count ctrl.count with ⟨c, ret⟩
  rw [hc] at hs
  simp only at hs
  split at hs
  · rename_i hret
    exact absurd (Prod.mk.inj hs).2 hret
  rename_i hret
  rw [not_not.1 hret] at hc
  obtain ⟨hc', hpow⟩ := ndpCtrlStart_ok hc
  have hcnt : ctrl.count = R.cfg.bufferCount := by unfold TxCtrl.count; rw [hcfg]
  rw [hcnt] at hc' hpow hs
  obtain ⟨k, hk, hmask⟩ := pow2_of_start hn hpow
  rw [metaFirst_eq_first hcfg, mpsOffsets_first hn] at hs
  cases hs
  subst hc'
  have hfree : (R.cfg.bufferCount - 1).toNat = 2 ^ k - 1 := hmask.toNat_eq
  refine ⟨k, ⟨⟨⟨hk, hmask, hmask, HoldsLast.nil _ _, by simp, by simp, le_rfl, le_rfl, by simpa using hfree, by simp [type2Descs]⟩,
    by simp, ⟨rfl, rfl⟩⟩, hk, rfl, hblocks, rfl, fun j cv h => absurd h (by simp)⟩,
    ⟨by simp, fun j cv h => absurd h (by simp)⟩, rfl, rfl, rfl⟩

/-- No poll of the call sees a kill signal. -/
def TxAct.NoKill : TxAct → Prop
  | .setSwptr _ _ polls => ∀ p ∈ polls, p.kill = false
  | _ => True

/-- The invariant of a system attached to the ring `R`; `clean` says that no wait saw a kill signal. -/
structure TxInv (R : MpsRing) (clean : Prop) (s : TxSys) : Prop where
  cfg : s.ctrl.mps.cfg = R.cfg
  blocks : s.ctrl.blocks = R.blocks
  running : s.running = true → ∃ k d, TxLive R k d s.ctrl ∧ (clean → InStep k s.ctrl)

theorem TxLive.cfg (h : TxLive R k d ctrl) : ctrl.mps.cfg = R.cfg := by
  rw [h.mps]; exact R.walk_cfg (by rw [h.size]; positivity) _

theorem TxSys.step_start {s : TxSys} {env₁ env₂ : StartEnv}
    (hs : ndpCtrlMedusaTxStart pageSize env₁ env₂ s.ctrl = (ctrl', 0)) :
    s.step pageSize (.start env₁ env₂) = some { ctrl := ctrl', running := true } := by
  simp only [TxSys.step, hs, decide_true]

theorem start_failed {env₁ env₂ : StartEnv} {ret : Int} (hret : ret ≠ 0)
    (hs : ndpCtrlMedusaTxStart pageSize env₁ env₂ ctrl = (ctrl', ret)) :
    ctrl'.mps = ctrl.mps ∧ ctrl'.blocks = ctrl.blocks := by
  unfold ndpCtrlMedusaTxStart at hs
  rcases hc : ndpCtrlStart .tx env₁ env₂ ctrl.c ctrl.count ctrl.count with ⟨c, ret'⟩
  rw [hc] at hs
  simp only at hs
  split at hs
  · cases hs; exact ⟨rfl, rfl⟩
  · exact absurd (Prod.mk.inj hs).2.symm hret

theorem TxCtrl.freeSlots_lt (hm : IsMask ctrl.c.mhp k) : ctrl.freeSlots < 2 ^ k := hm.toNat_and_lt _

theorem InStep.setSwptr (h : TxLive R k d ctrl) (hi : InStep k ctrl) (hshp : ctrl'.c.shp.toNat = (ctrl.c.shp.toNat + n) % 2 ^ k)
    (hconv : ctrl'.converted = ctrl.converted ++ (List.range n).map (Medusa.conversion R.pageSize ctrl ctrl.c.shp.toNat)) :
    InStep k ctrl' := by
  refine ⟨?_, fun j cv hcv => ?_⟩
  · rw [hshp, hi.shp, hconv, List.length_append, List.length_map, List.length_range, Nat.mod_add_mod]
  · rw [hconv] at hcv
    rcases Nat.lt_or_ge j ctrl.converted.length with hlt | hge
    · rw [List.getElem?_append_left hlt] at hcv
      exact hi.slot j cv hcv
    · rw [List.getElem?_append_right hge, List.getElem?_map] at hcv
      obtain ⟨i, hi', rfl⟩ := Option.map_eq_some_iff.1 hcv
      obtain ⟨_, hj⟩ := List.getElem?_eq_some_iff.1 hi'
      rw [List.getElem_range] at hj
      rw [(h.conversion _ i).2.2, hi.shp, Nat.mod_add_mod]
      congr 1
      omega

theorem TxInv.step {clean : Prop} (hn : 0 < R.cfg.bufferCount.toNat) (s : TxSys) (a : TxAct) (s' : TxSys)
    (hC : clean → a.NoKill) (hI : TxInv R clean s) (hs : s.step R.pageSize a = some s') : TxInv R clean s' := by
  cases a with
  | start env₁ env₂ =>
    rcases hst : ndpCtrlMedusaTxStart R.pageSize env₁ env₂ s.ctrl with ⟨ctrl', ret⟩
    simp only [TxSys.step, hst, Option.some.injEq] at hs
    subst hs
    by_cases hret : ret = 0
    · subst hret
      obtain ⟨k, hl, hi, _⟩ := TxLive.start hn hI.cfg hI.blocks hst
      exact ⟨hl.cfg, hl.blocks, fun _ => ⟨k, 0, hl, fun _ => hi⟩⟩
    · obtain ⟨h1, h2⟩ := start_failed hret hst
      exact ⟨by rw [h1]; exact hI.cfg, h2.trans hI.blocks, fun h => absurd (of_decide_eq_true h) hret⟩
  | setSwptr hdr n polls =>
    simp only [TxSys.step] at hs
    by_cases hr : s.running = true
    · obtain ⟨k, d, hl, hi⟩ := hI.running hr
      simp only [hr, not_true_eq_false, if_false] at hs
      have hl' := hl.setHdr hdr
      have hlt : min n ({ s.ctrl with hdr } : TxCtrl).freeSlots < 2 ^ k :=
        lt_of_le_of_lt (Nat.min_le_right _ _) (TxCtrl.freeSlots_lt hl'.descs.mhp)
      split at hs
      · rename_i ctrl₁ hset
        cases hs
        obtain ⟨hshp, ⟨d', hl₁⟩, m, killed, hp⟩ := hl'.setSwptr hlt hset
        refine ⟨hl₁.cfg, hl₁.blocks, fun _ => ⟨k, d', hl₁, fun hclean => ?_⟩⟩
        -- no poll sees a kill signal, so all headers are converted
        obtain rfl : m = min n ({ s.ctrl with hdr } : TxCtrl).freeSlots := by
          cases killed with
          | false => exact hp.all rfl
          | true =>
            obtain ⟨_, p, hmem, hpk⟩ := hp.abort rfl
            exact absurd hpk (by rw [hC hclean p hmem]; simp)
        exact InStep.setSwptr hl' ⟨(hi hclean).shp, (hi hclean).slot⟩ hshp hp.converted
      · cases hs
    · simp only [hr] at hs
      cases hs
      exact hI
  | getHwptr hw =>
    simp only [TxSys.step] at hs
    by_cases hr : s.running = true
    · obtain ⟨k, d, hl, hi⟩ := hI.running hr
      rw [if_pos hr] at hs
      cases hs
      have hl' := hl.getHwptr hw
      exact ⟨hl'.cfg, hl'.blocks, fun _ => ⟨k, _, hl', fun hclean => ⟨(hi hclean).shp, (hi hclean).slot⟩⟩⟩
    · rw [if_neg hr] at hs
      cases hs
      exact hI

end NdkSw.Medusa

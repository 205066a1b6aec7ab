/-
Ownership on the RX ring of an XDP channel. The buffers put into the ring are a queue whose front is taken packet by
packet; the descriptors are another queue, longer by those of type 0, and the headers a third one. A fill may end
between a descriptor of type 0 and the data descriptor it is for, so the stream is described by what it makes of any
continuation.
-/
import NdkSw.Xdp.Rx

namespace NdkSw.Xdp

open Ndp Ring Medusa Bits

/-! ## The descriptor stream -/

/-- The stream `written` stands for `buffs`, and behind it the hardware has the upper address `last`. -/
structure Streams (written : List U64) (buffs : List (U64 × U16)) (last : U64) : Prop where
  fresh : written = [] → last = noUpperAddr
  decode : ∀ up tail, Medusa.decode up (written ++ tail) =
    buffs ++ Medusa.decode (if written = [] then up else last) tail

theorem Streams.nil : Streams [] [] noUpperAddr := ⟨fun _ => rfl, fun _ _ => rfl⟩

variable {buffs : List (U64 × U16)}

theorem Streams.desc0 {written : List U64} {last : U64} (h : Streams written buffs last) (dma : U64) :
    Streams (written ++ [ncNdpRxDesc0 dma]) buffs (ndpCtrlDescUpperAddr dma) where
  fresh := fun hc => absurd hc (by simp)
  decode := by
    intro up tail
    rw [List.append_assoc, h.decode, if_neg (show written ++ [ncNdpRxDesc0 dma] ≠ [] by simp)]
    congr 1
    show Medusa.decode _ (ncNdpRxDesc0 dma :: tail) = _
    rw [Medusa.decode, if_pos (descType_desc0 _), descUpper_desc0]

theorem Streams.desc2 {written : List U64} {dma : U64} (h : Streams written buffs (ndpCtrlDescUpperAddr dma)) (len : U16) (next : U32) :
    Streams (written ++ [ncNdpRxDesc2 dma len next]) (buffs ++ [(dma, len)]) (ndpCtrlDescUpperAddr dma) where
  fresh := fun hc => absurd hc (by simp)
  decode := by
    intro up tail
    have hne : written ≠ [] := fun hc => upperAddr_ne_noUpperAddr dma (h.fresh hc)
    have htype : descType (type2Desc dma len 0 next) = 2 := descType_type2Desc ..
    rw [List.append_assoc, h.decode, if_neg hne, if_neg (by simp), List.append_assoc]
    congr 1
    show Medusa.decode _ (type2Desc dma len 0 next :: tail) = _
    rw [Medusa.decode, if_neg (by rw [htype]; decide), if_pos htype, phys_type2Desc, len_type2Desc, upperAddr_or_phys]
    rfl

/-! ## The ring -/

/-- The address and the length that the hardware is given for a buffer. -/
def RxBuff.pair (cfg : RxConfig) (b : RxBuff) : U64 × U16 := (b.dma, cfg.frameSize.setWidth 16)

variable {cfg : RxConfig} {k D T : Nat}

/-- The queue of buffers from the `T`-th on and that of descriptors from the `D`-th on; `sdp` and `fbp` are the
pointers that the fill works with. -/
structure RxRing (cfg : RxConfig) (k D T : Nat) (ctrl : RxCtrl) (sdp fbp : U32) : Prop where
  mdp : IsMask ctrl.c.mdp k
  mbp : IsMask ctrl.mbp k
  hdp : ctrl.c.hdp.toNat = slot k D
  sdp : sdp.toNat = slot k ctrl.written.length
  descs_le : D ≤ ctrl.written.length
  descs_room : ctrl.written.length < D + 2 ^ k
  pbp : ctrl.pbp.toNat = slot k T
  fbp : fbp.toNat = slot k ctrl.placed.length
  buffs_le : T ≤ ctrl.placed.length
  buffs_room : ctrl.placed.length < T + 2 ^ k
  held : Window k T ctrl.xdpRing Eq (ctrl.placed.drop T)
  stream : Streams ctrl.written (ctrl.placed.map (RxBuff.pair cfg)) ctrl.c.lastUpperAddr
  descs : HoldsLast (2 ^ k) ctrl.desc ctrl.written

/-- What a fill does not touch. -/
structure SameRx (ctrl ctrl' : RxCtrl) : Prop where
  c : ctrl'.c = { ctrl.c with lastUpperAddr := ctrl'.c.lastUpperAddr }
  mbp : ctrl'.mbp = ctrl.mbp
  pbp : ctrl'.pbp = ctrl.pbp
  hdr : ctrl'.hdr = ctrl.hdr
  handed : ctrl'.handed = ctrl.handed

theorem SameRx.refl (ctrl : RxCtrl) : SameRx ctrl ctrl := ⟨rfl, rfl, rfl, rfl, rfl⟩

theorem SameRx.trans {a b c : RxCtrl} (h : SameRx a b) (h' : SameRx b c) : SameRx a c :=
  ⟨by rw [h'.c, h.c], h'.mbp.trans h.mbp, h'.pbp.trans h.pbp, h'.hdr.trans h.hdr, h'.handed.trans h.handed⟩

/-- A fill in progress: `free_desc` descriptors are left. -/
structure RxFilling (cfg : RxConfig) (k D T : Nat) (s : RxFill) : Prop extends RxRing cfg k D T s.ctrl s.sdp s.fbp where
  free : s.ctrl.written.length + s.freeDesc.toNat + 1 = D + 2 ^ k

variable {s s' : RxFill}

theorem toNat_sub_one {x : U32} (h : x ≠ 0) : (x - 1).toNat + 1 = x.toNat := by
  have h0 : x.toNat ≠ 0 := fun hc => h (BitVec.eq_of_toNat_eq hc)
  have := BitVec.toNat_sub_of_le (x := x) (y := 1) (BitVec.le_def.2 (by show 1 ≤ _; omega))
  rw [this]
  show x.toNat - 1 + 1 = _
  omega

theorem RxFilling.writeUpper (h : RxFilling cfg k D T s) (hfree : s.freeDesc ≠ 0) (dma : U64) :
    RxFilling cfg k D T (s.writeUpper dma) := by
  have hf := toNat_sub_one hfree
  have hfr := h.free
  have hlen : (s.writeUpper dma).ctrl.written.length = s.ctrl.written.length + 1 := List.length_append
  have hle := h.descs_le
  refine ⟨⟨h.mdp, h.mbp, h.hdp, ?_, by rw [hlen]; omega, by rw [hlen]; omega, h.pbp, h.fbp, h.buffs_le, h.buffs_room,
    h.held, h.stream.desc0 dma, ?_⟩, ?_⟩
  · rw [hlen]
    exact toNat_succ_and h.mdp h.sdp
  · have hw := h.descs.write (i := s.ctrl.written.length) rfl (d := ncNdpRxDesc0 dma)
    rw [show s.ctrl.written.length % 2 ^ k = s.sdp.toNat from h.sdp.symm] at hw
    exact hw
  · rw [hlen]
    show s.ctrl.written.length + 1 + (s.freeDesc - 1).toNat + 1 = _
    omega

theorem RxFilling.writeBuff (h : RxFilling cfg k D T s) (hfree : s.freeDesc ≠ 0) {b : RxBuff}
    (hlast : ndpCtrlDescUpperAddr b.dma = s.ctrl.c.lastUpperAddr) (hroom : s.ctrl.placed.length + 1 < T + 2 ^ k) :
    RxFilling cfg k D T (s.writeBuff cfg b) := by
  have hf := toNat_sub_one hfree
  have hfr := h.free
  have hlen : (s.writeBuff cfg b).ctrl.written.length = s.ctrl.written.length + 1 := List.length_append
  have hplaced : (s.writeBuff cfg b).ctrl.placed.length = s.ctrl.placed.length + 1 := List.length_append
  have hle := h.descs_le
  have hbl := h.buffs_le
  have hbr := h.buffs_room
  refine ⟨⟨h.mdp, h.mbp, h.hdp, ?_, by rw [hlen]; omega, by rw [hlen]; omega, h.pbp, ?_, by rw [hplaced]; omega,
    by rw [hplaced]; omega, ?_, ?_, ?_⟩, ?_⟩
  · rw [hlen]
    exact toNat_succ_and h.mdp h.sdp
  · rw [hplaced]
    exact toNat_succ_and h.mbp h.fbp
  · show Window k T (Function.update s.ctrl.xdpRing s.fbp.toNat b) Eq ((s.ctrl.placed ++ [b]).drop T)
    have hdrop : (s.ctrl.placed.drop T).length = s.ctrl.placed.length - T := List.length_drop
    have hw := h.held.push (b := b) (a := b) (by rw [hdrop]; omega) rfl
    rw [hdrop, Nat.add_sub_cancel' hbl, ← h.fbp] at hw
    rw [List.drop_append_of_le_length hbl]
    exact hw
  · show Streams (s.ctrl.written ++ [ncNdpRxDesc2 b.dma (cfg.frameSize.setWidth 16) cfg.next])
      ((s.ctrl.placed ++ [b]).map (RxBuff.pair cfg)) s.ctrl.c.lastUpperAddr
    have hs := h.stream
    rw [← hlast] at hs ⊢
    rw [List.map_append]
    exact hs.desc2 _ _
  · have hw := h.descs.write (i := s.ctrl.written.length) rfl
      (d := ncNdpRxDesc2 b.dma (cfg.frameSize.setWidth 16) cfg.next)
    rw [show s.ctrl.written.length % 2 ^ k = s.sdp.toNat from h.sdp.symm] at hw
    exact hw
  · rw [hlen]
    show s.ctrl.written.length + 1 + (s.freeDesc - 1).toNat + 1 = _
    omega

/-- What one round of a fill loop does: the buffer is in the ring, or the fill ends without it. -/
structure Placed (cfg : RxConfig) (k D T : Nat) (b : RxBuff) (s s' : RxFill) (ok : Bool) : Prop where
  filling : RxFilling cfg k D T s'
  same : SameRx s.ctrl s'.ctrl
  placed : s'.ctrl.placed = s.ctrl.placed ++ if ok then [b] else []
  allocated : s'.ctrl.allocated = s.ctrl.allocated
  returned : s'.ctrl.returned = s.ctrl.returned

theorem RxFilling.place (h : RxFilling cfg k D T s) (b : RxBuff) (hroom : s.ctrl.placed.length + 1 < T + 2 ^ k) :
    Placed cfg k D T b s (s.place cfg b).1 (s.place cfg b).2 := by
  unfold RxFill.place
  by_cases hne : ndpCtrlDescUpperAddr b.dma ≠ s.ctrl.c.lastUpperAddr
  · rw [if_pos hne]
    by_cases h0 : s.freeDesc = 0
    · rw [if_pos h0]
      exact ⟨h, SameRx.refl _, (List.append_nil _).symm, rfl, rfl⟩
    rw [if_neg h0]
    have hup := h.writeUpper h0 b.dma
    by_cases h1 : (s.writeUpper b.dma).freeDesc = 0
    · rw [if_pos h1]
      exact ⟨hup, ⟨rfl, rfl, rfl, rfl, rfl⟩, (List.append_nil _).symm, rfl, rfl⟩
    · rw [if_neg h1]
      exact ⟨hup.writeBuff h1 rfl hroom, ⟨rfl, rfl, rfl, rfl, rfl⟩, rfl, rfl, rfl⟩
  · rw [if_neg hne]
    by_cases h0 : s.freeDesc = 0
    · rw [if_pos h0]
      exact ⟨h, SameRx.refl _, (List.append_nil _).symm, rfl, rfl⟩
    · rw [if_neg h0]
      exact ⟨h.writeBuff h0 (not_not.1 hne) hroom, ⟨rfl, rfl, rfl, rfl, rfl⟩, rfl, rfl, rfl⟩

/-! ## Fills -/

theorem RxFilling.allocate (h : RxFilling cfg k D T s) (l : List RxBuff) : RxFilling cfg k D T (s.allocate l) :=
  ⟨⟨h.mdp, h.mbp, h.hdp, h.sdp, h.descs_le, h.descs_room, h.pbp, h.fbp, h.buffs_le, h.buffs_room, h.held, h.stream,
    h.descs⟩, h.free⟩

theorem RxFilling.giveBack (h : RxFilling cfg k D T s) (l : List RxBuff) : RxFilling cfg k D T (s.giveBack l) :=
  ⟨⟨h.mdp, h.mbp, h.hdp, h.sdp, h.descs_le, h.descs_room, h.pbp, h.fbp, h.buffs_le, h.buffs_room, h.held, h.stream,
    h.descs⟩, h.free⟩

/-- A fill puts the buffers `pl` into the ring and gives `ret` back to the pool. -/
structure Refilled (cfg : RxConfig) (k D T : Nat) (pl ret : List RxBuff) (s s' : RxFill) : Prop where
  filling : RxFilling cfg k D T s'
  same : SameRx s.ctrl s'.ctrl
  placed : s'.ctrl.placed = s.ctrl.placed ++ pl
  returned : s'.ctrl.returned = s.ctrl.returned ++ ret

theorem RxFilling.fillPp : ∀ (n : Nat) {s : RxFill} (pages : List RxBuff), RxFilling cfg k D T s →
    s.ctrl.placed.length + n < T + 2 ^ k →
    ∃ pl ret, Refilled cfg k D T pl ret s (fillPpLoop cfg n s pages).1 ∧
      (fillPpLoop cfg n s pages).1.ctrl.allocated = s.ctrl.allocated ++ (pl ++ ret)
  | 0, s, _, h, _ => ⟨[], [], ⟨h, SameRx.refl _, (List.append_nil _).symm, (List.append_nil _).symm⟩, (List.append_nil _).symm⟩
  | n + 1, s, [], h, _ =>
    ⟨[], [], ⟨h, SameRx.refl _, (List.append_nil _).symm, (List.append_nil _).symm⟩, (List.append_nil _).symm⟩
  | n + 1, s, page :: pages, h, hroom => by
    have hp := (h.allocate [page]).place page (show s.ctrl.placed.length + 1 < _ by omega)
    rw [fillPpLoop]
    rcases hpl : (s.allocate [page]).place cfg page with ⟨s₁, ok⟩
    rw [hpl] at hp
    replace hp : Placed cfg k D T page (s.allocate [page]) s₁ ok := hp
    have hsame : SameRx s.ctrl s₁.ctrl := ⟨hp.same.c, hp.same.mbp, hp.same.pbp, hp.same.hdr, hp.same.handed⟩
    cases ok with
    | false =>
      refine ⟨[], [page], ⟨hp.filling.giveBack [page], SameRx.trans hsame ⟨rfl, rfl, rfl, rfl, rfl⟩, hp.placed, ?_⟩,
        hp.allocated⟩
      exact congrArg (· ++ [page]) hp.returned
    | true =>
      have hlen : s₁.ctrl.placed.length = s.ctrl.placed.length + 1 := by
        rw [hp.placed]
        exact List.length_append
      obtain ⟨pl, ret, hr, ha⟩ := RxFilling.fillPp n pages hp.filling (by omega)
      refine ⟨page :: pl, ret, ⟨hr.filling, hsame.trans hr.same, ?_, ?_⟩, ?_⟩
      · rw [hr.placed, hp.placed, List.append_assoc]
        rfl
      · rw [hr.returned, hp.returned]
        rfl
      · rw [ha, hp.allocated]
        show s.ctrl.allocated ++ [page] ++ (pl ++ ret) = _
        rw [List.append_assoc]
        rfl

theorem RxFilling.fillXsk : ∀ (buffs : List RxBuff) {s : RxFill}, RxFilling cfg k D T s →
    s.ctrl.placed.length + buffs.length < T + 2 ^ k →
    ∃ pl ret, buffs = pl ++ ret ∧ Refilled cfg k D T pl ret s (fillXskLoop cfg s buffs) ∧
      (fillXskLoop cfg s buffs).ctrl.allocated = s.ctrl.allocated
  | [], s, h, _ => ⟨[], [], rfl, ⟨h, SameRx.refl _, (List.append_nil _).symm, (List.append_nil _).symm⟩, rfl⟩
  | b :: buffs, s, h, hroom => by
    rw [List.length_cons] at hroom
    have hp := h.place b (by omega)
    rw [fillXskLoop]
    rcases hpl : s.place cfg b with ⟨s₁, ok⟩
    rw [hpl] at hp
    replace hp : Placed cfg k D T b s s₁ ok := hp
    cases ok with
    | false =>
      refine ⟨[], b :: buffs, rfl, ⟨hp.filling.giveBack _, SameRx.trans hp.same ⟨rfl, rfl, rfl, rfl, rfl⟩, hp.placed, ?_⟩,
        hp.allocated⟩
      exact congrArg (· ++ (b :: buffs)) hp.returned
    | true =>
      have hlen : s₁.ctrl.placed.length = s.ctrl.placed.length + 1 := by
        rw [hp.placed]
        exact List.length_append
      obtain ⟨pl, ret, hsplit, hr, ha⟩ := RxFilling.fillXsk buffs hp.filling (by omega)
      refine ⟨b :: pl, ret, congrArg (b :: ·) hsplit, ⟨hr.filling, hp.same.trans hr.same, ?_, ?_⟩, ha.trans hp.allocated⟩
      · rw [hr.placed, hp.placed, List.append_assoc]
        rfl
      · rw [hr.returned, hp.returned]

/-- What a fill as a whole leaves of the controller. -/
structure FillDone (cfg : RxConfig) (k T : Nat) (pl ret : List RxBuff) (ctrl ctrl' : RxCtrl) : Prop where
  ring : ∃ D, RxRing cfg k D T ctrl' ctrl'.c.sdp ctrl'.fbp
  placed : ctrl'.placed = ctrl.placed ++ pl
  returned : ctrl'.returned = ctrl.returned ++ ret
  allocated : ctrl'.allocated = ctrl.allocated ++ (pl ++ ret)
  mhp : ctrl'.c.mhp = ctrl.c.mhp
  shp : ctrl'.c.shp = ctrl.c.shp
  hdr : ctrl'.hdr = ctrl.hdr
  handed : ctrl'.handed = ctrl.handed

/-- The fill reads `hdp` once. -/
theorem RxRing.setHdp {ctrl : RxCtrl} (h : RxRing cfg k D T ctrl ctrl.c.sdp ctrl.fbp) {hdp : U32}
    (hin : hdp.toNat ≤ ctrl.c.mdp.toNat)
    (hle : ((hdp - ctrl.c.hdp) &&& ctrl.c.mdp).toNat ≤ ((ctrl.c.sdp - ctrl.c.hdp) &&& ctrl.c.mdp).toNat) :
    ∃ D', RxRing cfg k D' T { ctrl with c := { ctrl.c with hdp } } ctrl.c.sdp ctrl.fbp := by
  have hdl := h.descs_le
  have hdr := h.descs_room
  have hused : ((ctrl.c.sdp - ctrl.c.hdp) &&& ctrl.c.mdp).toNat = ctrl.written.length - D := by
    refine distance_window (p := D) h.mdp ?_ h.hdp (by omega)
    rw [Nat.add_sub_cancel' hdl]
    exact h.sdp
  have hat : hdp.toNat = slot k (D + ((hdp - ctrl.c.hdp) &&& ctrl.c.mdp).toNat) := by
    refine (At.add_dist h.mdp (at_of_mod h.hdp)).toNat_eq ?_
    have := h.mdp.toNat_eq
    have : 0 < 2 ^ k := by positivity
    omega
  rw [hused] at hle
  have hdl' : D + ((hdp - ctrl.c.hdp) &&& ctrl.c.mdp).toNat ≤ ctrl.written.length := by omega
  have hdr' : ctrl.written.length < D + ((hdp - ctrl.c.hdp) &&& ctrl.c.mdp).toNat + 2 ^ k := by omega
  exact ⟨_, h.mdp, h.mbp, hat, h.sdp, hdl', hdr', h.pbp, h.fbp, h.buffs_le, h.buffs_room, h.held, h.stream, h.descs⟩

theorem RxRing.fill {ctrl : RxCtrl} (h : RxRing cfg k D T ctrl ctrl.c.sdp ctrl.fbp) {env : FillEnv}
    (hin : env.hdp.toNat ≤ ctrl.c.mdp.toNat)
    (hle : ((env.hdp - ctrl.c.hdp) &&& ctrl.c.mdp).toNat ≤ ((ctrl.c.sdp - ctrl.c.hdp) &&& ctrl.c.mdp).toNat)
    (hbatch : cfg.mode = .xsk → env.buffs.length ≤ nfbXdpCtrlPacketBurst) :
    ∃ pl ret, FillDone cfg k T pl ret ctrl (nfbXctrlRxFill cfg env ctrl).1 := by
  obtain ⟨D', h'⟩ := h.setHdp hin hle
  unfold nfbXctrlRxFill
  simp only
  split
  · exact ⟨[], [], ⟨D', h'⟩, (List.append_nil _).symm, (List.append_nil _).symm, (List.append_nil _).symm, rfl, rfl, rfl, rfl⟩
  rename_i hroom
  push Not at hroom
  have hbr := h.buffs_room
  have hbl := h.buffs_le
  have hdl : D' ≤ ctrl.written.length := h'.descs_le
  have hdr : ctrl.written.length < D' + 2 ^ k := h'.descs_room
  -- the two checks give the room for a whole burst of buffers
  have hbuffs : ctrl.freeBuffs.toNat = 2 ^ k - 1 - (ctrl.placed.length - T) := by
    refine free_window (p := T) h.mbp ?_ h.pbp (by omega)
    rw [Nat.add_sub_cancel' hbl]
    exact h.fbp
  have hdesc : (RxCtrl.freeDesc { ctrl with c := { ctrl.c with hdp := env.hdp } }).toNat =
      2 ^ k - 1 - (ctrl.written.length - D') := by
    refine free_window (p := D') h'.mdp ?_ h'.hdp (by omega)
    rw [Nat.add_sub_cancel' hdl]
    exact h'.sdp
  have hburst : 64 ≤ ctrl.freeBuffs.toNat := hroom.1
  have hfill : RxFilling cfg k D' T
      { ctrl := { ctrl with c := { ctrl.c with hdp := env.hdp } }, sdp := ctrl.c.sdp, fbp := ctrl.fbp
        freeDesc := RxCtrl.freeDesc { ctrl with c := { ctrl.c with hdp := env.hdp } } } := by
    refine ⟨h', ?_⟩
    rw [hdesc]
    show ctrl.written.length + _ + 1 = _
    omega
  cases hm : cfg.mode with
  | pp =>
    obtain ⟨pl, ret, hr, ha⟩ := hfill.fillPp nfbXdpCtrlPacketBurst env.buffs (by
      show ctrl.placed.length + 64 < _
      omega)
    have hf := hr.filling
    refine ⟨pl, ret, ⟨D', hf.mdp, hf.mbp, hf.hdp, hf.sdp, hf.descs_le, hf.descs_room, hf.pbp, hf.fbp, hf.buffs_le,
      hf.buffs_room, hf.held, hf.stream, hf.descs⟩, hr.placed, hr.returned, ha, ?_, ?_, hr.same.hdr, hr.same.handed⟩
    · exact (congrArg NcNdpCtrl.mhp hr.same.c).trans rfl
    · exact (congrArg NcNdpCtrl.shp hr.same.c).trans rfl
  | xsk =>
    have hlen : env.buffs.length ≤ 64 := hbatch hm
    obtain ⟨pl, ret, hsplit, hr, ha⟩ := (hfill.allocate env.buffs).fillXsk env.buffs (by
      show ctrl.placed.length + _ < _
      omega)
    have hf := hr.filling
    refine ⟨pl, ret, ⟨D', hf.mdp, hf.mbp, hf.hdp, hf.sdp, hf.descs_le, hf.descs_room, hf.pbp, hf.fbp, hf.buffs_le,
      hf.buffs_room, hf.held, hf.stream, hf.descs⟩, hr.placed, hr.returned, ?_, ?_, ?_, hr.same.hdr, hr.same.handed⟩
    · rw [← hsplit]
      exact ha
    · exact (congrArg NcNdpCtrl.mhp hr.same.c).trans rfl
    · exact (congrArg NcNdpCtrl.shp hr.same.c).trans rfl

end NdkSw.Xdp

/-
Where the buffers of an XDP RX channel are: each one that was allocated is in the ring, went to the packet handler as
a part of one packet, or went back to the pool. The hardware runs ahead of the software by whole packets, so the
buffers that a receive takes by the lengths in the headers are always in the ring.
-/
import NdkSw.Xdp.RxInv
import NdkSw.Xdp.TxOwn

namespace NdkSw.Xdp

open Ndp Ring Medusa

/-! ## Packets -/

/-- The buffers of `n` bytes that are needed for `len` bytes. -/
def buffCount (n len : Nat) : Nat := (len + n - 1) / n

theorem buffCount_zero {n : Nat} (hn : 0 < n) : buffCount n 0 = 0 := by
  unfold buffCount
  exact Nat.div_eq_of_lt (by omega)

theorem buffCount_more {n len : Nat} (hn : 0 < n) (h : n < len) : buffCount n len = buffCount n (len - n) + 1 := by
  unfold buffCount
  rw [show len + n - 1 = len - n + n - 1 + n by omega, Nat.add_div_right _ hn]

theorem buffCount_one {n len : Nat} (h0 : 0 < len) (h : len ≤ n) : buffCount n len = 1 := by
  unfold buffCount
  rw [Nat.div_eq_of_lt_le] <;> omega

theorem RxConfig.need_eq (cfg : RxConfig) (frameLen : U16) :
    cfg.need frameLen = max 1 (buffCount cfg.frameSize.toNat frameLen.toNat) := rfl

/-- The sum of the lengths of a packet's pieces. -/
def fragsLen (frags : List (RxBuff × U32)) : Nat := (frags.map fun f => f.2.toNat).sum

/-- A packet as it is handed up: the lengths of its buffers add up to the length in the header, and with support for
fragments it takes as many buffers as the hardware has filled. -/
structure WholePacket (cfg : RxConfig) (pkt : U16 × List (RxBuff × U32)) : Prop where
  sum : fragsLen pkt.2 = pkt.1.toNat
  nonempty : pkt.2 ≠ []
  count_le : pkt.2.length ≤ cfg.need pkt.1
  count : cfg.sg → pkt.2.length = cfg.need pkt.1

variable {cfg : RxConfig} {k D T : Nat} {ctrl : RxCtrl}

theorem toNat_sub_min {a b : U32} : (a - if a > b then b else a).toNat = a.toNat - b.toNat := by
  split
  · rename_i h
    exact BitVec.toNat_sub_of_le (BitVec.le_of_lt h)
  · rename_i h
    have : ¬b.toNat < a.toNat := h
    rw [BitVec.sub_self]
    show 0 = _
    omega

theorem toNat_min_frame {a b : U32} : (if a > b then b else a).toNat = min a.toNat b.toNat := by
  split
  · rename_i h
    have : b.toNat < a.toNat := h
    omega
  · rename_i h
    have : ¬b.toNat < a.toNat := h
    omega

/-- What the loop over the fragments returns. -/
structure FragsTaken (n k p : Nat) (l : List RxBuff) (lenRemain : U32) (r : List (RxBuff × U32) × U32) : Prop where
  buffs : r.1.map Prod.fst = l.take (buffCount n lenRemain.toNat)
  pbp : r.2.toNat = slot k (p + buffCount n lenRemain.toNat)
  sum : fragsLen r.1 = lenRemain.toNat

theorem rxFrags_spec {frameSize : U32} (hpos : 0 < frameSize.toNat) (hm : IsMask ctrl.mbp k) :
    ∀ (fuel : Nat) {lenRemain pbp : U32} {p : Nat} {l : List RxBuff}, lenRemain.toNat ≤ fuel → pbp.toNat = slot k p →
      Window k p ctrl.xdpRing Eq l → buffCount frameSize.toNat lenRemain.toNat ≤ l.length →
      FragsTaken frameSize.toNat k p l lenRemain (rxFrags frameSize ctrl fuel lenRemain pbp) := by
  intro fuel
  induction fuel with
  | zero =>
    intro lenRemain pbp p l hfuel hp _ _
    have h0 : lenRemain.toNat = 0 := by omega
    rw [rxFrags]
    refine ⟨?_, ?_, ?_⟩
    · rw [h0, buffCount_zero hpos]
      rfl
    · rw [h0, buffCount_zero hpos]
      exact hp
    · exact h0.symm
  | succ fuel ih =>
    intro lenRemain pbp p l hfuel hp hw hlen
    rw [rxFrags]
    by_cases h0 : lenRemain = 0
    · rw [if_pos h0, h0]
      refine ⟨?_, ?_, rfl⟩
      · show [] = l.take (buffCount _ 0)
        rw [buffCount_zero hpos]
        rfl
      · show _ = slot k (p + buffCount _ 0)
        rw [buffCount_zero hpos]
        exact hp
    rw [if_neg h0]
    have hne : 0 < lenRemain.toNat := Nat.pos_of_ne_zero fun hc => h0 (BitVec.eq_of_toNat_eq hc)
    -- a round takes one entry of the ring
    have hcount : buffCount frameSize.toNat lenRemain.toNat =
        buffCount frameSize.toNat (lenRemain.toNat - frameSize.toNat) + 1 := by
      rcases Nat.lt_or_ge frameSize.toNat lenRemain.toNat with hlt | hge
      · exact buffCount_more hpos hlt
      · rw [buffCount_one hne hge, Nat.sub_eq_zero_of_le hge, buffCount_zero hpos]
    cases l with
    | nil =>
      rw [hcount] at hlen
      exact absurd hlen (by simp)
    | cons b l =>
      have hsub := toNat_sub_min (a := lenRemain) (b := frameSize)
      rw [hcount, List.length_cons] at hlen
      have hfuel' : (lenRemain - if lenRemain > frameSize then frameSize else lenRemain).toNat ≤ fuel := by omega
      have ht := ih hfuel' (toNat_succ_and hm hp) hw.tail (by rw [hsub]; omega)
      simp only
      refine ⟨?_, ?_, ?_⟩
      · rw [hcount, List.take_succ_cons, ← hsub]
        show ctrl.xdpRing pbp.toNat :: _ = _
        rw [hp, hw.head]
        exact congrArg (b :: ·) ht.buffs
      · rw [hcount, ← hsub, Nat.add_comm _ 1, ← Nat.add_assoc]
        exact ht.pbp
      · show (if lenRemain > frameSize then frameSize else lenRemain).toNat + fragsLen _ = _
        rw [ht.sum, hsub, toNat_min_frame]
        omega

theorem FragsTaken.length {n p : Nat} {l : List RxBuff} {lenRemain : U32} {r : List (RxBuff × U32) × U32}
    (h : FragsTaken n k p l lenRemain r) (hlen : buffCount n lenRemain.toNat ≤ l.length) :
    r.1.length = buffCount n lenRemain.toNat := by
  have := congrArg List.length h.buffs
  rwa [List.length_map, List.length_take, min_eq_left hlen] at this

/-- The length of the head, of `len_remain` bytes. -/
def headLen (cfg : RxConfig) (lenRemain : U32) : U32 :=
  if cfg.sg ∧ lenRemain > cfg.frameSize then cfg.frameSize else lenRemain

theorem headLen_le (cfg : RxConfig) (lenRemain : U32) : headLen cfg lenRemain ≤ lenRemain := by
  unfold headLen
  split
  · rename_i h
    exact BitVec.le_of_lt h.2
  · exact BitVec.le_refl _

/-- The head and the buffers for the rest are no more than the hardware has filled, and as many with support for
fragments. -/
theorem head_count (cfg : RxConfig) (f : U16) :
    buffCount cfg.frameSize.toNat (f.setWidth 32 - headLen cfg (f.setWidth 32)).toNat + 1 ≤ cfg.need f ∧
      (cfg.sg → buffCount cfg.frameSize.toNat (f.setWidth 32 - headLen cfg (f.setWidth 32)).toNat + 1 = cfg.need f) := by
  have hf : (f.setWidth 32).toNat = f.toNat := BitVec.toNat_setWidth_of_le (by decide)
  have hpos := cfg.frameSize_pos
  have h1 : 1 ≤ cfg.need f := le_max_left ..
  unfold headLen
  split
  · rename_i h
    have hlt : cfg.frameSize.toNat < f.toNat := hf ▸ h.2
    rw [BitVec.toNat_sub_of_le (BitVec.le_of_lt h.2), hf, ← buffCount_more hpos hlt, cfg.need_eq]
    have : 1 ≤ buffCount cfg.frameSize.toNat f.toNat := by
      rw [buffCount_more hpos hlt]
      omega
    omega
  · rename_i h
    rw [BitVec.sub_self]
    show buffCount _ 0 + 1 ≤ _ ∧ (_ → buffCount _ 0 + 1 = _)
    rw [buffCount_zero hpos]
    refine ⟨h1, fun hsg => ?_⟩
    have hge : ¬cfg.frameSize.toNat < f.toNat := fun hc => h ⟨hsg, BitVec.lt_def.2 (hf.symm ▸ hc)⟩
    rw [cfg.need_eq]
    rcases Nat.eq_zero_or_pos f.toNat with h0 | h0
    · rw [h0, buffCount_zero hpos]
      rfl
    · rw [buffCount_one h0 (by omega)]
      rfl

/-- The packet that one round hands up. -/
structure PacketTaken (cfg : RxConfig) (k T : Nat) (f : U16) (l : List RxBuff) (ctrl : RxCtrl)
    (frags : List (RxBuff × U32)) (pbp : U32) : Prop where
  eq : rxPacket cfg ctrl =
    { ctrl with
      c := { ctrl.c with shp := (ctrl.c.shp + 1) &&& ctrl.c.mhp }
      pbp
      handed := ctrl.handed ++ [(f, frags)] }
  whole : WholePacket cfg (f, frags)
  buffs : frags.map Prod.fst <+: l
  pbp : pbp.toNat = slot k (T + frags.length)

theorem rxPacket_spec (cfg : RxConfig) {f : U16} {l : List RxBuff} (hm : IsMask ctrl.mbp k) (hp : ctrl.pbp.toNat = slot k T)
    (hw : Window k T ctrl.xdpRing Eq l) (hhdr : ctrl.hdr ctrl.c.shp.toNat = f) (hlen : cfg.need f ≤ l.length) :
    ∃ frags pbp, PacketTaken cfg k T f l ctrl frags pbp := by
  have h1 : 1 ≤ cfg.need f := le_max_left ..
  obtain ⟨hle, heq⟩ := head_count cfg f
  cases l with
  | nil => exact absurd hlen (by simp; omega)
  | cons b l =>
    rw [List.length_cons] at hlen
    have hcount : buffCount cfg.frameSize.toNat (f.setWidth 32 - headLen cfg (f.setWidth 32)).toNat ≤ l.length := by
      omega
    have ht := rxFrags_spec cfg.frameSize_pos hm _ le_rfl (toNat_succ_and hm hp) hw.tail hcount
    have hn := ht.length hcount
    rcases hr : rxFrags cfg.frameSize ctrl (f.setWidth 32 - headLen cfg (f.setWidth 32)).toNat
      (f.setWidth 32 - headLen cfg (f.setWidth 32)) ((ctrl.pbp + 1) &&& ctrl.mbp) with ⟨frags, pbp⟩
    rw [hr] at ht hn
    refine ⟨(b, headLen cfg (f.setWidth 32)) :: frags, pbp, ?_, ⟨?_, List.cons_ne_nil _ _, ?_, ?_⟩, ?_, ?_⟩
    · have hb : ctrl.xdpRing ctrl.pbp.toNat = b := by
        rw [hp]
        exact hw.head
      unfold headLen at hr
      unfold rxPacket
      rw [hhdr, hb]
      simp only
      rw [hr]
      rfl
    · show (headLen cfg (f.setWidth 32)).toNat + fragsLen _ = f.toNat
      have hf : (f.setWidth 32 : U32).toNat = f.toNat := BitVec.toNat_setWidth_of_le (by decide)
      have hhl : (headLen cfg (f.setWidth 32)).toNat ≤ f.toNat := hf ▸ headLen_le cfg (f.setWidth 32)
      rw [ht.sum, BitVec.toNat_sub_of_le (headLen_le cfg _), hf]
      omega
    · rw [List.length_cons, hn]
      exact hle
    · rw [List.length_cons, hn]
      exact heq
    · show b :: _ <+: _
      rw [ht.buffs, List.cons_prefix_cons]
      exact ⟨rfl, List.take_prefix _ _⟩
    · rw [List.length_cons, hn, Nat.add_comm _ 1, ← Nat.add_assoc]
      exact ht.pbp

/-! ## The invariant -/

/-- The buffers that went to the packet handler. -/
def RxCtrl.handedBuffs (ctrl : RxCtrl) : List RxBuff := ctrl.handed.flatMap fun pkt => pkt.2.map Prod.fst

/-- The packets handed up are the front of those received, and their buffers the front of those placed. -/
structure RxInv (cfg : RxConfig) (k : Nat) (w : RxWorld) : Prop where
  ring : ∃ D, RxRing cfg k D w.ctrl.handedBuffs.length w.ctrl w.ctrl.c.sdp w.ctrl.fbp
  front : w.ctrl.handedBuffs <+: w.ctrl.placed
  mhp : IsMask w.ctrl.c.mhp k
  shp : w.ctrl.c.shp.toNat = slot k w.ctrl.handed.length
  heads : w.ctrl.handed.map Prod.fst <+: w.frames
  headers : Window k w.ctrl.handed.length w.ctrl.hdr Eq (w.frames.drop w.ctrl.handed.length)
  whole : ∀ pkt ∈ w.ctrl.handed, WholePacket cfg pkt
  filled : (w.frames.map cfg.need).sum ≤ w.ctrl.placed.length
  owned : w.ctrl.allocated.Perm (w.ctrl.placed ++ w.ctrl.returned)

variable {w : RxWorld}

theorem length_flatMap_le {l : List (U16 × List (RxBuff × U32))} (h : ∀ pkt ∈ l, WholePacket cfg pkt) :
    (l.flatMap fun pkt => pkt.2.map Prod.fst).length ≤ ((l.map Prod.fst).map cfg.need).sum := by
  induction l with
  | nil => exact le_rfl
  | cons pkt l ih =>
    have hhead := (h pkt List.mem_cons_self).count_le
    have htail := ih fun q hq => h q (List.mem_cons_of_mem _ hq)
    rw [List.flatMap_cons, List.length_append, List.length_map, List.map_cons, List.map_cons, List.sum_cons]
    omega

theorem length_le_need (cfg : RxConfig) (l : List U16) : l.length ≤ (l.map cfg.need).sum := by
  induction l with
  | nil => exact le_rfl
  | cons f l ih =>
    have : 1 ≤ cfg.need f := le_max_left ..
    rw [List.length_cons, List.map_cons, List.sum_cons]
    omega

theorem RxInv.pending (h : RxInv cfg k w) : ∃ rest, w.frames = w.ctrl.handed.map Prod.fst ++ rest ∧
    Window k w.ctrl.handed.length w.ctrl.hdr Eq rest ∧
    w.ctrl.handedBuffs.length + (rest.map cfg.need).sum ≤ w.ctrl.placed.length := by
  obtain ⟨rest, hrest⟩ := h.heads
  have hdrop : w.frames.drop w.ctrl.handed.length = rest := by
    rw [← hrest, List.drop_append_of_le_length (by simp), List.drop_of_length_le (by simp), List.nil_append]
  have htaken : w.ctrl.handedBuffs.length ≤ _ := length_flatMap_le h.whole
  have hfilled := h.filled
  rw [← hrest, List.map_append, List.sum_append] at hfilled
  exact ⟨rest, hrest.symm, hdrop ▸ h.headers, by omega⟩

/-! ## Steps -/

theorem RxInv.refill (h : RxInv cfg k w) {pl ret : List RxBuff} (hf : FillDone cfg k w.ctrl.handedBuffs.length pl ret w.ctrl ctrl) :
    RxInv cfg k { w with ctrl } := by
  have hbuffs : ctrl.handedBuffs = w.ctrl.handedBuffs := congrArg (List.flatMap _) hf.handed
  constructor <;> simp only
  case ring =>
    rw [hbuffs]
    exact hf.ring
  case front =>
    rw [hbuffs, hf.placed]
    exact h.front.trans (List.prefix_append _ _)
  case mhp =>
    rw [hf.mhp]
    exact h.mhp
  case shp =>
    rw [hf.shp, hf.handed]
    exact h.shp
  case heads =>
    rw [hf.handed]
    exact h.heads
  case headers =>
    rw [hf.handed, hf.hdr]
    exact h.headers
  case whole =>
    rw [hf.handed]
    exact h.whole
  case filled =>
    rw [hf.placed, List.length_append]
    exact h.filled.trans (Nat.le_add_right _ _)
  case owned =>
    rw [hf.allocated, hf.placed, hf.returned]
    refine (h.owned.append_right _).trans ?_
    rw [List.append_assoc, List.append_assoc]
    exact (List.perm_append_comm_assoc _ _ _).append_left _

theorem RxInv.fill (h : RxInv cfg k w) {env : FillEnv} (hadm : w.Admissible cfg (.fill env)) :
    RxInv cfg k (w.step cfg (.fill env)) := by
  obtain ⟨D, hring⟩ := h.ring
  obtain ⟨pl, ret, hf⟩ := hring.fill hadm.1 hadm.2.1 hadm.2.2
  exact h.refill hf

theorem RxInv.hhp (h : RxInv cfg k w) : w.hhp.toNat = slot k w.frames.length :=
  (at_ofNat h.mhp.le_width _).toNat_and h.mhp

theorem RxInv.hardware (h : RxInv cfg k w) {frameLen : U16} (hadm : w.Admissible cfg (.hardware frameLen)) :
    RxInv cfg k (w.step cfg (.hardware frameLen)) := by
  obtain ⟨D, hring⟩ := h.ring
  obtain ⟨rest, hframes, hwin, hroom⟩ := h.pending
  have hadm : (w.frames.map cfg.need).sum + cfg.need frameLen ≤ w.ctrl.placed.length := hadm
  have hlen := length_le_need cfg rest
  have hbr := hring.buffs_room
  have hle : w.ctrl.handed.length ≤ w.frames.length := by
    have := h.heads.length_le
    rwa [List.length_map] at this
  refine ⟨⟨D, hring.mdp, hring.mbp, hring.hdp, hring.sdp, hring.descs_le, hring.descs_room, hring.pbp, hring.fbp,
    hring.buffs_le, hring.buffs_room, hring.held, hring.stream, hring.descs⟩, h.front, h.mhp, h.shp,
    h.heads.trans (List.prefix_append _ _), ?_, h.whole, ?_, h.owned⟩
  · show Window k w.ctrl.handed.length (Function.update w.ctrl.hdr w.hhp.toNat frameLen) Eq
      ((w.frames ++ [frameLen]).drop w.ctrl.handed.length)
    have hdrop : (w.frames.drop w.ctrl.handed.length).length = w.frames.length - w.ctrl.handed.length :=
      List.length_drop
    have hrest : w.frames.length = w.ctrl.handed.length + rest.length := by
      rw [hframes, List.length_append, List.length_map]
    have hpush := h.headers.push (b := frameLen) (a := frameLen) (by rw [hdrop]; omega) rfl
    rw [hdrop, Nat.add_sub_cancel' hle, ← h.hhp] at hpush
    rw [List.drop_append_of_le_length hle]
    exact hpush
  · show ((w.frames ++ [frameLen]).map cfg.need).sum ≤ _
    rw [List.map_append, List.sum_append, List.map_singleton, List.sum_singleton]
    exact hadm

/-- One packet is handed up. -/
theorem RxInv.packet (h : RxInv cfg k w) (hmore : w.ctrl.handed.length < w.frames.length) :
    RxInv cfg k { w with ctrl := rxPacket cfg w.ctrl } := by
  obtain ⟨D, hring⟩ := h.ring
  obtain ⟨rest, hframes, hwin, hroom⟩ := h.pending
  cases rest with
  | nil =>
    rw [hframes, List.append_nil, List.length_map] at hmore
    exact absurd hmore (Nat.lt_irrefl _)
  | cons f rest =>
    have hhdr : w.ctrl.hdr w.ctrl.c.shp.toNat = f := by
      rw [h.shp]
      exact hwin.head
    rw [List.map_cons, List.sum_cons] at hroom
    have hdrop : (w.ctrl.placed.drop w.ctrl.handedBuffs.length).length =
        w.ctrl.placed.length - w.ctrl.handedBuffs.length := List.length_drop
    obtain ⟨frags, pbp, ht⟩ := rxPacket_spec cfg hring.mbp hring.pbp hring.held hhdr (by omega)
    obtain ⟨after, hafter⟩ := ht.buffs
    have hhanded : (rxPacket cfg w.ctrl).handedBuffs = w.ctrl.handedBuffs ++ frags.map Prod.fst := by
      rw [ht.eq]
      unfold RxCtrl.handedBuffs
      rw [List.flatMap_append, List.flatMap_singleton]
    have hlen : (w.ctrl.handedBuffs ++ frags.map Prod.fst).length = w.ctrl.handedBuffs.length + frags.length := by
      rw [List.length_append, List.length_map]
    have hle : frags.length ≤ w.ctrl.placed.length - w.ctrl.handedBuffs.length := by
      have := congrArg List.length hafter
      rw [List.length_append, List.length_map, hdrop] at this
      omega
    have hbl := hring.buffs_le
    have hbr := hring.buffs_room
    constructor <;> simp only [hhanded, hlen] <;> rw [ht.eq]
    case ring =>
      have hheld := hring.held.drop frags.length
      rw [List.drop_drop] at hheld
      exact ⟨D, hring.mdp, hring.mbp, hring.hdp, hring.sdp, hring.descs_le, hring.descs_room, ht.pbp, hring.fbp,
        Nat.le_sub_iff_add_le' hbl |>.1 hle, by simp only; omega, hheld, hring.stream, hring.descs⟩
    case front =>
      obtain ⟨rest', hrest'⟩ := h.front
      rw [← hrest', List.drop_left] at hafter
      rw [← hrest', ← hafter, ← List.append_assoc]
      exact List.prefix_append _ _
    case mhp => exact h.mhp
    case shp =>
      rw [List.length_append, List.length_singleton]
      exact toNat_succ_and h.mhp h.shp
    case heads =>
      rw [hframes, List.map_append, List.prefix_append_right_inj]
      exact ⟨rest, rfl⟩
    case headers =>
      rw [hframes, List.length_append, List.length_singleton]
      rw [List.drop_append, List.drop_of_length_le (by simp)]
      simpa using hwin.tail
    case whole =>
      intro pkt hpkt
      rcases List.mem_append.1 hpkt with hold | hnew
      · exact h.whole pkt hold
      · rw [List.mem_singleton.1 hnew]
        exact ht.whole
    case filled => exact h.filled
    case owned => exact h.owned

theorem RxInv.loop : ∀ (n : Nat) {w : RxWorld}, RxInv cfg k w → w.ctrl.handed.length + n ≤ w.frames.length →
    RxInv cfg k { w with ctrl := rxLoop cfg n w.ctrl }
  | 0, _, h, _ => h
  | n + 1, w, h, hn => by
    have hlen : (rxPacket cfg w.ctrl).handed.length = w.ctrl.handed.length + 1 := List.length_append
    exact RxInv.loop n (h.packet (by omega)) (by simp only [hlen]; omega)

theorem RxInv.receive (h : RxInv cfg k w) (nbPkts : U16) : RxInv cfg k (w.step cfg (.receive nbPkts)) := by
  obtain ⟨D, hring⟩ := h.ring
  obtain ⟨rest, hframes, -, hroom⟩ := h.pending
  have hlen := length_le_need cfg rest
  have hbr := hring.buffs_room
  have hcount : w.frames.length = w.ctrl.handed.length + rest.length := by
    rw [hframes, List.length_append, List.length_map]
  have hdist : ((w.hhp - w.ctrl.c.shp) &&& w.ctrl.c.mhp).toNat = rest.length := by
    refine distance_window h.mhp ?_ h.shp (by omega)
    rw [← hcount]
    exact h.hhp
  have hsame : RxInv cfg k { w with ctrl := { w.ctrl with c := { w.ctrl.c with hhp := w.hhp } } } :=
    ⟨⟨D, hring.mdp, hring.mbp, hring.hdp, hring.sdp, hring.descs_le, hring.descs_room, hring.pbp, hring.fbp,
      hring.buffs_le, hring.buffs_room, hring.held, hring.stream, hring.descs⟩, h.front, h.mhp, h.shp, h.heads,
      h.headers, h.whole, h.filled, h.owned⟩
  refine hsame.loop _ ?_
  -- the count in 16 bits is at most the number of headers
  have htrunc : (((w.hhp - w.ctrl.c.shp) &&& w.ctrl.c.mhp).setWidth 16 : U16).toNat ≤ rest.length := by
    rw [BitVec.toNat_setWidth, hdist]
    exact Nat.mod_le _ _
  simp only
  rw [hcount]
  refine Nat.add_le_add_left ?_ _
  split
  · rename_i hlt
    exact (Nat.le_of_lt (BitVec.lt_def.1 hlt)).trans htrunc
  · exact htrunc

theorem RxInv.step (h : RxInv cfg k w) {a : RxAction} (hadm : w.Admissible cfg a) : RxInv cfg k (w.step cfg a) := by
  cases a with
  | fill env => exact h.fill hadm
  | receive nbPkts => exact h.receive nbPkts
  | hardware frameLen => exact h.hardware hadm

theorem RxInv.start (cfg : RxConfig) {env : StartEnv} {nbDesc : U32} (hpos : 0 < nbDesc.toNat)
    (hs : nfbXctrlStartRx env nbDesc = (ctrl, 0)) : ∃ k, RxInv cfg k ⟨ctrl, []⟩ := by
  unfold nfbXctrlStartRx at hs
  rcases hc : ncNdpCtrlStart .rx env zeroCtrl nbDesc nbDesc with ⟨c, ret⟩
  rw [hc] at hs
  obtain ⟨rfl, rfl⟩ := Prod.mk.inj hs
  obtain ⟨rfl, hpow⟩ := ncNdpCtrlStart_ok hc
  obtain ⟨k, -, hm⟩ := pow2_of_start hpos hpow
  have hslot : slot k 0 = 0 := Nat.zero_mod _
  have hroom : 0 < 0 + 2 ^ k := by positivity
  exact ⟨k, ⟨0, hm, hm, hslot.symm, hslot.symm, le_rfl, hroom, hslot.symm, hslot.symm, le_rfl, hroom, Window.nil,
    Streams.nil, HoldsLast.nil _ _⟩, List.prefix_rfl, hm, hslot.symm, List.prefix_rfl, Window.nil,
    fun _ hp => absurd hp List.not_mem_nil, le_rfl, List.Perm.refl _⟩

/-! ## Ownership -/

/-- The buffers in the ring slots from `pbp` up to `fbp`. -/
def RxCtrl.inRing (ctrl : RxCtrl) : List RxBuff :=
  (List.range ((ctrl.fbp - ctrl.pbp) &&& ctrl.mbp).toNat).map fun i =>
    ctrl.xdpRing ((ctrl.pbp + BitVec.ofNat 32 i) &&& ctrl.mbp).toNat

/-- Every buffer that was allocated is in the ring, or was handed up once, or was given back once; the ring is behind
the buffers handed up; the packets are the first ones of the hardware, in order and whole; and the descriptors stand for
the buffers in the order of the ring. -/
structure RxOwned (cfg : RxConfig) (w : RxWorld) : Prop where
  owned : w.ctrl.allocated.Perm (w.ctrl.handedBuffs ++ w.ctrl.inRing ++ w.ctrl.returned)
  order : w.ctrl.placed = w.ctrl.handedBuffs ++ w.ctrl.inRing
  heads : w.ctrl.handed.map Prod.fst <+: w.frames
  whole : ∀ pkt ∈ w.ctrl.handed, WholePacket cfg pkt
  stream : ∀ up, decode up w.ctrl.written = w.ctrl.placed.map (RxBuff.pair cfg)
  descs : HoldsLast (w.ctrl.c.mdp.toNat + 1) w.ctrl.desc w.ctrl.written

theorem RxRing.inRing_eq (h : RxRing cfg k D T ctrl ctrl.c.sdp ctrl.fbp) : ctrl.inRing = ctrl.placed.drop T := by
  have hbl := h.buffs_le
  have hbr := h.buffs_room
  have hlen : (ctrl.placed.drop T).length = ctrl.placed.length - T := List.length_drop
  have hdist : ((ctrl.fbp - ctrl.pbp) &&& ctrl.mbp).toNat = ctrl.placed.length - T := by
    refine distance_window h.mbp ?_ h.pbp (by omega)
    rw [Nat.add_sub_cancel' hbl]
    exact h.fbp
  unfold RxCtrl.inRing
  apply List.ext_getElem
  · rw [List.length_map, List.length_range, hdist, hlen]
  · intro i h1 h2
    have hat := At.add h.mbp.le_width (at_of_mod h.pbp) (at_ofNat h.mbp.le_width i)
    rw [List.getElem_map, List.getElem_range, hat.toNat_and h.mbp]
    exact h.held i _ (List.getElem?_eq_getElem h2)

theorem RxInv.rxOwned (h : RxInv cfg k w) : RxOwned cfg w := by
  obtain ⟨D, hring⟩ := h.ring
  have horder : w.ctrl.placed = w.ctrl.handedBuffs ++ w.ctrl.inRing := by
    rw [hring.inRing_eq]
    obtain ⟨rest, hrest⟩ := h.front
    rw [← hrest, List.drop_left]
  refine ⟨?_, horder, h.heads, h.whole, ?_, ?_⟩
  · rw [← horder]
    exact h.owned
  · intro up
    have := hring.stream.decode up []
    rwa [List.append_nil, decode, List.append_nil] at this
  · have hm : w.ctrl.c.mdp.toNat + 1 = 2 ^ k := hring.mdp
    rw [hm]
    exact hring.descs

/-- In every run of a started controller, with any refills and polls and hardware that fills the buffers it was given
in order, every buffer has one owner. -/
theorem rx_ownership (cfg : RxConfig) {env : StartEnv} {nbDesc : U32} {ctrl : RxCtrl} (hpos : 0 < nbDesc.toNat)
    (hs : nfbXctrlStartRx env nbDesc = (ctrl, 0)) (l : List RxAction)
    (ha : Meets (RxWorld.step cfg) (RxWorld.Admissible cfg) ⟨ctrl, []⟩ l) :
    RxOwned cfg (run (RxWorld.step cfg) ⟨ctrl, []⟩ l) := by
  obtain ⟨k, h⟩ := RxInv.start cfg hpos hs
  exact (run_inv_of (I := RxInv cfg k) (fun _ _ ha h => h.step ha) l _ ha h).rxOwned

/-- The page pool with support for fragments. -/
def fragConfig : RxConfig := { mode := .pp, sg := true, next := 1, frameSize := 3520, frameSize_pos := by decide }

/-- A fill with three pages, one of them with another upper address, then a short packet and one in two buffers, and a
poll. -/
def twoPackets : List RxAction :=
  [.fill { hdp := 0, buffs := [⟨1, 0x1000⟩, ⟨2, 0x2000⟩, ⟨3, 0x100000000000⟩] }, .hardware 100, .hardware 5000, .receive 8]

theorem rx_ownership_two_packets :
    RxOwned fragConfig (run (RxWorld.step fragConfig) ⟨(nfbXctrlStartRx plainEnv 128).1, []⟩ twoPackets) ∧
      (run (RxWorld.step fragConfig) ⟨(nfbXctrlStartRx plainEnv 128).1, []⟩ twoPackets).ctrl.handed =
        [(100, [(⟨1, 0x1000⟩, 100)]), (5000, [(⟨2, 0x2000⟩, 3520), (⟨3, 0x100000000000⟩, 1480)])] :=
  ⟨rx_ownership fragConfig (show 0 < (128 : U32).toNat by decide) (eq_of_ret (by decide)) twoPackets (by decide +kernel),
    by decide +kernel⟩

end NdkSw.Xdp

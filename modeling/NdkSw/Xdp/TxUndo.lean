/-
A transmit that fails on the TX ring of an XDP channel. The pieces mapped so far stand in slots behind `sdp`; undoing
them looks at as many slots as there are pieces, and a descriptor of type 0 takes one of these. `last_upper_addr` keeps
what the pieces have set it to. So the packet is undone as a whole exactly if none of its pieces changed it.
-/
import NdkSw.Xdp.TxOwn

namespace NdkSw.Xdp

open Ndp Ring Medusa Bits

variable {k H : Nat} {t : TxCtrl}

/-! ## What a failed transmit leaves behind -/

/-- The mappings made, in order. -/
def mapsOf (e : List TxEvent) : List (U64 × U32) :=
  e.filterMap fun | .map dma len => some (dma, len) | _ => none

/-- The mappings undone, in order. -/
def unmapsOf (e : List TxEvent) : List (U64 × U32) :=
  e.filterMap fun | .unmap dma len => some (dma, len) | _ => none

/-- The hardware, whose register holds `up`, has the upper address that the driver takes it to have. -/
def InStep (up : U64) (t : TxCtrl) : Prop := t.c.lastUpperAddr = up ∨ t.c.lastUpperAddr = noUpperAddr

/-- The descriptors from the pointer `sdp` of `t` on up to that of `t'`. -/
def TxCtrl.streamTo (t t' : TxCtrl) : List U64 :=
  (List.range ((t'.c.sdp - t.c.sdp) &&& t.c.mdp).toNat).map fun i =>
    t'.desc ((t.c.sdp + BitVec.ofNat 32 i) &&& t.c.mdp).toNat

/-- Every mapping is undone, the controller is as before, and a later packet still decodes to its addresses. -/
structure Undone (t : TxCtrl) (r : TxReturn) : Prop where
  maps : (unmapsOf r.events).Perm (mapsOf r.events)
  c : r.ctrl.c = t.c
  owed : r.ctrl.owed = t.owed
  completed : r.ctrl.completedXskTx = t.completedXskTx
  kept : ∀ n < t.used, r.ctrl.entry (t.slotAfter n) = t.entry (t.slotAfter n)
  later : ∀ up, InStep up t → ∀ ps : List TxPiece, r.ctrl.Fits ps.length →
    decode up (r.ctrl.streamTo (r.ctrl.sent ps)) = ps.map fun p => (p.dma, p.len.setWidth 16)

/-! ## The stream of a later packet -/

theorem decode_slotsOf : ∀ (ps : List TxPiece) {last up : U64}, last = up ∨ last = noUpperAddr →
    decode up ((slotsOf last ps).map Owed.desc) = ps.map fun p => (p.dma, p.len.setWidth 16)
  | [], _, _, _ => rfl
  | p :: ps, last, up, h => by
    have ih : decode (ndpCtrlDescUpperAddr p.dma) ((slotsOf (ndpCtrlDescUpperAddr p.dma) ps).map Owed.desc) =
        ps.map fun p => (p.dma, p.len.setWidth 16) := decode_slotsOf ps (Or.inl rfl)
    have hdata : decode (ndpCtrlDescUpperAddr p.dma)
        (p.desc :: (slotsOf (ndpCtrlDescUpperAddr p.dma) ps).map Owed.desc) =
        (p :: ps).map fun p => (p.dma, p.len.setWidth 16) := by
      have htype : descType p.desc = 2 := descType_type2Desc ..
      rw [decode, if_neg (by rw [htype]; decide), if_pos htype, ih]
      unfold TxPiece.desc ncNdpTxDesc2
      rw [phys_type2Desc, len_type2Desc, upperAddr_or_phys]
      rfl
    rw [slotsOf, List.map_append, List.map_cons]
    unfold TxPiece.upperSlots
    by_cases hne : ndpCtrlDescUpperAddr p.dma ≠ last
    · rw [if_pos hne]
      show decode up (ncNdpRxDesc0 p.dma :: _) = _
      rw [decode, if_pos (descType_desc0 _), descUpper_desc0]
      exact hdata
    · have heq := not_not.1 hne
      rw [if_neg hne]
      have hup : up = ndpCtrlDescUpperAddr p.dma := by
        rcases h with h | h
        · rw [← h, heq]
        · exact absurd (heq.trans h) (upperAddr_ne_noUpperAddr p.dma)
      rw [hup]
      exact hdata

/-- What a submit leaves for the hardware between the old and the new `sdp`. -/
theorem TxRing.streamTo_sent (h : TxRing k H t) {ps : List TxPiece} (hfit : t.Fits ps.length) :
    t.streamTo (t.sent ps) = (slotsOf t.c.lastUpperAddr ps).map Owed.desc := by
  obtain ⟨hf, hb⟩ := h.putAll hfit
  have hw := hf.held.drop t.owed.length
  rw [List.drop_left] at hw
  have hroom := hf.room
  have hsdp := hf.sdp
  rw [List.length_append] at hroom hsdp
  have hdist : (((t.sent ps).c.sdp - t.c.sdp) &&& t.c.mdp).toNat = (slotsOf t.c.lastUpperAddr ps).length :=
    distance_window (p := H + t.owed.length) h.mask (by rw [Nat.add_assoc]; exact hsdp) h.sdp (by omega)
  unfold TxCtrl.streamTo
  rw [hdist]
  refine List.ext_getElem? fun i => ?_
  rw [List.getElem?_map, List.getElem?_map]
  rcases Nat.lt_or_ge i (slotsOf t.c.lastUpperAddr ps).length with hi | hi
  · have hc := hw i _ (List.getElem?_eq_getElem hi)
    have hslot : ((t.c.sdp + BitVec.ofNat 32 i) &&& t.c.mdp).toNat = slot k (H + t.owed.length + i) :=
      (At.add h.mask.le_width (at_of_mod h.sdp) (at_ofNat h.mask.le_width i)).toNat_and h.mask
    rw [List.getElem?_range hi, List.getElem?_eq_getElem hi, Option.map_some, Option.map_some, hslot]
    exact congrArg some hc.desc
  · rw [List.getElem?_eq_none (by simpa using hi), List.getElem?_eq_none hi]
    rfl

/-! ## What is unmapped -/

section Unmapped

variable {type : TxBuffType} (htype : type = .skb ∨ type = .frame)

include htype

theorem unmapped_upperSlots (last : U64) (p : TxPiece) : (p.upperSlots last).flatMap (Owed.unmapped type) = [] := by
  unfold TxPiece.upperSlots Owed.unmapped
  rcases htype with rfl | rfl <;> split <;> rfl

theorem unmapped_slotsOf : ∀ (last : U64) {ps : List TxPiece}, (∀ p ∈ ps, p.kind.type = type) →
    (slotsOf last ps).flatMap (Owed.unmapped type) = ps.map fun p => .unmap p.dma p.len
  | _, [], _ => rfl
  | last, p :: ps, hps => by
    obtain ⟨hp, hrest⟩ := List.forall_mem_cons.1 hps
    rw [slotsOf, List.flatMap_append, unmapped_upperSlots htype, List.nil_append, List.flatMap_cons,
      p.unmapped_slot htype, if_pos hp, unmapped_slotsOf _ hrest]
    rfl

theorem unmapped_take_lt : ∀ (last : U64) {ps : List TxPiece}, (∀ p ∈ ps, p.kind.type = type) →
    ∀ {n : Nat}, n < (slotsOf last ps).length →
      (((slotsOf last ps).take n).flatMap (Owed.unmapped type)).length < ps.length
  | _, [], _, _, hn => absurd hn (Nat.not_lt_zero _)
  | last, p :: ps, hps, n, hn => by
    obtain ⟨hp, hrest⟩ := List.forall_mem_cons.1 hps
    rw [slotsOf, List.length_append, List.length_cons] at hn
    rw [slotsOf, List.take_append, List.flatMap_append, List.length_append, List.length_cons]
    have hup : (((p.upperSlots last).take n).flatMap (Owed.unmapped type)).length = 0 := by
      refine List.length_eq_zero_iff.2 (List.flatMap_eq_nil_iff.2 fun o ho => ?_)
      exact List.flatMap_eq_nil_iff.1 (unmapped_upperSlots htype last p) o (List.mem_of_mem_take ho)
    rw [hup, Nat.zero_add]
    cases hm : n - (p.upperSlots last).length with
    | zero => simp
    | succ m =>
      have ih := unmapped_take_lt (ndpCtrlDescUpperAddr p.dma) hrest (n := m) (by omega)
      rw [List.take_succ_cons, List.flatMap_cons, p.unmapped_slot htype, if_pos hp, List.length_append,
        List.length_singleton]
      omega

end Unmapped

theorem length_slotsOf_eq_iff (last : U64) (ps : List TxPiece) :
    (slotsOf last ps).length = ps.length ↔ ∀ p ∈ ps, ndpCtrlDescUpperAddr p.dma = last := by
  induction ps generalizing last with
  | nil => exact ⟨fun _ p hp => absurd hp List.not_mem_nil, fun _ => rfl⟩
  | cons p ps ih =>
    have hle := length_le_slotsOf (ndpCtrlDescUpperAddr p.dma) ps
    rw [slotsOf, List.length_append, List.length_cons, List.length_cons, List.forall_mem_cons]
    unfold TxPiece.upperSlots
    by_cases hne : ndpCtrlDescUpperAddr p.dma ≠ last
    · rw [if_pos hne, List.length_singleton]
      constructor
      · intro h
        omega
      · rintro ⟨h, -⟩
        exact absurd h hne
    · have heq := not_not.1 hne
      rw [if_neg hne, List.length_nil, Nat.zero_add, Nat.add_right_cancel_iff, ih, heq]
      exact ⟨fun h => ⟨rfl, h⟩, fun h => h.2⟩

theorem upperOf_eq {last : U64} : ∀ {ps : List TxPiece}, (∀ p ∈ ps, ndpCtrlDescUpperAddr p.dma = last) → upperOf last ps = last
  | [], _ => rfl
  | p :: ps, h => by
    obtain ⟨hp, hrest⟩ := List.forall_mem_cons.1 h
    rw [upperOf, hp]
    exact upperOf_eq hrest

/-! ## Undone as a whole -/

theorem mapsOf_append (e f : List TxEvent) : mapsOf (e ++ f) = mapsOf e ++ mapsOf f := List.filterMap_append

theorem unmapsOf_append (e f : List TxEvent) : unmapsOf (e ++ f) = unmapsOf e ++ unmapsOf f := List.filterMap_append

theorem mapsOf_freed {e : List TxEvent} {p : Packet} (h : e ⊆ p.freed) : mapsOf e = [] ∧ unmapsOf e = [] := by
  constructor
  · refine List.filterMap_eq_nil_iff.2 fun x hx => ?_
    obtain ⟨j, _, rfl⟩ := List.mem_map.1 (h hx)
    rfl
  · refine List.filterMap_eq_nil_iff.2 fun x hx => ?_
    obtain ⟨j, _, rfl⟩ := List.mem_map.1 (h hx)
    rfl

theorem maps_fragPieces (kind : SlotKind) (mapped : Bool) (id : Nat) : ∀ (fs : List (Option U64 × U32)) (j : Nat),
    mapsOf (mapEvents fs) = (fragPieces kind mapped id j fs).map (fun p => (p.dma, p.len)) ∧ unmapsOf (mapEvents fs) = []
  | [], _ => ⟨rfl, rfl⟩
  | (none, _) :: _, _ => ⟨rfl, rfl⟩
  | (some dma, len) :: fs, j => by
    obtain ⟨h1, h2⟩ := maps_fragPieces kind mapped id fs (j + 1)
    exact ⟨congrArg ((dma, len) :: ·) h1, h2⟩

theorem unmapsOf_map (ps : List TxPiece) :
    unmapsOf (ps.map fun p => .unmap p.dma p.len) = ps.map fun p => (p.dma, p.len) := by
  unfold unmapsOf
  rw [List.filterMap_map]
  exact congrFun List.filterMap_eq_map ps

theorem unmapped_form {type : TxBuffType} (htype : type = .skb ∨ type = .frame) (last : U64) (ps : List TxPiece) (n : Nat) :
    mapsOf (((slotsOf last ps).take n).flatMap (Owed.unmapped type)) = [] ∧
      (unmapsOf (((slotsOf last ps).take n).flatMap (Owed.unmapped type))).length ≤
        (((slotsOf last ps).take n).flatMap (Owed.unmapped type)).length := by
  constructor
  · refine List.filterMap_eq_nil_iff.2 fun e he => ?_
    obtain ⟨o, ho, he⟩ := List.mem_flatMap.1 he
    obtain ⟨p, _, rfl⟩ := unmapped_mem htype o (List.mem_of_mem_take ho) e he
    rfl
  · exact List.length_filterMap_le _ _

theorem TxRing.undone_same (h : TxRing k H t) {r : TxReturn} (hr : r.ctrl = t)
    (hev : mapsOf r.events = [] ∧ unmapsOf r.events = []) : Undone t r where
  maps := by rw [hev.1, hev.2]
  c := by rw [hr]
  owed := by rw [hr]
  completed := by rw [hr]
  kept := fun n _ => by rw [hr]
  later := by
    intro up hup ps hfit
    rw [hr] at hfit ⊢
    rw [h.streamTo_sent hfit]
    exact decode_slotsOf ps hup

/-- Pieces that are left behind `sdp` after their mappings were undone: as a whole exactly if there is no descriptor of
type 0 among them. -/
theorem TxRing.undone_iff (h : TxRing k H t) {ps : List TxPiece} (hfit : t.Fits ps.length) {type : TxBuffType}
    (htype : type = .skb ∨ type = .frame) (hps : ∀ p ∈ ps, p.kind.type = type) {r : TxReturn} (hr : r.ctrl = t.undone ps)
    (hmaps : mapsOf r.events = ps.map fun p => (p.dma, p.len))
    (hunmaps : unmapsOf r.events = unmapsOf ((t.undone ps).unmapSlots type (t.undone ps).c.sdp ps.length)) :
    Undone t r ↔ ∀ p ∈ ps, ndpCtrlDescUpperAddr p.dma = t.c.lastUpperAddr := by
  rw [h.unmapSlots hfit htype] at hunmaps
  constructor
  · intro hu
    refine (length_slotsOf_eq_iff _ _).1 ?_
    by_contra hne
    have hlt : ps.length < (slotsOf t.c.lastUpperAddr ps).length :=
      lt_of_le_of_ne (length_le_slotsOf _ _) (Ne.symm hne)
    have hfew := unmapped_take_lt htype t.c.lastUpperAddr hps hlt
    have hle := (unmapped_form htype t.c.lastUpperAddr ps ps.length).2
    have hlen := hu.maps.length_eq
    rw [hmaps, hunmaps, List.length_map] at hlen
    omega
  · intro hup
    have hlen := (length_slotsOf_eq_iff _ _).2 hup
    obtain ⟨_, hb⟩ := h.putAll hfit
    have hc : (t.undone ps).c = t.c := by rw [hb.c, upperOf_eq hup]
    have hring := h.undone hfit
    refine ⟨?_, by rw [hr, hc], by rw [hr, hb.owed], by rw [hr, hb.completed], fun n hn => ?_, fun up hin qs hq => ?_⟩
    · rw [hmaps, hunmaps, ← hlen, List.take_length, unmapped_slotsOf htype _ hps, unmapsOf_map]
    · rw [h.used] at hn
      rw [hr, h.slotAfter]
      exact hb.kept n hn
    · rw [hr] at hq ⊢
      rw [hring.streamTo_sent hq, hc]
      exact decode_slotsOf qs hin

/-! ## Both transmits -/

/-- The addresses of the fragments mapped before the first failure. -/
def mappedFrags : List (Option U64 × U32) → List U64
  | [] => []
  | (none, _) :: _ => []
  | (some dma, _) :: l => dma :: mappedFrags l

/-- The addresses mapped for a packet before the first failure. -/
def mappedAddrs (head : Option U64) (frags : List (Option U64 × U32)) : List U64 :=
  head.elim [] fun dma => dma :: mappedFrags frags

/-- None of these addresses has another upper part than the last packet. -/
def KeepsUpper (t : TxCtrl) (addrs : List U64) : Prop := ∀ a ∈ addrs, ndpCtrlDescUpperAddr a = t.c.lastUpperAddr

/-- The condition for an skb: nothing is mapped for it, or nothing that changes the upper address. -/
def Skb.Undoable (skb : Skb) (t : TxCtrl) : Prop := t.busy skb.frags ∨ KeepsUpper t (mappedAddrs skb.head skb.mapped)

/-- The condition for a frame. Those of the page pool are never mapped. -/
def XdpFrame.Undoable (f : XdpFrame) (t : TxCtrl) (pp : Bool) : Prop :=
  pp = true ∨ t.busy f.frags ∨ f.tooSmall ∨ KeepsUpper t (mappedAddrs f.head (f.mapped false))

instance (t : TxCtrl) (addrs : List U64) : Decidable (KeepsUpper t addrs) := List.decidableBAll _ addrs

instance (skb : Skb) (t : TxCtrl) : Decidable (skb.Undoable t) := inferInstanceAs (Decidable (_ ∨ _))

instance (f : XdpFrame) (t : TxCtrl) (pp : Bool) : Decidable (f.Undoable t pp) := inferInstanceAs (Decidable (_ ∨ _ ∨ _ ∨ _))

theorem map_dma_fragPieces (kind : SlotKind) (mapped : Bool) (id : Nat) : ∀ (fs : List (Option U64 × U32)) (j : Nat),
    (fragPieces kind mapped id j fs).map TxPiece.dma = mappedFrags fs
  | [], _ => rfl
  | (none, _) :: _, _ => rfl
  | (some dma, _) :: fs, j => congrArg (dma :: ·) (map_dma_fragPieces kind mapped id fs (j + 1))

theorem keepsUpper_pieces {head : TxPiece} (kind : SlotKind) (mapped : Bool) (id : Nat) (fs : List (Option U64 × U32)) :
    KeepsUpper t (head.dma :: mappedFrags fs) ↔
      ∀ p ∈ head :: fragPieces kind mapped id 1 fs, ndpCtrlDescUpperAddr p.dma = t.c.lastUpperAddr := by
  unfold KeepsUpper
  rw [← map_dma_fragPieces kind mapped id fs 1, ← List.map_cons, List.forall_mem_map]

theorem fragPieces_type {kind : SlotKind} (mapped : Bool) (id : Nat) : ∀ (j : Nat) (fs : List (Option U64 × U32)),
    ∀ p ∈ fragPieces kind mapped id j fs, p.kind.type = kind.type
  | _, [], _, hp => by cases hp
  | _, (none, _) :: _, _, hp => by cases hp
  | j, (some _, _) :: fs, p, hp => by
    rcases List.mem_cons.1 hp with rfl | hp
    · rfl
    · exact fragPieces_type mapped id (j + 1) fs p hp

theorem startXmit_undone_iff (h : TxRing k H t) (skb : Skb) (hret : (nfbXctrlStartXmit t skb).ret ≠ 0) :
    Undone t (nfbXctrlStartXmit t skb) ↔ skb.Undoable t := by
  rcases startXmit_cases t skb with ⟨hctrl, -, hev, hwhy⟩ | ⟨dma, hd, hbusy, ⟨-, hr⟩ | ⟨-, hr⟩⟩
  · -- nothing was mapped
    refine ⟨fun _ => ?_, fun _ => h.undone_same hctrl (mapsOf_freed hev)⟩
    rcases hwhy with hb | hnone
    · exact Or.inl hb
    · refine Or.inr ?_
      rw [hnone]
      exact fun a ha => absurd ha List.not_mem_nil
  · have hfit := Skb.fits hbusy dma
    obtain ⟨hm, hum⟩ := maps_fragPieces (.skb none) true skb.id skb.mapped 1
    have hpad := mapsOf_freed skb.padded_subset
    have hfreed := mapsOf_freed (List.Subset.refl skb.packet.freed)
    have hrest := (unmapped_form (Or.inl rfl : TxBuffType.skb = .skb ∨ _) t.c.lastUpperAddr (skb.pieces dma)
      (skb.pieces dma).length).1
    rw [← h.unmapSlots hfit (Or.inl rfl)] at hrest
    have hpieces : ∀ p ∈ skb.pieces dma, p.kind.type = .skb := by
      intro p hp
      rcases List.mem_cons.1 hp with rfl | hp
      · rfl
      · exact fragPieces_type true skb.id 1 skb.mapped p hp
    rw [h.undone_iff hfit (Or.inl rfl) hpieces (by rw [hr]) ?_ ?_]
    · rw [Skb.pieces, ← keepsUpper_pieces]
      unfold Skb.Undoable
      rw [hd]
      exact ⟨Or.inr, fun hc => hc.resolve_left hbusy⟩
    · rw [hr]
      simp only [mapsOf_append, hpad.1, hfreed.1, hrest, List.append_nil, List.nil_append]
      exact congrArg ((dma, skb.mapLen) :: ·) hm
    · rw [hr]
      simp only [unmapsOf_append, hpad.2, hfreed.2, List.append_nil, List.nil_append]
      rw [show unmapsOf (.map dma skb.mapLen :: mapEvents skb.mapped) = [] from hum, List.nil_append]
  · rw [hr] at hret
    exact absurd rfl hret

theorem submitFrame_undone_iff (cfg : SgConfig) (h : TxRing k H t) (f : XdpFrame) (pp : Bool)
    (hret : (nfbXctrlTxSubmitFrameNeedsLock cfg t f pp).ret ≠ 0) :
    Undone t (nfbXctrlTxSubmitFrameNeedsLock cfg t f pp) ↔ f.Undoable t pp := by
  rcases submitFrame_cases cfg t f pp with ⟨hctrl, -, hev, hwhy⟩ | ⟨dma, hd, hbusy, hsmall, ⟨hf, hr⟩ | ⟨-, hr⟩⟩
  · refine ⟨fun _ => ?_, fun _ => h.undone_same hctrl (by rw [hev]; exact ⟨rfl, rfl⟩)⟩
    cases pp with
    | true => exact Or.inl rfl
    | false =>
      refine Or.inr (hwhy.imp_right (Or.imp_right fun hnone => ?_))
      rw [show f.head = none from hnone]
      exact fun a ha => absurd ha List.not_mem_nil
  · cases pp with
    | true =>
      -- a page of the page pool has its address already
      have hsome : (f.mapped true).any (·.1.isNone) = false := by
        unfold XdpFrame.mapped
        simp
      rw [hsome] at hf
      cases hf
    | false =>
      have hd : f.head = some dma := hd
      simp only [Bool.false_eq_true, if_false] at hr
      have hfit := XdpFrame.fits cfg false hbusy dma
      obtain ⟨hm, hum⟩ := maps_fragPieces (fragKind false) (!false) f.id (f.mapped false) 1
      have hrest := (unmapped_form (Or.inr rfl : TxBuffType.frame = .skb ∨ _) t.c.lastUpperAddr (f.pieces cfg false dma)
        (f.pieces cfg false dma).length).1
      rw [← h.unmapSlots hfit (Or.inr rfl)] at hrest
      have hpieces : ∀ p ∈ f.pieces cfg false dma, p.kind.type = .frame := by
        intro p hp
        rcases List.mem_cons.1 hp with rfl | hp
        · rfl
        · exact fragPieces_type (!false) f.id 1 (f.mapped false) p hp
      rw [h.undone_iff hfit (Or.inr rfl) hpieces (by rw [hr]) ?_ ?_]
      · rw [XdpFrame.pieces, ← keepsUpper_pieces]
        unfold XdpFrame.Undoable
        rw [hd]
        constructor
        · intro hk
          exact Or.inr (Or.inr (Or.inr hk))
        · rintro (hc | hc | hc | hc)
          · cases hc
          · exact absurd hc hbusy
          · exact absurd hc hsmall
          · exact hc
      · rw [hr, mapsOf_append, hrest, List.append_nil]
        exact congrArg ((dma, f.mapLen) :: ·) hm
      · rw [hr, unmapsOf_append, show unmapsOf (.map dma f.mapLen :: mapEvents (f.mapped false)) = [] from hum,
          List.nil_append]
  · rw [hr] at hret
    exact absurd rfl hret

/-- In every state that a started controller reaches, a transmit that fails is undone as a whole exactly under the
condition. -/
theorem failed_xmit_undone_iff (cfg : SgConfig) {mode : XdpMode} {env : StartEnv} {nbDesc : U32} (hpos : 0 < nbDesc.toNat)
    {t₀ : TxCtrl} (hs : nfbXctrlStartTx mode env nbDesc = (t₀, 0)) {l : List TxAction}
    (ha : MeetsM (txStep cfg) Admissible t₀ l) (hrun : runM (txStep cfg) t₀ l = some t) :
    (∀ skb, (nfbXctrlStartXmit t skb).ret ≠ 0 → (Undone t (nfbXctrlStartXmit t skb) ↔ skb.Undoable t)) ∧
      ∀ f pp, (nfbXctrlTxSubmitFrameNeedsLock cfg t f pp).ret ≠ 0 →
        (Undone t (nfbXctrlTxSubmitFrameNeedsLock cfg t f pp) ↔ f.Undoable t pp) := by
  obtain ⟨k, h₀⟩ := TxOwned.start hpos hs
  obtain ⟨H, h⟩ : ∃ H, TxRing k H t := by
    refine runM_inv_of (I := fun t => ∃ H, TxRing k H t) ?_ l l t₀ t (List.prefix_refl l) ha ⟨0, h₀.toTxRing⟩ hrun
    rintro t a t' ha ⟨H, h⟩ ht
    obtain ⟨r, H', hr, hring, _⟩ := h.act cfg ha
    rw [txStep, hr] at ht
    cases ht
    exact ⟨H', hring⟩
  exact ⟨fun skb => startXmit_undone_iff h skb, fun f pp => submitFrame_undone_iff cfg h f pp⟩

/-- An skb whose second fragment cannot be mapped. -/
def failingSkb (addr : U64) : Skb :=
  { id := 3, len := 300, headlen := 100, padto := true, head := some addr,
    frags := ⟨[{ map := some (addr + 0x1000), page := 0, size := 100 }, { map := none, page := 0, size := 100 }], by simp⟩ }

def plainSkb (addr : U64) : Skb :=
  { id := 4, len := 100, headlen := 100, padto := true, head := some addr, frags := ⟨[], by simp⟩ }

def sentOne : TxCtrl := (nfbXctrlStartXmit (nfbXctrlStartTx .pp plainEnv 16).1 (plainSkb 0x1000)).ctrl

/-- A packet with the same upper address is undone. -/
theorem failed_xmit_undone_same_upper :
    (nfbXctrlStartXmit sentOne (failingSkb 0x8000)).ret ≠ 0 ∧ Undone sentOne (nfbXctrlStartXmit sentOne (failingSkb 0x8000)) := by
  have hrun : runM (txStep ⟨true, true⟩) (nfbXctrlStartTx .pp plainEnv 16).1 [.startXmit (plainSkb 0x1000)] = some sentOne :=
    rfl
  have hret : (nfbXctrlStartXmit sentOne (failingSkb 0x8000)).ret ≠ 0 := by decide +kernel
  have hs : nfbXctrlStartTx .pp plainEnv 16 = ((nfbXctrlStartTx .pp plainEnv 16).1, 0) := eq_of_ret (by decide)
  have ha : MeetsM (txStep ⟨true, true⟩) Admissible (nfbXctrlStartTx .pp plainEnv 16).1 [.startXmit (plainSkb 0x1000)] := by
    decide +kernel
  have h := (failed_xmit_undone_iff ⟨true, true⟩ (by decide) hs ha hrun).1
  exact ⟨hret, (h (failingSkb 0x8000) hret).2 (by decide +kernel)⟩

/-- The result for a packet with another upper address. -/
def leftBehind : TxReturn := nfbXctrlStartXmit sentOne (failingSkb 0x100000000)

/-- It leaves the mapping of its first fragment behind, and the packet that follows is read from the wrong address. -/
theorem failed_xmit_left_behind :
    (leftBehind.ret ≠ 0 ∧ ¬ Undone sentOne leftBehind ∧
      mapsOf leftBehind.events = [(0x100000000, 100), (0x100001000, 100)] ∧
      unmapsOf leftBehind.events = [(0x100000000, 100)]) ∧
    InStep 0 sentOne ∧ (nfbXctrlStartXmit leftBehind.ctrl (plainSkb 0x100002000)).ret = 0 ∧
      decode 0 (leftBehind.ctrl.streamTo (nfbXctrlStartXmit leftBehind.ctrl (plainSkb 0x100002000)).ctrl) =
        [(0x2000, 100)] := by
  have hmaps : mapsOf leftBehind.events = [(0x100000000, 100), (0x100001000, 100)] := by decide +kernel
  have hunmaps : unmapsOf leftBehind.events = [(0x100000000, 100)] := by decide +kernel
  refine ⟨⟨by decide +kernel, fun h => ?_, hmaps, hunmaps⟩, Or.inl (by decide +kernel), by decide +kernel, ?_⟩
  · have hlen := h.maps.length_eq
    rw [hmaps, hunmaps] at hlen
    cases hlen
  · have hstream : leftBehind.ctrl.streamTo (nfbXctrlStartXmit leftBehind.ctrl (plainSkb 0x100002000)).ctrl =
        [ncNdpTxDesc2 0x100002000 100 0 0] := by decide +kernel
    rw [hstream]
    decide +kernel

end NdkSw.Xdp

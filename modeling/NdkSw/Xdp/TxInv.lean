/-
Ownership on the TX ring of an XDP channel. The slots between `hdp` and `sdp` are a queue: every producer appends its
pieces to it, the reclaim takes slots from its front. The slots are kept, valid and counted in every run. What a
reclaim releases is what the slots it passes were given for, unless the hardware has stopped inside a packet: the head
of an skb or of a frame releases the memory of its fragments as well.
-/
import NdkSw.Xdp.Tx
import NdkSw.Ring.Run

namespace NdkSw.Xdp

open Ndp Ring Medusa

variable {k H : Nat} {t t' : TxCtrl} {sdp : U32} {l : List Owed} {p : TxPiece} {ps : List TxPiece}

/-! ## The queue of slots -/

/-- The contents of a slot. -/
def TxCtrl.entry (t : TxCtrl) (s : Nat) : U64 × XctrlTxBuffer := (t.desc s, t.buffers s)

/-- The slot has the descriptor it stands for, and the reclaim makes of its entry what it stands for. -/
structure Carries (e : U64 × XctrlTxBuffer) (o : Owed) : Prop where
  desc : e.1 = o.desc
  type : e.2.type = o.type
  release : e.2.release = some o.gives

/-- The slot of a packet of the AF_XDP socket. -/
def Owed.xsk (o : Owed) : Bool := o.type = .xsk

/-- The slots from position `H`, where `hdp` is, up to the pointer `sdp` are the queue `l`. -/
structure Filled (k H : Nat) (t : TxCtrl) (sdp : U32) (l : List Owed) : Prop where
  mask : IsMask t.c.mdp k
  hdp : t.c.hdp.toNat = slot k H
  sdp : sdp.toNat = slot k (H + l.length)
  room : l.length < 2 ^ k
  held : Window k H t.entry Carries l

/-- What putting pieces behind `n` slots changes: the upper address, and slots behind these. -/
structure PutBehind (k H n : Nat) (last : U64) (t t' : TxCtrl) : Prop where
  c : t'.c = { t.c with lastUpperAddr := last }
  mode : t'.mode = t.mode
  completed : t'.completedXskTx = t.completedXskTx
  owed : t'.owed = t.owed
  kept : ∀ i < n, t'.entry (slot k (H + i)) = t.entry (slot k (H + i))

theorem PutBehind.refl (n : Nat) : PutBehind k H n t.c.lastUpperAddr t t := ⟨rfl, rfl, rfl, rfl, fun _ _ => rfl⟩

theorem PutBehind.trans {n m : Nat} {a b : U64} {t₁ t₂ t₃ : TxCtrl} (h : PutBehind k H n a t₁ t₂)
    (h' : PutBehind k H m b t₂ t₃) (hnm : n ≤ m) : PutBehind k H n b t₁ t₃ := by
  refine ⟨?_, h'.mode.trans h.mode, h'.completed.trans h.completed, h'.owed.trans h.owed, fun i hi => ?_⟩
  · rw [h'.c, h.c]
  · rw [h'.kept i (by omega), h.kept i hi]

theorem entry_write (t : TxCtrl) (sdp : U32) (d : U64) (b : XctrlTxBuffer) :
    (t.write sdp d b).1.entry = Function.update t.entry sdp.toNat (d, b) := by
  funext s
  unfold TxCtrl.entry TxCtrl.write
  by_cases hs : s = sdp.toNat
  · subst hs; simp
  · simp [hs]

theorem Filled.write (h : Filled k H t sdp l) (hroom : l.length + 1 < 2 ^ k) {d : U64} {b : XctrlTxBuffer} {o : Owed}
    (hb : Carries (d, b) o) : Filled k H (t.write sdp d b).1 (t.write sdp d b).2 (l ++ [o]) where
  mask := h.mask
  hdp := h.hdp
  sdp := by
    rw [List.length_append, List.length_singleton, ← Nat.add_assoc]
    exact toNat_succ_and h.mask h.sdp
  room := by rw [List.length_append, List.length_singleton]; exact hroom
  held := by
    rw [entry_write, h.sdp]
    exact h.held.push h.room hb

theorem Filled.write_behind (h : Filled k H t sdp l) (d : U64) (b : XctrlTxBuffer) :
    PutBehind k H l.length t.c.lastUpperAddr t (t.write sdp d b).1 := by
  refine ⟨rfl, rfl, rfl, rfl, fun i hi => ?_⟩
  have := h.room
  rw [entry_write, h.sdp]
  exact update_behind (by omega) (by omega)

theorem Filled.setUpper (h : Filled k H t sdp l) (last : U64) :
    Filled k H { t with c := { t.c with lastUpperAddr := last } } sdp l := ⟨h.mask, h.hdp, h.sdp, h.room, h.held⟩

theorem carries_slot (p : TxPiece) (b : XctrlTxBuffer) : Carries (p.desc, p.kind.fill p.dma p.len b) p.slot := by
  refine ⟨rfl, ?_, ?_⟩ <;> unfold TxPiece.slot <;> cases p.kind <;> rfl

theorem carries_type0 (d : U64) (b : XctrlTxBuffer) (inside : Bool) :
    Carries (d, { b with type := .descType0 }) { desc := d, type := .descType0, gives := [], owes := [], inside } :=
  ⟨rfl, rfl, rfl⟩

theorem Filled.putUpper (h : Filled k H t sdp l) (hroom : l.length + (p.upperSlots t.c.lastUpperAddr).length < 2 ^ k) :
    Filled k H (t.putUpper sdp p.dma).1 (t.putUpper sdp p.dma).2 (l ++ p.upperSlots t.c.lastUpperAddr) ∧
      PutBehind k H l.length (ndpCtrlDescUpperAddr p.dma) t (t.putUpper sdp p.dma).1 := by
  unfold TxCtrl.putUpper
  unfold TxPiece.upperSlots at hroom ⊢
  by_cases hne : ndpCtrlDescUpperAddr p.dma ≠ t.c.lastUpperAddr
  · rw [if_pos hne] at hroom ⊢
    rw [if_pos hne]
    have hup := h.setUpper (ndpCtrlDescUpperAddr p.dma)
    have hb := hup.write_behind (ncNdpTxDesc0 p.dma) { t.buffers sdp.toNat with type := .descType0 }
    exact ⟨hup.write hroom (carries_type0 ..), hb.c, hb.mode, hb.completed, hb.owed, hb.kept⟩
  · rw [if_neg hne, if_neg hne, List.append_nil, not_not.1 hne]
    exact ⟨h, PutBehind.refl _⟩

theorem Filled.put (h : Filled k H t sdp l) (p : TxPiece)
    (hroom : l.length + (p.upperSlots t.c.lastUpperAddr).length + 1 < 2 ^ k) :
    Filled k H (t.put sdp p).1 (t.put sdp p).2 (l ++ p.upperSlots t.c.lastUpperAddr ++ [p.slot]) ∧
      PutBehind k H l.length (ndpCtrlDescUpperAddr p.dma) t (t.put sdp p).1 := by
  obtain ⟨h1, hb1⟩ := h.putUpper (p := p) (by omega)
  have h2 := h1.write (by rw [List.length_append]; exact hroom)
    (carries_slot p ((t.putUpper sdp p.dma).1.buffers (t.putUpper sdp p.dma).2.toNat))
  have hb2 := h1.write_behind p.desc
    (p.kind.fill p.dma p.len ((t.putUpper sdp p.dma).1.buffers (t.putUpper sdp p.dma).2.toNat))
  rw [hb1.c] at hb2
  exact ⟨h2, hb1.trans hb2 (by rw [List.length_append]; omega)⟩

theorem TxPiece.length_upperSlots_le (last : U64) (p : TxPiece) : (p.upperSlots last).length ≤ 1 := by
  unfold TxPiece.upperSlots
  split <;> simp

theorem length_slotsOf_le : ∀ (last : U64) (ps : List TxPiece), (slotsOf last ps).length ≤ 2 * ps.length
  | _, [] => le_rfl
  | last, p :: ps => by
    have h1 := p.length_upperSlots_le last
    have h2 := length_slotsOf_le (ndpCtrlDescUpperAddr p.dma) ps
    rw [slotsOf, List.length_append, List.length_cons, List.length_cons]
    omega

/-- The upper address behind a list of pieces. -/
def upperOf (last : U64) : List TxPiece → U64
  | [] => last
  | p :: ps => upperOf (ndpCtrlDescUpperAddr p.dma) ps

theorem Filled.putAll : ∀ (ps : List TxPiece) {t : TxCtrl} {sdp : U32} {l : List Owed}, Filled k H t sdp l →
    l.length + (slotsOf t.c.lastUpperAddr ps).length < 2 ^ k →
    Filled k H (t.putAll sdp ps).1 (t.putAll sdp ps).2 (l ++ slotsOf t.c.lastUpperAddr ps) ∧
      PutBehind k H l.length (upperOf t.c.lastUpperAddr ps) t (t.putAll sdp ps).1
  | [], t, sdp, l, h, _ => by
    rw [slotsOf, List.append_nil]
    exact ⟨h, PutBehind.refl _⟩
  | p :: ps, t, sdp, l, h, hroom => by
    rw [slotsOf, List.length_append, List.length_cons] at hroom
    obtain ⟨h1, hb1⟩ := h.put p (by omega)
    have hlast : (t.put sdp p).1.c.lastUpperAddr = ndpCtrlDescUpperAddr p.dma := by rw [hb1.c]
    obtain ⟨h2, hb2⟩ := Filled.putAll ps h1 (by
      rw [hlast, List.length_append, List.length_append, List.length_singleton]; omega)
    rw [hlast] at h2 hb2
    rw [List.append_assoc, List.append_assoc] at h2
    refine ⟨h2, ?_⟩
    exact hb1.trans hb2 (by rw [List.length_append, List.length_append]; omega)

/-! ## Packets with fragments -/

theorem putFrags_eq (kind : SlotKind) (mapped : Bool) (id : Nat) :
    ∀ (fs : List (Option U64 × U32)) (t : TxCtrl) (sdp : U32) (i : Nat),
      t.putFrags kind mapped id sdp i fs =
        { ctrl := (t.putAll sdp (fragPieces kind mapped id (i + 1) fs)).1
          sdp := (t.putAll sdp (fragPieces kind mapped id (i + 1) fs)).2
          i := i + (fragPieces kind mapped id (i + 1) fs).length
          failed := fs.any (·.1.isNone) }
  | [], t, sdp, i => rfl
  | (none, _) :: _, t, sdp, i => rfl
  | (some dma, len) :: fs, t, sdp, i => by
    simp only [TxCtrl.putFrags, putFrags_eq kind mapped id fs, fragPieces, TxCtrl.putAll, List.length_cons, List.any_cons,
      Option.isNone_some, Bool.false_or]
    congr 1
    omega

theorem length_fragPieces_le (kind : SlotKind) (mapped : Bool) (id : Nat) :
    ∀ (j : Nat) (fs : List (Option U64 × U32)), (fragPieces kind mapped id j fs).length ≤ fs.length
  | _, [] => le_rfl
  | _, (none, _) :: _ => Nat.zero_le _
  | j, (some _, _) :: fs => by
    rw [fragPieces, List.length_cons, List.length_cons]
    exact Nat.succ_le_succ (length_fragPieces_le kind mapped id (j + 1) fs)

/-- The controller after pieces that stay behind `sdp`. -/
def TxCtrl.undone (t : TxCtrl) (ps : List TxPiece) : TxCtrl := (t.putAll t.c.sdp ps).1

/-- The controller after pieces that are accepted. -/
def TxCtrl.sent (t : TxCtrl) (ps : List TxPiece) : TxCtrl :=
  (t.undone ps).commit (t.putAll t.c.sdp ps).2 (slotsOf t.c.lastUpperAddr ps)

/-- What `skb_padto` frees. -/
def Skb.padded (skb : Skb) : List TxEvent := if skb.len < ethZlen ∧ ¬ skb.padto then skb.packet.freed else []

theorem Skb.padded_subset (skb : Skb) : skb.padded ⊆ skb.packet.freed := by
  unfold Skb.padded
  split
  · exact List.Subset.refl _
  · exact List.nil_subset _

theorem eBusy_ne : eBusy ≠ 0 := by decide
theorem eNoMem_ne : eNomem ≠ 0 := by decide
theorem eNotsupp_ne : eNotsupp ≠ 0 := by decide

/-- The room for all pieces of a packet. -/
def TxCtrl.Fits (t : TxCtrl) (n : Nat) : Prop := 2 * n ≤ t.freeDesc.toNat

theorem fits_of_not_busy {fs : Frags} (h : ¬ t.busy fs) : t.Fits (fs.1.length + 1) := by
  have hfs := fs.2
  have h1 : (1 : U32).toNat = 1 := rfl
  have h2 : (2 : U32).toNat = 2 := rfl
  have hneed : ((BitVec.ofNat 32 fs.1.length + 1) * 2 : U32).toNat = 2 * (fs.1.length + 1) := by
    rw [BitVec.toNat_mul, BitVec.toNat_add, BitVec.toNat_ofNat, h1, h2]
    omega
  unfold TxCtrl.Fits
  rw [← hneed]
  exact Nat.le_of_not_lt (mt BitVec.lt_def.2 h)

/-- `nfb_xctrl_start_xmit` by its outcome: dropped at once, undone, or sent. -/
theorem startXmit_cases (t : TxCtrl) (skb : Skb) :
    (nfbXctrlStartXmit t skb).ctrl = t ∧ (nfbXctrlStartXmit t skb).ret ≠ 0 ∧
        (nfbXctrlStartXmit t skb).events ⊆ skb.packet.freed ∧ (t.busy skb.frags ∨ skb.head = none) ∨
      ∃ dma, skb.head = some dma ∧ ¬ t.busy skb.frags ∧
        (skb.mapped.any (·.1.isNone) = true ∧
            nfbXctrlStartXmit t skb =
              { ctrl := t.undone (skb.pieces dma)
                events := skb.padded ++ (.map dma skb.mapLen :: mapEvents skb.mapped) ++
                  (t.undone (skb.pieces dma)).unmapSlots .skb (t.undone (skb.pieces dma)).c.sdp (skb.pieces dma).length ++
                  skb.packet.freed
                ret := eNomem } ∨
          skb.mapped.any (·.1.isNone) = false ∧
            nfbXctrlStartXmit t skb =
              { ctrl := t.sent (skb.pieces dma)
                events := skb.padded ++ (.map dma skb.mapLen :: mapEvents skb.mapped)
                ret := 0 }) := by
  unfold nfbXctrlStartXmit
  by_cases hroom : t.busy skb.frags
  · rw [if_pos hroom]
    exact Or.inl ⟨rfl, eBusy_ne, List.Subset.refl _, Or.inl hroom⟩
  rw [if_neg hroom]
  cases hd : skb.head with
  | none =>
    refine Or.inl ⟨rfl, eNoMem_ne, ?_, Or.inr rfl⟩
    exact List.append_subset.2 ⟨skb.padded_subset, List.Subset.refl _⟩
  | some dma =>
    refine Or.inr ⟨dma, rfl, hroom, ?_⟩
    simp only [putFrags_eq, Nat.zero_add]
    by_cases hf : skb.mapped.any (·.1.isNone) = true
    · refine Or.inl ⟨hf, ?_⟩
      rw [if_pos hf]
      rfl
    · refine Or.inr ⟨Bool.eq_false_of_not_eq_true hf, ?_⟩
      rw [if_neg hf]
      rfl

/-- `nfb_xctrl_tx_submit_frame_needs_lock` by its outcome. -/
theorem submitFrame_cases (cfg : SgConfig) (t : TxCtrl) (f : XdpFrame) (pp : Bool) :
    (nfbXctrlTxSubmitFrameNeedsLock cfg t f pp).ctrl = t ∧ (nfbXctrlTxSubmitFrameNeedsLock cfg t f pp).ret ≠ 0 ∧
        (nfbXctrlTxSubmitFrameNeedsLock cfg t f pp).events = [] ∧
        (t.busy f.frags ∨ f.tooSmall ∨ (if pp then some f.page else f.head) = none) ∨
      ∃ dma, (if pp then some f.page else f.head) = some dma ∧ ¬ t.busy f.frags ∧ ¬ f.tooSmall ∧
        ((f.mapped pp).any (·.1.isNone) = true ∧
            nfbXctrlTxSubmitFrameNeedsLock cfg t f pp =
              { ctrl := t.undone (f.pieces cfg pp dma)
                events := (if pp then [] else .map dma f.mapLen :: mapEvents (f.mapped pp)) ++
                  if pp then []
                  else (t.undone (f.pieces cfg pp dma)).unmapSlots .frame (t.undone (f.pieces cfg pp dma)).c.sdp
                    (f.pieces cfg pp dma).length
                ret := eNomem } ∨
          (f.mapped pp).any (·.1.isNone) = false ∧
            nfbXctrlTxSubmitFrameNeedsLock cfg t f pp =
              { ctrl := t.sent (f.pieces cfg pp dma)
                events := if pp then [] else .map dma f.mapLen :: mapEvents (f.mapped pp)
                ret := 0 }) := by
  unfold nfbXctrlTxSubmitFrameNeedsLock
  by_cases hroom : t.busy f.frags
  · rw [if_pos hroom]
    exact Or.inl ⟨rfl, eBusy_ne, rfl, Or.inl hroom⟩
  rw [if_neg hroom]
  by_cases hsmall : f.tooSmall
  · rw [if_pos hsmall]
    exact Or.inl ⟨rfl, eNotsupp_ne, rfl, Or.inr (Or.inl hsmall)⟩
  rw [if_neg hsmall]
  cases hd : (if pp then some f.page else f.head) with
  | none => exact Or.inl ⟨rfl, eNoMem_ne, rfl, Or.inr (Or.inr rfl)⟩
  | some dma =>
    refine Or.inr ⟨dma, rfl, hroom, hsmall, ?_⟩
    simp only [putFrags_eq, Nat.zero_add]
    by_cases hf : (f.mapped pp).any (·.1.isNone) = true
    · refine Or.inl ⟨hf, ?_⟩
      rw [if_pos hf]
      rfl
    · refine Or.inr ⟨Bool.eq_false_of_not_eq_true hf, ?_⟩
      rw [if_neg hf]
      rfl

/-! ## Submits -/

/-- The slots between the two pointers are what the submits gave them for. -/
structure TxRing (k H : Nat) (t : TxCtrl) : Prop extends Filled k H t t.c.sdp t.owed where
  completed : t.completedXskTx = 0
  xsk : t.mode = .pp → ∀ o ∈ t.owed, o.xsk = false

theorem TxRing.freeDesc (h : TxRing k H t) : t.freeDesc.toNat = 2 ^ k - 1 - t.owed.length :=
  free_window h.mask h.sdp h.hdp h.room

theorem TxRing.putAll (h : TxRing k H t) (hfit : t.Fits ps.length) :
    Filled k H (t.undone ps) (t.putAll t.c.sdp ps).2 (t.owed ++ slotsOf t.c.lastUpperAddr ps) ∧
      PutBehind k H t.owed.length (upperOf t.c.lastUpperAddr ps) t (t.undone ps) := by
  refine Filled.putAll ps h.toFilled ?_
  have hlen := length_slotsOf_le t.c.lastUpperAddr ps
  have hroom := h.room
  unfold TxCtrl.Fits at hfit
  rw [h.freeDesc] at hfit
  omega

/-- Pieces that stay behind `sdp` change nothing of the queue. -/
theorem TxRing.undone (h : TxRing k H t) (hfit : t.Fits ps.length) : TxRing k H (t.undone ps) := by
  obtain ⟨_, hb⟩ := h.putAll hfit
  refine ⟨⟨by rw [hb.c]; exact h.mask, by rw [hb.c]; exact h.hdp, by rw [hb.c, hb.owed]; exact h.sdp,
    by rw [hb.owed]; exact h.room, ?_⟩, by rw [hb.completed]; exact h.completed, by rw [hb.mode, hb.owed]; exact h.xsk⟩
  rw [hb.owed]
  exact h.held.congr hb.kept

theorem slotsOf_not_xsk {o : Owed} : ∀ {last : U64} {ps : List TxPiece}, (∀ p ∈ ps, p.kind ≠ .xsk) → o ∈ slotsOf last ps →
    o.xsk = false
  | _, [], _, ho => by cases ho
  | last, p :: ps, hps, ho => by
    rw [slotsOf] at ho
    rcases List.mem_append.1 ho with ho | ho
    · unfold TxPiece.upperSlots at ho
      split at ho
      · cases List.mem_singleton.1 ho; rfl
      · cases ho
    · rcases List.mem_cons.1 ho with rfl | ho
      · refine decide_eq_false fun h => hps p List.mem_cons_self ?_
        unfold TxPiece.slot SlotKind.type at h
        cases hk : p.kind <;> rw [hk] at h <;> first | rfl | cases h
      · exact slotsOf_not_xsk (fun q hq => hps q (List.mem_cons_of_mem _ hq)) ho

theorem TxRing.sent (h : TxRing k H t) (hfit : t.Fits ps.length) (hxsk : t.mode = .pp → ∀ p ∈ ps, p.kind ≠ .xsk) :
    TxRing k H (t.sent ps) := by
  obtain ⟨hf, hb⟩ := h.putAll hfit
  have howed : (t.sent ps).owed = t.owed ++ slotsOf t.c.lastUpperAddr ps := by
    show (t.undone ps).owed ++ _ = _
    rw [hb.owed]
  refine ⟨⟨hf.mask, hf.hdp, by rw [howed]; exact hf.sdp, by rw [howed]; exact hf.room, by rw [howed]; exact hf.held⟩,
    hb.completed.trans h.completed, fun hm o ho => ?_⟩
  have hmode : t.mode = .pp := hb.mode.symm.trans hm
  rw [howed] at ho
  rcases List.mem_append.1 ho with ho | ho
  · exact h.xsk hmode o ho
  · exact slotsOf_not_xsk (hxsk hmode) ho

/-- What undoing a packet unmaps for a slot it looks at. -/
def Owed.unmapped (type : TxBuffType) (o : Owed) : List TxEvent := if o.type = type then o.gives.take 1 else []

theorem unmapSlots_spec {type : TxBuffType} (htype : type = .skb ∨ type = .frame) :
    ∀ (n : Nat) {l : List Owed} {p : Nat} {sdp : U32}, IsMask t.c.mdp k → sdp.toNat = slot k p →
      Window k p t.entry Carries l → n ≤ l.length → t.unmapSlots type sdp n = (l.take n).flatMap (Owed.unmapped type)
  | 0, _, _, _, _, _, _, _ => rfl
  | n + 1, [], _, _, _, _, _, hn => absurd hn (Nat.not_succ_le_zero n)
  | n + 1, o :: l, p, sdp, hm, hs, hw, hn => by
    obtain ⟨-, ht, hrel⟩ := hw.head
    rw [← hs] at ht hrel
    rw [TxCtrl.unmapSlots, List.take_succ_cons, List.flatMap_cons,
      unmapSlots_spec htype n hm (toNat_succ_and hm hs) hw.tail (Nat.le_of_succ_le_succ hn)]
    congr 1
    unfold Owed.unmapped
    by_cases heq : o.type = type
    · have hb : (t.buffers sdp.toNat).type = type := ht.trans heq
      rw [if_pos hb, if_pos heq]
      unfold XctrlTxBuffer.release TxCtrl.entry at hrel
      rcases htype with rfl | rfl <;> simp only [hb] at hrel <;> rw [← Option.some.inj hrel] <;> rfl
    · have hb : (t.buffers sdp.toNat).type ≠ type := fun h => heq (ht.symm.trans h)
      rw [if_neg hb, if_neg heq]

theorem length_le_slotsOf : ∀ (last : U64) (ps : List TxPiece), ps.length ≤ (slotsOf last ps).length
  | _, [] => le_rfl
  | last, p :: ps => by
    have := length_le_slotsOf (ndpCtrlDescUpperAddr p.dma) ps
    rw [slotsOf, List.length_append, List.length_cons, List.length_cons]
    omega

theorem TxRing.unmapSlots (h : TxRing k H t) (hfit : t.Fits ps.length) {type : TxBuffType} (htype : type = .skb ∨ type = .frame) :
    (t.undone ps).unmapSlots type (t.undone ps).c.sdp ps.length =
      ((slotsOf t.c.lastUpperAddr ps).take ps.length).flatMap (Owed.unmapped type) := by
  obtain ⟨hf, hb⟩ := h.putAll hfit
  have hw := hf.held.drop t.owed.length
  rw [List.drop_left] at hw
  refine unmapSlots_spec htype _ hf.mask ?_ hw (length_le_slotsOf _ _)
  rw [hb.c]
  exact h.sdp

/-! ## Reclaim -/

/-- What the loop of the reclaim changes when it passes `l` from position `p` on. -/
structure Passed (k p : Nat) (l : List Owed) (t t' : TxCtrl) : Prop where
  c : t'.c = t.c
  mode : t'.mode = t.mode
  owed : t'.owed = t.owed
  completed : t'.completedXskTx = t.completedXskTx + l.countP Owed.xsk
  kept : ∀ j, l.length ≤ j → j < 2 ^ k → t'.entry (slot k (p + j)) = t.entry (slot k (p + j))

theorem txFreeLoop_spec {hdpNew : U32} : ∀ (l : List Owed) {p fuel : Nat} {i : U32} {t : TxCtrl}, IsMask t.c.mdp k →
    i.toNat = slot k p → hdpNew.toNat = slot k (p + l.length) → l.length < 2 ^ k → l.length < fuel →
    Window k p t.entry Carries l → ∃ t', txFreeLoop hdpNew fuel i t = some (t', l.flatMap Owed.gives) ∧ Passed k p l t t'
  | [], p, 0, i, t, _, _, _, _, hfuel, _ => absurd hfuel (Nat.not_lt_zero _)
  | [], p, fuel + 1, i, t, hm, hi, hnew, _, _, _ => by
    have heq : i = hdpNew := BitVec.eq_of_toNat_eq (hi.trans hnew.symm)
    refine ⟨t, ?_, rfl, rfl, rfl, rfl, fun _ _ _ => rfl⟩
    rw [txFreeLoop, if_pos heq]
    rfl
  | o :: l, p, 0, i, t, _, _, _, _, hfuel, _ => absurd hfuel (Nat.not_lt_zero _)
  | o :: l, p, fuel + 1, i, t, hm, hi, hnew, hlen, hfuel, hw => by
    rw [List.length_cons] at hnew hlen hfuel
    have hne : i ≠ hdpNew := by
      intro h
      rw [h, hnew] at hi
      exact slot_ne (k := k) (i := p) (j := p + (l.length + 1)) (by omega) (by omega) hi.symm
    have hrel : (t.buffers i.toNat).release = some o.gives := by rw [hi]; exact hw.head.release
    have hx : (t.buffers i.toNat).type = .xsk ↔ o.xsk = true := by
      rw [hi, show (t.buffers (slot k p)).type = o.type from hw.head.type]
      exact decide_eq_true_iff.symm
    -- the slot itself is marked, those behind it are not touched
    let b : XctrlTxBuffer := { t.buffers i.toNat with type := .bug }
    let t₁ : TxCtrl :=
      { t with
        completedXskTx := if (t.buffers i.toNat).type = .xsk then t.completedXskTx + 1 else t.completedXskTx
        buffers := Function.update t.buffers i.toNat b }
    have hother : ∀ j, 0 < j → j < 2 ^ k → t₁.entry (slot k (p + j)) = t.entry (slot k (p + j)) := by
      intro j h0 hj
      have hs : slot k (p + j) ≠ i.toNat := by
        rw [hi]
        exact (slot_ne (by omega) (by omega)).symm
      show (t.desc _, Function.update t.buffers i.toNat b _) = _
      rw [Function.update_of_ne hs]
      rfl
    have hw₁ : Window k (p + 1) t₁.entry Carries l := by
      refine hw.tail.congr fun j hj => ?_
      have := hother (1 + j) (by omega) (by omega)
      rwa [← Nat.add_assoc] at this
    obtain ⟨t', hrun, hp⟩ := txFreeLoop_spec l (p := p + 1) (i := (i + 1) &&& t.c.mdp) (t := t₁) hm
      (toNat_succ_and hm hi) (by rw [hnew]; congr 1; omega) (by omega) (show l.length < fuel by omega) hw₁
    refine ⟨t', ?_, hp.c, hp.mode, hp.owed, ?_, fun j hj hlt => ?_⟩
    · rw [txFreeLoop, if_neg hne]
      simp only [hrel]
      rw [show txFreeLoop hdpNew fuel ((i + 1) &&& t.c.mdp) _ = _ from hrun]
      rfl
    · rw [hp.completed, List.countP_cons]
      show (if (t.buffers i.toNat).type = .xsk then t.completedXskTx + 1 else t.completedXskTx) + _ = _
      by_cases hxsk : o.xsk = true
      · rw [if_pos (hx.2 hxsk), if_pos hxsk]; omega
      · rw [if_neg (mt hx.1 hxsk), if_neg hxsk]; omega
    · rw [List.length_cons] at hj
      have h1 := hp.kept (j - 1) (by omega) (by omega)
      rw [show p + 1 + (j - 1) = p + j by omega] at h1
      rw [h1, hother j (by omega) hlt]

/-- The number of slots that a reclaim with the hardware at `hw` passes. -/
def TxCtrl.passes (t : TxCtrl) (hw : U32) : Nat := ((hw - t.c.hdp) &&& t.c.mdp).toNat

/-- What the driver releases for a slot, an AF_XDP descriptor included. -/
def Owed.given (o : Owed) : List TxEvent := o.gives ++ if o.xsk then [.complete] else []

theorem perm_given (l : List Owed) :
    (l.flatMap Owed.gives ++ List.replicate (l.countP Owed.xsk) TxEvent.complete).Perm (l.flatMap Owed.given) := by
  induction l with
  | nil => exact List.Perm.refl _
  | cons o l ih =>
    rw [List.flatMap_cons, List.flatMap_cons, List.countP_cons]
    unfold Owed.given
    by_cases hx : o.xsk = true
    · rw [if_pos hx, if_pos hx, List.replicate_succ, List.append_assoc, List.append_assoc]
      refine List.Perm.append_left _ ?_
      exact List.perm_middle.trans (List.Perm.cons _ ih)
    · rw [if_neg hx, if_neg hx, List.append_nil, Nat.add_zero, List.append_assoc]
      exact List.Perm.append_left _ ih

/-- A reclaim takes the slots it passes from the front of the queue. -/
theorem TxRing.reclaim (h : TxRing k H t) {hw : U32} (hin : hw.toNat ≤ t.c.mdp.toNat) (hle : t.passes hw ≤ t.owed.length) :
    ∃ t', reclaim t hw = some (t', (t.owed.take (t.passes hw)).flatMap Owed.gives ++
        List.replicate ((t.owed.take (t.passes hw)).countP Owed.xsk) .complete) ∧
      TxRing k (H + t.passes hw) t' ∧ t'.owed = t.owed.drop (t.passes hw) ∧ t'.c = { t.c with hdp := hw } ∧
      ∀ j, t.passes hw ≤ j → j < 2 ^ k → t'.entry (slot k (H + j)) = t.entry (slot k (H + j)) := by
  have hmask := h.mask
  have hroom := h.room
  have hlen : (t.owed.take (t.passes hw)).length = t.passes hw := List.length_take_of_le hle
  have hhw : hw.toNat = slot k (H + t.passes hw) := by
    refine (At.add_dist hmask (at_of_mod h.hdp)).toNat_eq ?_
    have := hmask.toNat_eq
    have : 0 < 2 ^ k := by positivity
    omega
  let t₀ : TxCtrl := { t with c := { t.c with hdp := hw }, owed := t.owed.drop (t.passes hw) }
  obtain ⟨t', hrun, hp⟩ := txFreeLoop_spec (t.owed.take (t.passes hw)) (t := t₀) (i := t.c.hdp) hmask h.hdp
    (by rw [hlen]; exact hhw) (by rw [hlen]; omega) (show _ < t.c.mdp.toNat + 1 by
      rw [hlen, hmask]; omega) (by
      intro i o ho
      rw [List.getElem?_take] at ho
      split at ho
      · exact h.held i o ho
      · cases ho)
  have hkept : ∀ j, t.passes hw ≤ j → j < 2 ^ k → t'.entry (slot k (H + j)) = t.entry (slot k (H + j)) :=
    fun j hj => hp.kept j (by rw [hlen]; exact hj)
  have hfree : nfbXctrlTxFreeBuffers t false hw = some (t', (t.owed.take (t.passes hw)).flatMap Owed.gives) := hrun
  have hring : ∀ n, n = 0 → TxRing k (H + t.passes hw) { t' with completedXskTx := n } := by
    intro n hn
    refine ⟨⟨by rw [hp.c]; exact hmask, by rw [hp.c]; exact hhw, ?_, ?_, ?_⟩, hn, ?_⟩
    · rw [hp.c, hp.owed, List.length_drop]
      show t.c.sdp.toNat = _
      rw [h.sdp]
      congr 1
      omega
    · rw [hp.owed, List.length_drop]; omega
    · rw [hp.owed]
      refine (h.held.drop _).congr fun j hj => ?_
      rw [List.length_drop] at hj
      have := hkept (t.passes hw + j) (by omega) (by omega)
      rwa [← Nat.add_assoc] at this
    · rw [hp.mode, hp.owed]
      exact fun hm o ho => h.xsk hm o (List.mem_of_mem_drop ho)
  have hcompleted : t'.completedXskTx = (t.owed.take (t.passes hw)).countP Owed.xsk := by
    rw [hp.completed]
    show t.completedXskTx + _ = _
    rw [h.completed, Nat.zero_add]
  unfold Xdp.reclaim
  rw [hfree]
  cases hm : t.mode with
  | pp =>
    -- a page pool channel owes no AF_XDP frame
    have hnone : (t.owed.take (t.passes hw)).countP Owed.xsk = 0 := by
      rw [List.countP_eq_zero]
      intro o ho
      rw [h.xsk hm o (List.mem_of_mem_take ho)]
      decide
    refine ⟨t', ?_, ?_, hp.owed, hp.c, hkept⟩
    · simp only [show t'.mode = .pp from hp.mode.trans hm]
      rw [hnone, List.replicate_zero, List.append_nil]
    · have := hring t'.completedXskTx (hcompleted.trans hnone)
      exact this
  | xsk =>
    refine ⟨{ t' with completedXskTx := 0 }, ?_, hring 0 rfl, hp.owed, hp.c, hkept⟩
    simp only [show t'.mode = .xsk from hp.mode.trans hm]
    rw [hcompleted]

end NdkSw.Xdp

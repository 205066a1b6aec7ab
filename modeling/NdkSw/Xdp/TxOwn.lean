/-
The TX ring of an XDP channel over whole runs: any order of submits, polls and reclaims, with the hardware anywhere
between the two pointers. A reclaim is exact wherever it stops behind a whole packet; an skb or a frame with fragments
is a packet of several slots, everything else has one slot each.
-/
import NdkSw.Xdp.TxInv

namespace NdkSw.Xdp

open Ndp Ring Medusa

/-! ## Where a reclaim is exact -/

section Exact

variable {l m : List Owed} {o : Owed} {n : Nat}

/-- The first `n` slots end with a packet. -/
def Boundary (l : List Owed) (n : Nat) : Prop := n = 0 ∨ l[n - 1]?.elim false Owed.inside = false

instance (l : List Owed) (n : Nat) : Decidable (Boundary l n) := inferInstanceAs (Decidable (_ ∨ _))

/-- The driver releases for these slots what was accepted with them. -/
def Even (l : List Owed) : Prop := (l.flatMap Owed.given).Perm (l.flatMap Owed.owes)

/-- Every whole number of packets at the front is even. -/
def Exact (l : List Owed) : Prop := ∀ n ≤ l.length, Boundary l n → Even (l.take n)

/-- The last packet is there as a whole. -/
def Closed (l : List Owed) : Prop := Boundary l l.length

theorem Even.nil : Even [] := List.Perm.refl _

theorem Even.append (hl : Even l) (hm : Even m) : Even (l ++ m) := by
  unfold Even
  rw [List.flatMap_append, List.flatMap_append]
  exact List.Perm.append hl hm

theorem Even.of_append (hl : Even l) (h : Even (l ++ m)) : Even m := by
  unfold Even at h
  rw [List.flatMap_append, List.flatMap_append] at h
  exact (List.perm_append_left_iff _).1 (h.trans (List.Perm.append_right _ (List.Perm.symm hl)))

theorem exact_nil : Exact [] := by
  intro n _ _
  rw [List.take_nil]
  exact Even.nil

theorem closed_nil : Closed [] := Or.inl rfl

theorem Exact.all (h : Exact l) (hc : Closed l) : Even l := by
  have := h l.length le_rfl hc
  rwa [List.take_length] at this

theorem boundary_append_right (h0 : 0 < n) : Boundary (l ++ m) (l.length + n) ↔ Boundary m n := by
  unfold Boundary
  rw [List.getElem?_append_right (by omega), show l.length + n - 1 - l.length = n - 1 by omega]
  constructor
  · rintro (h | h)
    · omega
    · exact Or.inr h
  · rintro (h | h)
    · omega
    · exact Or.inr h

theorem Exact.append (hl : Exact l) (hc : Closed l) (hm : Exact m) : Exact (l ++ m) := by
  intro n hn hb
  rcases Nat.lt_or_ge l.length n with hlt | hle
  · obtain ⟨j, rfl⟩ := Nat.exists_eq_add_of_le (Nat.le_of_lt hlt)
    rw [List.length_append] at hn
    rw [List.take_append, List.take_of_length_le (Nat.le_add_right _ _), Nat.add_sub_cancel_left]
    exact (hl.all hc).append (hm j (by omega) ((boundary_append_right (by omega)).1 hb))
  · rw [List.take_append_of_le_length hle]
    refine hl n hle ?_
    rcases hb with hb | hb
    · exact Or.inl hb
    · rcases Nat.eq_zero_or_pos n with h0 | h0
      · exact Or.inl h0
      · rw [List.getElem?_append_left (by omega)] at hb
        exact Or.inr hb

theorem Closed.append (hl : Closed l) (hm : Closed m) : Closed (l ++ m) := by
  unfold Closed
  rw [List.length_append]
  rcases Nat.eq_zero_or_pos m.length with h0 | h0
  · rw [List.length_eq_zero_iff.1 h0, List.append_nil]
    exact hl
  · exact (boundary_append_right h0).2 hm

theorem boundary_drop (hb : Boundary l n) (hn : n ≤ l.length) {j : Nat} (hj : Boundary (l.drop n) j) : Boundary l (n + j) := by
  rcases Nat.eq_zero_or_pos j with h0 | h0
  · rw [h0]
    exact hb
  · have := (boundary_append_right (l := l.take n) h0).2 hj
    rwa [List.take_append_drop, List.length_take_of_le hn] at this

theorem Exact.drop (h : Exact l) (hb : Boundary l n) (hn : n ≤ l.length) : Exact (l.drop n) := by
  intro j hj hjb
  rw [List.length_drop] at hj
  have hall := h (n + j) (by omega) (boundary_drop hb hn hjb)
  rw [List.take_add] at hall
  exact (h n hn hb).of_append hall

theorem Closed.drop (h : Closed l) (hn : n ≤ l.length) : Closed (l.drop n) := by
  unfold Closed
  rcases Nat.eq_zero_or_pos (l.drop n).length with h0 | h0
  · exact Or.inl h0
  · refine (boundary_append_right (l := l.take n) h0).1 ?_
    rw [List.take_append_drop, List.length_take_of_le hn, List.length_drop, Nat.add_sub_cancel' hn]
    exact h

theorem exact_of_forall (h : ∀ o ∈ l, o.given.Perm o.owes) : Exact l := by
  intro n _ _
  have hall : ∀ m : List Owed, (∀ o ∈ m, o.given.Perm o.owes) → Even m := by
    intro m hm
    induction m with
    | nil => exact Even.nil
    | cons o m ih =>
      unfold Even
      rw [List.flatMap_cons, List.flatMap_cons]
      exact List.Perm.append (hm o List.mem_cons_self) (ih fun q hq => hm q (List.mem_cons_of_mem _ hq))
  exact hall _ fun o ho => h o (List.mem_of_mem_take ho)

theorem closed_of_forall (h : ∀ o ∈ l, o.inside = false) : Closed l := by
  unfold Closed Boundary
  cases hl : l[l.length - 1]? with
  | none => exact Or.inr rfl
  | some o => exact Or.inr (h o (List.mem_of_getElem? hl))

/-- The slots of one packet: it ends with the last of them and not before. -/
def Group : List Owed → Prop
  | [] => False
  | [o] => o.inside = false
  | o :: l => o.inside = true ∧ Group l

theorem Group.cons (ho : o.inside = true) (hl : Group l) : Group (o :: l) := by
  cases l with
  | nil => cases hl
  | cons q l => exact ⟨ho, hl⟩

theorem Group.closed : ∀ {l : List Owed}, Group l → Closed l
  | [o], h => Or.inr h
  | o :: q :: l, h => by
    have hrest := Group.closed (l := q :: l) h.2
    have := (boundary_append_right (l := [o]) (m := q :: l) (n := (q :: l).length) (by simp)).2 hrest
    unfold Closed
    rwa [Nat.add_comm] at this

theorem Group.boundary : ∀ {l : List Owed}, Group l → ∀ {n : Nat}, n ≤ l.length → Boundary l n → n = 0 ∨ n = l.length
  | [o], _, 0, _, _ => Or.inl rfl
  | [o], _, 1, _, _ => Or.inr rfl
  | [o], _, n + 2, hn, _ => absurd hn (by simp)
  | o :: q :: l, _, 0, _, _ => Or.inl rfl
  | o :: q :: l, h, 1, _, hb => by
    rcases hb with hb | hb
    · omega
    · rw [show (o :: q :: l)[1 - 1]?.elim false Owed.inside = o.inside from rfl, h.1] at hb
      cases hb
  | o :: q :: l, h, n + 2, hn, hb => by
    have hb' : Boundary (q :: l) (n + 1) := by
      refine (boundary_append_right (l := [o]) (by omega)).1 ?_
      rw [List.length_singleton, Nat.add_comm]
      exact hb
    rcases Group.boundary (l := q :: l) h.2 (Nat.le_of_succ_le_succ hn) hb' with h0 | h1
    · omega
    · exact Or.inr (congrArg (· + 1) h1)

theorem Group.exact (h : Group l) (he : Even l) : Exact l := by
  intro n hn hb
  rcases h.boundary hn hb with rfl | rfl
  · exact Even.nil
  · rw [List.take_length]
    exact he

end Exact

/-! ## Packets are exact -/

/-- The slots of `ps` form whole packets that are exact. -/
def Whole (last : U64) (ps : List TxPiece) : Prop := Exact (slotsOf last ps) ∧ Closed (slotsOf last ps)

variable {last : U64}

theorem upperSlots_mem {p : TxPiece} {o : Owed} (ho : o ∈ p.upperSlots last) :
    o = { desc := ncNdpTxDesc0 p.dma, type := .descType0, gives := [], owes := [], inside := p.cont } := by
  unfold TxPiece.upperSlots at ho
  split at ho
  · exact List.mem_singleton.1 ho
  · cases ho

theorem slotsOf_forall {P : Owed → Prop} : ∀ {last : U64} {ps : List TxPiece},
    (∀ p ∈ ps, P p.slot ∧
      P { desc := ncNdpTxDesc0 p.dma, type := .descType0, gives := [], owes := [], inside := p.cont }) →
    ∀ o ∈ slotsOf last ps, P o
  | _, [], _, o, ho => by cases ho
  | last, p :: ps, hps, o, ho => by
    obtain ⟨hp, hrest⟩ := List.forall_mem_cons.1 hps
    rw [slotsOf] at ho
    rcases List.mem_append.1 ho with ho | ho
    · rw [upperSlots_mem ho]
      exact hp.2
    · rcases List.mem_cons.1 ho with rfl | ho
      · exact hp.1
      · exact slotsOf_forall hrest o ho

variable {ps : List TxPiece} {fs : List (Option U64 × U32)}

theorem whole_of_forall (h : ∀ p ∈ ps, p.slot.given.Perm p.owes ∧ p.more = false ∧ p.cont = false) : Whole last ps := by
  refine ⟨exact_of_forall ?_, closed_of_forall ?_⟩
  · refine slotsOf_forall fun p hp => ⟨(h p hp).1, ?_⟩
    exact List.Perm.refl _
  · exact slotsOf_forall fun p hp => ⟨(h p hp).2.1, (h p hp).2.2⟩

theorem group_fragPieces (kind : SlotKind) (mapped : Bool) (id : Nat) :
    ∀ {fs : List (Option U64 × U32)}, fs ≠ [] → fs.any (·.1.isNone) = false → ∀ (j : Nat) (last : U64),
      Group (slotsOf last (fragPieces kind mapped id j fs))
  | [], h, _, _, _ => absurd rfl h
  | (none, _) :: _, _, h, _, _ => by simp at h
  | (some dma, len) :: fs, _, h, j, last => by
    rw [fragPieces, slotsOf]
    have hslot : Group ((fragPiece kind mapped id j dma len (fs = [])).slot ::
        slotsOf (ndpCtrlDescUpperAddr dma) (fragPieces kind mapped id (j + 1) fs)) := by
      cases fs with
      | nil => exact rfl
      | cons f fs =>
        refine Group.cons rfl (group_fragPieces kind mapped id (List.cons_ne_nil _ _) ?_ (j + 1) _)
        simpa using h
    unfold TxPiece.upperSlots
    split
    · exact Group.cons rfl hslot
    · exact hslot

/-- The head releases the memory of the fragments, and these their mappings. -/
theorem even_fragPieces {kind : SlotKind} {mapped : Bool} (id : Nat) (hxsk : kind ≠ .xsk)
    (hgives : ∀ dma len, kind.gives dma len = if mapped then [.unmap dma len] else []) :
    ∀ {fs : List (Option U64 × U32)}, fs.any (·.1.isNone) = false → ∀ (j : Nat) (last : U64),
      ((List.range' j fs.length).map (TxEvent.free id) ++
          (slotsOf last (fragPieces kind mapped id j fs)).flatMap Owed.given).Perm
        ((slotsOf last (fragPieces kind mapped id j fs)).flatMap Owed.owes)
  | [], _, _, _ => List.Perm.refl _
  | (none, _) :: _, h, _, _ => by simp at h
  | (some dma, len) :: fs, h, j, last => by
    have hrest : fs.any (·.1.isNone) = false := by simpa using h
    have ih := even_fragPieces id hxsk hgives hrest (j + 1) (ndpCtrlDescUpperAddr dma)
    have hup : ∀ q : TxPiece, (q.upperSlots last).flatMap Owed.given = [] ∧ (q.upperSlots last).flatMap Owed.owes = [] := by
      intro q
      unfold TxPiece.upperSlots
      split <;> exact ⟨rfl, rfl⟩
    have hgiven : (fragPiece kind mapped id j dma len (fs = [])).slot.given = if mapped then [.unmap dma len] else [] := by
      have htype : kind.type ≠ .xsk := by cases kind <;> simp_all [SlotKind.type]
      unfold Owed.given Owed.xsk
      rw [show (fragPiece kind mapped id j dma len (fs = [])).slot.type = kind.type from rfl, decide_eq_false htype]
      show kind.gives dma len ++ [] = _
      rw [List.append_nil, hgives]
    rw [fragPieces, slotsOf, List.flatMap_append, List.flatMap_append, (hup _).1, (hup _).2, List.nil_append,
      List.nil_append, List.flatMap_cons, List.flatMap_cons, hgiven, List.length_cons, List.range'_succ, List.map_cons]
    show List.Perm _ (((if mapped then [TxEvent.unmap dma len] else []) ++ [.free id j]) ++ _)
    rw [List.append_assoc]
    -- the head's share of this fragment moves behind its mapping
    have hmove : (TxEvent.free id j :: (List.range' (j + 1) fs.length).map (TxEvent.free id) ++
        ((if mapped then [TxEvent.unmap dma len] else []) ++
          (slotsOf (ndpCtrlDescUpperAddr dma) (fragPieces kind mapped id (j + 1) fs)).flatMap Owed.given)).Perm
        ((if mapped then [TxEvent.unmap dma len] else []) ++ ([TxEvent.free id j] ++
          ((List.range' (j + 1) fs.length).map (TxEvent.free id) ++
            (slotsOf (ndpCtrlDescUpperAddr dma) (fragPieces kind mapped id (j + 1) fs)).flatMap Owed.given))) := by
      rw [← List.append_assoc, ← List.append_assoc, ← List.append_assoc]
      refine List.Perm.append_right _ ?_
      rw [List.append_assoc]
      exact List.perm_append_comm
    exact hmove.trans (List.Perm.append_left _ (List.Perm.append_left _ ih))

/-- A packet with its head and fragments. -/
theorem whole_packet {head : TxPiece} {kind : SlotKind} {mapped : Bool} {id : Nat} (hxsk : kind ≠ .xsk)
    (hgives : ∀ dma len, kind.gives dma len = if mapped then [.unmap dma len] else []) (hsome : fs.any (·.1.isNone) = false)
    (hcont : head.cont = false) (hmore : head.more = decide (fs ≠ []))
    (hhead : head.slot.given = (if mapped then [.unmap head.dma head.len] else []) ++ ({ id, nrFrags := fs.length } : Packet).freed)
    (howes : head.owes = (if mapped then [.unmap head.dma head.len] else []) ++ [.free id 0]) (last : U64) :
    Whole last (head :: fragPieces kind mapped id 1 fs) := by
  have hgroup : Group (head.slot :: slotsOf (ndpCtrlDescUpperAddr head.dma) (fragPieces kind mapped id 1 fs)) := by
    cases fs with
    | nil => exact hmore.trans rfl
    | cons f fs => exact Group.cons (hmore.trans rfl) (group_fragPieces kind mapped id (List.cons_ne_nil _ _) hsome 1 _)
  have heven : Even (head.slot :: slotsOf (ndpCtrlDescUpperAddr head.dma) (fragPieces kind mapped id 1 fs)) := by
    unfold Even
    rw [List.flatMap_cons, List.flatMap_cons, hhead, show head.slot.owes = head.owes from rfl, howes, List.append_assoc,
      List.append_assoc]
    refine List.Perm.append_left _ ?_
    rw [Packet.freed, List.range_eq_range', List.range'_succ, List.map_cons]
    exact List.Perm.cons _ (even_fragPieces id hxsk hgives hsome 1 _)
  have hup : ∀ o ∈ head.upperSlots last, o.given.Perm o.owes ∧ o.inside = false := by
    intro o ho
    rw [upperSlots_mem ho]
    exact ⟨List.Perm.refl _, hcont⟩
  have hexact : Exact (head.upperSlots last) := exact_of_forall fun o ho => (hup o ho).1
  have hclosed : Closed (head.upperSlots last) := closed_of_forall fun o ho => (hup o ho).2
  exact ⟨hexact.append hclosed (hgroup.exact heven), hclosed.append hgroup.closed⟩

theorem Skb.whole (skb : Skb) (dma last : U64) (h : skb.mapped.any (·.1.isNone) = false) : Whole last (skb.pieces dma) := by
  have hlen : skb.mapped.length = skb.frags.1.length := List.length_map _
  refine whole_packet (by simp) (fun _ _ => rfl) h rfl ?_ ?_ rfl last
  · show decide (skb.frags.1 ≠ []) = decide (skb.mapped ≠ [])
    unfold Skb.mapped
    simp
  · rw [hlen]
    show (_ :: skb.packet.freed) ++ [] = _
    rw [List.append_nil]
    rfl

theorem XdpFrame.whole (cfg : SgConfig) (f : XdpFrame) (pp : Bool) (dma last : U64)
    (h : (f.mapped pp).any (·.1.isNone) = false) : Whole last (f.pieces cfg pp dma) := by
  have hlen : (f.mapped pp).length = f.frags.1.length := List.length_map _
  have hmore : (f.headPiece cfg pp dma).more = decide (f.mapped pp ≠ []) := by
    show decide (f.frags.1 ≠ []) = _
    unfold XdpFrame.mapped
    simp
  cases pp with
  | false =>
    refine whole_packet (by simp [fragKind]) (fun _ _ => rfl) h rfl hmore ?_ rfl last
    rw [hlen]
    show (_ :: f.packet.freed) ++ [] = _
    rw [List.append_nil]
    rfl
  | true =>
    refine whole_packet (by simp [fragKind]) (fun _ _ => rfl) h rfl hmore ?_ rfl last
    rw [hlen]
    show f.packet.freed ++ [] = _
    rw [List.append_nil]
    rfl

theorem whole_xskPieces (fs : List XskFrag) (last : U64) : Whole last (xskPieces fs) := by
  refine whole_of_forall fun p hp => ?_
  induction fs with
  | nil => cases hp
  | cons f fs ih =>
    rw [xskPieces] at hp
    rcases List.mem_cons.1 hp with rfl | hp
    · exact ⟨List.Perm.refl _, rfl, rfl⟩
    · exact ih hp

theorem whole_descs (cfg : SgConfig) (ds : List XdpDesc) (last : U64) : Whole last (ds.map (·.piece cfg)) := by
  refine whole_of_forall fun p hp => ?_
  obtain ⟨d, _, rfl⟩ := List.mem_map.1 hp
  exact ⟨List.Perm.refl _, rfl, rfl⟩

/-! ## Submits -/

/-- What a submit makes of the controller: nothing, pieces that stay behind `sdp`, or whole packets in the ring. -/
inductive Submitted : TxCtrl → TxCtrl → Prop
  | same (t : TxCtrl) : Submitted t t
  | undone (t : TxCtrl) (ps : List TxPiece) (hfit : t.Fits ps.length) : Submitted t (t.undone ps)
  | sent (t : TxCtrl) (ps : List TxPiece) (hfit : t.Fits ps.length) (hxsk : t.mode = .pp → ∀ p ∈ ps, p.kind ≠ .xsk)
      (hwhole : Whole t.c.lastUpperAddr ps) (howes : ∀ p ∈ ps, p.owes ≠ []) : Submitted t (t.sent ps)
  | trans {t t' t'' : TxCtrl} (h : Submitted t t') (h' : Submitted t' t'') : Submitted t t''

variable {k H : Nat} {t t' : TxCtrl} {e : List TxEvent}

/-- A submit appends to the queue and keeps what is in it. -/
structure Appended (k H : Nat) (t t' : TxCtrl) : Prop where
  ring : TxRing k H t'
  hdp : t'.c.hdp = t.c.hdp
  mdp : t'.c.mdp = t.c.mdp
  owed : t.owed <+: t'.owed
  kept : ∀ i < t.owed.length, t'.entry (slot k (H + i)) = t.entry (slot k (H + i))

theorem Submitted.appended (hs : Submitted t t') : TxRing k H t → Appended k H t t' := by
  induction hs with
  | same t => exact fun h => ⟨h, rfl, rfl, List.prefix_refl _, fun _ _ => rfl⟩
  | undone t ps hfit =>
    intro h
    obtain ⟨_, hb⟩ := h.putAll hfit
    exact ⟨h.undone hfit, by rw [hb.c], by rw [hb.c], by rw [hb.owed], hb.kept⟩
  | sent t ps hfit hxsk _ _ =>
    intro h
    obtain ⟨_, hb⟩ := h.putAll hfit
    refine ⟨h.sent hfit hxsk, ?_, ?_, ?_, hb.kept⟩
    · show (t.undone ps).c.hdp = _
      rw [hb.c]
    · show (t.undone ps).c.mdp = _
      rw [hb.c]
    · show t.owed <+: (t.undone ps).owed ++ _
      rw [hb.owed]
      exact List.prefix_append _ _
  | trans _ _ ih ih' =>
    intro h
    have h1 := ih h
    have h2 := ih' h1.ring
    refine ⟨h2.ring, h2.hdp.trans h1.hdp, h2.mdp.trans h1.mdp, h1.owed.trans h2.owed, fun i hi => ?_⟩
    rw [h2.kept i (lt_of_lt_of_le hi h1.owed.length_le), h1.kept i hi]

theorem Submitted.exact (hs : Submitted t t') :
    TxRing k H t → Exact t.owed → Closed t.owed → Exact t'.owed ∧ Closed t'.owed := by
  induction hs with
  | same t => exact fun _ he hc => ⟨he, hc⟩
  | undone t ps hfit =>
    intro h he hc
    rw [(h.putAll hfit).2.owed]
    exact ⟨he, hc⟩
  | sent t ps hfit _ hwhole _ =>
    intro h he hc
    have howed : (t.sent ps).owed = t.owed ++ slotsOf t.c.lastUpperAddr ps := by
      show (t.undone ps).owed ++ _ = _
      rw [(h.putAll hfit).2.owed]
    rw [howed]
    exact ⟨he.append hc hwhole.1, hc.append hwhole.2⟩
  | trans hs _ ih ih' =>
    intro h he hc
    obtain ⟨he', hc'⟩ := ih h he hc
    exact ih' (hs.appended h).ring he' hc'

theorem fragPieces_not_xsk {kind : SlotKind} (hkind : kind ≠ .xsk) (mapped : Bool) (id : Nat) :
    ∀ (j : Nat) (fs : List (Option U64 × U32)), ∀ p ∈ fragPieces kind mapped id j fs, p.kind ≠ .xsk
  | _, [], _, hp => by cases hp
  | _, (none, _) :: _, _, hp => by cases hp
  | j, (some _, _) :: fs, p, hp => by
    rw [fragPieces] at hp
    rcases List.mem_cons.1 hp with rfl | hp
    · exact hkind
    · exact fragPieces_not_xsk hkind mapped id (j + 1) fs p hp

theorem fragPieces_owes (kind : SlotKind) (mapped : Bool) (id : Nat) :
    ∀ (j : Nat) (fs : List (Option U64 × U32)), ∀ p ∈ fragPieces kind mapped id j fs, p.owes ≠ []
  | _, [], p, hp => by cases hp
  | _, (none, _) :: _, p, hp => by cases hp
  | j, (some dma, len) :: fs, p, hp => by
    rw [fragPieces] at hp
    rcases List.mem_cons.1 hp with rfl | hp
    · exact List.append_ne_nil_of_right_ne_nil _ (List.cons_ne_nil _ _)
    · exact fragPieces_owes kind mapped id (j + 1) fs p hp

theorem TxCtrl.Fits.mono {n m : Nat} (h : t.Fits n) (hmn : m ≤ n) : t.Fits m := by
  unfold TxCtrl.Fits at *
  omega

theorem Skb.fits {skb : Skb} (h : ¬ t.busy skb.frags) (dma : U64) : t.Fits (skb.pieces dma).length := by
  refine (fits_of_not_busy h).mono (Nat.succ_le_succ ?_)
  have hle := length_fragPieces_le (.skb none) true skb.id 1 skb.mapped
  rwa [Skb.mapped, List.length_map] at hle

theorem XdpFrame.fits (cfg : SgConfig) {f : XdpFrame} (pp : Bool) (h : ¬ t.busy f.frags) (dma : U64) :
    t.Fits (f.pieces cfg pp dma).length := by
  refine (fits_of_not_busy h).mono (Nat.succ_le_succ ?_)
  have hle := length_fragPieces_le (fragKind pp) (!pp) f.id 1 (f.mapped pp)
  rwa [XdpFrame.mapped, List.length_map] at hle

theorem startXmit_submitted (t : TxCtrl) (skb : Skb) : Submitted t (nfbXctrlStartXmit t skb).ctrl := by
  rcases startXmit_cases t skb with ⟨h, -, -, -⟩ | ⟨dma, -, hbusy, ⟨hf, h⟩ | ⟨hf, h⟩⟩
  · rw [h]
    exact .same t
  · rw [h]
    exact .undone t _ (Skb.fits hbusy dma)
  · rw [h]
    refine .sent t _ (Skb.fits hbusy dma) (fun _ p hp => ?_) (skb.whole dma _ hf) (fun p hp => ?_)
    · rcases List.mem_cons.1 hp with rfl | hp
      · simp [Skb.headPiece]
      · exact fragPieces_not_xsk (by simp) true skb.id 1 skb.mapped p hp
    · rcases List.mem_cons.1 hp with rfl | hp
      · exact List.cons_ne_nil _ _
      · exact fragPieces_owes _ true skb.id 1 skb.mapped p hp

theorem submitFrame_submitted (cfg : SgConfig) (t : TxCtrl) (f : XdpFrame) (pp : Bool) :
    Submitted t (nfbXctrlTxSubmitFrameNeedsLock cfg t f pp).ctrl := by
  rcases submitFrame_cases cfg t f pp with ⟨h, -, -, -⟩ | ⟨dma, -, hbusy, -, ⟨hf, h⟩ | ⟨hf, h⟩⟩
  · rw [h]
    exact .same t
  · rw [h]
    exact .undone t _ (XdpFrame.fits cfg pp hbusy dma)
  · rw [h]
    refine .sent t _ (XdpFrame.fits cfg pp hbusy dma) (fun _ p hp => ?_) (f.whole cfg pp dma _ hf) (fun p hp => ?_)
    · rcases List.mem_cons.1 hp with rfl | hp
      · cases pp <;> simp [XdpFrame.headPiece]
      · exact fragPieces_not_xsk (by cases pp <;> simp [fragKind]) (!pp) f.id 1 _ p hp
    · rcases List.mem_cons.1 hp with rfl | hp
      · exact List.append_ne_nil_of_right_ne_nil _ (List.cons_ne_nil _ _)
      · exact fragPieces_owes _ (!pp) f.id 1 _ p hp

theorem rexmitPp_submitted (cfg : SgConfig) (t : TxCtrl) (f : XdpFrame) : Submitted t (nfbXctrlRexmitPp cfg t f).ctrl := by
  have hctrl : (nfbXctrlRexmitPp cfg t f).ctrl = (nfbXctrlTxSubmitFrameNeedsLock cfg t f true).ctrl := by
    unfold nfbXctrlRexmitPp
    simp only
    split <;> rfl
  rw [hctrl]
  exact submitFrame_submitted cfg t f true

theorem xdpXmit_submitted (cfg : SgConfig) : ∀ (frames : List XdpFrame) (t : TxCtrl),
    Submitted t (nfbXctrlXdpXmit cfg t frames).1
  | [], t => .same t
  | f :: frames, t => by
    have hf := submitFrame_submitted cfg t f false
    rw [nfbXctrlXdpXmit]
    by_cases hret : (nfbXctrlTxSubmitFrameNeedsLock cfg t f false).ret ≠ 0
    · simp only [if_pos hret]
      exact hf
    · simp only [if_neg hret]
      exact hf.trans (xdpXmit_submitted cfg frames _)

theorem length_xskPieces (fs : List XskFrag) : (xskPieces fs).length = fs.length := by
  induction fs with
  | nil => rfl
  | cons f fs ih => rw [xskPieces, List.length_cons, List.length_cons, ih]

theorem xskPieces_owes (fs : List XskFrag) : ∀ p ∈ xskPieces fs, p.owes ≠ [] := by
  induction fs with
  | nil => exact fun p hp => absurd hp List.not_mem_nil
  | cons f fs ih =>
    intro p hp
    rcases List.mem_cons.1 hp with rfl | hp
    · exact List.cons_ne_nil _ _
    · exact ih p hp

/-- The room that a check of `2 * n` descriptors leaves. -/
theorem fits_of_count {n : Nat} (hn : n < 2 ^ 30) (h : ¬ t.freeDesc < BitVec.ofNat 32 (n * 2)) : t.Fits n := by
  have hneed : (BitVec.ofNat 32 (n * 2)).toNat = 2 * n := by
    rw [BitVec.toNat_ofNat]
    omega
  unfold TxCtrl.Fits
  rw [← hneed]
  exact Nat.le_of_not_lt (mt BitVec.lt_def.2 h)

theorem ofNat_mul_two (n : Nat) : BitVec.ofNat 32 n * 2 = BitVec.ofNat 32 (n * 2) := by
  apply BitVec.eq_of_toNat_eq
  rw [BitVec.toNat_mul, BitVec.toNat_ofNat, BitVec.toNat_ofNat, show (2 : U32).toNat = 2 from rfl, Nat.mod_mul_mod]

theorem xskFrags_lt (cfg : SgConfig) (xdp : XskFrags) : (if cfg.afXdpSg then xdp.1 else xdp.1.take 1).length < 2 ^ 30 := by
  have := xdp.2
  split
  · omega
  · rw [List.length_take]; omega

theorem rexmitXsk_submitted (cfg : SgConfig) (hmode : t.mode = .xsk) (xdp : XskFrags) :
    Submitted t (nfbXctrlRexmitXsk cfg t xdp).ctrl := by
  have hlen := xskFrags_lt cfg xdp
  unfold nfbXctrlRexmitXsk
  simp only
  generalize (if cfg.afXdpSg then xdp.1 else xdp.1.take 1) = frags at hlen ⊢
  split
  · exact .same t
  · rename_i hroom
    rw [ofNat_mul_two] at hroom
    refine .sent t _ ?_ (fun hm => ?_) (whole_xskPieces frags _) (xskPieces_owes frags)
    · rw [length_xskPieces]
      exact fits_of_count hlen hroom
    · rw [hmode] at hm
      cases hm

theorem pollTxXsk_submitted (cfg : SgConfig) (hmode : t.mode = .xsk) {budget : Nat} (hb : budget < 2 ^ 30)
    {descs : List XdpDesc} (hd : descs.length ≤ budget) : Submitted t (nfbXctrlNapiPollTxXsk cfg t budget descs) := by
  unfold nfbXctrlNapiPollTxXsk
  split
  · exact .same t
  · rename_i hroom
    refine .sent t _ ?_ (fun hm => ?_) (whole_descs cfg descs _) (fun p hp => ?_)
    · rw [List.length_map]
      exact (fits_of_count hb hroom).mono hd
    · rw [hmode] at hm
      cases hm
    · obtain ⟨d, -, rfl⟩ := List.mem_map.1 hp
      exact List.cons_ne_nil _ _

/-! ## What is accepted -/

/-- The mappings that are to be undone of addresses and lengths that were mapped. -/
def unmaps (l : List (Option U64 × U32)) : List TxEvent := l.flatMap fun m => m.1.elim [] fun dma => [.unmap dma m.2]

/-- What has to be released of an skb that was accepted: its mappings and its memory. -/
def Skb.owes (skb : Skb) : List TxEvent := unmaps ((skb.head, skb.mapLen) :: skb.mapped) ++ skb.packet.freed

/-- A frame of the page pool is mapped by the pool. -/
def XdpFrame.owes (f : XdpFrame) (pp : Bool) : List TxEvent :=
  (if pp then [] else unmaps ((f.head, f.mapLen) :: f.mapped pp)) ++ f.packet.freed

/-- The slots that are added owe `events`. -/
def Books (t t' : TxCtrl) (events : List TxEvent) : Prop :=
  ∃ slots, t'.owed = t.owed ++ slots ∧ (slots.flatMap Owed.owes).Perm events

theorem Books.refl (t : TxCtrl) : Books t t [] := ⟨[], (List.append_nil _).symm, List.Perm.refl _⟩

theorem Books.trans {t'' : TxCtrl} {f : List TxEvent} (h : Books t t' e) (h' : Books t' t'' f) : Books t t'' (e ++ f) := by
  obtain ⟨l, hl, he⟩ := h
  obtain ⟨m, hm, hf⟩ := h'
  refine ⟨l ++ m, by rw [hm, hl, List.append_assoc], ?_⟩
  rw [List.flatMap_append]
  exact he.append hf

theorem Books.undone (h : TxRing k H t) (hfit : t.Fits ps.length) : Books t (t.undone ps) [] :=
  ⟨[], by rw [List.append_nil, (h.putAll hfit).2.owed], List.Perm.refl _⟩

theorem owes_slotsOf (ps : List TxPiece) : ∀ last, (slotsOf last ps).flatMap Owed.owes = ps.flatMap TxPiece.owes := by
  induction ps with
  | nil => exact fun _ => rfl
  | cons p ps ih =>
    intro last
    have hup : (p.upperSlots last).flatMap Owed.owes = [] := by
      unfold TxPiece.upperSlots
      split <;> rfl
    rw [slotsOf, List.flatMap_append, hup, List.nil_append, List.flatMap_cons, List.flatMap_cons, ih]
    rfl

theorem Books.sent (h : TxRing k H t) (hfit : t.Fits ps.length) (hps : (ps.flatMap TxPiece.owes).Perm e) : Books t (t.sent ps) e := by
  refine ⟨slotsOf t.c.lastUpperAddr ps, ?_, by rwa [owes_slotsOf]⟩
  show (t.undone ps).owed ++ _ = _
  rw [(h.putAll hfit).2.owed]

theorem owes_fragPieces (kind : SlotKind) (mapped : Bool) (id : Nat) : ∀ {fs : List (Option U64 × U32)},
    fs.any (·.1.isNone) = false → ∀ j, ((fragPieces kind mapped id j fs).flatMap TxPiece.owes).Perm
      ((if mapped then unmaps fs else []) ++ (List.range' j fs.length).map (TxEvent.free id))
  | [], _, _ => by cases mapped <;> exact List.Perm.refl _
  | (none, _) :: _, h, _ => by simp at h
  | (some dma, len) :: fs, h, j => by
    have ih := owes_fragPieces kind mapped id (by simpa using h : fs.any (·.1.isNone) = false) (j + 1)
    have hunmaps : (if mapped then unmaps ((some dma, len) :: fs) else []) =
        (if mapped then [TxEvent.unmap dma len] else []) ++ if mapped then unmaps fs else [] := by
      cases mapped <;> rfl
    rw [fragPieces, List.flatMap_cons, hunmaps, List.length_cons, List.range'_succ, List.map_cons]
    show (((if mapped then [TxEvent.unmap dma len] else []) ++ [TxEvent.free id j]) ++ _).Perm _
    rw [List.append_assoc, List.append_assoc]
    -- the memory of this fragment stands behind the mappings of the others
    exact List.Perm.append_left _ ((List.Perm.cons _ ih).trans List.perm_middle.symm)

theorem owes_packet {head : TxPiece} {kind : SlotKind} {mapped : Bool} {id : Nat} {fs : List (Option U64 × U32)}
    (hsome : fs.any (·.1.isNone) = false)
    (howes : head.owes = (if mapped then [.unmap head.dma head.len] else []) ++ [.free id 0]) :
    ((head :: fragPieces kind mapped id 1 fs).flatMap TxPiece.owes).Perm
      ((if mapped then unmaps ((some head.dma, head.len) :: fs) else []) ++ ({ id, nrFrags := fs.length } : Packet).freed) := by
  have hunmaps : (if mapped then unmaps ((some head.dma, head.len) :: fs) else []) =
      (if mapped then [TxEvent.unmap head.dma head.len] else []) ++ if mapped then unmaps fs else [] := by
    cases mapped <;> rfl
  rw [List.flatMap_cons, howes, hunmaps, Packet.freed, List.range_eq_range', List.range'_succ, List.map_cons, List.append_assoc,
    List.append_assoc]
  exact List.Perm.append_left _ ((List.Perm.cons _ (owes_fragPieces kind mapped id hsome 1)).trans List.perm_middle.symm)

theorem startXmit_books (h : TxRing k H t) (skb : Skb) :
    Books t (nfbXctrlStartXmit t skb).ctrl (if (nfbXctrlStartXmit t skb).ret = 0 then skb.owes else []) := by
  rcases startXmit_cases t skb with ⟨hctrl, hret, -, -⟩ | ⟨dma, hhead, hbusy, ⟨-, hr⟩ | ⟨hf, hr⟩⟩
  · rw [hctrl, if_neg hret]
    exact .refl t
  · rw [hr, if_neg eNoMem_ne]
    exact .undone h (Skb.fits hbusy dma)
  · rw [hr, if_pos rfl]
    refine .sent h (Skb.fits hbusy dma) ?_
    have hp := @owes_packet (skb.headPiece dma) (.skb none) true skb.id skb.mapped hf rfl
    rw [if_pos rfl, show skb.mapped.length = skb.frags.1.length from List.length_map _] at hp
    rw [Skb.owes, hhead]
    exact hp

theorem submitFrame_books (cfg : SgConfig) (h : TxRing k H t) (f : XdpFrame) (pp : Bool) :
    Books t (nfbXctrlTxSubmitFrameNeedsLock cfg t f pp).ctrl
      (if (nfbXctrlTxSubmitFrameNeedsLock cfg t f pp).ret = 0 then f.owes pp else []) := by
  rcases submitFrame_cases cfg t f pp with ⟨hctrl, hret, -, -⟩ | ⟨dma, hhead, hbusy, -, ⟨-, hr⟩ | ⟨hf, hr⟩⟩
  · rw [hctrl, if_neg hret]
    exact .refl t
  · rw [hr, if_neg eNoMem_ne]
    exact .undone h (XdpFrame.fits cfg pp hbusy dma)
  · rw [hr, if_pos rfl]
    refine .sent h (XdpFrame.fits cfg pp hbusy dma) ?_
    have hlen : (f.mapped pp).length = f.frags.1.length := List.length_map _
    cases pp with
    | true =>
      have hp := @owes_packet (f.headPiece cfg true dma) (fragKind true) false f.id (f.mapped true) hf rfl
      rw [hlen] at hp
      exact hp
    | false =>
      have hp := @owes_packet (f.headPiece cfg false dma) (fragKind false) true f.id (f.mapped false) hf rfl
      rw [hlen] at hp
      rw [XdpFrame.owes, show f.head = some dma from hhead]
      exact hp

theorem xdpXmit_books (cfg : SgConfig) : ∀ (frames : List XdpFrame) {t : TxCtrl}, TxRing k H t →
    Books t (nfbXctrlXdpXmit cfg t frames).1
      ((frames.take (nfbXctrlXdpXmit cfg t frames).2.2).flatMap (·.owes false))
  | [], t, _ => .refl t
  | f :: frames, t, h => by
    have hf := submitFrame_books cfg h f false
    rw [nfbXctrlXdpXmit]
    by_cases hret : (nfbXctrlTxSubmitFrameNeedsLock cfg t f false).ret = 0
    · rw [if_pos hret] at hf
      simp only [hret, ne_eq, not_true_eq_false, if_false, List.take_succ_cons, List.flatMap_cons]
      exact hf.trans (xdpXmit_books cfg frames ((submitFrame_submitted cfg t f false).appended h).ring)
    · rw [if_neg hret] at hf
      simp only [hret, ne_eq, not_false_eq_true, if_true]
      exact hf

theorem owes_xskPieces (fs : List XskFrag) : (xskPieces fs).flatMap TxPiece.owes = fs.flatMap (·.packet.freed) := by
  induction fs with
  | nil => rfl
  | cons f fs ih =>
    rw [xskPieces, List.flatMap_cons, List.flatMap_cons, ih]
    rfl

theorem owes_descs (cfg : SgConfig) (ds : List XdpDesc) :
    (ds.map (·.piece cfg)).flatMap TxPiece.owes = List.replicate ds.length .complete := by
  induction ds with
  | nil => rfl
  | cons d ds ih =>
    rw [List.map_cons, List.flatMap_cons, ih]
    rfl

/-! ## Runs -/

/-- What happens on the TX ring under `tx_lock`; `hw` is the hardware's pointer when a reclaim reads it. -/
inductive TxAction
  | startXmit (skb : Skb)
  | xdpXmit (frames : List XdpFrame)
  | rexmitPp (f : XdpFrame)
  | rexmitXsk (xdp : XskFrags)
  | pollTxXsk (budget : Nat) (descs : List XdpDesc)
  | reclaim (hw : U32)

/-- The controller after an action, what it did to the outside, and the packets that it did not accept. -/
structure TxStep where
  ctrl : TxCtrl
  events : List TxEvent
  rejected : List Nat

def TxCtrl.act (cfg : SgConfig) (t : TxCtrl) : TxAction → Option TxStep
  | .startXmit skb =>
    let r := nfbXctrlStartXmit t skb
    some { ctrl := r.ctrl, events := r.events, rejected := if r.ret = 0 then [] else [skb.id] }
  | .xdpXmit frames =>
    let r := nfbXctrlXdpXmit cfg t frames
    some { ctrl := r.1, events := r.2.1, rejected := (frames.drop r.2.2).map (·.id) }
  | .rexmitPp f =>
    let r := nfbXctrlRexmitPp cfg t f
    some { ctrl := r.ctrl, events := r.events, rejected := if r.ret = 0 then [] else [f.id] }
  | .rexmitXsk xdp =>
    let r := nfbXctrlRexmitXsk cfg t xdp
    some { ctrl := r.ctrl, events := r.events, rejected := if r.ret = 0 then [] else xdp.1.map (·.id) }
  | .pollTxXsk budget descs => some { ctrl := nfbXctrlNapiPollTxXsk cfg t budget descs, events := [], rejected := [] }
  | .reclaim hw => (reclaim t hw).map fun r => { ctrl := r.1, events := r.2, rejected := [] }

def txStep (cfg : SgConfig) (t : TxCtrl) (a : TxAction) : Option TxCtrl := (t.act cfg a).map TxStep.ctrl

/-- The slots between the two pointers. -/
def TxCtrl.used (t : TxCtrl) : Nat := ((t.c.sdp - t.c.hdp) &&& t.c.mdp).toNat

/-- The slot `n` places behind `hdp`. -/
def TxCtrl.slotAfter (t : TxCtrl) (n : Nat) : Nat := ((t.c.hdp + BitVec.ofNat 32 n) &&& t.c.mdp).toNat

/-- What can happen: the hardware is between the two pointers, a batch from the AF_XDP socket is no larger than the
budget, and each way of operation has its own producers. -/
def Admissible (t : TxCtrl) : TxAction → Prop
  | .startXmit _ | .xdpXmit _ => True
  | .rexmitPp _ => t.mode = .pp
  | .rexmitXsk _ => t.mode = .xsk
  | .pollTxXsk budget descs => t.mode = .xsk ∧ budget < 2 ^ 30 ∧ descs.length ≤ budget
  | .reclaim hw => hw.toNat ≤ t.c.mdp.toNat ∧ t.passes hw ≤ t.used

instance (t : TxCtrl) : DecidablePred (Admissible t)
  | .startXmit _ | .xdpXmit _ => inferInstanceAs (Decidable True)
  | .rexmitPp _ | .rexmitXsk _ => inferInstanceAs (Decidable (_ = _))
  | .pollTxXsk _ _ => inferInstanceAs (Decidable (_ ∧ _ ∧ _))
  | .reclaim _ => inferInstanceAs (Decidable (_ ∧ _))

/-- No slot that is still between the pointers is overwritten, all of these have a valid type, and there are as many as
were given to the hardware and not yet reclaimed, with the descriptors that these were given with. -/
structure SafeStep (t t' : TxCtrl) : Prop where
  kept : ∀ n, t.passes t'.c.hdp ≤ n → n < t.used → t'.entry (t.slotAfter n) = t.entry (t.slotAfter n)
  valid : ∀ n < t'.used, (t'.buffers (t'.slotAfter n)).type ≠ .bug
  apart : t'.used = t'.owed.length
  held : ∀ n o, t'.owed[n]? = some o → t'.desc (t'.slotAfter n) = o.desc

/-- What a submit accepts, by what it returns, has to be released: of packets their mappings and memory, of a batch of the AF_XDP
socket the completions. A poll without room for a batch takes none. -/
def TxCtrl.accepts (cfg : SgConfig) (t : TxCtrl) : TxAction → List TxEvent
  | .startXmit skb => if (nfbXctrlStartXmit t skb).ret = 0 then skb.owes else []
  | .xdpXmit frames => (frames.take (nfbXctrlXdpXmit cfg t frames).2.2).flatMap (·.owes false)
  | .rexmitPp f => if (nfbXctrlRexmitPp cfg t f).ret = 0 then f.owes true else []
  | .rexmitXsk xdp =>
    if (nfbXctrlRexmitXsk cfg t xdp).ret = 0 then (if cfg.afXdpSg then xdp.1 else xdp.1.take 1).flatMap (·.packet.freed) else []
  | .pollTxXsk budget descs => if t.freeDesc < BitVec.ofNat 32 (budget * 2) then [] else List.replicate descs.length .complete
  | .reclaim _ => []

/-- A submit adds slots that owe what it accepts, a reclaim takes away the slots that it passes. -/
def Accounted (cfg : SgConfig) (t : TxCtrl) (a : TxAction) (t' : TxCtrl) : Prop :=
  match a with
  | .reclaim hw => t'.owed = t.owed.drop (t.passes hw)
  | _ => Books t t' (t.accepts cfg a)

def Safe (cfg : SgConfig) (t : TxCtrl) (a : TxAction) : Prop :=
  ∃ r, t.act cfg a = some r ∧ SafeStep t r.ctrl ∧ Accounted cfg t a r.ctrl

/-- Events of a submit: memory is given back of packets it did not accept only, and mappings are undone that it made
itself. -/
def OwnEvents (events : List TxEvent) (rejected : List Nat) : Prop :=
  (∀ id j, .free id j ∈ events → id ∈ rejected) ∧ (∀ dma len, .unmap dma len ∈ events → .map dma len ∈ events) ∧
    .complete ∉ events

/-- A reclaim releases what was accepted with the slots it passes, and nothing else releases that. -/
def Releases (cfg : SgConfig) (t : TxCtrl) (a : TxAction) : Prop :=
  ∀ r, t.act cfg a = some r →
    match a with
    | .reclaim hw => r.events.Perm ((t.owed.take (t.passes hw)).flatMap Owed.owes)
    | _ => OwnEvents r.events r.rejected

/-- The condition: `skb_padto` does not fail, and the hardware is not inside a packet with fragments. -/
def Orderly (t : TxCtrl) : TxAction → Prop
  | .startXmit skb => skb.len < ethZlen → skb.padto = true
  | .reclaim hw => Boundary t.owed (t.passes hw)
  | _ => True

instance (t : TxCtrl) : DecidablePred (Orderly t)
  | .startXmit _ => inferInstanceAs (Decidable (_ → _))
  | .reclaim _ => inferInstanceAs (Decidable (Boundary _ _))
  | .xdpXmit _ | .rexmitPp _ | .rexmitXsk _ | .pollTxXsk _ _ => inferInstanceAs (Decidable True)

theorem TxRing.used (h : TxRing k H t) : t.used = t.owed.length := distance_window h.mask h.sdp h.hdp h.room

theorem TxRing.slotAfter (h : TxRing k H t) {n : Nat} : t.slotAfter n = slot k (H + n) :=
  (At.add h.mask.le_width (at_of_mod h.hdp) (at_ofNat h.mask.le_width n)).toNat_and h.mask

theorem TxRing.valid (h : TxRing k H t) : ∀ n < t.used, (t.buffers (t.slotAfter n)).type ≠ .bug := by
  intro n hn
  rw [h.used] at hn
  obtain ⟨_, _, hrel⟩ := h.held n _ (List.getElem?_eq_getElem hn)
  rw [h.slotAfter]
  intro hb
  unfold XctrlTxBuffer.release TxCtrl.entry at hrel
  simp only [hb] at hrel
  cases hrel

theorem TxRing.desc (h : TxRing k H t) {n : Nat} {o : Owed} (ho : t.owed[n]? = some o) : t.desc (t.slotAfter n) = o.desc := by
  rw [h.slotAfter]
  exact (h.held n o ho).1

theorem Submitted.safe (hs : Submitted t t') (h : TxRing k H t) : TxRing k H t' ∧ SafeStep t t' := by
  have ha := hs.appended h
  refine ⟨ha.ring, fun n _ hn => ?_, ha.ring.valid, ha.ring.used, fun _ _ => ha.ring.desc⟩
  rw [h.used] at hn
  rw [h.slotAfter]
  exact ha.kept n hn

variable {a : TxAction} {type : TxBuffType} {maps : List TxEvent}

theorem act_cases (cfg : SgConfig) (ha : Admissible t a) : (∃ r, t.act cfg a = some r ∧ Submitted t r.ctrl) ∨ ∃ hw, a = .reclaim hw := by
  cases a with
  | startXmit skb => exact Or.inl ⟨_, rfl, startXmit_submitted t skb⟩
  | xdpXmit frames => exact Or.inl ⟨_, rfl, xdpXmit_submitted cfg frames t⟩
  | rexmitPp f => exact Or.inl ⟨_, rfl, rexmitPp_submitted cfg t f⟩
  | rexmitXsk xdp => exact Or.inl ⟨_, rfl, rexmitXsk_submitted cfg ha xdp⟩
  | pollTxXsk budget descs => exact Or.inl ⟨_, rfl, pollTxXsk_submitted cfg ha.1 ha.2.1 ha.2.2⟩
  | reclaim hw => exact Or.inr ⟨hw, rfl⟩

theorem TxRing.act (cfg : SgConfig) (h : TxRing k H t) (ha : Admissible t a) :
    ∃ r H', t.act cfg a = some r ∧ TxRing k H' r.ctrl ∧ SafeStep t r.ctrl := by
  rcases act_cases cfg ha with ⟨r, hr, hs⟩ | ⟨hw, rfl⟩
  · obtain ⟨hring, hsafe⟩ := hs.safe h
    exact ⟨r, H, hr, hring, hsafe⟩
  · have hle : t.passes hw ≤ t.owed.length := h.used ▸ ha.2
    obtain ⟨t', hrun, hr, howed, hc, hkept⟩ := h.reclaim ha.1 hle
    have hact := congrArg (Option.map fun r : TxCtrl × List TxEvent => (⟨r.1, r.2, []⟩ : TxStep)) hrun
    have hhdp : t'.c.hdp = hw := by rw [hc]
    refine ⟨⟨t', _, []⟩, H + t.passes hw, hact, hr, fun n hn hlt => ?_, hr.valid, hr.used, fun _ _ => hr.desc⟩
    have hroom := h.room
    rw [h.used] at hlt
    rw [h.slotAfter]
    exact hkept n (by rw [← hhdp]; exact hn) (by omega)

/-- Every admissible action keeps the books. -/
theorem TxRing.accounted (cfg : SgConfig) (h : TxRing k H t) (ha : Admissible t a) {r : TxStep} (hr : t.act cfg a = some r) :
    Accounted cfg t a r.ctrl := by
  cases a with
  | startXmit skb => cases hr; exact startXmit_books h skb
  | xdpXmit frames => cases hr; exact xdpXmit_books cfg frames h
  | rexmitPp f =>
    cases hr
    have hf := submitFrame_books cfg h f true
    show Books t (nfbXctrlRexmitPp cfg t f).ctrl (if (nfbXctrlRexmitPp cfg t f).ret = 0 then f.owes true else [])
    unfold nfbXctrlRexmitPp
    by_cases hret : (nfbXctrlTxSubmitFrameNeedsLock cfg t f true).ret = 0
    · simpa only [hret, ne_eq, not_true_eq_false, if_false] using hf
    · simpa only [hret, ne_eq, not_false_eq_true, if_true, if_false] using hf
  | rexmitXsk xdp =>
    cases hr
    have hlen : (if cfg.afXdpSg then xdp.1 else xdp.1.take 1).length < 2 ^ 30 := xskFrags_lt cfg xdp
    show Books t (nfbXctrlRexmitXsk cfg t xdp).ctrl (if (nfbXctrlRexmitXsk cfg t xdp).ret = 0 then
      (if cfg.afXdpSg then xdp.1 else xdp.1.take 1).flatMap (·.packet.freed) else [])
    unfold nfbXctrlRexmitXsk
    simp only
    generalize (if cfg.afXdpSg then xdp.1 else xdp.1.take 1) = frags at hlen ⊢
    split
    · rw [if_neg eBusy_ne]
      exact .refl t
    · rename_i hroom
      rw [ofNat_mul_two] at hroom
      rw [if_pos rfl]
      refine .sent h (by rw [length_xskPieces]; exact fits_of_count hlen hroom) ?_
      rw [owes_xskPieces]
  | pollTxXsk budget descs =>
    cases hr
    show Books t (nfbXctrlNapiPollTxXsk cfg t budget descs)
      (if t.freeDesc < BitVec.ofNat 32 (budget * 2) then [] else List.replicate descs.length .complete)
    unfold nfbXctrlNapiPollTxXsk
    split
    · exact .refl t
    · rename_i hroom
      refine .sent h (by rw [List.length_map]; exact (fits_of_count ha.2.1 hroom).mono ha.2.2) ?_
      rw [owes_descs]
  | reclaim hw =>
    obtain ⟨t', hrun, -, howed, -⟩ := h.reclaim ha.1 (h.used ▸ ha.2)
    rw [TxCtrl.act, hrun] at hr
    cases hr
    exact howed

/-! ## What is released -/

theorem OwnEvents.append {f : List TxEvent} {r : List Nat} (he : OwnEvents e r) (hf : OwnEvents f r) : OwnEvents (e ++ f) r := by
  refine ⟨fun id j h => ?_, fun dma len h => ?_, fun h => ?_⟩
  · rcases List.mem_append.1 h with h | h
    · exact he.1 id j h
    · exact hf.1 id j h
  · rcases List.mem_append.1 h with h | h
    · exact List.mem_append_left _ (he.2.1 dma len h)
    · exact List.mem_append_right _ (hf.2.1 dma len h)
  · rcases List.mem_append.1 h with h | h
    · exact he.2.2 h
    · exact hf.2.2 h

theorem own_nil (r : List Nat) : OwnEvents [] r :=
  ⟨fun _ _ h => absurd h List.not_mem_nil, fun _ _ h => absurd h List.not_mem_nil, List.not_mem_nil⟩

theorem own_freed {p : Packet} {r : List Nat} (he : e ⊆ p.freed) (hp : p.id ∈ r) : OwnEvents e r := by
  have hform : ∀ x ∈ e, ∃ j, x = .free p.id j := by
    intro x hx
    obtain ⟨j, _, rfl⟩ := List.mem_map.1 (he hx)
    exact ⟨j, rfl⟩
  refine ⟨fun id j h => ?_, fun dma len h => ?_, fun h => ?_⟩
  · obtain ⟨i, hi⟩ := hform _ h
    cases hi
    exact hp
  · obtain ⟨i, hi⟩ := hform _ h
    cases hi
  · obtain ⟨i, hi⟩ := hform _ h
    cases hi

theorem own_maps {unmaps : List TxEvent} (r : List Nat) (hmap : ∀ e ∈ maps, ∃ dma len, e = .map dma len)
    (hunmap : ∀ e ∈ unmaps, ∃ dma len, e = .unmap dma len ∧ .map dma len ∈ maps) : OwnEvents (maps ++ unmaps) r := by
  have hform : ∀ e ∈ maps ++ unmaps, ∃ dma len, e = .map dma len ∨ e = .unmap dma len ∧ .map dma len ∈ maps := by
    intro e he
    rcases List.mem_append.1 he with he | he
    · obtain ⟨dma, len, rfl⟩ := hmap e he
      exact ⟨dma, len, Or.inl rfl⟩
    · obtain ⟨dma, len, rfl, hm⟩ := hunmap e he
      exact ⟨dma, len, Or.inr ⟨rfl, hm⟩⟩
  refine ⟨fun id j h => ?_, fun dma len h => ?_, fun h => ?_⟩
  · obtain ⟨_, _, hi | ⟨hi, _⟩⟩ := hform _ h <;> cases hi
  · obtain ⟨_, _, hi | ⟨hi, hm⟩⟩ := hform _ h
    · cases hi
    · cases hi
      exact List.mem_append_left _ hm
  · obtain ⟨_, _, hi | ⟨hi, _⟩⟩ := hform _ h <;> cases hi

theorem own_of_maps (r : List Nat) (hmap : ∀ e ∈ maps, ∃ dma len, e = .map dma len) : OwnEvents maps r := by
  have h : OwnEvents (maps ++ []) r := own_maps r hmap fun e he => absurd he List.not_mem_nil
  rwa [List.append_nil] at h

theorem mapEvents_form : ∀ {fs : List (Option U64 × U32)}, ∀ e ∈ mapEvents fs, ∃ dma len, e = .map dma len
  | [], _, h => by cases h
  | (none, _) :: _, _, h => by cases h
  | (some dma, len) :: fs, e, h => by
    rcases List.mem_cons.1 h with rfl | h
    · exact ⟨dma, len, rfl⟩
    · exact mapEvents_form e h

theorem map_mem_mapEvents (kind : SlotKind) (mapped : Bool) (id : Nat) : ∀ {fs : List (Option U64 × U32)} {j : Nat},
    ∀ p ∈ fragPieces kind mapped id j fs, .map p.dma p.len ∈ mapEvents fs
  | [], _, _, h => by cases h
  | (none, _) :: _, _, _, h => by cases h
  | (some dma, len) :: fs, j, p, h => by
    rcases List.mem_cons.1 h with rfl | h
    · exact List.mem_cons_self
    · exact List.mem_cons_of_mem _ (map_mem_mapEvents kind mapped id p h)

theorem TxPiece.unmapped_slot (p : TxPiece) (htype : type = .skb ∨ type = .frame) :
    p.slot.unmapped type = if p.kind.type = type then [.unmap p.dma p.len] else [] := by
  unfold Owed.unmapped
  rw [show p.slot.type = p.kind.type from rfl, show p.slot.gives = p.kind.gives p.dma p.len from rfl]
  by_cases h : p.kind.type = type
  · rw [if_pos h, if_pos h]
    cases hk : p.kind <;> rw [hk] at h <;> rcases htype with rfl | rfl <;> first | rfl | cases h
  · rw [if_neg h, if_neg h]

theorem unmapped_mem (htype : type = .skb ∨ type = .frame) :
    ∀ o ∈ slotsOf last ps, ∀ e ∈ o.unmapped type, ∃ p ∈ ps, e = .unmap p.dma p.len := by
  refine slotsOf_forall fun p hp => ⟨fun e he => ?_, fun e he => ?_⟩
  · rw [p.unmapped_slot htype] at he
    split at he
    · exact ⟨p, hp, List.mem_singleton.1 he⟩
    · cases he
  · unfold Owed.unmapped at he
    rcases htype with rfl | rfl <;> cases he

theorem TxRing.own_undone (h : TxRing k H t) (hfit : t.Fits ps.length) (htype : type = .skb ∨ type = .frame)
    (hmap : ∀ e ∈ maps, ∃ dma len, e = .map dma len) (hps : ∀ p ∈ ps, .map p.dma p.len ∈ maps) (r : List Nat) :
    OwnEvents (maps ++ (t.undone ps).unmapSlots type (t.undone ps).c.sdp ps.length) r := by
  refine own_maps r hmap fun e he => ?_
  rw [h.unmapSlots hfit htype] at he
  obtain ⟨o, ho, he⟩ := List.mem_flatMap.1 he
  obtain ⟨p, hp, rfl⟩ := unmapped_mem htype o (List.mem_of_mem_take ho) e he
  exact ⟨p.dma, p.len, rfl, hps p hp⟩

theorem maps_form {dma : U64} {len : U32} : ∀ e ∈ TxEvent.map dma len :: mapEvents fs, ∃ dma len, e = .map dma len := by
  intro e he
  rcases List.mem_cons.1 he with rfl | he
  · exact ⟨dma, len, rfl⟩
  · exact mapEvents_form e he

theorem startXmit_own (h : TxRing k H t) (skb : Skb) (hpad : skb.len < ethZlen → skb.padto = true) :
    OwnEvents (nfbXctrlStartXmit t skb).events (if (nfbXctrlStartXmit t skb).ret = 0 then [] else [skb.id]) := by
  have hnone : skb.padded = [] := if_neg fun hc => hc.2 (hpad hc.1)
  rcases startXmit_cases t skb with ⟨-, hret, hev, -⟩ | ⟨dma, -, hbusy, ⟨-, hr⟩ | ⟨-, hr⟩⟩
  · rw [if_neg hret]
    exact own_freed hev List.mem_cons_self
  · rw [hr, if_neg eNoMem_ne, hnone, List.nil_append]
    refine OwnEvents.append ?_ (own_freed (List.Subset.refl _) List.mem_cons_self)
    refine h.own_undone (Skb.fits hbusy dma) (Or.inl rfl) maps_form (fun p hp => ?_) _
    rcases List.mem_cons.1 hp with rfl | hp
    · exact List.mem_cons_self
    · exact List.mem_cons_of_mem _ (map_mem_mapEvents _ _ _ p hp)
  · rw [hr, if_pos rfl, hnone, List.nil_append]
    exact own_of_maps [] maps_form

theorem submitFrame_own (cfg : SgConfig) (h : TxRing k H t) (f : XdpFrame) (pp : Bool) (r : List Nat) :
    OwnEvents (nfbXctrlTxSubmitFrameNeedsLock cfg t f pp).events r := by
  rcases submitFrame_cases cfg t f pp with ⟨-, -, hev, -⟩ | ⟨dma, -, hbusy, -, ⟨-, hr⟩ | ⟨-, hr⟩⟩
  · rw [hev]
    exact own_nil r
  · rw [hr]
    cases pp with
    | true => exact own_nil r
    | false =>
      refine h.own_undone (XdpFrame.fits cfg false hbusy dma) (Or.inr rfl) maps_form (fun p hp => ?_) _
      rcases List.mem_cons.1 hp with rfl | hp
      · exact List.mem_cons_self
      · exact List.mem_cons_of_mem _ (map_mem_mapEvents _ _ _ p hp)
  · rw [hr]
    cases pp with
    | true => exact own_nil r
    | false => exact own_of_maps r maps_form

theorem xdpXmit_own (cfg : SgConfig) (r : List Nat) : ∀ (frames : List XdpFrame) {t : TxCtrl}, TxRing k H t →
    OwnEvents (nfbXctrlXdpXmit cfg t frames).2.1 r
  | [], _, _ => own_nil r
  | f :: frames, t, h => by
    have hf := submitFrame_own cfg h f false r
    rw [nfbXctrlXdpXmit]
    by_cases hret : (nfbXctrlTxSubmitFrameNeedsLock cfg t f false).ret ≠ 0
    · simp only [if_pos hret]
      exact hf
    · simp only [if_neg hret]
      exact hf.append (xdpXmit_own cfg r frames ((submitFrame_submitted cfg t f false).appended h).ring)

theorem rexmitPp_own (cfg : SgConfig) (h : TxRing k H t) (f : XdpFrame) :
    OwnEvents (nfbXctrlRexmitPp cfg t f).events (if (nfbXctrlRexmitPp cfg t f).ret = 0 then [] else [f.id]) := by
  unfold nfbXctrlRexmitPp
  by_cases hret : (nfbXctrlTxSubmitFrameNeedsLock cfg t f true).ret ≠ 0
  · simp only [if_pos hret, if_neg hret]
    exact (submitFrame_own cfg h f true _).append (own_freed (List.Subset.refl _) List.mem_cons_self)
  · simp only [if_neg hret]
    exact submitFrame_own cfg h f true _

theorem rexmitXsk_own (cfg : SgConfig) (t : TxCtrl) (xdp : XskFrags) :
    OwnEvents (nfbXctrlRexmitXsk cfg t xdp).events
      (if (nfbXctrlRexmitXsk cfg t xdp).ret = 0 then [] else xdp.1.map (·.id)) := by
  have hsub : (if cfg.afXdpSg then xdp.1 else xdp.1.take 1) ⊆ xdp.1 := by
    split
    · exact List.Subset.refl _
    · exact List.take_subset _ _
  have hfreed : ∀ {l : List XskFrag}, l ⊆ xdp.1 → OwnEvents (l.flatMap (·.packet.freed)) (xdp.1.map (·.id)) := by
    intro l
    induction l with
    | nil => exact fun _ => own_nil _
    | cons f l ih =>
      intro hl
      obtain ⟨hf, hrest⟩ := List.cons_subset.1 hl
      rw [List.flatMap_cons]
      exact OwnEvents.append (own_freed (List.Subset.refl _) (List.mem_map.2 ⟨f, hf, rfl⟩)) (ih hrest)
  unfold nfbXctrlRexmitXsk
  simp only
  generalize (if cfg.afXdpSg then xdp.1 else xdp.1.take 1) = frags at hsub ⊢
  split
  · rw [if_neg eBusy_ne]
    exact hfreed hsub
  · exact own_nil _

/-- The queue, ready for an exact reclaim. -/
structure TxOwned (k H : Nat) (t : TxCtrl) : Prop extends TxRing k H t where
  exact : Exact t.owed
  closed : Closed t.owed

theorem TxOwned.act (cfg : SgConfig) (h : TxOwned k H t) (ha : Admissible t a) (ho : Orderly t a) :
    ∃ r H', t.act cfg a = some r ∧ TxOwned k H' r.ctrl := by
  rcases act_cases cfg ha with ⟨r, hr, hs⟩ | ⟨hw, rfl⟩
  · obtain ⟨he, hc⟩ := hs.exact h.toTxRing h.exact h.closed
    exact ⟨r, H, hr, (hs.appended h.toTxRing).ring, he, hc⟩
  · have hle : t.passes hw ≤ t.owed.length := h.used ▸ ha.2
    obtain ⟨t', hrun, hr, howed, -, -⟩ := h.reclaim ha.1 hle
    have hact := congrArg (Option.map fun r : TxCtrl × List TxEvent => (⟨r.1, r.2, []⟩ : TxStep)) hrun
    refine ⟨⟨t', _, []⟩, H + t.passes hw, hact, hr, ?_, ?_⟩
    · rw [howed]
      exact h.exact.drop ho hle
    · rw [howed]
      exact h.closed.drop hle

theorem TxOwned.releases (cfg : SgConfig) (h : TxOwned k H t) (ha : Admissible t a) (ho : Orderly t a) : Releases cfg t a := by
  intro r hr
  cases a with
  | startXmit skb => cases hr; exact startXmit_own h.toTxRing skb ho
  | xdpXmit frames => cases hr; exact xdpXmit_own cfg _ frames h.toTxRing
  | rexmitPp f => cases hr; exact rexmitPp_own cfg h.toTxRing f
  | rexmitXsk xdp => cases hr; exact rexmitXsk_own cfg t xdp
  | pollTxXsk budget descs => cases hr; exact own_nil _
  | reclaim hw =>
    have hle : t.passes hw ≤ t.owed.length := h.used ▸ ha.2
    obtain ⟨t', hrun, -⟩ := h.reclaim ha.1 hle
    rw [TxCtrl.act, hrun] at hr
    cases hr
    exact (perm_given _).trans (h.exact _ hle ho)

theorem TxOwned.start {mode : XdpMode} {env : StartEnv} {nbDesc : U32} (hpos : 0 < nbDesc.toNat)
    (hs : nfbXctrlStartTx mode env nbDesc = (t, 0)) : ∃ k, TxOwned k 0 t := by
  unfold nfbXctrlStartTx at hs
  rcases hc : ncNdpCtrlStart .tx env zeroCtrl nbDesc 0 with ⟨c, ret⟩
  rw [hc] at hs
  obtain ⟨rfl, rfl⟩ := Prod.mk.inj hs
  obtain ⟨rfl, hpow⟩ := ncNdpCtrlStart_ok hc
  obtain ⟨k, -, hm⟩ := pow2_of_start hpos hpow
  have hslot : slot k 0 = 0 := Nat.zero_mod _
  exact ⟨k, ⟨⟨hm, hslot.symm, hslot.symm, by positivity, Window.nil⟩, rfl, fun _ _ ho => absurd ho List.not_mem_nil⟩,
    exact_nil, closed_nil⟩

/-- Hardware that gives no reason to fail a start. -/
def plainEnv : StartEnv := { lock := 0, running := false, mdpMax := 0xFFFF, mhpMax := 0xFFFF }

/-- An skb with one fragment. -/
def oneFragSkb : Skb :=
  { id := 7, len := 200, headlen := 100, padto := true, head := some 0x1000,
    frags := ⟨[{ map := some 0x2000, page := 0, size := 100 }], by decide⟩ }

/-- An skb that is too short, for which `skb_padto` fails. -/
def shortSkb : Skb :=
  { id := 9, len := 20, headlen := 20, padto := false, head := some 0x1000, frags := ⟨[], by decide⟩ }

/-- A frame with one fragment, mapped or of the page pool. -/
def oneFragFrame : XdpFrame :=
  { id := 8, len := 100, frameSz := 4096, headroom := 256, head := some 0x3000, page := 0x5000
    frags := ⟨[{ map := some 0x4000, page := 0x6000, size := 100 }], by decide⟩ }

/-- Three producers of a channel with page pools: a packet of the stack, a frame of another device, a frame that goes back. -/
def threeProducers : List TxAction := [.startXmit oneFragSkb, .xdpXmit [oneFragFrame], .rexmitPp oneFragFrame, .reclaim 5, .reclaim 7]

/-- Both producers of an AF_XDP channel: a buffer of two pieces that goes back, and two packets of the socket. -/
def twoProducers : List TxAction :=
  [.rexmitXsk ⟨[⟨3, 0x7000, 100⟩, ⟨4, 0x8000, 100⟩], by decide⟩, .pollTxXsk 2 [⟨0x9000, 60, true⟩, ⟨0xA000, 60, true⟩], .reclaim 5]

/-- The events of one action, if it has a result. -/
def TxCtrl.eventsOf (cfg : SgConfig) (t : TxCtrl) (a : TxAction) : Option (List TxEvent) := (t.act cfg a).map TxStep.events

theorem Releases.length_eq {cfg : SgConfig} {hw : U32} (h : Releases cfg t (.reclaim hw)) (he : t.eventsOf cfg (.reclaim hw) = some e) :
    e.length = ((t.owed.take (t.passes hw)).flatMap Owed.owes).length := by
  obtain ⟨r, hr, rfl⟩ := Option.map_eq_some_iff.1 he
  exact (h r hr).length_eq

end NdkSw.Xdp

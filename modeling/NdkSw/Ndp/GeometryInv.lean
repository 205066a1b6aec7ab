/-
Open queues refer to the ring of their channel. A resize touches the windows of its own channel only, so a channel
keeps its windows and its node of the tree while others are resized, and a queue that is opened over the current node
gets the ring that the channel has.
-/
import NdkSw.Ndp.Geometry

namespace NdkSw.Ndp.Geometry

open Nfb Ring

/-! ## Windows -/

section Windows

variable {m m' files : Registry} {c : ChannelId} {r : Region} {item : Bool} {size : U64}

theorem register_wrapped (h : (m.register item size r).1.wrapped = false) : m.wrapped = false := by
  unfold Registry.register at h
  exact (Bool.or_eq_false_iff.1 h).1

theorem register_spec (hwin : Windows m.items) {ret : Int} {offset : Option U64}
    (hr : m.register item size r = (files, ret, offset)) (hw : files.wrapped = false) :
    Windows files.items ∧ (∀ x ∈ m.items, x ∈ files.items) ∧
      (ret = 0 → ∃ o, offset = some o ∧ ⟨size, o, r⟩ ∈ files.items) := by
  unfold Registry.register at hr
  rcases hn : nfbCharRegisterMmap item size r m.items with ⟨items, ret', offset'⟩
  rw [hn] at hr
  cases hr
  have hnw : NoWrap m.items (.register size r item) := by
    have h := (Bool.or_eq_false_iff.1 hw).2
    rw [Bool.not_eq_false', decide_eq_true_iff] at h
    exact h
  unfold nfbCharRegisterMmap at hn
  by_cases h0 : size = 0
  · rw [if_pos h0] at hn
    cases hn
    exact ⟨hwin, fun x hx => hx, fun hz => absurd hz (by decide)⟩
  · rw [if_neg h0] at hn
    have hp := hwin.placed h0 hnw
    cases item with
    | true =>
      cases hn
      refine ⟨hp.windows, fun x hx => hp.perm.mem_iff.2 (List.mem_cons_of_mem _ hx), fun _ => ?_⟩
      exact ⟨_, rfl, hp.perm.mem_iff.2 List.mem_cons_self⟩
    | false =>
      cases hn
      exact ⟨hwin, fun x hx => hx, fun hz => absurd hz (by decide)⟩

theorem register_ret (hs : size ≠ 0) : (m.register true size r).2.1 = 0 := by
  unfold Registry.register nfbCharRegisterMmap
  rw [if_neg hs]
  rfl

theorem unregister_spec (hwin : Windows m.items) (offset : U64) :
    Windows (m.unregister offset).items ∧ ∀ x ∈ m.items, x.offset ≠ offset → x ∈ (m.unregister offset).items := by
  refine ⟨hwin.unregister offset, fun x hx hne => ?_⟩
  unfold Registry.unregister
  rw [nfbCharUnregisterMmap_eq hwin]
  exact List.mem_filter.2 ⟨hx, decide_eq_true hne⟩

theorem window_unique (hwin : Windows m.items) {x y : NfbCharMmapMod Region} (hx : x ∈ m.items) (hy : y ∈ m.items)
    (heq : x.offset = y.offset) : x = y := by
  refine hwin.eq_of_common hx hy (hwin.mem_range hx) ?_
  rw [heq]
  exact hwin.mem_range hy

theorem mmap_found (hwin : Windows m.items) {x : NfbCharMmapMod Region} (hx : x ∈ m.items) :
    nfbCharMmap m.items x.offset x.size = some x.mmap := by
  have h0 := hwin.nonempty x hx
  have hnw : x.offset.toNat + x.size.toNat < 2 ^ 64 := hwin.noWrap x hx
  have hself : x.Contains x.offset.toNat x.size.toNat := (NfbCharMmapMod.contains_iff h0).2 ⟨le_rfl, le_rfl⟩
  exact ((nfbCharMmap_spec hwin h0 hnw).1 x hx hself).1

end Windows

/-! ## A channel -/

/-- The node of the tree and the channel say the same about the controller. -/
def Described (card : Card) (c : ChannelId) (ch : RingChannel) (node : QueueNode) : Prop :=
  match card.kind c with
  | .medusa => node.ctrl = some (medusaProps ch) ∧ ch.hdrBufferSize = hdrArea card 4 ch.hdrCount
  | .calypteRx => node.ctrl = some (calypteRxProps ch) ∧ ch.hdrBufferSize = hdrArea card 8 ch.hdrCount
  | .calypteTx => node.ctrl = some (calypteTxProps ch) ∧ ch.hdrBufferSize = (card.hdrBuff c).setWidth 64 ∧
    ch.dataBufferSize = (card.dataBuff c).setWidth 64 ∧ ch = calypteTxMasks ch

/-- A controller that has its headers has their window, and is described by the tree. -/
structure CtrlOk (card : Card) (c : ChannelId) (s : Site) : Prop where
  both : s.ch.updateBuffer = s.ch.hdrBuffer
  hdr : s.ch.hdrBuffer = true → ∃ size, ⟨size, s.ch.hdrMmapOffset, .hdr c⟩ ∈ s.files.items
  upd : s.ch.hdrBuffer = true → card.kind c = .calypteTx → ∃ size, ⟨size, s.ch.updMmapOffset, .upd c⟩ ∈ s.files.items
  described : s.ch.hdrBuffer = true → Described card c s.ch s.node

/-- A channel with a ring has a window for it, and the tree has both. -/
structure SiteOk (card : Card) (c : ChannelId) (s : Site) : Prop where
  windows : Windows s.files.items
  ring : ∀ r, s.ch.ring = some r → ⟨2 * r.size, s.ch.mmapOffset, .ring c⟩ ∈ s.files.items ∧
    s.node.ring = some ⟨r.size, 2 * r.size, s.ch.mmapOffset⟩
  ctrl : CtrlOk card c s
  empty : s.ch.ring = none → s.ch.hdrBuffer = false

variable {card : Card} {c : ChannelId} {s : Site} {done : RingChannel → RingChannel} {props : RingChannel → CtrlProps}
  {undo : Registry → Registry}

theorem CtrlOk.of_empty (hboth : s.ch.updateBuffer = s.ch.hdrBuffer) (h : s.ch.hdrBuffer = false) : CtrlOk card c s := by
  have hno : ∀ {p : Prop}, s.ch.hdrBuffer = true → p := fun ht => by rw [h] at ht; cases ht
  exact ⟨hboth, hno, hno, hno⟩

/-- The windows of the controller. -/
def Region.Ctrl (c : ChannelId) (r : Region) : Prop := r = .hdr c ∨ r = .off c ∨ r = .upd c

/-- What an attach leaves: the ring with its window and its node, and a controller with headers or without. -/
structure Attached (card : Card) (c : ChannelId) (s : Site) (out : Site × Int) : Prop where
  windows : Windows out.1.files.items
  keeps : ∀ x ∈ s.files.items, ¬ x.mmap.Ctrl c → x ∈ out.1.files.items
  ring : out.1.ch.ring = s.ch.ring
  offset : out.1.ch.mmapOffset = s.ch.mmapOffset
  count : out.1.ch.startCount = s.ch.startCount
  node : out.1.node.ring = s.node.ring
  ctrl : CtrlOk card c out.1
  failed : out.2 ≠ 0 → out.1.ch.hdrBuffer = false

theorem Attached.from {s₁ : Site} {out : Site × Int} (h : Attached card c s₁ out)
    (hx : ∀ x ∈ s.files.items, x ∈ s₁.files.items) (hring : s₁.ch.ring = s.ch.ring)
    (hoff : s₁.ch.mmapOffset = s.ch.mmapOffset) (hcount : s₁.ch.startCount = s.ch.startCount)
    (hnode : s₁.node.ring = s.node.ring) : Attached card c s out where
  windows := h.windows
  keeps x hm hn := h.keeps x (hx x hm) hn
  ring := h.ring.trans hring
  offset := h.offset.trans hoff
  count := h.count.trans hcount
  node := h.node.trans hnode
  ctrl := h.ctrl
  failed := h.failed

theorem Attached.empty {out : Site × Int} (hwin : Windows out.1.files.items)
    (hx : ∀ x ∈ s.files.items, ¬ x.mmap.Ctrl c → x ∈ out.1.files.items) (hring : out.1.ch.ring = s.ch.ring)
    (hoff : out.1.ch.mmapOffset = s.ch.mmapOffset) (hcount : out.1.ch.startCount = s.ch.startCount)
    (hnode : out.1.node.ring = s.node.ring) (hboth : out.1.ch.updateBuffer = out.1.ch.hdrBuffer)
    (hhdr : out.1.ch.hdrBuffer = false) : Attached card c s out :=
  ⟨hwin, hx, hring, hoff, hcount, hnode, .of_empty hboth hhdr, fun _ => hhdr⟩

/-! ## Attach -/

theorem unregister_ctrl {files : Registry} (hwin : Windows files.items) {r : Region} (hr : r.Ctrl c) {size offset : U64}
    (hmem : ⟨size, offset, r⟩ ∈ files.items) :
    Windows (files.unregister offset).items ∧ ∀ x ∈ files.items, ¬ x.mmap.Ctrl c → x ∈ (files.unregister offset).items := by
  obtain ⟨hw, hk⟩ := unregister_spec hwin offset
  refine ⟨hw, fun x hx hn => hk x hx fun heq => hn ?_⟩
  rw [window_unique hwin hx hmem heq]
  exact hr

theorem attachHdr_wrapped {item : Bool} (h : (attachHdr c item done props undo s).1.files.wrapped = false)
    (hundo : ∀ m, (undo m).wrapped = m.wrapped) : (s.files.register item (2 * s.ch.hdrBufferSize) (.hdr c)).1.wrapped = false := by
  unfold attachHdr at h
  simp only at h
  split at h
  · rw [← hundo]
    exact h
  · exact h

/-- The header window comes last: with it the controller has its headers. -/
theorem attachHdr_attached {item : Bool} (hwin : Windows s.files.items) (hboth : s.ch.updateBuffer = s.ch.hdrBuffer)
    (hhdr : s.ch.hdrBuffer = false) (hdone : done = id ∨ done = calypteTxMasks) (hundo : ∀ m, (undo m).wrapped = m.wrapped)
    (hback : ∀ m, Windows m.items → (∀ x ∈ s.files.items, x ∈ m.items) → Windows (undo m).items ∧ ∀ x ∈ m.items, ¬ x.mmap.Ctrl c → x ∈ (undo m).items)
    (hupd : card.kind c = .calypteTx → ∃ size, ⟨size, s.ch.updMmapOffset, .upd c⟩ ∈ s.files.items)
    (hdesc : ∀ offset, Described card c (done { s.ch with hdrMmapOffset := offset, hdrBuffer := true, updateBuffer := true }) { s.node with ctrl := some (props (done { s.ch with hdrMmapOffset := offset, hdrBuffer := true, updateBuffer := true })) })
    (hw : (attachHdr c item done props undo s).1.files.wrapped = false) : Attached card c s (attachHdr c item done props undo s) := by
  have hwr := attachHdr_wrapped hw hundo
  rcases hr : s.files.register item (2 * s.ch.hdrBufferSize) (.hdr c) with ⟨files, ret, offset⟩
  rw [hr] at hwr
  obtain ⟨hwin', hall, hnew⟩ := register_spec hwin hr hwr
  unfold attachHdr
  rw [hr]
  simp only
  by_cases hret : ret = 0
  · obtain ⟨o, rfl, hmem⟩ := hnew hret
    rw [if_neg (not_not.2 hret)]
    have hd := hdesc o
    rcases hdone with rfl | rfl
    · refine ⟨hwin', fun x hx _ => hall x hx, rfl, rfl, rfl, rfl, ⟨rfl, fun _ => ⟨_, hmem⟩, fun _ hk => ?_, fun _ => hd⟩,
        fun hne => absurd rfl hne⟩
      obtain ⟨size, hs⟩ := hupd hk
      exact ⟨size, hall _ hs⟩
    · refine ⟨hwin', fun x hx _ => hall x hx, rfl, rfl, rfl, rfl, ⟨rfl, fun _ => ⟨_, hmem⟩, fun _ hk => ?_, fun _ => hd⟩,
        fun hne => absurd rfl hne⟩
      obtain ⟨size, hs⟩ := hupd hk
      exact ⟨size, hall _ hs⟩
  · rw [if_pos hret]
    obtain ⟨hwu, hku⟩ := hback files hwin' hall
    exact .empty hwu (fun x hx hn => hku x (hall x hx) hn) rfl rfl rfl rfl hboth hhdr

theorem medusa_wrapped (env : AttachEnv) (h : (ndpCtrlMedusaAttachRing card c env s).1.files.wrapped = false) :
    s.files.wrapped = false := by
  unfold ndpCtrlMedusaAttachRing at h
  simp only at h
  split at h
  · exact h
  split at h
  · exact h
  split at h
  · exact h
  split at h
  · exact register_wrapped h
  split at h
  · exact register_wrapped h
  · have hr := attachHdr_wrapped h fun _ => rfl
    exact register_wrapped (register_wrapped hr)

theorem medusa_attached (hkind : card.kind c = .medusa) (env : AttachEnv) (hwin : Windows s.files.items)
    (hboth : s.ch.updateBuffer = s.ch.hdrBuffer) (hhdr : s.ch.hdrBuffer = false)
    (hw : (ndpCtrlMedusaAttachRing card c env s).1.files.wrapped = false) :
    Attached card c s (ndpCtrlMedusaAttachRing card c env s) := by
  have hsame : ∀ ret, Attached card c s (s, ret) := fun ret => .empty hwin (fun x hx _ => hx) rfl rfl rfl rfl hboth hhdr
  unfold ndpCtrlMedusaAttachRing at hw ⊢
  simp only at hw ⊢
  by_cases h0 : s.ch.size = 0
  · rw [if_pos h0]
    exact hsame _
  rw [if_neg h0] at hw ⊢
  by_cases hcheck : ¬ env.check
  · rw [if_pos hcheck]
    exact hsame _
  rw [if_neg hcheck] at hw ⊢
  by_cases halloc : ¬ env.update ∨ ¬ env.desc ∨ ¬ env.off
  · rw [if_pos halloc]
    exact .empty hwin (fun x hx _ => hx) rfl rfl rfl rfl hboth hhdr
  rw [if_neg halloc] at hw ⊢
  rcases hr : s.files.register env.offItem (2 * hdrArea card 8 s.ch.bufferCount) (.off c) with ⟨files, ret, offset⟩
  rw [hr] at hw
  simp only at hw ⊢
  have hwr : files.wrapped = false := by
    split at hw
    · exact hw
    split at hw
    · exact hw
    · have hr' := attachHdr_wrapped hw fun _ => rfl
      exact register_wrapped hr'
  obtain ⟨hwin', hall, hnew⟩ := register_spec hwin hr hwr
  by_cases hret : ret = 0
  swap
  · rw [if_pos hret]
    exact .empty hwin' (fun x hx _ => hall x hx) rfl rfl rfl rfl hboth hhdr
  rw [if_neg (not_not.2 hret)] at hw ⊢
  obtain ⟨o, rfl, hmem⟩ := hnew hret
  have hoff : (Region.off c).Ctrl c := Or.inr (Or.inl rfl)
  by_cases hh : ¬ env.hdr
  · rw [if_pos hh]
    obtain ⟨hwu, hku⟩ := unregister_ctrl hwin' hoff hmem
    exact .empty hwu (fun x hx hn => hku x (hall x hx) hn) rfl rfl rfl rfl hboth hhdr
  rw [if_neg hh] at hw ⊢
  refine Attached.from (attachHdr_attached hwin' hboth hhdr (Or.inl rfl) (fun _ => rfl) (fun m hm hx => ?_) (fun hk => ?_)
    (fun offset => ?_) hw) hall rfl rfl rfl rfl
  · exact unregister_ctrl hm hoff (hx _ hmem)
  · rw [hkind] at hk
    cases hk
  · unfold Described
    rw [hkind]
    exact ⟨rfl, rfl⟩

theorem calypteRx_wrapped (env : AttachEnv) (h : (ndpCtrlRxCalypteAttachRing card c env s).1.files.wrapped = false) :
    s.files.wrapped = false := by
  unfold ndpCtrlRxCalypteAttachRing at h
  split at h
  · exact h
  split at h
  · exact h
  split at h
  · exact h
  simp only at h
  split at h
  · exact h
  split at h
  · exact h
  split at h
  · exact h
  · have hr := attachHdr_wrapped h fun _ => rfl
    exact register_wrapped hr

theorem calypteRx_attached (hkind : card.kind c = .calypteRx) (env : AttachEnv) (hwin : Windows s.files.items)
    (hboth : s.ch.updateBuffer = s.ch.hdrBuffer) (hhdr : s.ch.hdrBuffer = false)
    (hw : (ndpCtrlRxCalypteAttachRing card c env s).1.files.wrapped = false) :
    Attached card c s (ndpCtrlRxCalypteAttachRing card c env s) := by
  have hsame : ∀ ret, Attached card c s (s, ret) := fun ret => .empty hwin (fun x hx _ => hx) rfl rfl rfl rfl hboth hhdr
  unfold ndpCtrlRxCalypteAttachRing at hw ⊢
  rcases hring : s.ch.ring with _ | r
  · exact hsame _
  rw [hring] at hw
  simp only at hw ⊢
  by_cases h0 : r.size = 0
  · rw [if_pos h0]
    exact hsame _
  rw [if_neg h0] at hw ⊢
  by_cases h1 : r.blockCount ≠ 1
  · rw [if_pos h1]
    exact hsame _
  rw [if_neg h1] at hw ⊢
  split
  · exact .empty hwin (fun x hx _ => hx) rfl rfl rfl rfl hboth hhdr
  rename_i hsmall
  rw [if_neg hsmall] at hw
  split
  · exact .empty hwin (fun x hx _ => hx) rfl rfl rfl rfl hboth hhdr
  rename_i hupd
  rw [if_neg hupd] at hw
  split
  · exact .empty hwin (fun x hx _ => hx) rfl rfl rfl rfl hboth hhdr
  rename_i hh
  rw [if_neg hh] at hw
  refine Attached.from (attachHdr_attached hwin hboth hhdr (Or.inl rfl) (fun _ => rfl) (fun m hm _ => ?_) (fun hk => ?_)
    (fun offset => ?_) hw) (fun x hx => hx) rfl rfl rfl rfl
  · exact ⟨hm, fun x hx _ => hx⟩
  · rw [hkind] at hk
    cases hk
  · unfold Described
    rw [hkind]
    exact ⟨rfl, rfl⟩

theorem align_ne_zero (card : Card) : align card.pageSize 4 ≠ 0 := by
  have hpos := card.pageSize_pos
  have hlt := card.pageSize_lt
  intro h
  have hnat := congrArg BitVec.toNat h
  have h4 : (4 : U64).toNat = 4 := rfl
  have h1 : (1 : U64).toNat = 1 := rfl
  have hpage : (card.pageSize - 1).toNat = card.pageSize.toNat - 1 := by
    rw [BitVec.toNat_sub_of_le (BitVec.le_def.2 (by rw [h1]; omega)), h1]
  have hsum : (4 + (card.pageSize - 1)).toNat = card.pageSize.toNat + 3 := by
    rw [BitVec.toNat_add, hpage, h4]
    omega
  have hdiv : 1 ≤ (card.pageSize.toNat + 3) / card.pageSize.toNat := (Nat.one_le_div_iff hpos).2 (by omega)
  have hle : (card.pageSize.toNat + 3) / card.pageSize.toNat * card.pageSize.toNat ≤ card.pageSize.toNat + 3 :=
    Nat.div_mul_le_self _ _
  have hge := Nat.mul_le_mul_right card.pageSize.toNat hdiv
  unfold align at hnat
  rw [BitVec.toNat_mul, BitVec.toNat_udiv, hsum, Nat.mod_eq_of_lt (by omega)] at hnat
  have hz : (0 : U64).toNat = 0 := rfl
  rw [hz] at hnat
  omega

theorem calypteTx_wrapped (env : AttachEnv) (h : (ndpCtrlTxCalypteAttachRing card c env s).1.files.wrapped = false) :
    s.files.wrapped = false := by
  unfold ndpCtrlTxCalypteAttachRing at h
  simp only at h
  split at h
  · exact h
  split at h
  · exact h
  split at h
  · exact register_wrapped h
  split at h
  · exact register_wrapped h
  · have hr := attachHdr_wrapped h fun _ => rfl
    exact register_wrapped (register_wrapped hr)

/-- The update window of the channel is registered, and the headers follow it. -/
theorem calypteTx_attached (hkind : card.kind c = .calypteTx) {env : AttachEnv} (hitem : env.updItem = true)
    (hwin : Windows s.files.items) (hboth : s.ch.updateBuffer = s.ch.hdrBuffer) (hhdr : s.ch.hdrBuffer = false)
    (hw : (ndpCtrlTxCalypteAttachRing card c env s).1.files.wrapped = false) :
    Attached card c s (ndpCtrlTxCalypteAttachRing card c env s) := by
  have hsame : ∀ ret, Attached card c s (s, ret) := fun ret => .empty hwin (fun x hx _ => hx) rfl rfl rfl rfl hboth hhdr
  unfold ndpCtrlTxCalypteAttachRing at hw ⊢
  simp only at hw ⊢
  by_cases hcheck : ¬ env.check
  · rw [if_pos hcheck]
    exact hsame _
  rw [if_neg hcheck] at hw ⊢
  by_cases hupd : ¬ env.update
  · rw [if_pos hupd]
    exact .empty hwin (fun x hx _ => hx) rfl rfl rfl rfl hboth hhdr
  rw [if_neg hupd] at hw ⊢
  have hok : (s.files.register env.updItem (align card.pageSize 4) (.upd c)).2.1 = 0 := by
    rw [hitem]
    exact register_ret (align_ne_zero card)
  rcases hr : s.files.register env.updItem (align card.pageSize 4) (.upd c) with ⟨files, ret, offset⟩
  rw [hr] at hw hok
  simp only at hw hok ⊢
  rw [if_neg (not_not.2 hok)] at hw ⊢
  have hwr : files.wrapped = false := by
    split at hw
    · exact hw
    · have hr' := attachHdr_wrapped hw fun _ => rfl
      exact register_wrapped hr'
  obtain ⟨hwin', hall, hnew⟩ := register_spec hwin hr hwr
  obtain ⟨o, rfl, hmem⟩ := hnew hok
  by_cases hh : ¬ env.hdr
  · rw [if_pos hh]
    exact .empty hwin' (fun x hx _ => hall x hx) rfl rfl rfl rfl hboth hhdr
  rw [if_neg hh] at hw ⊢
  refine Attached.from (attachHdr_attached hwin' hboth hhdr (Or.inr rfl) (fun _ => rfl) (fun m hm _ => ?_) (fun _ => ?_)
    (fun offset => ?_) hw) hall rfl rfl rfl rfl
  · exact ⟨hm, fun x hx _ => hx⟩
  · exact ⟨_, hmem⟩
  · unfold Described
    rw [hkind]
    exact ⟨rfl, rfl, rfl, rfl⟩

theorem attachRing_wrapped (env : AttachEnv) (h : (attachRing card c env s).1.files.wrapped = false) :
    s.files.wrapped = false := by
  unfold attachRing at h
  split at h
  · exact medusa_wrapped env h
  · exact calypteRx_wrapped env h
  · exact calypteTx_wrapped env h

theorem attachRing_attached {env : AttachEnv} (hitem : card.kind c = .calypteTx → env.updItem = true)
    (hwin : Windows s.files.items) (hboth : s.ch.updateBuffer = s.ch.hdrBuffer) (hhdr : s.ch.hdrBuffer = false)
    (hw : (attachRing card c env s).1.files.wrapped = false) : Attached card c s (attachRing card c env s) := by
  unfold attachRing at hw ⊢
  cases hkind : card.kind c with
  | medusa =>
    simp only [hkind] at hw
    exact medusa_attached hkind env hwin hboth hhdr hw
  | calypteRx =>
    simp only [hkind] at hw
    exact calypteRx_attached hkind env hwin hboth hhdr hw
  | calypteTx =>
    simp only [hkind] at hw
    exact calypteTx_attached hkind (hitem hkind) hwin hboth hhdr hw

/-! ## Rings -/

/-- What calls on one channel leave: that channel in order, and the windows of all others. -/
structure Resized (card : Card) (c : ChannelId) (s s' : Site) : Prop where
  ok : SiteOk card c s'
  others : ∀ x ∈ s.files.items, x.mmap.owner ≠ some c → x ∈ s'.files.items
  count : s'.ch.startCount = s.ch.startCount

theorem Resized.trans {s₁ s₂ : Site} (h : Resized card c s s₁) (h' : Resized card c s₁ s₂) : Resized card c s s₂ :=
  ⟨h'.ok, fun x hx hn => h'.others x (h.others x hx hn) hn, h'.count.trans h.count⟩

theorem Region.Ctrl.owner {r : Region} (h : r.Ctrl c) : r.owner = some c := by
  rcases h with rfl | rfl | rfl
  · rfl
  · rfl
  · rfl

theorem unregister_others {m : Registry} (hwin : Windows m.items) {offset : U64} (hown : Own m.items c offset) :
    Windows (m.unregister offset).items ∧
      ∀ x ∈ m.items, x.mmap.owner ≠ some c → x ∈ (m.unregister offset).items := by
  obtain ⟨hw, hk⟩ := unregister_spec hwin offset
  exact ⟨hw, fun x hx hn => hk x hx fun heq => hn (hown x hx heq)⟩

theorem own_of_mem {m : Registry} (hwin : Windows m.items) {size offset : U64} {r : Region} (hr : r.owner = some c)
    (hmem : ⟨size, offset, r⟩ ∈ m.items) : Own m.items c offset := by
  intro x hx heq
  rw [window_unique hwin hx hmem heq]
  exact hr

theorem SiteOk.free {s' : Site} (hwin : Windows s'.files.items) (hnone : s'.ch.ring = none)
    (hboth : s'.ch.updateBuffer = s'.ch.hdrBuffer) (hhdr : s'.ch.hdrBuffer = false) : SiteOk card c s' := by
  refine ⟨hwin, fun r hr => ?_, .of_empty hboth hhdr, fun _ => hhdr⟩
  rw [hnone] at hr
  cases hr

theorem create_wrapped (env : CreateRingEnv) (blockCount blockSize : U64)
    (h : (ndpChannelRingCreate card c env blockCount blockSize s).1.files.wrapped = false) : s.files.wrapped = false := by
  unfold ndpChannelRingCreate at h
  split at h
  · exact h
  split at h
  · exact h
  simp only at h
  split at h
  · exact register_wrapped h
  split at h
  · have hr := attachRing_wrapped env.attach h
    exact register_wrapped hr
  · have hr := attachRing_wrapped env.attach h
    exact register_wrapped hr

theorem create_failed (env : CreateRingEnv) (blockCount blockSize : U64)
    (h : (ndpChannelRingCreate card c env blockCount blockSize s).2 ≠ 0) :
    (ndpChannelRingCreate card c env blockCount blockSize s).1.ch.ring = none := by
  unfold ndpChannelRingCreate at h ⊢
  split at h
  · exact absurd rfl h
  rename_i h0
  rw [if_neg h0]
  split at h
  · rename_i halloc
    rw [if_pos halloc]
    rfl
  rename_i halloc
  rw [if_neg halloc]
  simp only at h ⊢
  split at h
  · rename_i hret
    rw [if_pos hret]
    rfl
  rename_i hret
  rw [if_neg hret]
  split at h
  · rename_i hatt
    rw [if_pos hatt]
    rfl
  · exact absurd rfl h

theorem create_resized {env : CreateRingEnv} {blockCount blockSize : U64} (hok : SiteOk card c s) (hnone : s.ch.ring = none)
    (hitem : card.kind c = .calypteTx → env.attach.updItem = true)
    (hw : (ndpChannelRingCreate card c env blockCount blockSize s).1.files.wrapped = false) :
    Resized card c s (ndpChannelRingCreate card c env blockCount blockSize s).1 := by
  have hhdr := hok.empty hnone
  have hboth := hok.ctrl.both
  unfold ndpChannelRingCreate at hw ⊢
  by_cases h0 : blockCount = 0
  · rw [if_pos h0]
    exact ⟨hok, fun x hx _ => hx, rfl⟩
  rw [if_neg h0] at hw ⊢
  by_cases halloc : blockCount.setWidth 32 = (0 : U32) ∨ blockSize = 0 ∨ ¬ env.alloc
  · rw [if_pos halloc]
    exact ⟨.free hok.windows rfl hboth hhdr, fun x hx _ => hx, rfl⟩
  rw [if_neg halloc] at hw ⊢
  simp only at hw ⊢
  rcases hr : s.files.register env.item (2 * RingChannel.size { s.ch with ring := some ⟨s.next, blockCount, blockSize⟩ })
    (.ring c) with ⟨files, ret, offset⟩
  rw [hr] at hw
  simp only at hw ⊢
  have hwr : files.wrapped = false := by
    split at hw
    · exact hw
    split at hw
    · exact attachRing_wrapped env.attach hw
    · exact attachRing_wrapped env.attach hw
  obtain ⟨hwin', hall, hnew⟩ := register_spec hok.windows hr hwr
  by_cases hret : ret = 0
  swap
  · -- the space has no window left for the ring
    rw [if_pos hret]
    exact ⟨.free hwin' rfl hboth hhdr, fun x hx _ => hall x hx, rfl⟩
  rw [if_neg (not_not.2 hret)] at hw ⊢
  obtain ⟨o, rfl, hmem⟩ := hnew hret
  generalize hs₁ : ndpChannelUpdateFdt _ = s₁ at hw ⊢
  have hnode : s₁.node.ring = some ⟨s₁.ch.size, 2 * s₁.ch.size, s₁.ch.mmapOffset⟩ := by rw [← hs₁]; rfl
  have hring₁ : s₁.ch.ring = some ⟨s.next, blockCount, blockSize⟩ := by rw [← hs₁]; rfl
  have hoff : s₁.ch.mmapOffset = o := by rw [← hs₁]; rfl
  have hcount : s₁.ch.startCount = s.ch.startCount := by rw [← hs₁]; rfl
  have hfiles : s₁.files = files := by rw [← hs₁]; rfl
  have hboth₁ : s₁.ch.updateBuffer = s₁.ch.hdrBuffer := by rw [← hs₁]; exact hboth
  have hhdr₁ : s₁.ch.hdrBuffer = false := by rw [← hs₁]; exact hhdr
  clear hs₁
  subst hfiles
  rcases ha : attachRing card c env.attach s₁ with ⟨s₂, ret₂⟩
  rw [ha] at hw
  simp only at hw ⊢
  have hw₂ : (attachRing card c env.attach s₁).1.files.wrapped = false := by
    rw [ha]
    split at hw
    · exact hw
    · exact hw
  have hatt := attachRing_attached hitem hwin' hboth₁ hhdr₁ hw₂
  rw [ha] at hatt
  have hothers : ∀ x ∈ s.files.items, x.mmap.owner ≠ some c → x ∈ s₂.files.items :=
    fun x hx hn => hatt.keeps x (hall x hx) fun hc => hn hc.owner
  have hring₂ : ⟨2 * s₁.ch.size, o, .ring c⟩ ∈ s₂.files.items := by
    refine hatt.keeps _ ?_ ?_
    · unfold RingChannel.size
      rw [hring₁]
      exact hmem
    · rintro (h | h | h) <;> cases h
  by_cases hret₂ : ret₂ = 0
  · rw [if_neg (not_not.2 hret₂)]
    refine ⟨⟨hatt.windows, fun r hr => ?_, hatt.ctrl, fun hnone => ?_⟩, hothers, hatt.count.trans hcount⟩
    · have hr₁ : s₁.ch.ring = some r := hatt.ring.symm.trans hr
      have hsize : s₁.ch.size = r.size := by
        unfold RingChannel.size
        rw [hr₁]
        rfl
      have hoff₂ : s₂.ch.mmapOffset = o := hatt.offset.trans hoff
      constructor
      · rw [hoff₂, ← hsize]
        exact hring₂
      · rw [hatt.offset, hatt.node, hnode, hsize]
    · rw [hatt.ring, hring₁] at hnone
      cases hnone
  · -- the controller is not attached, and the window is given back
    rw [if_pos hret₂]
    have hoff₂ : s₂.ch.mmapOffset = o := hatt.offset.trans hoff
    obtain ⟨hwu, hku⟩ := unregister_others hatt.windows (own_of_mem hatt.windows rfl hring₂)
    rw [hoff₂]
    refine ⟨.free hwu rfl hatt.ctrl.both (hatt.failed hret₂), fun x hx hn => ?_, hatt.count.trans hcount⟩
    exact hku x (hothers x hx hn) hn

theorem detachHdr_resized (hwin : Windows s.files.items) (hctrl : CtrlOk card c s) :
    Windows (detachHdr s).files.items ∧ (∀ x ∈ s.files.items, x.mmap.owner ≠ some c → x ∈ (detachHdr s).files.items) ∧
      (∀ x ∈ s.files.items, x.mmap = .upd c → x ∈ (detachHdr s).files.items) ∧
      (detachHdr s).ch = { s.ch with hdrBuffer := false } := by
  unfold detachHdr
  cases hh : s.ch.hdrBuffer with
  | false =>
    rw [if_neg Bool.false_ne_true]
    refine ⟨hwin, fun x hx _ => hx, fun x hx _ => hx, ?_⟩
    rw [← hh]
  | true =>
    obtain ⟨size, hmem⟩ := hctrl.hdr hh
    obtain ⟨hwu, hku⟩ := unregister_others hwin (own_of_mem hwin rfl hmem)
    rw [if_pos rfl]
    refine ⟨hwu, hku, fun x hx hu => ?_, rfl⟩
    refine (unregister_spec hwin _).2 x hx fun heq => ?_
    rw [window_unique hwin hx hmem heq] at hu
    cases hu

theorem detachHdr_wrapped : (detachHdr s).files.wrapped = s.files.wrapped := by
  unfold detachHdr
  split
  · rfl
  · rfl

theorem own_upd (hwin : Windows s.files.items) (hctrl : CtrlOk card c s) (hkind : card.kind c ≠ .medusa)
    (hrx : card.kind c = .calypteRx → s.ch.updateBuffer = true → Own s.files.items c s.ch.updMmapOffset)
    (hupd : s.ch.updateBuffer = true) : Own s.files.items c s.ch.updMmapOffset := by
  cases hk : card.kind c with
  | medusa => exact absurd hk hkind
  | calypteRx => exact hrx hk hupd
  | calypteTx =>
    obtain ⟨size, hmem⟩ := hctrl.upd (hctrl.both ▸ hupd) hk
    exact own_of_mem hwin rfl hmem

/-- A detach takes the windows of the channel away, and leaves its controller without buffers. -/
theorem detachRing_spec (hwin : Windows s.files.items) (hctrl : CtrlOk card c s)
    (hrx : card.kind c = .calypteRx → s.ch.updateBuffer = true → Own s.files.items c s.ch.updMmapOffset) :
    Windows (detachRing card c s).files.items ∧
      (∀ x ∈ s.files.items, x.mmap.owner ≠ some c → x ∈ (detachRing card c s).files.items) ∧
      (detachRing card c s).ch = { s.ch with hdrBuffer := false, updateBuffer := false } ∧
      (detachRing card c s).files.wrapped = s.files.wrapped := by
  obtain ⟨hwh, hoh, huh, hch⟩ := detachHdr_resized hwin hctrl
  have hcalypte : card.kind c ≠ .medusa → Windows (ndpCtrlCalypteDetachRing s).files.items ∧
      (∀ x ∈ s.files.items, x.mmap.owner ≠ some c → x ∈ (ndpCtrlCalypteDetachRing s).files.items) ∧
      (ndpCtrlCalypteDetachRing s).ch = { s.ch with hdrBuffer := false, updateBuffer := false } ∧
      (ndpCtrlCalypteDetachRing s).files.wrapped = s.files.wrapped := by
    intro hkind
    unfold ndpCtrlCalypteDetachRing
    simp only [hch]
    cases hu : s.ch.updateBuffer with
    | false =>
      rw [if_neg Bool.false_ne_true, hch, ← hu]
      exact ⟨hwh, hoh, rfl, detachHdr_wrapped⟩
    | true =>
      rw [if_pos rfl]
      have hown := own_upd hwin hctrl hkind hrx hu
      -- what the detach of the headers leaves at the offset was there before
      have hown' : Own (detachHdr s).files.items c s.ch.updMmapOffset := by
        intro x hx heq
        refine hown x ?_ heq
        unfold detachHdr at hx
        split at hx
        · unfold Registry.unregister at hx
          rw [nfbCharUnregisterMmap_eq hwin] at hx
          exact List.mem_of_mem_filter hx
        · exact hx
      obtain ⟨hwu, hku⟩ := unregister_others hwh hown'
      exact ⟨hwu, fun x hx hn => hku x (hoh x hx hn) hn, rfl, detachHdr_wrapped⟩
  unfold detachRing
  cases hkind : card.kind c with
  | medusa =>
    unfold ndpCtrlMedusaDetachRing
    simp only [hch]
    exact ⟨hwh, hoh, trivial, detachHdr_wrapped⟩
  | calypteRx => exact hcalypte (by rw [hkind]; decide)
  | calypteTx => exact hcalypte (by rw [hkind]; decide)

theorem SiteOk.size_ne_zero (hok : SiteOk card c s) {r : RingBlocks} (hr : s.ch.ring = some r) : s.ch.size ≠ 0 := by
  intro h0
  have hpos := hok.windows.nonempty _ (hok.ring r hr).1
  have hsize : r.size = 0 := by
    unfold RingChannel.size at h0
    rw [hr] at h0
    exact h0
  rw [hsize] at hpos
  exact Nat.lt_irrefl 0 hpos

/-- A destroy takes the ring and the windows of the channel away. -/
theorem destroy_resized (hok : SiteOk card c s)
    (hrx : card.kind c = .calypteRx → s.ch.updateBuffer = true → Own s.files.items c s.ch.updMmapOffset) :
    Resized card c s (ndpChannelRingDestroy card c s) ∧ (ndpChannelRingDestroy card c s).ch.ring = none ∧
      (ndpChannelRingDestroy card c s).files.wrapped = s.files.wrapped := by
  unfold ndpChannelRingDestroy
  cases hring : s.ch.ring with
  | none =>
    have h0 : s.ch.size = 0 := by
      unfold RingChannel.size
      rw [hring]
      rfl
    rw [if_pos h0]
    exact ⟨⟨hok, fun x hx _ => hx, rfl⟩, hring, rfl⟩
  | some r =>
    rw [if_neg (hok.size_ne_zero hring)]
    have hmem := (hok.ring r hring).1
    obtain ⟨hwu, hku⟩ := unregister_spec hok.windows s.ch.mmapOffset
    have hother : ∀ x ∈ s.files.items, x.mmap ≠ .ring c → x ∈ (s.files.unregister s.ch.mmapOffset).items := by
      intro x hx hne
      refine hku x hx fun heq => hne ?_
      rw [window_unique hok.windows hx hmem heq]
    have hctrl : CtrlOk card c { s with files := s.files.unregister s.ch.mmapOffset } := by
      refine ⟨hok.ctrl.both, fun hh => ?_, fun hh hk => ?_, hok.ctrl.described⟩
      · obtain ⟨size, hx⟩ := hok.ctrl.hdr hh
        exact ⟨size, hother _ hx (by intro h; cases h)⟩
      · obtain ⟨size, hx⟩ := hok.ctrl.upd hh hk
        exact ⟨size, hother _ hx (by intro h; cases h)⟩
    have hrx' : card.kind c = .calypteRx → s.ch.updateBuffer = true →
        Own (s.files.unregister s.ch.mmapOffset).items c s.ch.updMmapOffset := by
      intro hk hu x hx heq
      refine hrx hk hu x ?_ heq
      unfold Registry.unregister at hx
      rw [nfbCharUnregisterMmap_eq hok.windows] at hx
      exact List.mem_of_mem_filter hx
    obtain ⟨hwd, hod, hch, hwr⟩ := detachRing_spec (s := { s with files := s.files.unregister s.ch.mmapOffset }) hwu hctrl hrx'
    refine ⟨⟨.free hwd rfl ?_ ?_, fun x hx hn => ?_, ?_⟩, rfl, hwr⟩
    · show (detachRing card c _).ch.updateBuffer = (detachRing card c _).ch.hdrBuffer
      rw [hch]
    · show (detachRing card c _).ch.hdrBuffer = false
      rw [hch]
    · refine hod x (hother x hx fun h => hn ?_) hn
      rw [h]
      rfl
    · show (detachRing card c _).ch.startCount = s.ch.startCount
      rw [hch]

theorem SiteOk.setCounts (hok : SiteOk card c s) (n : U32) (k : Nat) :
    SiteOk card c { s with ch := { s.ch with bufferCount := n, startCount := k } } := by
  refine ⟨hok.windows, hok.ring, ⟨hok.ctrl.both, hok.ctrl.hdr, hok.ctrl.upd, fun hh => ?_⟩, hok.empty⟩
  have hd := hok.ctrl.described hh
  unfold Described at hd ⊢
  cases hkind : card.kind c with
  | medusa =>
    simp only [hkind] at hd
    exact hd
  | calypteRx =>
    simp only [hkind] at hd
    exact hd
  | calypteTx =>
    simp only [hkind] at hd
    obtain ⟨hctrl, hhdr, hdata, hmasks⟩ := hd
    refine ⟨hctrl, hhdr, hdata, ?_⟩
    have hset := congrArg (fun ch : RingChannel => { ch with bufferCount := n, startCount := k }) hmasks
    exact hset

/-- A resize that is carried out. -/
theorem resize_resized {env : ResizeRingEnv} {req : Request} (hok : SiteOk card c s)
    (hrx : card.kind c = .calypteRx → s.ch.updateBuffer = true → Own s.files.items c s.ch.updMmapOffset)
    (hitem : card.kind c = .calypteTx → env.new.attach.updItem = true ∧ env.old.attach.updItem = true)
    (hw : (ndpChannelRingResize card c env req s).1.files.wrapped = false) :
    Resized card c s (ndpChannelRingResize card c env req s).1 := by
  have hok₀ := hok.setCounts req.bufferCount s.ch.startCount
  unfold ndpChannelRingResize at hw ⊢
  simp only at hw ⊢
  by_cases hstart : s.ch.startCount ≠ 0
  · rw [if_pos hstart]
    exact ⟨hok₀, fun x hx _ => hx, rfl⟩
  rw [if_neg hstart] at hw ⊢
  obtain ⟨hdes, hnone, -⟩ := destroy_resized hok₀ hrx
  generalize hs₁ : ndpChannelRingDestroy card c _ = s₁ at hw hdes hnone ⊢
  have hdes' : Resized card c s s₁ := ⟨hdes.ok, hdes.others, hdes.count⟩
  clear hdes hs₁
  rcases hc : ndpChannelRingCreate card c env.new req.blockCount req.blockSize s₁ with ⟨s₂, ret⟩
  rw [hc] at hw
  simp only at hw ⊢
  have hcreate : s₂.files.wrapped = false → Resized card c s s₂ := by
    intro hw₂
    have hw' : (ndpChannelRingCreate card c env.new req.blockCount req.blockSize s₁).1.files.wrapped = false := by
      rw [hc]
      exact hw₂
    have hres := create_resized hdes'.ok hnone (fun hk => (hitem hk).1) hw'
    rw [hc] at hres
    exact hdes'.trans hres
  by_cases hret : ret = 0
  · rw [if_pos hret] at hw ⊢
    exact hcreate hw
  rw [if_neg hret] at hw ⊢
  have hnone₂ : s₂.ch.ring = none := by
    have hfail := create_failed env.new req.blockCount req.blockSize (by rw [hc]; exact hret)
    rw [hc] at hfail
    exact hfail
  cases hring : s.ch.ring with
  | none =>
    rw [hring] at hw
    exact hcreate hw
  | some r =>
    rw [hring] at hw
    simp only at hw ⊢
    by_cases hcount : r.blockCount ≠ 0
    · rw [if_pos hcount] at hw ⊢
      have hres := hcreate (create_wrapped env.old r.blockCount r.blockSize hw)
      exact hres.trans (create_resized hres.ok hnone₂ (fun hk => (hitem hk).2) hw)
    · rw [if_neg hcount] at hw ⊢
      exact hcreate hw

/-! ## The device -/

/-- Every channel is in order, and every open queue refers to its ring. -/
structure WorldOk (card : Card) (w : World) : Prop where
  sites : ∀ c, SiteOk card c (w.site c)
  queues : ∀ q ∈ w.queues, Refers card w q

variable {w : World} {q : RingQueue} {env : QueueEnv} {d : ChannelId}

theorem SiteOk.other (hok : SiteOk card d s) (hd : d ≠ c) {files : Registry} {next : Nat} (hwin : Windows files.items)
    (hothers : ∀ x ∈ s.files.items, x.mmap.owner ≠ some c → x ∈ files.items) : SiteOk card d { s with files, next } := by
  have hne : some d ≠ some c := fun h => hd (Option.some.inj h)
  refine ⟨hwin, fun r hr => ?_, ⟨hok.ctrl.both, fun hh => ?_, fun hh hk => ?_, hok.ctrl.described⟩, hok.empty⟩
  · obtain ⟨hmem, hnode⟩ := hok.ring r hr
    exact ⟨hothers _ hmem hne, hnode⟩
  · obtain ⟨size, hmem⟩ := hok.ctrl.hdr hh
    exact ⟨size, hothers _ hmem hne⟩
  · obtain ⟨size, hmem⟩ := hok.ctrl.upd hh hk
    exact ⟨size, hothers _ hmem hne⟩

theorem site_put_self (w : World) (c : ChannelId) (s : Site) : (w.put c s).site c = s := by
  unfold World.put World.site
  simp

theorem site_put_of_ne (w : World) (hd : d ≠ c) (s : Site) : (w.put c s).site d = { w.site d with files := s.files, next := s.next } := by
  unfold World.put World.site
  simp [hd]

theorem put_ch_of_ne (w : World) (hd : d ≠ c) (s : Site) : (w.put c s).ch d = w.ch d :=
  Function.update_of_ne hd ..

theorem Refers.congr {w' : World} (h : Refers card w q) (hring : (w'.ch q.channel).ring = (w.ch q.channel).ring)
    (hcount : (w'.ch q.channel).hdrCount = (w.ch q.channel).hdrCount) (hmhp : (w'.ch q.channel).mhp = (w.ch q.channel).mhp)
    (hmdp : (w'.ch q.channel).mdp = (w.ch q.channel).mdp) : Refers card w' q := by
  refine ⟨?_, ?_⟩
  · rw [hring]
    exact h.ring
  · rw [hcount, hmhp, hmdp]
    exact h.hdrs

theorem WorldOk.put (h : WorldOk card w) (hres : Resized card c (w.site c) s) (hqueues : ∀ q ∈ w.queues, Refers card (w.put c s) q) :
    WorldOk card (w.put c s) := by
  refine ⟨fun d => ?_, hqueues⟩
  by_cases hd : d = c
  · subst hd
    rw [site_put_self]
    exact hres.ok
  · rw [site_put_of_ne w hd]
    exact (h.sites d).other hd hres.ok.windows hres.others

theorem WorldOk.resize (h : WorldOk card w) {req : Request} {env : ResizeRingEnv}
    (hk : GeoKeeps card w (.resize c req env)) : WorldOk card (geoStep card w (.resize c req env)) := by
  rcases hk with hstart | ⟨hno, hrx, hitem, hw⟩
  · -- a refused resize has stored its request
    have hbusy : (ndpChannelRingResize card c env req (w.site c)).1 =
        { w.site c with ch := { w.ch c with bufferCount := req.bufferCount } } := by
      unfold ndpChannelRingResize
      have hs : (w.site c).ch.startCount ≠ 0 := hstart
      simp only [if_pos hs]
      rfl
    show WorldOk card (w.put c _)
    rw [hbusy]
    refine h.put ⟨(h.sites c).setCounts req.bufferCount _, fun x hx _ => hx, rfl⟩ fun q hq => ?_
    by_cases hc : q.channel = c
    · have hch : (w.put c { w.site c with ch := { w.ch c with bufferCount := req.bufferCount } }).ch q.channel =
          { w.ch q.channel with bufferCount := req.bufferCount } := by
        rw [hc]
        exact Function.update_self ..
      refine (h.queues q hq).congr ?_ ?_ ?_ ?_
      · rw [hch]
      · rw [hch]
      · rw [hch]
      · rw [hch]
    · have hch := put_ch_of_ne w hc { w.site c with ch := { w.ch c with bufferCount := req.bufferCount } }
      refine (h.queues q hq).congr ?_ ?_ ?_ ?_
      · rw [hch]
      · rw [hch]
      · rw [hch]
      · rw [hch]
  · have hres := resize_resized (h.sites c) hrx hitem hw
    refine h.put hres fun q hq => ?_
    have hch := put_ch_of_ne w (hno q hq) (ndpChannelRingResize card c env req (w.site c)).1
    refine (h.queues q hq).congr ?_ ?_ ?_ ?_
    · rw [hch]
    · rw [hch]
    · rw [hch]
    · rw [hch]

/-! ## Queues -/

theorem WorldOk.setRunning (h : WorldOk card w) {k : Nat} (hq : w.queues[k]? = some q) (running : Bool) (count : Nat → Nat) :
    WorldOk card (w.setRunning k q running count) := by
  have hsame : ∀ d, ∃ n, (w.setRunning k q running count).ch d = { w.ch d with startCount := n } := by
    intro d
    by_cases hd : d = q.channel
    · subst hd
      exact ⟨_, Function.update_self ..⟩
    · exact ⟨(w.ch d).startCount, Function.update_of_ne hd ..⟩
  have hrefers : ∀ p, Refers card w p → Refers card (w.setRunning k q running count) p := by
    intro p hp
    obtain ⟨n, hn⟩ := hsame p.channel
    refine hp.congr ?_ ?_ ?_ ?_
    · rw [hn]
    · rw [hn]
    · rw [hn]
    · rw [hn]
  refine ⟨fun d => ?_, fun p hp => ?_⟩
  · obtain ⟨n, hn⟩ := hsame d
    have hsite : (w.setRunning k q running count).site d = { w.site d with ch := { w.ch d with startCount := n } } := by
      unfold World.site
      rw [hn]
      rfl
    rw [hsite]
    exact (h.sites d).setCounts _ n
  · rcases List.mem_or_eq_of_mem_set hp with hp | rfl
    · exact hrefers p (h.queues p hp)
    · obtain ⟨hring, hhdrs⟩ := hrefers q (h.queues q (List.mem_of_getElem? hq))
      exact ⟨hring, hhdrs⟩

theorem WorldOk.stop (h : WorldOk card w) (k : Nat) (ok : Bool) : WorldOk card (w.stop k ok) := by
  unfold World.stop
  split
  · rename_i q hq
    split
    · exact h
    · exact h.setRunning hq false _
  · exact h

theorem WorldOk.start (h : WorldOk card w) (k : Nat) (ok : Bool) : WorldOk card (w.start k ok) := by
  unfold World.start
  split
  · rename_i q hq
    split
    · exact h
    · exact h.setRunning hq true _
  · exact h

theorem WorldOk.setQueues (h : WorldOk card w) {queues : List RingQueue} (hq : ∀ q ∈ queues, Refers card w q) :
    WorldOk card { w with queues } := by
  refine ⟨h.sites, fun q hm => ?_⟩
  obtain ⟨hring, hhdrs⟩ := hq q hm
  exact ⟨hring, hhdrs⟩

theorem count_of_area {n : U32} (hn : n.toNat < 2 ^ 31) {size : U64} (hsize : size = 4 ∨ size = 8) :
    n.signExtend 64 * size * 2 / 2 / size = n.setWidth 64 := by
  have hmsb : n.msb = false := by
    rw [BitVec.msb_eq_false_iff_two_mul_lt]
    omega
  have hz : (n.setWidth 64 : U64).toNat = n.toNat := by
    rw [BitVec.toNat_setWidth]
    omega
  rw [BitVec.signExtend_eq_setWidth_of_msb_false hmsb]
  apply BitVec.eq_of_toNat_eq
  rw [BitVec.toNat_udiv, BitVec.toNat_udiv, BitVec.toNat_mul, BitVec.toNat_mul, hz]
  have h2 : (2 : U64).toNat = 2 := rfl
  rw [h2]
  rcases hsize with rfl | rfl
  · have h4 : (4 : U64).toNat = 4 := rfl
    rw [h4]
    omega
  · have h8 : (8 : U64).toNat = 8 := rfl
    rw [h8]
    omega

theorem setWidth_pred (n : U32) : ((n.setWidth 64 - 1 : U64).setWidth 32 : U32) = n - 1 := by
  apply BitVec.eq_of_toNat_eq
  simp only [BitVec.toNat_setWidth, BitVec.toNat_sub]
  have h1 : (1 : U64).toNat = 1 := rfl
  have h1' : (1 : U32).toNat = 1 := rfl
  rw [h1, h1']
  omega

theorem WorldOk.mmap (h : WorldOk card w) {r : RingBlocks} (hr : (w.ch c).ring = some r) :
    w.mmap (c.type = .tx) (w.ch c).mmapOffset (2 * r.size) = some (.blocks r.blocks) := by
  have hmem := ((h.sites c).ring r hr).1
  have hfound := mmap_found (h.sites c).windows hmem
  have hwrite : ¬ (c.type = .rx ∧ decide (c.type = .tx) = true) := by
    rintro ⟨hrx, htx⟩
    rw [hrx] at htx
    revert htx
    decide
  have hexact : ¬ ((w.ch c).mmapOffset ≠ (w.ch c).mmapOffset ∨ 2 * r.size ≠ 2 * r.size) := by
    rintro (h | h)
    · exact h rfl
    · exact h rfl
  unfold World.mmap
  rw [show nfbCharMmap w.files.items (w.ch c).mmapOffset (2 * r.size) = some (.ring c) from hfound]
  show w.handler (c.type = .tx) (w.ch c).mmapOffset (2 * r.size) (.ring c) = _
  unfold World.handler
  simp only [hr]
  rw [if_neg hwrite, if_neg hexact]

theorem Card.kind_rx (h : card.kind c = .calypteRx) : c.type = .rx := by
  unfold Card.kind at h
  split at h
  · cases h
  · assumption
  · cases h

theorem Card.kind_tx (h : card.kind c = .calypteTx) : c.type = .tx := by
  unfold Card.kind at h
  split at h
  · cases h
  · cases h
  · assumption

/-- The counts that a queue takes from the node of its channel are those of the channel. -/
theorem open_hdrs {k : CtrlProps} {q' : RingQueue} (hd : Described card q.channel (w.ch q.channel) ⟨none, some k⟩)
    (hwhole : Whole card q.channel (w.ch q.channel)) (hmaps : card.kind q.channel = .medusa → env.hdrMmap ∧ env.offMmap) {ret : Int}
    (ho : (if k.protocol = 3 then ncNdpV3OpenQueue env k q else if k.protocol = 2 then ncNdpV2OpenQueue env k q else (q, ret)) = (q', 0)) :
    q'.channel = q.channel ∧ q'.buffer = q.buffer ∧ q'.size = q.size ∧
      match card.kind q.channel with
      | .medusa => q'.hdrItems = (w.ch q.channel).hdrCount
      | .calypteRx => q'.hdrPtrMask = (w.ch q.channel).hdrCount - 1
      | .calypteTx => q'.hdrPtrMask = (w.ch q.channel).mhp ∧ q'.dataPtrMask = (w.ch q.channel).mdp := by
  obtain ⟨hmed, hrx, htx⟩ := hwhole
  have hv3 : k.protocol = 3 →
      ¬ (¬ env.hdrMmap ∨ (q.channel.type = .tx ∧ ¬ env.updMmap)) ∧ ¬ ¬ env.comp := by
    intro h3
    rw [if_pos h3] at ho
    unfold ncNdpV3OpenQueue at ho
    split at ho
    · cases ho
    split at ho
    · cases ho
    · exact ⟨‹_›, ‹_›⟩
  unfold Described at hd
  cases hkind : card.kind q.channel with
  | medusa =>
    simp only [hkind] at hd
    obtain ⟨hk, hsize⟩ := hd
    cases hk
    obtain ⟨harea, hlt⟩ := hmed hkind
    obtain ⟨h1, h2⟩ := hmaps hkind
    have h3 : ¬ (medusaProps (w.ch q.channel)).protocol = 3 := by
      show ¬ 2 = 3
      decide
    have hp : (medusaProps (w.ch q.channel)).protocol = 2 := rfl
    rw [if_neg h3, if_pos hp] at ho
    unfold ncNdpV2OpenQueue at ho
    rw [if_neg (by rw [not_or, not_not, not_not]; exact ⟨h1, h2⟩)] at ho
    cases ho
    refine ⟨rfl, rfl, rfl, ?_⟩
    show ((w.ch q.channel).hdrBufferSize * 2 / 2 / 4).setWidth 32 = _
    rw [hsize, harea, count_of_area hlt (Or.inl rfl)]
    exact BitVec.setWidth_setWidth_of_le _ (by decide)
  | calypteRx =>
    simp only [hkind] at hd
    obtain ⟨hk, hsize⟩ := hd
    cases hk
    obtain ⟨harea, hlt⟩ := hrx hkind
    have hp : (calypteRxProps (w.ch q.channel)).protocol = 3 := rfl
    obtain ⟨hm, hc⟩ := hv3 hp
    rw [if_pos hp] at ho
    unfold ncNdpV3OpenQueue at ho
    rw [if_neg hm, if_neg hc] at ho
    have htype := card.kind_rx hkind
    simp only [htype] at ho
    cases ho
    refine ⟨rfl, rfl, rfl, ?_⟩
    show ((w.ch q.channel).hdrBufferSize * 2 / 2 / 8 - 1).setWidth 32 = _
    rw [hsize, harea, count_of_area hlt (Or.inr rfl)]
    exact setWidth_pred _
  | calypteTx =>
    simp only [hkind] at hd
    obtain ⟨hk, hhdr, hdata, hmasks⟩ := hd
    cases hk
    obtain ⟨h1, h2⟩ := htx hkind
    have hp : (calypteTxProps (w.ch q.channel)).protocol = 3 := rfl
    obtain ⟨hm, hc⟩ := hv3 hp
    rw [if_pos hp] at ho
    unfold ncNdpV3OpenQueue at ho
    rw [if_neg hm, if_neg hc] at ho
    have htype := card.kind_tx hkind
    simp only [htype] at ho
    cases ho
    refine ⟨rfl, rfl, rfl, ?_, ?_⟩
    · rw [hmasks]
      show (((w.ch q.channel).hdrBufferSize.setWidth 32).setWidth 64 / 16 - 1 : U64).setWidth 32 =
        (((w.ch q.channel).hdrBufferSize / 16 - 1) &&& 0xFFFF).setWidth 32
      rw [hhdr, h2, BitVec.setWidth_setWidth_of_le (card.hdrBuff q.channel) (by decide : 32 ≤ 64), BitVec.setWidth_eq]
    · rw [hmasks]
      show (((w.ch q.channel).dataBufferSize.setWidth 32).setWidth 64 / 2 - 1 : U64).setWidth 32 =
        (((w.ch q.channel).dataBufferSize / 2 - 1) &&& 0xFFFF).setWidth 32
      rw [hdata, h1, BitVec.setWidth_setWidth_of_le (card.dataBuff q.channel) (by decide : 32 ≤ 64), BitVec.setWidth_eq]

/-- A queue that is opened over the current node refers to the ring of its channel. -/
theorem WorldOk.open_refers (h : WorldOk card w) {fdt : ChannelId → QueueNode} (hsize : (w.ch c).size ≠ 0)
    (hk : OpenKeeps card w fdt c env) (ho : ncNdpQueueOpenInitExt w fdt c env = (some q, 0)) : Refers card w q := by
  obtain ⟨hfdt, hhdr, hmmap, hmaps, hwhole⟩ := hk
  have hok := h.sites c
  cases hr : (w.ch c).ring with
  | none =>
    unfold RingChannel.size at hsize
    rw [hr] at hsize
    exact absurd rfl hsize
  | some r =>
    have hnode : (w.tree c).ring = some ⟨r.size, 2 * r.size, (w.ch c).mmapOffset⟩ := (hok.ring r hr).2
    have hd : Described card c (w.ch c) (w.tree c) := hok.ctrl.described hhdr
    unfold ncNdpQueueOpenInitExt at ho
    rw [hfdt, hnode] at ho
    cases hctrl : (w.tree c).ctrl with
    | none =>
      rw [hctrl] at ho
      cases ho
    | some k =>
      rw [hctrl] at ho
      simp only at ho
      have hd' : Described card c (w.ch c) ⟨none, some k⟩ := by
        unfold Described at hd ⊢
        rw [hctrl] at hd
        exact hd
      by_cases h0 : 2 * r.size = 0
      · rw [if_pos h0] at ho
        cases ho
      rw [if_neg h0, if_neg hsize] at ho
      by_cases hsub : env.subscribe ≠ 0
      · rw [if_pos hsub] at ho
        cases ho
      rw [if_neg hsub, if_pos hmmap, h.mmap hr] at ho
      simp only at ho
      generalize hq₀ : RingQueue.mk c k.protocol r.size _ _ _ _ _ = q₀ at ho
      have hc : q₀.channel = c := by rw [← hq₀]
      have hbuf : q₀.buffer = some (.blocks r.blocks, 2 * r.size) := by rw [← hq₀]
      have hqs : q₀.size = r.size := by rw [← hq₀]
      subst hc
      rcases hv : (if k.protocol = 3 then ncNdpV3OpenQueue env k q₀
        else if k.protocol = 2 then ncNdpV2OpenQueue env k q₀ else (q₀, env.subscribe)) with ⟨q₁, ret⟩
      rw [hv] at ho
      simp only at ho
      split at ho
      · cases ho
      · rename_i hret
        cases ho
        rw [not_not.1 hret] at hv
        obtain ⟨hqc, hqb, hqz, hqh⟩ := open_hdrs hd' hwhole hmaps hv
        refine ⟨⟨r, ?_, hqb.trans hbuf, hqz.trans hqs⟩, ?_⟩
        · rw [hqc]
          exact hr
        · rw [hqc]
          exact hqh

theorem WorldOk.open (h : WorldOk card w) {handle : Nat} (hk : GeoKeeps card w (.open handle c env)) :
    WorldOk card (geoStep card w (.open handle c env)) := by
  unfold GeoKeeps at hk
  unfold geoStep
  simp only at hk ⊢
  cases hh : w.handles[handle]? with
  | none => exact h
  | some fdt =>
    rw [hh] at hk
    simp only at hk ⊢
    rcases ho : ncNdpQueueOpenInitExt w fdt c env with ⟨_ | q, ret⟩
    · exact h
    split
    · rename_i q' heq
      cases heq
      have hacc : (w.ch c).size ≠ 0 ∧ env.subscribe = 0 := by
        unfold ncNdpQueueOpenInitExt at ho
        split at ho
        · split at ho
          · cases ho
          split at ho
          · cases ho
          split at ho
          · cases ho
          · exact ⟨‹_›, not_not.1 ‹_›⟩
        · cases ho
      refine h.setQueues fun p hp => ?_
      rcases List.mem_append.1 hp with hp | hp
      · exact h.queues p hp
      · rw [List.mem_singleton] at hp
        subst hp
        exact h.open_refers hacc.1 (hk hacc.1 hacc.2) ho
    · exact h

/-! ## Runs -/

theorem Probed.ok (h : Probed w) : WorldOk card w := by
  refine ⟨fun c => ?_, fun q hq => ?_⟩
  · have hz : (w.site c).ch = .zero := h.ch c
    refine .free h.windows ?_ ?_ ?_
    · rw [hz]
      rfl
    · rw [hz]
      rfl
    · rw [hz]
      rfl
  · rw [h.queues] at hq
    cases hq

theorem geoStep_ok (w : World) (a : GeoAction) (hk : GeoKeeps card w a) (h : WorldOk card w) :
    WorldOk card (geoStep card w a) := by
  cases a with
  | nfbOpen => exact ⟨h.sites, fun q hq => ⟨(h.queues q hq).ring, (h.queues q hq).hdrs⟩⟩
  | resize c req env => exact h.resize hk
  | «open» handle c env => exact h.open hk
  | start k ok => exact h.start k ok
  | burst k => exact h
  | stop k ok => exact h.stop k ok
  | close k ok =>
    have hstop := h.stop k ok
    exact hstop.setQueues fun q hq => hstop.queues q (List.mem_of_mem_eraseIdx hq)

/-- In every run whose steps meet the condition, every open queue refers to the ring that its channel has. -/
theorem queues_refer_to_rings (card : Card) (w : World) (hw : Probed w) (l : List GeoAction)
    (hm : Meets (geoStep card) (GeoKeeps card) w l) :
    ∀ q ∈ (run (geoStep card) w l).queues, Refers card (run (geoStep card) w l) q :=
  (run_inv_of geoStep_ok l w hm hw.ok).queues

def medusaCard : Card :=
  { dma := fun _ => .medusa, dataBuff := fun _ => 0, hdrBuff := fun _ => 0, pageSize := 4096, pageSize_pos := by decide
    pageSize_lt := by decide }

def calypteCard : Card := { medusaCard with dma := fun _ => .calypte }

/-- A device whose registers have the first 64 MiB of the file. -/
def probedWorld : World :=
  { files := ⟨[⟨0x4000000, 0, .mi 0⟩], false⟩, ch := fun _ => .zero, tree := fun _ => ⟨none, none⟩, next := 0
    handles := [], queues := [] }

theorem probedWorld_probed : Probed probedWorld := by
  refine ⟨?_, rfl, ?_, fun _ => rfl, rfl, rfl⟩
  · exact Windows.cons_iff.2 ⟨⟨fun x hx => absurd hx List.not_mem_nil, by decide, by decide⟩, Windows.nil⟩
  · intro x hx
    rw [List.mem_singleton.1 hx]
    rfl

def chan0 : ChannelId := ⟨0, .rx⟩
def chan1 : ChannelId := ⟨1, .rx⟩

def fineAttach : AttachEnv := ⟨true, true, true, true, true, true, true, true⟩
def fineResize : ResizeRingEnv := ⟨⟨true, true, fineAttach⟩, ⟨true, true, fineAttach⟩⟩
def fineQueue : QueueEnv := ⟨0, true, true, true, true, true⟩

/-- One block of 4 MiB, and two of them. -/
def oneBlock : Request := ⟨1, 0x400000, 1024⟩
def twoBlocks : Request := ⟨2, 0x400000, 2048⟩

/-- A queue runs while a resize of its channel is refused and another channel is resized. -/
def steadyRun : List GeoAction :=
  [.resize chan0 oneBlock fineResize, .resize chan1 oneBlock fineResize, .nfbOpen, .open 0 chan0 fineQueue, .start 0 true,
    .resize chan0 twoBlocks fineResize, .resize chan1 twoBlocks fineResize, .burst 0, .stop 0 true]

theorem queues_refer_to_rings_steady :
    (run (geoStep medusaCard) probedWorld steadyRun).queues.length = 1 ∧
      ∀ q ∈ (run (geoStep medusaCard) probedWorld steadyRun).queues, Refers medusaCard
        (run (geoStep medusaCard) probedWorld steadyRun) q :=
  ⟨by decide +kernel, queues_refer_to_rings medusaCard probedWorld probedWorld_probed steadyRun (by decide +kernel)⟩

/-- The ring is resized below an open queue. -/
def staleRun : List GeoAction :=
  [.resize chan0 oneBlock fineResize, .nfbOpen, .open 0 chan0 fineQueue, .resize chan0 twoBlocks fineResize]

/-- Two Calypte RX channels are resized, each of which unregisters the window at offset 0, before the device is opened. -/
def sharedRun : List GeoAction :=
  [.resize chan0 oneBlock fineResize, .resize chan1 oneBlock fineResize, .resize chan0 oneBlock fineResize,
    .resize chan1 oneBlock fineResize, .nfbOpen, .open 0 chan0 fineQueue]

/-- A queue is left with blocks that its channel has freed, another one gets the blocks of another channel. -/
theorem queue_refers_elsewhere :
    (∃ q ∈ (run (geoStep medusaCard) probedWorld staleRun).queues,
        ¬ Refers medusaCard (run (geoStep medusaCard) probedWorld staleRun) q) ∧
      ∃ q ∈ (run (geoStep calypteCard) probedWorld sharedRun).queues,
        ¬ Refers calypteCard (run (geoStep calypteCard) probedWorld sharedRun) q ∧
        ∃ r, ((run (geoStep calypteCard) probedWorld sharedRun).ch chan1).ring = some r ∧
          q.buffer = some (.blocks r.blocks, 2 * r.size) := by
  have hstale : (run (geoStep medusaCard) probedWorld staleRun).queues =
      [⟨chan0, 2, 0x400000, some (.blocks 0, 0x800000), 1024, 0, 0, false⟩] := by decide +kernel
  have hring : ((run (geoStep medusaCard) probedWorld staleRun).ch chan0).ring = some ⟨1, 2, 0x400000⟩ := by decide +kernel
  have hshared : (run (geoStep calypteCard) probedWorld sharedRun).queues =
      [⟨chan0, 3, 0x400000, some (.blocks 3, 0x800000), 0, 0x7FFF, 0, false⟩] := by decide +kernel
  have hring0 : ((run (geoStep calypteCard) probedWorld sharedRun).ch chan0).ring = some ⟨2, 1, 0x400000⟩ := by decide +kernel
  have hring1 : ((run (geoStep calypteCard) probedWorld sharedRun).ch chan1).ring = some ⟨3, 1, 0x400000⟩ := by decide +kernel
  refine ⟨⟨_, by rw [hstale]; exact List.mem_singleton_self _, ?_⟩,
    ⟨_, by rw [hshared]; exact List.mem_singleton_self _, ?_, _, hring1, by decide +kernel⟩⟩
  · rintro ⟨⟨r, hr, hb, -⟩, -⟩
    cases hring.symm.trans hr
    revert hb
    decide +kernel
  · rintro ⟨⟨r, hr, hb, -⟩, -⟩
    cases hring0.symm.trans hr
    revert hb
    decide +kernel

end NdkSw.Ndp.Geometry

/-
The TX controllers of `ctrl_ndp.c`: how they are stopped, which may be refused while packets are in
flight, and the Calypte controller, whose data pointer the driver derives from the published headers.
What a refused stop leaves behind is compared with what was before it.
-/
import NdkSw.Medusa.Ctrl
import NdkSw.Ndp.Flags
import NdkSw.Ndp.Queue
import NdkSw.Shared.Words

namespace NdkSw.Ndp

open Medusa (NcNdpCtrl noUpperAddr)

/-! ## The controller -/

/-- `struct ndp_ctrl`; `ts` is what a stop does not touch. -/
structure NdpCtrl (X : Type) where
  type : DmaType
  c : NcNdpCtrl
  flags : U32
  ts : X

/-- What a start of a Calypte TX controller meets: the result of the component lock, the running bit of the
status register, and the masks in its registers. -/
structure CalypteStartEnv where
  lock : Int
  running : Bool
  mdp : U32
  mhp : U32
  deriving DecidableEq, Repr

/-- What the hardware shows to a call: to the two attempts of a start, its pointers in the update buffer, `hdp`
at the later looks of a stop, after which it stands still, and if it halts then. -/
structure TxHw where
  start₁ : CalypteStartEnv
  start₂ : CalypteStartEnv
  hdp : U32
  hhp : U32
  later : List U32
  halts : Bool

/-! ## Stop -/

/-- `nc_ndp_ctrl_stop` of a TX controller, when the update buffer shows `hdp`. -/
def ncNdpCtrlStop (hdp : U32) (halts : Bool) (c : NcNdpCtrl) : NcNdpCtrl × Int :=
  let hdpNew := c.hdp
  let c := { c with hdp }
  if c.sdp ≠ c.hdp then (c, if hdpNew = c.hdp then eAgain else eInProgress)
  else (c, if halts then 0 else eAgain)

/-- The loop of `ndp_ctrl_stop` if it is not forced: another round as long as the hardware makes progress. -/
def stopLoop (halts : Bool) : List U32 → NcNdpCtrl → NcNdpCtrl × Int
  | [], c => ncNdpCtrlStop c.hdp halts c
  | hdp :: l, c =>
    match ncNdpCtrlStop hdp halts c with
    | (c, ret) => if ret = eInProgress then stopLoop halts l c else (c, ret)

/-- The loop if it is forced: any other result than success takes another round, and in the end the
controller is stopped by force. -/
def stopForceLoop (halts : Bool) : List U32 → NcNdpCtrl → NcNdpCtrl
  | [], c => (ncNdpCtrlStop c.hdp halts c).1
  | hdp :: l, c =>
    match ncNdpCtrlStop hdp halts c with
    | (c, ret) => if ret = 0 then c else stopForceLoop halts l c

/-- `nc_ndp_ctrl_hp_update` and what `ndp_ctrl_stop` does to the pointers of a Calypte controller. -/
def takeOver (hdp hhp : U32) (c : NcNdpCtrl) : NcNdpCtrl := { c with hdp, hhp, sdp := hdp, shp := hhp }

/-- `ndp_ctrl_stop` of a TX channel. -/
def ndpCtrlStop {X : Type} (ctrl : NdpCtrl X) (hw : TxHw) (force : Bool) : NdpCtrl X × Int :=
  let start := match ctrl.type with
    | .calypte => (hw.later, takeOver hw.hdp hw.hhp ctrl.c)
    | .medusa => (hw.hdp :: hw.later, ctrl.c)
  let flags := ctrl.flags &&& ~~~flagUserspace
  if force then ({ ctrl with c := stopForceLoop hw.halts start.1 start.2, flags }, 0)
  else
    match stopLoop hw.halts start.1 start.2 with
    | (c, ret) => if ret = eAgain then ({ ctrl with c }, eAgain) else ({ ctrl with c, flags }, 0)

/-! ## The Calypte TX controller -/

def ndpTxCalypteBlockSize : U32 := 32

/-- The bytes a frame takes in the data ring: its length, rounded up to blocks. -/
def frameLenCeil (len : U32) : U32 := (len + (ndpTxCalypteBlockSize - 1)) &&& ~~~(ndpTxCalypteBlockSize - 1)

/-- The parts of `ts.calypte`, with the `hdrItems` items of the header buffer, which is mapped twice in a row. -/
structure CalypteTs where
  freeBytes : U64
  hdrItems : Nat
  hdr : Nat → V3PacketHdr

abbrev CalypteTxCtrl := NdpCtrl CalypteTs

/-- `nc_ndp_ctrl_start` of a Calypte TX controller. -/
def ncNdpCtrlCalypteTxStart (env : CalypteStartEnv) (c : NcNdpCtrl) : NcNdpCtrl × Int :=
  if env.lock ≠ 0 then (c, if env.lock = eBusy then eExist else env.lock)
  else
    let c : NcNdpCtrl := { lastUpperAddr := noUpperAddr, mdp := env.mdp, mhp := env.mhp, sdp := 0, hdp := 0, shp := 0, hhp := 0 }
    if env.running then (c, eAlready) else (c, 0)

/-- `ndp_ctrl_calypte_start` of a TX channel: a controller that was left running is stopped and started again. -/
def ndpCtrlCalypteTxStart (ctrl : CalypteTxCtrl) (hw : TxHw) : CalypteTxCtrl × Int × U64 :=
  match ncNdpCtrlCalypteTxStart hw.start₁ ctrl.c with
  | (c, ret) =>
    match (if ret = eAlready then
        match ncNdpCtrlCalypteTxStart hw.start₂ c with
        | (c, ret) => (c, if ret = 0 then 0 else -1)
      else (c, ret)) with
    | (c, ret) =>
      if ret ≠ 0 then ({ ctrl with c }, ret, 0)
      else ({ ctrl with c, ts := { ctrl.ts with freeBytes := c.mdp.setWidth 64 } }, 0, 0)

/-- `ndp_ctrl_calypte_tx_get_hwptr`. -/
def ndpCtrlCalypteTxGetHwptr (ctrl : CalypteTxCtrl) (hw : TxHw) : CalypteTxCtrl × U64 :=
  let count := (hw.hdp - ctrl.c.hdp) &&& ctrl.c.mdp
  ({ ctrl with
      c := { ctrl.c with hdp := hw.hdp, hhp := hw.hhp }
      ts := { ctrl.ts with freeBytes := ctrl.ts.freeBytes + count.setWidth 64 } }, hw.hhp.setWidth 64)

/-- The header item of the loop of `set_swptr` in round `i`. -/
def CalypteTs.item (ts : CalypteTs) (shp : U32) (i : Nat) : V3PacketHdr := ts.hdr ((shp.toNat + i) % ts.hdrItems)

/-- The loop of `ndp_ctrl_calypte_tx_set_swptr` over the headers from `i` on, with `n` to go. -/
def calypteTxPublish (mdp shp : U32) : Nat → Nat → CalypteTs → U32 → CalypteTs × U32
  | 0, _, ts, sdp => (ts, sdp)
  | n + 1, i, ts, sdp =>
    let len : U32 := (ts.item shp i).frameLen.setWidth 32
    let ts := { ts with freeBytes := ts.freeBytes - (frameLenCeil len).setWidth 64 }
    calypteTxPublish mdp shp n (i + 1) ts (frameLenCeil (sdp + len) &&& mdp)

/-- `ndp_ctrl_calypte_tx_set_swptr`. -/
def ndpCtrlCalypteTxSetSwptr (ctrl : CalypteTxCtrl) (ptr : U64) : CalypteTxCtrl :=
  let count := (ptr - ctrl.c.shp.setWidth 64) &&& ctrl.c.mhp.setWidth 64
  match calypteTxPublish ctrl.c.mdp ctrl.c.shp count.toNat 0 ctrl.ts ctrl.c.sdp with
  | (ts, sdp) => { ctrl with c := { ctrl.c with sdp, shp := ptr.setWidth 32 }, ts }

def calypteTxOps : ChannelOps CalypteTxCtrl TxHw where
  start := ndpCtrlCalypteTxStart
  stop := ndpCtrlStop
  getHwptr := ndpCtrlCalypteTxGetHwptr
  setSwptr ctrl _ ptr := ndpCtrlCalypteTxSetSwptr ctrl ptr
  getFreeSpace := some fun ctrl => ctrl.ts.freeBytes

/-! ## A refused stop -/

section Refused

variable {X : Type}

/-- What later calls see of a controller is the same: a Calypte controller reads `hhp` anew before it uses it. -/
def SameSeen (a b : NdpCtrl X) : Prop := ∃ hhp, b = { a with c := { a.c with hhp } } ∧ (a.type = .medusa → hhp = a.c.hhp)

/-- The channel is as before as far as later calls can see, its lock included. -/
def Harmless (ch ch' : Channel (NdpCtrl X)) : Prop := ∃ ctrl, ch' = { ch with ctrl } ∧ SameSeen ch.ctrl ctrl

/-- The looks at `hdp` that decide: those until it did not move. -/
def TxHw.looks (hw : TxHw) : DmaType → List U32
  | .medusa => [hw.hdp]
  | .calypte => hw.hdp :: hw.later.take 1

/-- The condition: `i` does not hold the lock, the hardware completes nothing that the driver has not seen, and
a Calypte controller has nothing in flight. -/
def Quiet (ch : Channel (NdpCtrl X)) (i : Nat) (hw : TxHw) : Prop :=
  ch.lockedSub ≠ some i ∧ (∀ hdp ∈ hw.looks ch.ctrl.type, hdp = ch.ctrl.c.hdp) ∧
    (ch.ctrl.type = .calypte → ch.ctrl.c.sdp = ch.ctrl.c.hdp ∧ ch.ctrl.c.shp = hw.hhp)

instance (ch : Channel (NdpCtrl X)) (i : Nat) (hw : TxHw) : Decidable (Quiet ch i hw) :=
  have : Decidable (∀ hdp ∈ hw.looks ch.ctrl.type, hdp = ch.ctrl.c.hdp) := List.decidableBAll _ _
  inferInstanceAs (Decidable (_ ∧ _ ∧ (_ → _ ∧ _)))

/-- The hardware moves `hdp` only forward, and less than once around the ring while the software pointer stands. -/
def Forward (hdp : U32) : List U32 → Prop
  | [] => True
  | h :: l => (h ≠ hdp → hdp ∉ l) ∧ Forward hdp l

instance decidableForward (hdp : U32) : ∀ l, Decidable (Forward hdp l)
  | [] => inferInstanceAs (Decidable True)
  | _ :: l => @instDecidableAnd _ _ _ (decidableForward hdp l)

/-- A round of a stop only moves `hdp`. -/
theorem ncNdpCtrlStop_c (hdp : U32) (halts : Bool) (c : NcNdpCtrl) : (ncNdpCtrlStop hdp halts c).1 = { c with hdp } := by
  unfold ncNdpCtrlStop
  simp only
  split <;> rfl

theorem stopLoop_c (halts : Bool) : ∀ (l : List U32) (c : NcNdpCtrl), ∃ hdp, (hdp = c.hdp ∨ hdp ∈ l) ∧
    (stopLoop halts l c).1 = { c with hdp }
  | [], c => ⟨c.hdp, Or.inl rfl, by rw [stopLoop, ncNdpCtrlStop_c]⟩
  | h :: l, c => by
    have hc := ncNdpCtrlStop_c h halts c
    simp only [stopLoop]
    split
    · obtain ⟨hdp, hmem, heq⟩ := stopLoop_c halts l (ncNdpCtrlStop h halts c).1
      rw [hc] at hmem heq
      refine ⟨hdp, Or.inr ?_, by rw [hc, heq]⟩
      rcases hmem with rfl | hmem
      · exact List.mem_cons_self
      · exact List.mem_cons_of_mem _ hmem
    · exact ⟨h, Or.inr List.mem_cons_self, hc⟩

theorem stopLoop_hdp_iff (halts : Bool) {l : List U32} {c : NcNdpCtrl} (hf : Forward c.hdp l) :
    (stopLoop halts l c).1.hdp = c.hdp ↔ ∀ hdp ∈ l.take 1, hdp = c.hdp := by
  rcases l with _ | ⟨h, l⟩
  · simp [stopLoop, ncNdpCtrlStop_c]
  · have hc := ncNdpCtrlStop_c h halts c
    simp only [stopLoop]
    by_cases hh : h = c.hdp
    · have hret : (ncNdpCtrlStop h halts c).2 ≠ eInProgress := by
        subst hh
        simp only [ncNdpCtrlStop]
        split
        · simp [eAgain, eInProgress]
        · split <;> simp [eAgain, eInProgress]
      rw [if_neg hret, hc]
      simp [hh]
    · have hnot : ¬ ∀ hdp ∈ (h :: l).take 1, hdp = c.hdp := by simp [hh]
      refine iff_of_false ?_ hnot
      split
      · obtain ⟨hdp, hmem, heq⟩ := stopLoop_c halts l (ncNdpCtrlStop h halts c).1
        rw [hc] at hmem heq
        rw [hc, heq]
        rcases hmem with rfl | hmem
        · exact hh
        · rintro rfl
          exact hf.1 hh hmem
      · rw [hc]
        exact hh

theorem ndpCtrlStop_refused {ctrl : NdpCtrl X} {hw : TxHw} (hret : (ndpCtrlStop ctrl hw false).2 = eAgain) :
    (ndpCtrlStop ctrl hw false).1 = { ctrl with c := match ctrl.type with
      | .calypte => (stopLoop hw.halts hw.later (takeOver hw.hdp hw.hhp ctrl.c)).1
      | .medusa => (stopLoop hw.halts (hw.hdp :: hw.later) ctrl.c).1 } := by
  obtain ⟨type, c, flags, ts⟩ := ctrl
  cases type
  all_goals
    simp only [ndpCtrlStop, Bool.false_eq_true, if_false] at hret ⊢
    split at hret
    · rename_i hagain
      rw [if_pos hagain]
    · cases hret

/-- What later calls see of a controller that refused to stop. -/
theorem ndpCtrlStop_sameSeen_iff {ctrl : NdpCtrl X} {hw : TxHw} (hret : (ndpCtrlStop ctrl hw false).2 = eAgain)
    (hf : Forward ctrl.c.hdp (hw.hdp :: hw.later)) : SameSeen ctrl (ndpCtrlStop ctrl hw false).1 ↔
      (∀ hdp ∈ hw.looks ctrl.type, hdp = ctrl.c.hdp) ∧
        (ctrl.type = .calypte → ctrl.c.sdp = ctrl.c.hdp ∧ ctrl.c.shp = hw.hhp) := by
  rw [ndpCtrlStop_refused hret]
  cases ht : ctrl.type with
  | medusa =>
    have hloop := stopLoop_hdp_iff hw.halts hf
    obtain ⟨hdp, -, hc⟩ := stopLoop_c hw.halts (hw.hdp :: hw.later) ctrl.c
    rw [hc] at hloop ⊢
    simp only [TxHw.looks, List.take_succ_cons, List.take_zero] at hloop ⊢
    rw [← hloop]
    constructor
    · rintro ⟨hhp, heq, -⟩
      exact ⟨congrArg (fun ctrl : NdpCtrl X => ctrl.c.hdp) heq, by rintro ⟨⟩⟩
    · rintro ⟨rfl, -⟩
      exact ⟨ctrl.c.hhp, by rw [ht], fun _ => rfl⟩
  | calypte =>
    obtain ⟨hdp, hmem, hc⟩ := stopLoop_c hw.halts hw.later (takeOver hw.hdp hw.hhp ctrl.c)
    simp only [hc]
    constructor
    · rintro ⟨hhp, heq, -⟩
      have hhdp : hdp = ctrl.c.hdp := congrArg (fun ctrl : NdpCtrl X => ctrl.c.hdp) heq
      have hsdp : hw.hdp = ctrl.c.sdp := congrArg (fun ctrl : NdpCtrl X => ctrl.c.sdp) heq
      have hshp : hw.hhp = ctrl.c.shp := congrArg (fun ctrl : NdpCtrl X => ctrl.c.shp) heq
      -- the first look has shown no progress, or it would still be seen at the end
      have hfirst : hw.hdp = ctrl.c.hdp := by
        by_contra hne
        rcases hmem with hmem | hmem
        · exact hne (hmem.symm.trans hhdp)
        · exact hf.1 hne (hhdp ▸ hmem)
      have hloop := stopLoop_hdp_iff hw.halts (l := hw.later) (c := takeOver hw.hdp hw.hhp ctrl.c) (by
        show Forward hw.hdp hw.later
        rw [hfirst]
        exact hf.2)
      refine ⟨fun h hh => ?_, fun _ => ⟨hsdp.symm.trans hfirst, hshp.symm⟩⟩
      rcases List.mem_cons.1 hh with rfl | hh
      · exact hfirst
      · have hend : (stopLoop hw.halts hw.later (takeOver hw.hdp hw.hhp ctrl.c)).1.hdp = hw.hdp := by
          rw [hc]
          exact hhdp.trans hfirst.symm
        exact (hloop.1 hend h hh).trans hfirst
    · rintro ⟨hlooks, hcal⟩
      obtain ⟨hsdp, hshp⟩ := hcal trivial
      have hfirst : hw.hdp = ctrl.c.hdp := hlooks _ List.mem_cons_self
      have hloop := stopLoop_hdp_iff hw.halts (l := hw.later) (c := takeOver hw.hdp hw.hhp ctrl.c) (by
        show Forward hw.hdp hw.later
        rw [hfirst]
        exact hf.2)
      have hend := hloop.2 fun h hh => (hlooks h (List.mem_cons_of_mem _ hh)).trans hfirst.symm
      rw [hc] at hend
      have hend' : hdp = ctrl.c.hdp := hend.trans hfirst
      refine ⟨hw.hhp, ?_, fun h => absurd (ht.symm.trans h) (by decide)⟩
      simp only [takeOver]
      rw [hend', hfirst, ← hsdp, ← hshp, ht]

theorem ndpCtrlStop_forced (ctrl : NdpCtrl X) (hw : TxHw) : (ndpCtrlStop ctrl hw true).2 ≠ eAgain := by
  simp [ndpCtrlStop, eAgain]

/-- A refused stop is harmless exactly if the subscription did not hold the lock and the controller was quiet. -/
theorem refused_stop_harmless_iff (ops : ChannelOps (NdpCtrl X) TxHw) (hops : ops.stop = ndpCtrlStop)
    {ch : Channel (NdpCtrl X)} {i : Nat} {hw₁ hw₂ : TxHw} (hret : (ndpSubscriptionStop ops hw₁ hw₂ ch i false).2 = eAgain)
    (hf : Forward ch.ctrl.c.hdp (hw₁.hdp :: hw₁.later)) :
    Harmless ch (ndpSubscriptionStop ops hw₁ hw₂ ch i false).1 ↔ Quiet ch i hw₁ := by
  have hr : (ch.sub i).status = .running := by
    by_contra hne
    simp [ndpSubscriptionStop, hne, eAgain] at hret
  have hforce : ∀ c e, (ops.stop c e true).2 ≠ eAgain := by
    rw [hops]
    exact ndpCtrlStop_forced
  obtain ⟨-, -, hstop, hs⟩ | ⟨ctrl, -, hs⟩ := ndpSubscriptionStop_cases hforce hw₁ hw₂ ch i false hr
  · rw [hops] at hstop hs
    have hiff := ndpCtrlStop_sameSeen_iff hstop hf
    rw [hs]
    constructor
    · rintro ⟨ctrl, heq, hsame⟩
      have hlock : ch.unlocked i = ch.lockedSub := congrArg Channel.lockedSub heq
      have hctrl : (ndpCtrlStop ch.ctrl hw₁ false).1 = ctrl := congrArg Channel.ctrl heq
      rw [← hctrl, hiff] at hsame
      refine ⟨fun h => ?_, hsame⟩
      exact (Channel.unlocked_eq_some.1 (hlock.trans h)).2 rfl
    · rintro ⟨hlock, hquiet⟩
      refine ⟨_, ?_, hiff.2 hquiet⟩
      rw [show ch.unlocked i = ch.lockedSub from if_neg hlock]
  · rw [hs] at hret
    cases hret

/-- A Calypte TX channel with a ring of 128 headers and 8 KiB of data, whose headers are all of 60 bytes. -/
def calypteOpened : Channel CalypteTxCtrl where
  lockedSub := none
  hwptr := 0
  swptr := 0
  ptrmask := 127
  startCount := 0
  listSubscriptions := []
  sub _ := { status := .subscribed, hwptr := 0, swptr := 0 }
  ctrl :=
    { type := .calypte
      c := { lastUpperAddr := 0, mdp := 8191, mhp := 127, sdp := 0, hdp := 0, shp := 0, hhp := 0 }
      flags := 0
      ts := { freeBytes := 0, hdrItems := 256
              hdr := fun _ => { frameLen := 60, framePtr := 0, valid := 0, headerSize := 0, flags := 0 } } }

/-- Hardware that starts, completes nothing, and does not halt. -/
def hwStill : TxHw where
  start₁ := { lock := 0, running := false, mdp := 8191, mhp := 127 }
  start₂ := { lock := 0, running := false, mdp := 8191, mhp := 127 }
  hdp := 0
  hhp := 0
  later := []
  halts := false

def calypteStarted : Channel CalypteTxCtrl :=
  (ndpSubscriptionStart calypteTxOps .tx hwStill calypteOpened 0 { size := 0, hwptr := 0, swptr := 0 }).1

/-- It has locked the ring and published one packet of it. -/
def calypteHolder : Channel CalypteTxCtrl :=
  (ndpSubscriptionSync calypteTxOps .tx hwStill
    (ndpSubscriptionSync calypteTxOps .tx hwStill calypteStarted 0 { size := 0, hwptr := 0, swptr := 127 }).1 0
    { size := 0, hwptr := 1, swptr := 127 }).1

theorem calypteStarted_harmless : (ndpSubscriptionStop calypteTxOps hwStill hwStill calypteStarted 0 false).2 = eAgain ∧
    Forward calypteStarted.ctrl.c.hdp (hwStill.hdp :: hwStill.later) ∧
    Harmless calypteStarted (ndpSubscriptionStop calypteTxOps hwStill hwStill calypteStarted 0 false).1 :=
  have hret : (ndpSubscriptionStop calypteTxOps hwStill hwStill calypteStarted 0 false).2 = eAgain := by decide +kernel
  have hf : Forward calypteStarted.ctrl.c.hdp (hwStill.hdp :: hwStill.later) := by decide +kernel
  ⟨hret, hf, (refused_stop_harmless_iff calypteTxOps rfl hret hf).2 (by decide +kernel)⟩

/-- A refused stop takes the lock from its holder, and moves the software pointers back behind what it published. -/
theorem calypteHolder_harmed : (ndpSubscriptionStop calypteTxOps hwStill hwStill calypteHolder 0 false).2 = eAgain ∧
    (calypteHolder.lockedSub = some 0 ∧ calypteHolder.ctrl.c.sdp = 64 ∧ calypteHolder.ctrl.c.shp = 1) ∧
    ¬ Harmless calypteHolder (ndpSubscriptionStop calypteTxOps hwStill hwStill calypteHolder 0 false).1 := by
  refine ⟨by decide +kernel, by decide +kernel, ?_⟩
  rintro ⟨ctrl, heq, -⟩
  have hlock : (ndpSubscriptionStop calypteTxOps hwStill hwStill calypteHolder 0 false).1.lockedSub = calypteHolder.lockedSub := by
    rw [heq]
  exact absurd hlock (by decide +kernel)

end Refused

end NdkSw.Ndp

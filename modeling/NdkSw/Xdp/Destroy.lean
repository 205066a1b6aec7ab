/-
Teardown of the XDP controllers (`nfb_xctrl_destroy_pp`, `nfb_xctrl_destroy_xsk`): the stop loop, in which an RX
controller drains the packets that still arrive, and the release of what a TX controller has left. The counter of the
loop is not initialised, so the number of rounds is up to the caller; what the hardware shows comes with each round.
-/
import NdkSw.Ndp.TxCtrl
import NdkSw.Xdp.RxOwn
import NdkSw.Xdp.TxUndo

namespace NdkSw.Xdp

open Ndp Ring Medusa

/-! ## Stop -/

/-- What one round of the stop loop meets: the running bit of the status register, which only the page pool looks at,
`hdp` and `hhp` in the update buffer, and if the controller halts at the first and at the second
`nc_ndp_ctrl_stop`. -/
structure StopRound where
  running : Bool
  hdp : U32
  halts : Bool
  hhp : U32
  haltsAgain : Bool

/-- `for (i = 0; i < count; ++i)`: the ring slots whose buffers are given back. -/
def drainLoop : Nat → RxCtrl → RxCtrl × List Nat
  | 0, ctrl => (ctrl, [])
  | n + 1, ctrl =>
    match drainLoop n { ctrl with c := { ctrl.c with shp := (ctrl.c.shp + 1) &&& ctrl.c.mhp } } with
    | (ctrl', freed) => (ctrl', ctrl.c.shp.toNat :: freed)

/-- The part of the stop loop that receives packets from the card. -/
def drain (hhp : U32) (ctrl : RxCtrl) : RxCtrl × List Nat :=
  drainLoop ((hhp - ctrl.c.shp) &&& ctrl.c.mhp).toNat { ctrl with c := { ctrl.c with hhp } }

/-- The loops of `nfb_xctrl_stop_pp` and `nfb_xctrl_stop_xsk` for an RX controller, on which `nc_ndp_ctrl_stop` does
not touch the pointers. -/
def stopLoopRx (mode : XdpMode) : List StopRound → RxCtrl → RxCtrl × List Nat
  | [], ctrl => (ctrl, [])
  | r :: l, ctrl =>
    match mode with
    | .pp =>
      if r.running then
        if r.halts then (ctrl, [])
        else
          match drain r.hhp ctrl with
          | (ctrl, freed) =>
            if r.haltsAgain then (ctrl, freed)
            else
              match stopLoopRx mode l ctrl with
              | (ctrl, rest) => (ctrl, freed ++ rest)
      else stopLoopRx mode l ctrl
    | .xsk =>
      if r.halts then (ctrl, [])
      else
        match drain r.hhp ctrl with
        | (ctrl, freed) =>
          match stopLoopRx mode l ctrl with
          | (ctrl, rest) => (ctrl, freed ++ rest)

/-- `nfb_xctrl_destroy_pp` and `nfb_xctrl_destroy_xsk` of a running RX controller: the slots whose buffers are given
back. Behind the loop only the memory of the rings is freed. -/
def nfbXctrlDestroyRx (mode : XdpMode) (rounds : List StopRound) (ctrl : RxCtrl) : List Nat :=
  (stopLoopRx mode rounds ctrl).2

/-- What the stop of a TX controller meets: `err` is what the uninitialised variable holds, `hdp` the pointer that a
forced stop reads. -/
structure TxStop where
  rounds : List StopRound
  err : Int
  hdp : U32

/-- The loops for a TX controller. A TX controller has no headers: the words that `nfb_xctrl_stop_xsk` compares are
both 0, and it drains nothing. -/
def stopLoopTx (mode : XdpMode) : List StopRound → Int → NcNdpCtrl → NcNdpCtrl × Int
  | [], err, c => (c, err)
  | r :: l, err, c =>
    if mode = .pp ∧ ¬ r.running then stopLoopTx mode l err c
    else
      match ncNdpCtrlStop r.hdp r.halts c with
      | (c, err) => if err ≠ eAgain ∧ err ≠ eInProgress then (c, err) else stopLoopTx mode l err c

/-- `nfb_xctrl_stop_pp` and `nfb_xctrl_stop_xsk`. -/
def nfbXctrlStopTx (mode : XdpMode) (stop : TxStop) (c : NcNdpCtrl) : NcNdpCtrl :=
  match stopLoopTx mode stop.rounds stop.err c with
  | (c, err) => if err ≠ 0 then { c with hdp := stop.hdp } else c

/-- `nfb_xctrl_destroy_pp` and `nfb_xctrl_destroy_xsk` of a running TX controller. -/
def nfbXctrlDestroyTx (t : TxCtrl) (stop : TxStop) : Option (TxCtrl × List TxEvent) :=
  let c := nfbXctrlStopTx t.mode stop t.c
  nfbXctrlTxFreeBuffers { t with c := { c with hdp := c.sdp } } true 0

/-! ## RX -/

/-- The pointers that the hardware shows in the rounds that drain. -/
def shown (mode : XdpMode) : List StopRound → List U32
  | [] => []
  | r :: l =>
    match mode with
    | .pp => if r.running then if r.halts then [] else r.hhp :: if r.haltsAgain then [] else shown mode l else shown mode l
    | .xsk => if r.halts then [] else r.hhp :: shown mode l

/-- The packets that the hardware passes from the header `shp` on. -/
def passedFrom (mhp : U32) : U32 → List U32 → Nat
  | _, [] => 0
  | shp, hhp :: l => ((hhp - shp) &&& mhp).toNat + passedFrom mhp (hhp &&& mhp) l

variable {k S : Nat} {ctrl : RxCtrl}

theorem drainLoop_spec : ∀ (n : Nat) {S : Nat} (ctrl : RxCtrl), IsMask ctrl.c.mhp k → ctrl.c.shp.toNat = slot k S →
    (drainLoop n ctrl).2 = slots k S n ∧ (drainLoop n ctrl).1.c.mhp = ctrl.c.mhp ∧
      (drainLoop n ctrl).1.c.shp.toNat = slot k (S + n)
  | 0, _, _, _, hs => ⟨rfl, rfl, hs⟩
  | n + 1, S, ctrl, hm, hs => by
    obtain ⟨hfreed, hmhp, hshp⟩ := drainLoop_spec n
      { ctrl with c := { ctrl.c with shp := (ctrl.c.shp + 1) &&& ctrl.c.mhp } } hm (toNat_succ_and hm hs)
    refine ⟨?_, hmhp, ?_⟩
    · show ctrl.c.shp.toNat :: _ = _
      rw [hfreed, hs, Nat.add_comm n 1, ← slots_append]
      rfl
    · rw [show S + (n + 1) = S + 1 + n by omega]
      exact hshp

theorem toNat_shown {hhp shp mhp : U32} (hm : IsMask mhp k) (hs : shp.toNat = slot k S) :
    (hhp &&& mhp).toNat = slot k (S + ((hhp - shp) &&& mhp).toNat) :=
  (At.add_dist hm (at_of_mod hs)).toNat_and hm

theorem drain_spec (hhp : U32) (hm : IsMask ctrl.c.mhp k) (hs : ctrl.c.shp.toNat = slot k S) :
    (drain hhp ctrl).2 = slots k S ((hhp - ctrl.c.shp) &&& ctrl.c.mhp).toNat ∧ (drain hhp ctrl).1.c.mhp = ctrl.c.mhp ∧
      (drain hhp ctrl).1.c.shp = hhp &&& ctrl.c.mhp := by
  obtain ⟨hfreed, hmhp, hshp⟩ := drainLoop_spec ((hhp - ctrl.c.shp) &&& ctrl.c.mhp).toNat
    { ctrl with c := { ctrl.c with hhp } } hm hs
  exact ⟨hfreed, hmhp, BitVec.eq_of_toNat_eq (hshp.trans (toNat_shown hm hs).symm)⟩

/-- The slots that are given back follow the headers. -/
theorem destroyRx_slots (mode : XdpMode) : ∀ (rounds : List StopRound) {S : Nat} {ctrl : RxCtrl}, IsMask ctrl.c.mhp k →
    ctrl.c.shp.toNat = slot k S →
    nfbXctrlDestroyRx mode rounds ctrl = slots k S (passedFrom ctrl.c.mhp ctrl.c.shp (shown mode rounds))
  | [], _, _, _, _ => rfl
  | r :: l, S, ctrl, hm, hs => by
    obtain ⟨hfreed, hmhp, hshp⟩ := drain_spec r.hhp hm hs
    have hm' : IsMask (drain r.hhp ctrl).1.c.mhp k := hmhp ▸ hm
    have ih := destroyRx_slots mode l hm' (hshp ▸ toNat_shown hm hs)
    rw [hmhp, hshp] at ih
    -- a round that drains is followed by the rest of the loop, or it is the last one
    have hmore : (drain r.hhp ctrl).2 ++ (stopLoopRx mode l (drain r.hhp ctrl).1).2 =
        slots k S (passedFrom ctrl.c.mhp ctrl.c.shp (r.hhp :: shown mode l)) := by
      rw [hfreed, passedFrom, ← slots_append]
      exact congrArg _ ih
    unfold nfbXctrlDestroyRx
    cases mode with
    | pp =>
      rw [stopLoopRx, shown]
      by_cases hrun : r.running
      · by_cases hhalt : r.halts
        · simp only [hrun, hhalt, if_true]
          rfl
        · by_cases hagain : r.haltsAgain
          · simp only [hrun, hhalt, hagain, if_true]
            exact hfreed
          · simp only [hrun, hhalt, hagain, if_true]
            exact hmore
      · simp only [hrun]
        exact destroyRx_slots .pp l hm hs
    | xsk =>
      rw [stopLoopRx, shown]
      by_cases hhalt : r.halts
      · simp only [hhalt, if_true]
        rfl
      · simp only [hhalt]
        exact hmore

/-- The ring slots from `pbp` up to `fbp`. -/
def RxCtrl.ringSlots (ctrl : RxCtrl) : List Nat :=
  (List.range ((ctrl.fbp - ctrl.pbp) &&& ctrl.mbp).toNat).map fun i =>
    ((ctrl.pbp + BitVec.ofNat 32 i) &&& ctrl.mbp).toNat

theorem ringSlots_eq {T : Nat} (hm : IsMask ctrl.mbp k) (hp : ctrl.pbp.toNat = slot k T) :
    ctrl.ringSlots = slots k T ((ctrl.fbp - ctrl.pbp) &&& ctrl.mbp).toNat := by
  unfold RxCtrl.ringSlots slots
  refine List.map_congr_left fun i _ => ?_
  exact (At.add hm.le_width (at_of_mod hp) (at_ofNat hm.le_width i)).toNat_and hm

/-- The condition for RX: during the stop the hardware passes as many packets as there are buffers in the ring, and the
first of these is in the slot that has the number of the first header. -/
def Drains (mode : XdpMode) (rounds : List StopRound) (ctrl : RxCtrl) : Prop :=
  passedFrom ctrl.c.mhp ctrl.c.shp (shown mode rounds) = ((ctrl.fbp - ctrl.pbp) &&& ctrl.mbp).toNat ∧
    (((ctrl.fbp - ctrl.pbp) &&& ctrl.mbp).toNat = 0 ∨ ctrl.c.shp = ctrl.pbp)

instance (mode : XdpMode) (rounds : List StopRound) (ctrl : RxCtrl) : Decidable (Drains mode rounds ctrl) :=
  inferInstanceAs (Decidable (_ ∧ _))

theorem RxInv.destroy {cfg : RxConfig} {w : RxWorld} (h : RxInv cfg k w) (rounds : List StopRound) :
    (nfbXctrlDestroyRx cfg.mode rounds w.ctrl).Perm w.ctrl.ringSlots ↔ Drains cfg.mode rounds w.ctrl := by
  obtain ⟨D, hring⟩ := h.ring
  have hlt := hring.mbp.toNat_and_lt (w.ctrl.fbp - w.ctrl.pbp)
  rw [destroyRx_slots cfg.mode rounds h.mhp h.shp, ringSlots_eq hring.mbp hring.pbp, slots_perm_iff hlt]
  unfold Drains
  rw [← h.shp, ← hring.pbp, BitVec.toNat_inj]

/-! ## TX -/

/-- The last slot stands for something to release. -/
def LastOwes (l : List Owed) : Prop := ∀ o ∈ l.getLast?, o.owes ≠ []

variable {H : Nat} {t t' : TxCtrl}

theorem LastOwes.append {l m : List Owed} (hm : LastOwes m) (hl : m = [] → LastOwes l) : LastOwes (l ++ m) := by
  intro o ho
  rw [List.getLast?_append] at ho
  cases hlast : m.getLast? with
  | none =>
    rw [hlast] at ho
    exact hl (List.getLast?_eq_none_iff.1 hlast) o ho
  | some q =>
    rw [hlast] at ho
    cases ho
    exact hm o hlast

theorem LastOwes.drop {l : List Owed} (hl : LastOwes l) (n : Nat) : LastOwes (l.drop n) := by
  intro o ho
  rw [List.getLast?_drop] at ho
  split at ho
  · cases ho
  · exact hl o ho

theorem lastOwes_nil : LastOwes [] := by
  intro o ho
  cases ho

theorem lastOwes_slotsOf : ∀ (last : U64) {ps : List TxPiece}, (∀ p ∈ ps, p.owes ≠ []) → LastOwes (slotsOf last ps)
  | _, [], _ => lastOwes_nil
  | last, p :: ps, hps => by
    have htail := lastOwes_slotsOf (ndpCtrlDescUpperAddr p.dma) fun q hq => hps q (List.mem_cons_of_mem p hq)
    have hslot : LastOwes [p.slot] := by
      intro o ho
      cases ho
      exact hps p List.mem_cons_self
    rw [slotsOf]
    exact LastOwes.append (LastOwes.append htail fun _ => hslot) fun hc => absurd hc (List.cons_ne_nil _ _)

theorem Submitted.lastOwes (hs : Submitted t t') : TxRing k H t → LastOwes t.owed → LastOwes t'.owed := by
  induction hs with
  | same t => exact fun _ hl => hl
  | undone t ps hfit =>
    intro h hl
    rw [(h.putAll hfit).2.owed]
    exact hl
  | sent t ps hfit _ _ howes =>
    intro h hl
    show LastOwes ((t.undone ps).owed ++ _)
    rw [(h.putAll hfit).2.owed]
    exact (lastOwes_slotsOf _ howes).append fun _ => hl
  | trans hs _ ih ih' => exact fun h hl => ih' (hs.appended h).ring (ih h hl)

/-- The queue, with something to release at its end. -/
structure TxHeld (k H : Nat) (t : TxCtrl) : Prop extends TxRing k H t where
  last : LastOwes t.owed

theorem TxHeld.act (cfg : SgConfig) (h : TxHeld k H t) {a : TxAction} (ha : Admissible t a) :
    ∃ r H', t.act cfg a = some r ∧ TxHeld k H' r.ctrl := by
  rcases act_cases cfg ha with ⟨r, hr, hs⟩ | ⟨hw, rfl⟩
  · exact ⟨r, H, hr, (hs.appended h.toTxRing).ring, hs.lastOwes h.toTxRing h.last⟩
  · have hle : t.passes hw ≤ t.owed.length := h.used ▸ ha.2
    obtain ⟨t', hrun, hr, howed, -, -⟩ := h.reclaim ha.1 hle
    have hact := congrArg (Option.map fun r : TxCtrl × List TxEvent => (⟨r.1, r.2, []⟩ : TxStep)) hrun
    refine ⟨⟨t', _, []⟩, H + t.passes hw, hact, hr, ?_⟩
    rw [howed]
    exact h.last.drop _

theorem TxHeld.owes_nil_iff (h : TxHeld k H t) : t.owed.flatMap Owed.owes = [] ↔ t.c.hdp = t.c.sdp := by
  have hpos : 0 < 2 ^ k := by positivity
  have hiff : t.c.sdp = t.c.hdp ↔ t.owed.length = 0 := by
    rw [At.eq_iff (at_of_mod h.sdp) (at_of_mod h.hdp) (h.sdp ▸ Nat.mod_lt _ hpos) (h.hdp ▸ Nat.mod_lt _ hpos)
      (Nat.le_add_right _ _) (by have := h.room; omega)]
    omega
  rw [eq_comm (a := t.c.hdp), hiff, List.length_eq_zero_iff]
  constructor
  · intro hnil
    cases hlast : t.owed.getLast? with
    | none => exact List.getLast?_eq_none_iff.1 hlast
    | some o => exact absurd (List.flatMap_eq_nil_iff.1 hnil o (List.mem_of_getLast? hlast)) (h.last o hlast)
  · intro hnil
    rw [hnil]
    rfl

/-- `hdp` is moved up to `sdp` before the buffers are looked at, so none is. -/
theorem destroyTx_events (t : TxCtrl) (stop : TxStop) : (nfbXctrlDestroyTx t stop).map Prod.snd = some [] := by
  unfold nfbXctrlDestroyTx nfbXctrlTxFreeBuffers
  simp only [if_true]
  rw [txFreeLoop, if_pos rfl]
  rfl

/-! ## Teardown -/

/-- Everything that was accepted with the slots not yet reclaimed is released once, and nothing else. -/
def ReleasesAll (t : TxCtrl) (stop : TxStop) : Prop :=
  ∃ e, (nfbXctrlDestroyTx t stop).map Prod.snd = some e ∧ e.Perm (t.owed.flatMap Owed.owes)

theorem TxHeld.destroy (h : TxHeld k H t) (stop : TxStop) : ReleasesAll t stop ↔ t.c.hdp = t.c.sdp := by
  rw [← h.owes_nil_iff]
  constructor
  · rintro ⟨e, he, hperm⟩
    rw [destroyTx_events] at he
    cases he
    exact hperm.symm.eq_nil
  · intro hnil
    refine ⟨[], destroyTx_events t stop, ?_⟩
    rw [hnil]

theorem TxHeld.start {mode : XdpMode} {env : StartEnv} {nbDesc : U32} (hpos : 0 < nbDesc.toNat)
    (hs : nfbXctrlStartTx mode env nbDesc = (t, 0)) : ∃ k, TxHeld k 0 t := by
  obtain ⟨k, h⟩ := TxOwned.start hpos hs
  refine ⟨k, h.toTxRing, ?_⟩
  unfold nfbXctrlStartTx at hs
  obtain ⟨rfl, -⟩ := Prod.mk.inj hs
  exact lastOwes_nil

/-- From every state of a running channel and however the hardware drains: the teardown of the TX controller releases
everything that is left exactly if nothing is, and that of the RX controller gives back the buffers in the ring exactly
if the hardware passes one packet for each of them, from the slot of the next header on. -/
theorem destroy_releases_iff (sg : SgConfig) (cfg : RxConfig) {env env' : StartEnv} {nbDesc nbDesc' : U32} {t₀ t : TxCtrl}
    {ctrl : RxCtrl} (hpos : 0 < nbDesc.toNat) (htx : nfbXctrlStartTx cfg.mode env nbDesc = (t₀, 0))
    (hpos' : 0 < nbDesc'.toNat) (hrx : nfbXctrlStartRx env' nbDesc' = (ctrl, 0)) (l : List TxAction)
    (ha : MeetsM (txStep sg) Admissible t₀ l) (hrun : runM (txStep sg) t₀ l = some t) (l' : List RxAction)
    (ha' : Meets (RxWorld.step cfg) (RxWorld.Admissible cfg) ⟨ctrl, []⟩ l') (stop : TxStop) (rounds : List StopRound) :
    (ReleasesAll t stop ↔ t.c.hdp = t.c.sdp) ∧
      ((nfbXctrlDestroyRx cfg.mode rounds (run (RxWorld.step cfg) ⟨ctrl, []⟩ l').ctrl).Perm
          (run (RxWorld.step cfg) ⟨ctrl, []⟩ l').ctrl.ringSlots ↔
        Drains cfg.mode rounds (run (RxWorld.step cfg) ⟨ctrl, []⟩ l').ctrl) := by
  constructor
  · obtain ⟨k, h⟩ := TxHeld.start hpos htx
    have hheld : ∃ H, TxHeld k H t := by
      refine runM_inv_of (I := fun t => ∃ H, TxHeld k H t) ?_ l l t₀ t (List.prefix_refl _) ha ⟨0, h⟩ hrun
      rintro t a t' ha ⟨H, h⟩ ht
      obtain ⟨r, H', hr, hheld⟩ := h.act sg ha
      rw [txStep, hr] at ht
      cases ht
      exact ⟨H', hheld⟩
    obtain ⟨H, hheld⟩ := hheld
    exact hheld.destroy stop
  · obtain ⟨k, h⟩ := RxInv.start cfg hpos' hrx
    exact (run_inv_of (I := RxInv cfg k) (fun _ _ ha h => h.step ha) l' _ ha' h).destroy rounds

def haltsAtOnce : StopRound := { running := true, hdp := 0, halts := true, hhp := 0, haltsAgain := false }

/-- The hardware passes packets up to the header `hhp`, and the controller halts then. -/
def haltsAt (hhp : U32) : StopRound := { running := true, hdp := 0, halts := false, hhp, haltsAgain := true }

def threePages : RxAction := .fill { hdp := 0, buffs := [⟨1, 0x1000⟩, ⟨2, 0x2000⟩, ⟨3, 0x3000⟩] }

/-- A TX controller whose packet was reclaimed, and an RX controller that gets a packet for each of its three buffers
during the stop. -/
theorem destroy_releases_all_drained :
    ReleasesAll ((txStep ⟨true, true⟩ sentOne (.reclaim 2)).getD sentOne) ⟨[haltsAtOnce], 0, 0⟩ ∧
      (nfbXctrlDestroyRx .pp [haltsAt 3]
        (run (RxWorld.step fragConfig) ⟨(nfbXctrlStartRx plainEnv 128).1, []⟩ [threePages]).ctrl).Perm
        (run (RxWorld.step fragConfig) ⟨(nfbXctrlStartRx plainEnv 128).1, []⟩ [threePages]).ctrl.ringSlots := by
  have hs : nfbXctrlStartTx .pp plainEnv 16 = ((nfbXctrlStartTx .pp plainEnv 16).1, 0) := eq_of_ret (by decide)
  have hs' : nfbXctrlStartRx plainEnv 128 = ((nfbXctrlStartRx plainEnv 128).1, 0) := eq_of_ret (by decide)
  have ha : MeetsM (txStep ⟨true, true⟩) Admissible (nfbXctrlStartTx .pp plainEnv 16).1
      [.startXmit (plainSkb 0x1000), .reclaim 2] := by decide +kernel
  have hrun : runM (txStep ⟨true, true⟩) (nfbXctrlStartTx .pp plainEnv 16).1
      [.startXmit (plainSkb 0x1000), .reclaim 2] = some ((txStep ⟨true, true⟩ sentOne (.reclaim 2)).getD sentOne) := rfl
  have ha' : Meets (RxWorld.step fragConfig) (RxWorld.Admissible fragConfig) ⟨(nfbXctrlStartRx plainEnv 128).1, []⟩
      [threePages] := by decide +kernel
  obtain ⟨htx, hrx⟩ := destroy_releases_iff ⟨true, true⟩ fragConfig (by decide) hs (by decide) hs' _ ha hrun _ ha'
    ⟨[haltsAtOnce], 0, 0⟩ [haltsAt 3]
  exact ⟨htx.2 (by decide +kernel), hrx.2 (by decide +kernel)⟩

/-- Five buffers, of which three went up in two packets. -/
def afterTwoPackets : RxCtrl :=
  (run (RxWorld.step fragConfig) ⟨(nfbXctrlStartRx plainEnv 128).1, []⟩
    [threePages, .fill { hdp := 0, buffs := [⟨4, 0x4000⟩, ⟨5, 0x5000⟩] }, .hardware 100, .hardware 5000, .receive 8]).ctrl

/-- A packet that was sent and not reclaimed stays. With slots 3 and 4 of the RX ring in use, a stop during which two
packets come gives back slot 2, whose buffer went up, and not slot 4; without packets it gives back nothing. -/
theorem destroy_loses_buffers :
    (MeetsM (txStep ⟨true, true⟩) Admissible (nfbXctrlStartTx .pp plainEnv 16).1 [.startXmit (plainSkb 0x1000)] ∧
      runM (txStep ⟨true, true⟩) (nfbXctrlStartTx .pp plainEnv 16).1 [.startXmit (plainSkb 0x1000)] = some sentOne ∧
      ¬ ReleasesAll sentOne ⟨[haltsAtOnce], 0, 0⟩) ∧
    (Meets (RxWorld.step fragConfig) (RxWorld.Admissible fragConfig) ⟨(nfbXctrlStartRx plainEnv 128).1, []⟩
        [threePages, .fill { hdp := 0, buffs := [⟨4, 0x4000⟩, ⟨5, 0x5000⟩] }, .hardware 100, .hardware 5000, .receive 8] ∧
      afterTwoPackets.ringSlots = [3, 4] ∧ nfbXctrlDestroyRx .pp [haltsAt 4] afterTwoPackets = [2, 3] ∧
      nfbXctrlDestroyRx .pp [haltsAtOnce] afterTwoPackets = []) := by
  refine ⟨⟨by decide +kernel, rfl, ?_⟩, by decide +kernel, by decide +kernel, by decide +kernel, by decide +kernel⟩
  rintro ⟨e, he, hperm⟩
  rw [destroyTx_events] at he
  cases he
  have hne : sentOne.owed.flatMap Owed.owes ≠ [] := by decide +kernel
  exact hne hperm.symm.eq_nil

end NdkSw.Xdp

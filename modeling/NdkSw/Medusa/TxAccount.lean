/-
What the accounting of a TX controller promises between calls, and what a wait that a kill signal ends
does to it: the published pointer moves behind headers that were never converted, so the headers in
flight are no longer those of the descriptors in flight.
-/
import NdkSw.Medusa.TxProgress

namespace NdkSw.Medusa

open Ndp Ring

variable {R : MpsRing} {k d : Nat} {ctrl ctrl' : TxCtrl}

/-- The promises: every type-2 descriptor written for a header slot describes the buffer of that slot,
the free descriptors are those not in flight, and so many type-2 descriptors are in flight as headers. -/
structure Accounted (R : MpsRing) (ctrl : TxCtrl) : Prop where
  descs : type2Descs ctrl.written =
    ctrl.converted.map fun cv => type2Desc cv.buffer.addr cv.buffer.len cv.buffer.metaBits 0
  buffers : ∀ cv ∈ ctrl.converted, cv.index = cv.slot ∧ cv.buffer.addr = (R.walk cv.slot).addr R.blocks
  free : ctrl.freeDesc.toNat = ctrl.c.mdp.toNat - ((ctrl.c.sdp - ctrl.c.hdp) &&& ctrl.c.mdp).toNat
  headers : ctrl.freeHdrs ctrl.c.hdp ((ctrl.c.sdp - ctrl.c.hdp) &&& ctrl.c.mdp).toNat =
    ((ctrl.c.shp - ctrl.c.hhp) &&& ctrl.c.mhp).toNat

theorem TxStream.type2Descs (h : TxStream ctrl) : type2Descs ctrl.written =
    ctrl.converted.map fun cv => type2Desc cv.buffer.addr cv.buffer.len cv.buffer.metaBits 0 := by
  rw [h.written, type2Descs_encode, List.map_map]; rfl

theorem TxLive.inFlight (h : TxLive R k d ctrl) :
    ((ctrl.c.sdp - ctrl.c.hdp) &&& ctrl.c.mdp).toNat = ctrl.written.length - d ∧ ctrl.written.length - d < 2 ^ k := by
  have hpos : 0 < 2 ^ k := by positivity
  have hfree := h.descs.free
  have hlt : ctrl.written.length - d < 2 ^ k := by omega
  exact ⟨(at_of_mod h.sdp).toNat_sub_and h.descs.mdp (at_of_mod h.descs.hdp) h.descs.le hlt, hlt⟩

theorem TxLive.freeHdrs (h : TxLive R k d ctrl) :
    (type2Descs (ctrl.written.take d)).length + ctrl.freeHdrs ctrl.c.hdp (ctrl.written.length - d) = ctrl.converted.length ∧
      ctrl.freeHdrs ctrl.c.hdp (ctrl.written.length - d) < 2 ^ k := by
  have hle := h.descs.le
  have hsum := h.descs.freeHdrs (n := ctrl.written.length - d) (by omega)
  rw [show d + (ctrl.written.length - d) = ctrl.written.length by omega, List.take_length] at hsum
  refine ⟨?_, ?_⟩
  · rw [hsum, h.stream.type2Descs, List.length_map]
  · refine lt_of_le_of_lt ?_ h.inFlight.2
    unfold TxCtrl.freeHdrs
    exact (List.length_filter_le _ _).trans (by simp)

theorem TxLive.accounted (h : TxLive R k d ctrl) (hi : InStep k ctrl) : Accounted R ctrl := by
  obtain ⟨hfly, _⟩ := h.inFlight
  obtain ⟨hsum, hlt⟩ := h.freeHdrs
  refine ⟨h.stream.type2Descs, fun cv hcv => ?_, ?_, ?_⟩
  · obtain ⟨j, hj⟩ := List.getElem?_of_mem hcv
    obtain ⟨h1, h2⟩ := h.index j cv hj
    rw [hi.slot j cv hj]
    refine ⟨h1, h2.trans ?_⟩
    have hn : 0 < R.cfg.bufferCount.toNat := by rw [h.size]; positivity
    rw [← h.size, show R.walk j = R.walk (j % R.cfg.bufferCount.toNat) from mpsWalk_mod hn j]
  · have hfree := h.descs.free
    rw [hfly, h.descs.mdp.toNat_eq]
    omega
  · rw [hfly, (at_of_mod hi.shp).toNat_sub_and h.descs.mhp (at_of_mod h.descs.hhp) (by omega) (by omega)]
    omega

/-- In every run whose waits see no kill signal, a running controller keeps its accounting. -/
theorem tx_accounting (R : MpsRing) (hcount : 0 < R.cfg.bufferCount.toNat) (s₀ : TxSys) (hcfg : s₀.ctrl.mps.cfg = R.cfg)
    (hblocks : s₀.ctrl.blocks = R.blocks) (hstop : s₀.running = false) (acts : List TxAct) (hkill : ∀ a ∈ acts, a.NoKill)
    (s : TxSys) (hrun : runM (TxSys.step R.pageSize) s₀ acts = some s) (hs : s.running = true) : Accounted R s.ctrl := by
  have h₀ : TxInv R True s₀ := ⟨hcfg, hblocks, fun h => absurd h (by simp [hstop])⟩
  obtain ⟨k, d, hl, hi⟩ := (runM_inv (TxInv.step hcount) acts s₀ s (fun a ha _ => hkill a ha) h₀ hrun).running hs
  exact hl.accounted (hi trivial)

theorem tx_accounting_two_packets : ∃ s, runM (TxSys.step 4096) wholeSys
      [.start wholeEnv wholeEnv, .setSwptr (fun _ => ⟨60, 0, 0, 0, 0⟩) 2 [], .getHwptr 2] = some s ∧
    Accounted wholeRing s.ctrl := by
  have hrun : (runM (TxSys.step 4096) wholeSys
      [.start wholeEnv wholeEnv, .setSwptr (fun _ => ⟨60, 0, 0, 0, 0⟩) 2 [], .getHwptr 2]).map (·.running) = some true := by
    decide +kernel
  obtain ⟨s, hs, hr⟩ := Option.map_eq_some_iff.1 hrun
  refine ⟨s, hs, tx_accounting wholeRing (by decide) wholeSys rfl rfl rfl _ ?_ s hs hr⟩
  intro a ha
  simp only [List.mem_cons, List.not_mem_nil, or_false] at ha
  rcases ha with rfl | rfl | rfl
  · trivial
  · intro p hp
    cases hp
  · trivial

/-! ## A wait ended by a kill signal -/

theorem txConvert_killed {p : Poll} (hp : p.kill = true) (pageSize shp : U32) (n i : Nat) (ctrl : TxCtrl) (sdp : U32) :
    ∃ ctrl' sdp' killed, txConvert pageSize shp n i ctrl sdp [p] = some (ctrl', sdp', killed, if killed then [] else [p]) := by
  induction n generalizing i ctrl sdp with
  | zero => exact ⟨ctrl, sdp, false, rfl⟩
  | succ n ih =>
    rw [txConvert, ndpCtrlMedusaTxWaitForFreeDesc]
    by_cases hlt : ctrl.freeDesc < 2
    · simp only [if_pos hlt, hp, if_true]
      exact ⟨_, _, true, rfl⟩
    · simp only [if_neg hlt]
      exact ih (i + 1) _ _

theorem Accounted.not_of_aborted {d' : Nat} (hi : InStep k ctrl) (hl' : TxLive R k d' ctrl') {m n : Nat}
    (hmn : m < n) (hn : n < 2 ^ k) (hshp : ctrl'.c.shp.toNat = (ctrl.c.shp.toNat + n) % 2 ^ k)
    (hlen : ctrl'.converted.length = ctrl.converted.length + m) : ¬ Accounted R ctrl' := by
  intro hA
  obtain ⟨hfly, _⟩ := hl'.inFlight
  obtain ⟨hsum, hlt⟩ := hl'.freeHdrs
  have hh := hA.headers
  rw [hfly] at hh
  have hpub : At k ctrl'.c.shp (ctrl.converted.length + n) := by
    refine at_of_mod ?_
    rw [hshp, hi.shp, Nat.mod_add_mod]
  have hdone : (type2Descs (ctrl'.written.take d')).length ≤ ctrl.converted.length + n := by omega
  have hsub := (At.sub hl'.descs.mhp.le_width hpub (at_of_mod hl'.descs.hhp) hdone).toNat_and hl'.descs.mhp
  rw [← hh] at hsub
  generalize ctrl'.freeHdrs ctrl'.c.hdp (ctrl'.written.length - d') = x at hsum hlt hsub
  rw [show ctrl.converted.length + n - (type2Descs (ctrl'.written.take d')).length = x + (n - m) by omega] at hsub
  -- `x` and `x + (n - m)` have the same slot, less than one lap apart
  have hmod : x % 2 ^ k = (x + (n - m)) % 2 ^ k := by rw [← hsub, Nat.mod_eq_of_lt hlt]
  have := slot_inj hmod (by omega) (by omega)
  omega

theorem TxLive.killed (hl : TxLive R k d ctrl) (hi : InStep k ctrl) {n : Nat} (hn : n < 2 ^ k)
    (hroom : ¬ Room R.pageSize k ctrl.written.length ctrl ctrl.c.shp.toNat n) {p : Poll} (hp : p.kill = true) :
    ∃ ctrl', ndpCtrlMedusaTxSetSwptr R.pageSize ctrl (ctrl.ptrAfter n) [p] = some (ctrl', []) ∧ ¬ Accounted R ctrl' := by
  obtain ⟨ctrl₁, sdp₁, killed, hc⟩ := txConvert_killed hp R.pageSize ctrl.c.shp n 0 ctrl ctrl.c.sdp
  cases killed with
  | false => exact absurd (txConvert_room ctrl.c.shp n 0 hl.descs (at_of_mod hl.sdp) hl.stream hc) hroom
  | true =>
    have hset : ∃ ctrl', ndpCtrlMedusaTxSetSwptr R.pageSize ctrl (ctrl.ptrAfter n) [p] = some (ctrl', []) := by
      unfold ndpCtrlMedusaTxSetSwptr
      simp only [hl.descs.publish_count hn, hc]
      exact ⟨_, rfl⟩
    obtain ⟨ctrl', hset⟩ := hset
    obtain ⟨hshp, ⟨d', hl'⟩, m, killed, hpub⟩ := hl.setSwptr hn hset
    have hout := hpub.outcome
    rw [hc] at hout
    obtain ⟨rfl, _⟩ := Prod.mk.inj (Option.some.inj hout)
    refine ⟨ctrl', hset, Accounted.not_of_aborted hi hl' (hpub.abort rfl).1 hn hshp ?_⟩
    rw [hpub.converted, List.length_append, List.length_map, List.length_range]

/-- The accounting is wrong after a kill signal ended the publishing of the whole window. -/
theorem tx_accounting_lost_by_kill : ∃ s, runM (TxSys.step 4096) wholeSys
      [.start wholeEnv wholeEnv, .setSwptr (fun _ => ⟨60, 0, 0, 0, 0⟩) 1023 [⟨0, true⟩]] = some s ∧
    s.running = true ∧ ¬ Accounted wholeRing s.ctrl := by
  obtain ⟨ctrl, hstart, hl, hi, _, _, hfree⟩ := wholeSys_start
  have hl' := hl.setHdr fun _ => ⟨60, 0, 0, 0, 0⟩
  have hroom : ¬ Room 4096 10 ctrl.written.length { ctrl with hdr := fun _ => ⟨60, 0, 0, 0, 0⟩ } ctrl.c.shp.toNat 1023 := by
    rintro (h | h)
    · omega
    · unfold descsFor at h
      simp only at h
      omega
  obtain ⟨ctrl', hset, hA⟩ := hl'.killed ⟨hi.shp, hi.slot⟩ (by norm_num) hroom (p := ⟨0, true⟩) rfl
  refine ⟨⟨ctrl', true⟩, runM_cons hstart (runM_cons ?_ (runM_nil _)), rfl, hA⟩
  have hmin : min 1023 ({ ctrl with hdr := fun _ => ⟨60, 0, 0, 0, 0⟩ } : TxCtrl).freeSlots = 1023 := by
    rw [show ({ ctrl with hdr := fun _ => ⟨60, 0, 0, 0, 0⟩ } : TxCtrl).freeSlots = 1023 from hfree]
    rfl
  simp only [TxSys.step, not_true_eq_false, if_false, hmin]
  rw [show (4096 : U32) = wholeRing.pageSize from rfl, hset]

end NdkSw.Medusa

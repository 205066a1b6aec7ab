/-
A Calypte TX queue whose syncs go to the driver: what a sync does in absolute positions, the data pointer of the driver and the
headers it takes included.
-/
import NdkSw.Calypte.TxStage
import NdkSw.Calypte.TxUspaceRun

namespace NdkSw.Calypte

open Ndp Ring Bits

/-! ## The world of the queue -/

/-- The rounds of `ndp_ctrl_calypte_tx_set_swptr`: the header of each, and `sdp` before it. -/
def calypteTxRounds (mdp shp : U32) : Nat → Nat → CalypteTs → U32 → List (V3PacketHdr × U32)
  | 0, _, _, _ => []
  | n + 1, i, ts, sdp =>
    let len : U32 := (ts.item shp i).frameLen.setWidth 32
    (ts.item shp i, sdp) :: calypteTxRounds mdp shp n (i + 1) ts (frameLenCeil (sdp + len) &&& mdp)

/-- What the hardware has done and will do until the next syncs, the headers put before the last sync, the driver's channel, the headers
it has taken with its data pointer at each, and for every sync how many headers were put and what the hardware had done. -/
structure KernWorld where
  hwHdrs : Nat
  hwBytes : Nat
  moves : List HwMove
  published : Nat
  ch : Channel CalypteTxCtrl
  taken : List (V3PacketHdr × U32)
  looks : List (Nat × HwMove)

/-- The hardware comes further, but not beyond what was put to it. -/
def kernAdvance (t : TxWorld KernWorld) : TxWorld KernWorld :=
  let m := t.w.moves.headD ⟨0, 0⟩
  { t with w := { t.w with
      hwHdrs := min (t.w.hwHdrs + m.hdrs) t.sent.length
      hwBytes := min (t.w.hwBytes + m.bytes) (sentBytes t.sent)
      moves := t.w.moves.tail } }

/-- The driver's channel with the header buffer, which it shares with the library. -/
def kernChannel (t : TxWorld KernWorld) : Channel CalypteTxCtrl :=
  { t.w.ch with ctrl := { t.w.ch.ctrl with ts := { t.w.ch.ctrl.ts with hdr := t.mem } } }

/-- What the hardware shows to the driver. -/
def kernHw (t : TxWorld KernWorld) : TxHw :=
  { hwStill with
    hdp := BitVec.ofNat 32 t.w.hwBytes &&& t.w.ch.ctrl.c.mdp
    hhp := BitVec.ofNat 32 t.w.hwHdrs &&& t.w.ch.ctrl.c.mhp }

/-- The headers that the driver takes in a sync. -/
def kernTakes (ch : Channel CalypteTxCtrl) (sync : SubscriptionSync) : List (V3PacketHdr × U32) :=
  if ch.lockedSub = some 0 ∧ sync.hwptr ≠ ch.swptr then
    calypteTxRounds ch.ctrl.c.mdp ch.ctrl.c.shp
      ((sync.hwptr - ch.ctrl.c.shp.setWidth 64) &&& ch.ctrl.c.mhp.setWidth 64).toNat 0 ch.ctrl.ts ch.ctrl.c.sdp
  else []

/-- `_ndp_queue_sync` of the queue's subscription. -/
def kernCall : SyncCall KernWorld := fun _ t q =>
  let t := kernAdvance t
  let ch := kernChannel t
  match ndpSubscriptionSync calypteTxOps .tx (kernHw t) ch 0 q.sync with
  | (ch', sync, ret) =>
    ({ t with w := { t.w with
        published := t.sent.length
        ch := ch'
        taken := t.w.taken ++ kernTakes ch q.sync
        looks := t.w.looks ++ [(t.sent.length, ⟨t.w.hwHdrs, t.w.hwBytes⟩)] } }, { q with sync }, ret)

/-! ## Positions of frames -/

variable {k kd : Nat}

theorem toNat_frameLenCeil_len (len : U16) : (frameLenCeil (len.setWidth 32)).toNat = ceilTo 32 len.toNat := by
  have hlen := len.isLt
  have h32 : (len.setWidth 32 : U32).toNat = len.toNat := by
    rw [BitVec.toNat_setWidth]
    exact Nat.mod_eq_of_lt (by omega)
  rw [toNat_frameLenCeil (by rw [h32]; omega), h32]

theorem ceilTo_add {a b : Nat} (h : 32 ∣ a) : ceilTo 32 (a + b) = a + ceilTo 32 b := by
  obtain ⟨c, rfl⟩ := h
  unfold ceilTo
  have hdiv : (32 * c + b + (32 - 1)) / 32 = c + (b + (32 - 1)) / 32 := by omega
  rw [hdiv, Nat.add_mul, Nat.mul_comm c 32]

theorem dvd_cellBytes (items : Nat) (mem : Nat → V3PacketHdr) (base n : Nat) : 32 ∣ cellBytes items mem base n := by
  induction n with
  | zero => exact dvd_zero 32
  | succ n ih =>
    rw [cellBytes, toNat_frameLenCeil_len]
    exact dvd_add ih (dvd_ceilTo 32 _)

theorem dvd_sentBytes (l : List (U32 × V3PacketHdr)) : 32 ∣ sentBytes l := by
  unfold sentBytes
  apply List.dvd_sum
  intro x hx
  obtain ⟨h, -, rfl⟩ := List.mem_map.1 hx
  rw [toNat_frameLenCeil_len]
  exact dvd_ceilTo 32 _

theorem dvd_mod (hkd : 5 ≤ kd) {a : Nat} (h : 32 ∣ a) : 32 ∣ a % 2 ^ kd :=
  (Nat.dvd_mod_iff (pow_dvd_pow 2 hkd : 2 ^ 5 ∣ 2 ^ kd)).2 h

theorem toNat_nextPos {m sdp : U32} {a : Nat} (len : U16) (hm : IsMask m kd) (hkd : 5 ≤ kd) (hkd' : kd ≤ 16) (ha : 32 ∣ a)
    (hs : sdp.toNat = a % 2 ^ kd) :
    (frameLenCeil (sdp + len.setWidth 32) &&& m).toNat = (a + (frameLenCeil (len.setWidth 32)).toNat) % 2 ^ kd := by
  have hlen := len.isLt
  have hpow : 2 ^ kd ≤ 2 ^ 16 := Nat.pow_le_pow_right (by norm_num) hkd'
  have hlt : a % 2 ^ kd < 2 ^ kd := Nat.mod_lt _ (by positivity)
  have h32 : (len.setWidth 32 : U32).toNat = len.toNat := by
    rw [BitVec.toNat_setWidth]
    exact Nat.mod_eq_of_lt (by omega)
  have hadd : (sdp + len.setWidth 32).toNat = a % 2 ^ kd + len.toNat := by
    rw [BitVec.toNat_add, hs, h32, Nat.mod_eq_of_lt (by omega)]
  rw [hm.toNat_and, toNat_frameLenCeil (by rw [hadd]; omega), hadd, ceilTo_add (dvd_mod hkd ha), toNat_frameLenCeil_len, Nat.mod_add_mod]

/-- The data pointer of the driver behind the headers it takes, and at each of them. -/
theorem calypteTxPublish_sdp {mdp : U32} (hm : IsMask mdp kd) (hkd : 5 ≤ kd) (hkd' : kd ≤ 16) {a : Nat} (ha : 32 ∣ a) (shp : U32) :
    ∀ (n i : Nat) (ts : CalypteTs) (sdp : U32), sdp.toNat = (a + cellBytes ts.hdrItems ts.hdr shp.toNat i) % 2 ^ kd →
      (calypteTxPublish mdp shp n i ts sdp).2.toNat = (a + cellBytes ts.hdrItems ts.hdr shp.toNat (i + n)) % 2 ^ kd ∧
        calypteTxRounds mdp shp n i ts sdp = (List.range n).map fun j =>
          (ts.item shp (i + j), BitVec.ofNat 32 ((a + cellBytes ts.hdrItems ts.hdr shp.toNat (i + j)) % 2 ^ kd))
  | 0, _, _, _, hs => ⟨hs, rfl⟩
  | n + 1, i, ts, sdp, hs => by
    have hnext := toNat_nextPos (ts.item shp i).frameLen hm hkd hkd' (dvd_add ha (dvd_cellBytes ts.hdrItems ts.hdr shp.toNat i)) hs
    have hcell : a + cellBytes ts.hdrItems ts.hdr shp.toNat i + (frameLenCeil ((ts.item shp i).frameLen.setWidth 32)).toNat =
        a + cellBytes ts.hdrItems ts.hdr shp.toNat (i + 1) := Nat.add_assoc _ _ _
    rw [hcell] at hnext
    have hshift : i + 1 + n = i + (n + 1) := by omega
    have hpow : 2 ^ kd ≤ 2 ^ 16 := Nat.pow_le_pow_right (by norm_num) hkd'
    obtain ⟨hsdp, -⟩ := calypteTxPublish_sdp hm hkd hkd' ha shp n (i + 1)
      { ts with freeBytes := ts.freeBytes - (frameLenCeil ((ts.item shp i).frameLen.setWidth 32)).setWidth 64 } _ hnext
    obtain ⟨-, hrounds⟩ := calypteTxPublish_sdp hm hkd hkd' ha shp n (i + 1) ts _ hnext
    rw [hshift] at hsdp
    refine ⟨hsdp, ?_⟩
    have hfirst : sdp = BitVec.ofNat 32 ((a + cellBytes ts.hdrItems ts.hdr shp.toNat i) % 2 ^ kd) := by
      apply BitVec.eq_of_toNat_eq
      rw [BitVec.toNat_ofNat, ← hs, Nat.mod_eq_of_lt sdp.isLt]
    have hstep (j : Nat) : i + 1 + j = i + (j + 1) := by omega
    rw [calypteTxRounds, hrounds, List.range_succ_eq_map, List.map_cons, List.map_map]
    simp only [Nat.add_zero, hstep, ← hfirst]
    rfl

theorem txsyncGrant_sdp (hw : TxHw) (ch : Channel CalypteTxCtrl) (sync : SubscriptionSync) :
    (txsyncGrant calypteTxOps hw ch 0 sync).1.ctrl.c.sdp = ch.ctrl.c.sdp := rfl

/-- The data pointer behind a sync, and what the driver has taken. -/
theorem sync_sdp {U P H D G B : Nat} {ch : Channel CalypteTxCtrl} {sync req : SubscriptionSync} {hw : TxHw} (hkd : 5 ≤ kd) (hkd' : kd ≤ 16)
    (h : Driver k kd U H D G B ch sync) (hB : 32 ∣ B) (hsdp : ch.ctrl.c.sdp.toNat = B % 2 ^ kd) (hreq : req.hwptr.toNat = P % 2 ^ k)
    (hUP : U ≤ P) (hPG : P ≤ G) :
    (ndpSubscriptionSync calypteTxOps .tx hw ch 0 req).1.ctrl.c.sdp.toNat =
        (B + cellBytes (2 * 2 ^ k) ch.ctrl.ts.hdr (U % 2 ^ k) (P - U)) % 2 ^ kd ∧
      kernTakes ch req = (List.range (P - U)).map fun j =>
        (ch.ctrl.ts.hdr ((U % 2 ^ k + j) % (2 * 2 ^ k)),
          BitVec.ofNat 32 ((B + cellBytes (2 * 2 ^ k) ch.ctrl.ts.hdr (U % 2 ^ k) j) % 2 ^ kd)) := by
  have hlap := h.lap
  have hdone := h.done
  have hpos : 0 < 2 ^ k := by positivity
  have hk := h.mhp.le_width
  unfold ndpSubscriptionSync
  rw [if_neg (by rw [h.running]; decide)]
  by_cases htake : ch.lockedSub = some 0 ∧ req.hwptr ≠ ch.swptr
  · have hcount : ((req.hwptr - ch.ctrl.c.shp.setWidth 64) &&& ch.ctrl.c.mhp.setWidth 64).toNat = P - U :=
      (at_of_mod hreq).toNat_sub_and (h.mhp.setWidth (by omega)) ((at_of_mod h.shp).setWidth (by omega)) hUP (by omega)
    obtain ⟨hend, hrounds⟩ := calypteTxPublish_sdp h.mdp hkd hkd' hB ch.ctrl.c.shp (P - U) 0 ch.ctrl.ts ch.ctrl.c.sdp hsdp
    rw [Nat.zero_add] at hend
    unfold ndpChannelTxsync kernTakes
    rw [if_pos htake.1, if_pos htake, hcount, hrounds]
    simp only [if_pos htake.2, Nat.zero_add, CalypteTs.item, h.hdrItems, h.shp]
    refine ⟨?_, trivial⟩
    rw [txsyncGrant_sdp]
    show (ndpCtrlCalypteTxSetSwptr ch.ctrl req.hwptr).c.sdp.toNat = _
    unfold ndpCtrlCalypteTxSetSwptr
    simp only [hcount]
    rw [h.hdrItems, h.shp] at hend
    exact hend
  · -- Nothing was put since the last sync.
    have hPU : P = U := by
      by_cases hlock : G = U
      · omega
      · have hsome : ch.lockedSub = some 0 := by rw [h.locked, if_neg hlock]
        have heq : req.hwptr = ch.swptr := by
          by_contra hne
          exact htake ⟨hsome, hne⟩
        have hat : At k req.hwptr U := by rw [heq]; exact at_of_mod h.swptr
        exact slot_inj ((at_of_mod hreq : At k req.hwptr P).symm.trans hat) (by omega) (by omega)
    have hnone : kernTakes ch req = [] := if_neg htake
    rw [hnone, hPU, Nat.sub_self]
    refine ⟨?_, rfl⟩
    rw [cellBytes, Nat.add_zero, ← hsdp]
    unfold ndpChannelTxsync
    by_cases hlock : ch.lockedSub = some 0
    · have heq : ¬req.hwptr ≠ ch.swptr := fun hne => htake ⟨hlock, hne⟩
      rw [if_pos hlock]
      simp only [if_neg heq]
      rfl
    · have hfree : ch.lockedSub = none := by
        have hlocked := h.locked
        by_cases hG : G = U
        · rw [hlocked, if_pos hG]
        · rw [if_neg hG] at hlocked
          exact absurd hlocked hlock
      rw [if_neg hlock, if_pos hfree]
      rfl

end NdkSw.Calypte

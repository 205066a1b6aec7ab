/-
The library's TX sync and the driver's, step by step: what either does to the pointers and to the free
bytes when the headers put since the sync before are published, in absolute positions.
-/
import NdkSw.Calypte.TxUspace

namespace NdkSw.Calypte

open Ndp Ring

variable {k kd : Nat} {ch : Channel CalypteTxCtrl} {sync : SubscriptionSync}

/-! ## Bytes -/

/-- The bytes that `n` items of a header buffer from `base` on take in the data ring. -/
def cellBytes (items : Nat) (mem : Nat → V3PacketHdr) (base : Nat) : Nat → Nat
  | 0 => 0
  | n + 1 => cellBytes items mem base n + (frameLenCeil ((mem ((base + n) % items)).frameLen.setWidth 32)).toNat

theorem cellBytes_mono {items : Nat} {mem : Nat → V3PacketHdr} {base m n : Nat} (h : m ≤ n) :
    cellBytes items mem base m ≤ cellBytes items mem base n := by
  induction n, h using Nat.le_induction with
  | base => exact le_rfl
  | succ n _ ih => exact le_trans ih (Nat.le_add_right _ _)

theorem sentBytes_append (l m : List (U32 × V3PacketHdr)) : sentBytes (l ++ m) = sentBytes l + sentBytes m := by
  unfold sentBytes
  rw [List.map_append, List.sum_append]

theorem sentBytes_split (l : List (U32 × V3PacketHdr)) (n : Nat) : sentBytes (l.take n) + sentBytes (l.drop n) = sentBytes l := by
  rw [← sentBytes_append, List.take_append_drop]

theorem shadowSlot_natCast (items x : Nat) : shadowSlot items (x : Int) = x % items := by
  unfold shadowSlot
  rw [← Int.natCast_mod, Int.toNat_natCast]

theorem TxWorld.space_eq {W : Type} (t : TxWorld W) (x : Nat) :
    t.space (x : Int) = frameLenCeil ((t.mem (x % t.items)).frameLen.setWidth 32) := by
  unfold TxWorld.space TxWorld.hdr
  rw [shadowSlot_natCast]

theorem toNat_sub_of_le {w : Nat} {x y : BitVec w} (h : y.toNat ≤ x.toNat) : (x - y).toNat = x.toNat - y.toNat :=
  BitVec.toNat_sub_of_le (BitVec.le_def.2 h)

/-! ## The library's sync -/

theorem uspaceRounds_free {W : Type} (t : TxWorld W) (us : Uspace) (n : Nat)
    (h : cellBytes t.items t.mem us.shp.toNat n ≤ us.free.toNat) :
    (uspaceRounds t us n).1.toNat + cellBytes t.items t.mem us.shp.toNat n = us.free.toNat := by
  induction n with
  | zero => rfl
  | succ n ih =>
    rw [cellBytes] at h ⊢
    have hn := ih (by omega)
    have hspace : t.space ((us.shp.toNat : Int) + n) =
        frameLenCeil ((t.mem ((us.shp.toNat + n) % t.items)).frameLen.setWidth 32) := by
      rw [← Nat.cast_add, t.space_eq]
    simp only [uspaceRounds, hspace]
    rw [toNat_sub_of_le (by omega)]
    omega

/-- Publishing up to position `P`. -/
theorem uspacePublish_spec {W : Type} {t : TxWorld W} {us : Uspace} {nh : U32} {U P : Nat} (hm : IsMask us.mhp k)
    (hs : us.shp.toNat = U % 2 ^ k) (hp : nh.toNat = P % 2 ^ k) (hUP : U ≤ P) (hlap : P - U < 2 ^ k)
    (hb : cellBytes t.items t.mem us.shp.toNat (P - U) ≤ us.free.toNat) :
    ((nh - us.shp) &&& us.mhp).toNat = P - U ∧ ∃ free sdp acc,
      uspacePublish t us nh = { us with free, sdp, shp := nh, acc } ∧
        free.toNat + cellBytes t.items t.mem us.shp.toNat (P - U) = us.free.toNat := by
  have hcount : ((nh - us.shp) &&& us.mhp).toNat = P - U := (at_of_mod hp).toNat_sub_and hm (at_of_mod hs) hUP hlap
  have hfree := uspaceRounds_free t us (P - U) hb
  refine ⟨hcount, ?_⟩
  unfold uspacePublish
  simp only [hcount]
  generalize uspaceRounds t us (P - U) = x at hfree
  obtain ⟨free, sdp⟩ := x
  by_cases h0 : (nh - us.shp) &&& us.mhp = 0
  · have hPU : P = U := by
      rw [h0] at hcount
      have : (0 : Nat) = P - U := hcount
      omega
    have hsame : us.shp = nh := BitVec.eq_of_toNat_eq (by rw [hs, hp, hPU])
    simp only [h0, ne_eq, not_true_eq_false, if_false]
    exact ⟨free, us.sdp, us.acc, by rw [← hsame], hfree⟩
  · simp only [ne_eq, h0, not_false_eq_true, if_true]
    exact ⟨free, _, _, rfl, hfree⟩

theorem uspaceUpdate_spec {us : Uspace} {upd : UpdateBuff} {HU H DU D : Nat} (hm : IsMask us.mdp kd)
    (hh : us.hhp.toNat = HU % 2 ^ k) (hh' : upd.hhp.toNat = H % 2 ^ k) (hd : us.hdp.toNat = DU % 2 ^ kd)
    (hd' : upd.hdp.toNat = D % 2 ^ kd) (hle : DU ≤ D) (hlap : D - DU < 2 ^ kd) (hroom : us.free.toNat + (D - DU) < 2 ^ 32) :
    ∃ hhp hdp free, uspaceUpdate upd us = { us with hhp, hdp, free } ∧
      (hhp.toNat = HU % 2 ^ k ∧ hdp.toNat = DU % 2 ^ kd ∧ free = us.free ∧ ¬ us.Looks ∨
        hhp.toNat = H % 2 ^ k ∧ hdp.toNat = D % 2 ^ kd ∧ free.toNat = us.free.toNat + (D - DU) ∧ us.Looks) := by
  have hcount : ((upd.hdp - us.hdp) &&& us.mdp).toNat = D - DU :=
    (at_of_mod hd').toNat_sub_and hm (at_of_mod hd) hle hlap
  unfold uspaceUpdate
  by_cases hl : us.Looks
  · rw [if_pos hl]
    refine ⟨_, _, _, rfl, Or.inr ⟨hh', hd', ?_, hl⟩⟩
    rw [BitVec.toNat_add, hcount]
    exact Nat.mod_eq_of_lt hroom
  · rw [if_neg hl]
    exact ⟨us.hhp, us.hdp, us.free, rfl, Or.inl ⟨hh, hd, rfl, hl⟩⟩

/-- The position of the hardware that the library's sync goes by. -/
def usSeen (t : TxWorld UsWorld) (q : QueueV3Tx) (HU H : Nat) : Nat :=
  if (uspacePublish t q.us (q.sync.hwptr.setWidth 32)).Looks then H else HU

/-- What the library's sync makes of a queue that has published `U` of the `P` headers put, and has seen the
hardware at `HU` and `DU`, where it stands at `H` and `D` now. -/
structure UsSynced (k kd : Nat) (t : TxWorld UsWorld) (q : QueueV3Tx) (P HU H DU D pend : Nat) (us : Uspace)
    (sync : SubscriptionSync) : Prop where
  mhp : us.mhp = q.us.mhp
  mdp : us.mdp = q.us.mdp
  shp : us.shp.toNat = P % 2 ^ k
  hhp : us.hhp.toNat = usSeen t q HU H % 2 ^ k
  bytes : ∃ DU', DU ≤ DU' ∧ DU' ≤ D ∧ us.hdp.toNat = DU' % 2 ^ kd ∧ us.free.toNat + pend + DU = q.us.free.toNat + DU'
  hwptr : sync.hwptr.toNat = usSeen t q HU H % 2 ^ k
  swptr : sync.swptr.toNat = (usSeen t q HU H + min ((q.sync.swptr - q.sync.hwptr) &&& q.us.mhp.setWidth 64).toNat
    (usSeen t q HU H + (2 ^ k - 1) - P)) % 2 ^ k
  size : sync.size.toNat = us.free.toNat

theorem usSeen_bounds (t : TxWorld UsWorld) (q : QueueV3Tx) {HU H : Nat} (h : HU ≤ H) :
    HU ≤ usSeen t q HU H ∧ usSeen t q HU H ≤ H := by
  unfold usSeen
  split
  · exact ⟨h, le_rfl⟩
  · exact ⟨le_rfl, h⟩

theorem txSyncV3Us_spec {t : TxWorld UsWorld} {q : QueueV3Tx} {upd : UpdateBuff} {U P HU H DU D : Nat}
    (hm : IsMask q.us.mhp k) (hmd : IsMask q.us.mdp kd) (hs : q.us.shp.toNat = U % 2 ^ k)
    (hp : (q.sync.hwptr.setWidth 32 : U32).toNat = P % 2 ^ k) (hUP : U ≤ P) (hlap : P - U < 2 ^ k)
    (hb : cellBytes t.items t.mem q.us.shp.toNat (P - U) ≤ q.us.free.toNat)
    (hh : q.us.hhp.toNat = HU % 2 ^ k) (hh' : upd.hhp.toNat = H % 2 ^ k) (hHU : HU ≤ H) (hHP : H ≤ P)
    (hwin : P ≤ HU + (2 ^ k - 1))
    (hd : q.us.hdp.toNat = DU % 2 ^ kd) (hd' : upd.hdp.toNat = D % 2 ^ kd) (hle : DU ≤ D) (hdlap : D - DU < 2 ^ kd)
    (hroom : q.us.free.toNat + (D - DU) < 2 ^ 32 + cellBytes t.items t.mem q.us.shp.toNat (P - U)) :
    ∃ us sync, ndpQueueTxSyncV3Us t upd q = { q with us, sync } ∧
      UsSynced k kd t q P HU H DU D (cellBytes t.items t.mem q.us.shp.toNat (P - U)) us sync := by
  obtain ⟨_, free, sdp, acc, hpub, hfree⟩ := uspacePublish_spec hm hs hp hUP hlap hb
  obtain ⟨hhp, hdp, free', hupd, hcase⟩ :=
    @uspaceUpdate_spec k kd (uspacePublish t q.us (q.sync.hwptr.setWidth 32)) upd HU H DU D (by rw [hpub]; exact hmd) (by rw [hpub]; exact hh) hh' (by rw [hpub]; exact hd) hd' hle
      hdlap (by rw [hpub]; show free.toNat + _ < _; omega)
  -- where the library does not look, it goes by what it saw last
  have hseen : hhp.toNat = usSeen t q HU H % 2 ^ k := by
    unfold usSeen
    rcases hcase with ⟨h, _, _, hl⟩ | ⟨h, _, _, hl⟩
    · rw [if_neg hl]; exact h
    · rw [if_pos hl]; exact h
  obtain ⟨hs1, hs2⟩ := usSeen_bounds t q hHU
  have hbytes : ∃ DU', DU ≤ DU' ∧ DU' ≤ D ∧ hdp.toNat = DU' % 2 ^ kd ∧
      free'.toNat + cellBytes t.items t.mem q.us.shp.toNat (P - U) + DU = q.us.free.toNat + DU' := by
    rw [hpub] at hcase
    simp only at hcase
    rcases hcase with ⟨_, h, hf, _⟩ | ⟨_, h, hf, _⟩
    · exact ⟨DU, le_rfl, hle, h, by rw [hf]; omega⟩
    · exact ⟨D, hle, le_rfl, h, by omega⟩
  have hk32 := hm.le_width
  have hm64 : IsMask (q.us.mhp.setWidth 64 : U64) k := hm.setWidth (by omega)
  have hlen64 := hm64.toNat_and_lt (q.sync.swptr - q.sync.hwptr)
  have hpow : 2 ^ k ≤ 2 ^ 32 := Nat.pow_le_pow_right (by norm_num) hk32
  refine ⟨uspaceUpdate upd (uspacePublish t q.us (q.sync.hwptr.setWidth 32)), _, rfl, ?_⟩
  rw [hupd, hpub]
  have hchlen : ((hhp - q.sync.hwptr.setWidth 32 - 1) &&& q.us.mhp).toNat = usSeen t q HU H + (2 ^ k - 1) - P := by
    have hx : At k hhp (usSeen t q HU H + 2 ^ k) := (at_of_mod hseen).congr (by simp [Nat.ModEq])
    have h1 : At k (1 : U32) 1 := Nat.ModEq.refl _
    have hsub := At.sub hk32 (At.sub hk32 hx (at_of_mod hp) (by omega)) h1 (by omega)
    rw [hsub.toNat_and hm, Nat.mod_eq_of_lt (by omega)]
    omega
  have hlen : (umin (((q.sync.swptr - q.sync.hwptr) &&& q.us.mhp.setWidth 64).setWidth 32 : U32)
      ((hhp - q.sync.hwptr.setWidth 32 - 1) &&& q.us.mhp)).toNat =
        min ((q.sync.swptr - q.sync.hwptr) &&& q.us.mhp.setWidth 64).toNat
          (usSeen t q HU H + (2 ^ k - 1) - P) := by
    rw [toNat_umin, hchlen, BitVec.toNat_setWidth, Nat.mod_eq_of_lt (by omega)]
  refine ⟨rfl, rfl, hp, hseen, hbytes, ?_, ?_, ?_⟩
  · rw [toNat_setWidth64]; exact hseen
  · have ha : At k (hhp.setWidth 64 : U64) (usSeen t q HU H) := (at_of_mod hseen).setWidth (by omega)
    have hl := at_toNat (k := k) ((umin (((q.sync.swptr - q.sync.hwptr) &&& q.us.mhp.setWidth 64).setWidth 32 : U32)
      ((hhp - q.sync.hwptr.setWidth 32 - 1) &&& q.us.mhp)).setWidth 64 : U64)
    rw [toNat_setWidth64, hlen] at hl
    exact (At.add hm64.le_width ha hl).toNat_and hm64
  · exact toNat_setWidth64 _

/-! ## The driver's sync -/

/-- The rounds of `ndp_ctrl_calypte_tx_set_swptr` take the bytes of the items they read. -/
theorem calypteTxPublish_free (mdp shp : U32) (n i : Nat) (ts : CalypteTs) (sdp : U32)
    (h : cellBytes ts.hdrItems ts.hdr shp.toNat (i + n) ≤ ts.freeBytes.toNat + cellBytes ts.hdrItems ts.hdr shp.toNat i) :
    ∃ freeBytes, (calypteTxPublish mdp shp n i ts sdp).1 = { ts with freeBytes } ∧
      freeBytes.toNat + cellBytes ts.hdrItems ts.hdr shp.toNat (i + n) =
        ts.freeBytes.toNat + cellBytes ts.hdrItems ts.hdr shp.toNat i := by
  induction n generalizing i ts sdp with
  | zero => exact ⟨ts.freeBytes, rfl, rfl⟩
  | succ n ih =>
    have hcell : cellBytes ts.hdrItems ts.hdr shp.toNat (i + 1) = cellBytes ts.hdrItems ts.hdr shp.toNat i +
        (frameLenCeil ((ts.hdr ((shp.toNat + i) % ts.hdrItems)).frameLen.setWidth 32)).toNat := rfl
    have hmono := @cellBytes_mono ts.hdrItems ts.hdr shp.toNat (i + 1) (i + (n + 1)) (by omega)
    rw [calypteTxPublish]
    simp only [CalypteTs.item]
    generalize frameLenCeil (BitVec.setWidth 32 (ts.hdr ((shp.toNat + i) % ts.hdrItems)).frameLen) = c at hcell
    have hsub : (ts.freeBytes - c.setWidth 64).toNat = ts.freeBytes.toNat - c.toNat := by
      rw [toNat_sub_of_le (by rw [toNat_setWidth64]; omega), toNat_setWidth64]
    have hshift : i + 1 + n = i + (n + 1) := by omega
    obtain ⟨freeBytes, he, hf⟩ := ih (i + 1) { ts with freeBytes := ts.freeBytes - c.setWidth 64 } _ (by
      show _ ≤ (ts.freeBytes - c.setWidth 64).toNat + _
      rw [hsub, hshift]
      show cellBytes ts.hdrItems ts.hdr _ _ ≤ _ + cellBytes ts.hdrItems ts.hdr _ _
      omega)
    refine ⟨freeBytes, he, ?_⟩
    have hf' : freeBytes.toNat + cellBytes ts.hdrItems ts.hdr shp.toNat (i + 1 + n) =
        (ts.freeBytes - c.setWidth 64).toNat + cellBytes ts.hdrItems ts.hdr shp.toNat (i + 1) := hf
    rw [hshift, hsub] at hf'
    omega

/-- The driver's channel behind a sync at which `U` headers were published, the hardware stood at `H` and `D`, and
the positions up to `G` were granted; `B` bytes are published. -/
structure Driver (k kd U H D G B : Nat) (ch : Channel CalypteTxCtrl) (sync : SubscriptionSync) : Prop where
  running : (ch.sub 0).status = .running
  ptrmask : IsMask ch.ptrmask k
  mhp : IsMask ch.ctrl.c.mhp k
  mdp : IsMask ch.ctrl.c.mdp kd
  hdrItems : ch.ctrl.ts.hdrItems = 2 * 2 ^ k
  shp : ch.ctrl.c.shp.toNat = U % 2 ^ k
  swptr : ch.swptr.toNat = U % 2 ^ k
  syncHwptr : sync.hwptr.toNat = U % 2 ^ k
  syncSwptr : sync.swptr.toNat = G % 2 ^ k
  locked : ch.lockedSub = if G = U then none else some 0
  done : H ≤ U
  granted : U ≤ G
  lap : G ≤ H + (2 ^ k - 1)
  hdp : ch.ctrl.c.hdp.toNat = D % 2 ^ kd
  doneBytes : D ≤ B
  free : ch.ctrl.ts.freeBytes.toNat + B = 2 ^ kd - 1 + D

/-- Publishing up to position `P`, which was granted. -/
theorem driver_publish {U P H D G B pend : Nat} {ptr : U64} (h : Driver k kd U H D G B ch sync) (hptr : ptr.toNat = P % 2 ^ k)
    (hUP : U ≤ P) (hPG : P ≤ G) (hpend : cellBytes (2 * 2 ^ k) ch.ctrl.ts.hdr (U % 2 ^ k) (P - U) = pend) (hb : B + pend ≤ 2 ^ kd - 1 + D) :
    ∃ sdp freeBytes, ndpCtrlCalypteTxSetSwptr ch.ctrl ptr =
        { ch.ctrl with
          c := { ch.ctrl.c with sdp, shp := ptr.setWidth 32 }
          ts := { ch.ctrl.ts with freeBytes } } ∧
      freeBytes.toNat + (B + pend) = 2 ^ kd - 1 + D := by
  have hlap := h.lap
  have hdone := h.done
  have hfree := h.free
  have hk := h.mhp.le_width
  have hm64 : IsMask (ch.ctrl.c.mhp.setWidth 64 : U64) k := h.mhp.setWidth (by omega)
  have hpos : 0 < 2 ^ k := by positivity
  have hcount : ((ptr - ch.ctrl.c.shp.setWidth 64) &&& ch.ctrl.c.mhp.setWidth 64).toNat = P - U :=
    (at_of_mod hptr).toNat_sub_and hm64 ((at_of_mod h.shp).setWidth (by omega)) hUP (by omega)
  obtain ⟨freeBytes, he, hf⟩ := calypteTxPublish_free ch.ctrl.c.mdp ch.ctrl.c.shp (P - U) 0 ch.ctrl.ts ch.ctrl.c.sdp (by
    rw [h.hdrItems, h.shp, Nat.zero_add, hpend]
    omega)
  rw [h.hdrItems, h.shp, Nat.zero_add, hpend] at hf
  unfold ndpCtrlCalypteTxSetSwptr
  simp only [hcount]
  rcases hx : calypteTxPublish ch.ctrl.c.mdp ch.ctrl.c.shp (P - U) 0 ch.ctrl.ts ch.ctrl.c.sdp with ⟨ts, sdp⟩
  rw [hx] at he
  simp only at he
  subst he
  refine ⟨sdp, freeBytes, rfl, ?_⟩
  have hf' : freeBytes.toNat + pend = ch.ctrl.ts.freeBytes.toNat + 0 := hf
  omega

/-- The driver's channel between publishing and granting. -/
structure Published (k kd P D B : Nat) (ch : Channel CalypteTxCtrl) : Prop where
  running : (ch.sub 0).status = .running
  ptrmask : IsMask ch.ptrmask k
  mhp : IsMask ch.ctrl.c.mhp k
  mdp : IsMask ch.ctrl.c.mdp kd
  hdrItems : ch.ctrl.ts.hdrItems = 2 * 2 ^ k
  shp : ch.ctrl.c.shp.toNat = P % 2 ^ k
  swptr : ch.swptr.toNat = P % 2 ^ k
  hdp : ch.ctrl.c.hdp.toNat = D % 2 ^ kd
  free : ch.ctrl.ts.freeBytes.toNat + B = 2 ^ kd - 1 + D

theorem Driver.published {U H D G B : Nat} (h : Driver k kd U H D G B ch sync) : Published k kd U D B ch :=
  ⟨h.running, h.ptrmask, h.mhp, h.mdp, h.hdrItems, h.shp, h.swptr, h.hdp, h.free⟩

/-- What a grant at position `P` leaves behind. -/
theorem driver_grant {P H D D' B n : Nat} {ch : Channel CalypteTxCtrl} {req : SubscriptionSync} {hw : TxHw}
    (h : Published k kd P D B ch) (hn : ((req.swptr - req.hwptr) &&& ch.ptrmask).toNat = n)
    (hhp : hw.hhp.toNat = H % 2 ^ k) (hHP : H ≤ P) (hlap : P < H + 2 ^ k) (hdp : hw.hdp.toNat = D' % 2 ^ kd)
    (hDD : D ≤ D') (hDB : D' ≤ B) :
    Driver k kd P H D' (P + min n (H + 2 ^ k - 1 - P)) B (txsyncGrant calypteTxOps hw ch 0 req).1
        (txsyncGrant calypteTxOps hw ch 0 req).2 ∧
      (txsyncGrant calypteTxOps hw ch 0 req).2.size.toNat + B = 2 ^ kd - 1 + D' := by
  have hk := h.mhp.le_width
  have hkd := h.mdp.le_width
  have hfree := h.free
  have hpos : 0 < 2 ^ kd := by positivity
  have hpow : 2 ^ kd ≤ 2 ^ 32 := Nat.pow_le_pow_right (by norm_num) hkd
  have hg := @txsyncGrant_spec _ _ calypteTxOps k hw ch 0 req _ _ _ h.ptrmask (at_of_mod h.swptr)
    (show At k (hw.hhp.setWidth 64 : U64) H from (at_of_mod hhp).setWidth (by omega)) hHP hlap hn
  have hcount : ((hw.hdp - ch.ctrl.c.hdp) &&& ch.ctrl.c.mdp).toNat = D' - D :=
    (at_of_mod hdp).toNat_sub_and h.mdp (at_of_mod h.hdp) hDD (by omega)
  have hfree' : (ch.ctrl.ts.freeBytes + ((hw.hdp - ch.ctrl.c.hdp) &&& ch.ctrl.c.mdp).setWidth 64).toNat + B =
      2 ^ kd - 1 + D' := by
    rw [BitVec.toNat_add, toNat_setWidth64, hcount, Nat.mod_eq_of_lt (by omega)]
    omega
  generalize txsyncGrant calypteTxOps hw ch 0 req = x at hg
  have hctrl : x.1.ctrl = (ndpCtrlCalypteTxGetHwptr ch.ctrl hw).1 := hg.ctrl
  refine ⟨⟨?_, ?_, ?_, ?_, ?_, ?_, ?_, ?_, hg.swptr, ?_, hHP, by omega, by omega, ?_, hDB, ?_⟩, ?_⟩
  · rw [hg.status]; exact h.running
  · rw [hg.ptrmask]; exact h.ptrmask
  · rw [hctrl]; exact h.mhp
  · rw [hctrl]; exact h.mdp
  · rw [hctrl]; exact h.hdrItems
  · rw [hctrl]; exact h.shp
  · rw [hg.chSwptr]; exact h.swptr
  · rw [hg.hwptr]; exact h.swptr
  · rw [hg.locked]
    by_cases h0 : min n (H + 2 ^ k - 1 - P) = 0
    · rw [if_pos h0, if_pos (by omega)]
    · rw [if_neg h0, if_neg (by omega)]
  · rw [hctrl]; exact hdp
  · rw [hctrl]; exact hfree'
  · rw [hg.size _ rfl, hctrl]; exact hfree'

/-- The driver's sync publishes up to `P` and grants what is free behind it. -/
theorem driver_sync {U P H H' D D' G B pend n : Nat} {ch : Channel CalypteTxCtrl} {sync req : SubscriptionSync} {hw : TxHw}
    (h : Driver k kd U H D G B ch sync) (hreq : req.hwptr.toNat = P % 2 ^ k)
    (hn : ((req.swptr - req.hwptr) &&& ch.ptrmask).toNat = n) (hUP : U ≤ P) (hPG : P ≤ G)
    (hpend : cellBytes (2 * 2 ^ k) ch.ctrl.ts.hdr (U % 2 ^ k) (P - U) = pend) (hb : B + pend ≤ 2 ^ kd - 1 + D)
    (hhp : hw.hhp.toNat = H' % 2 ^ k) (hHH : H ≤ H') (hHP : H' ≤ P) (hdp : hw.hdp.toNat = D' % 2 ^ kd) (hDD : D ≤ D')
    (hDB : D' ≤ B + pend) :
    ∃ ch' sync', ndpSubscriptionSync calypteTxOps .tx hw ch 0 req = (ch', sync', 0) ∧
      Driver k kd P H' D' (P + min n (H' + 2 ^ k - 1 - P)) (B + pend) ch' sync' ∧
      sync'.size.toNat + (B + pend) = 2 ^ kd - 1 + D' := by
  have hlap := h.lap
  have hdone := h.done
  have hpos : 0 < 2 ^ k := by positivity
  have hk := h.mhp.le_width
  unfold ndpSubscriptionSync
  rw [if_neg (by rw [h.running]; decide)]
  by_cases hlock : G = U
  · -- nothing was granted, and so nothing is put
    have hPU : P = U := by omega
    have hnone : ch.lockedSub = none := by rw [h.locked, if_pos hlock]
    have hp0 : pend = 0 := by rw [← hpend, hPU, Nat.sub_self]; rfl
    subst hp0
    have hg := driver_grant (P := P) (hPU ▸ h.published) hn hhp hHP (by omega) hdp hDD (by omega)
    unfold ndpChannelTxsync
    rw [if_neg (by rw [hnone]; decide), if_pos hnone]
    exact ⟨_, _, rfl, hg.1, hg.2⟩
  · have hsome : ch.lockedSub = some 0 := by rw [h.locked, if_neg hlock]
    unfold ndpChannelTxsync
    rw [if_pos hsome]
    by_cases hne : req.hwptr ≠ ch.swptr
    · obtain ⟨sdp, freeBytes, hset, hf⟩ := driver_publish h hreq hUP hPG hpend hb
      simp only [if_pos hne]
      have hpub : Published k kd P D (B + pend)
          { ch with swptr := req.hwptr, ctrl := calypteTxOps.setSwptr ch.ctrl hw req.hwptr } := by
        have hset' : calypteTxOps.setSwptr ch.ctrl hw req.hwptr = _ := hset
        rw [hset']
        refine ⟨h.running, h.ptrmask, h.mhp, h.mdp, h.hdrItems, ?_, hreq, h.hdp, hf⟩
        show (req.hwptr.setWidth 32 : U32).toNat = _
        have hlt := Nat.mod_lt P hpos
        have hpow : 2 ^ k ≤ 2 ^ 32 := Nat.pow_le_pow_right (by norm_num) hk
        rw [BitVec.toNat_setWidth, hreq, Nat.mod_eq_of_lt (by omega)]
      have hg := @driver_grant k kd _ _ _ _ _ n _ req hw hpub hn hhp hHP (by omega) hdp hDD hDB
      exact ⟨_, _, rfl, hg.1, hg.2⟩
    · have heq := not_not.1 hne
      have hPU : P = U := by
        have hat : At k req.hwptr U := by rw [heq]; exact at_of_mod h.swptr
        have := (at_of_mod hreq : At k req.hwptr P).symm.trans hat
        exact slot_inj this (by omega) (by omega)
      have hp0 : pend = 0 := by rw [← hpend, hPU, Nat.sub_self]; rfl
      subst hp0
      have hg := driver_grant (P := P) (hPU ▸ h.published) hn hhp hHP (by omega) hdp hDD (by omega)
      simp only [if_neg hne]
      exact ⟨_, _, rfl, hg.1, hg.2⟩

end NdkSw.Calypte

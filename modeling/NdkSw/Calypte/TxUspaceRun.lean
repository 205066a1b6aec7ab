/-
Userspace mode refines the driver, as long as it stays in step: the invariant that ties the library's
queue to the driver's channel on the same history, and what every call of the library makes of it.
-/
import NdkSw.Calypte.TxUspaceInv

namespace NdkSw.Calypte

open Ndp Ring

variable {k kd : Nat}

/-! ## The invariant -/

/-- The queue is in step with the driver: `r` headers are reserved and not put yet, the library has seen the
hardware at `HU` and `DU`, and the driver has granted the positions up to `G`. -/
structure InStep (k kd r HU DU G : Nat) (t : TxWorld UsWorld) (q : QueueV3Tx) : Prop where
  hk : k ≤ 31
  hkd : 5 ≤ kd
  user : q.userspace = true
  mhp : IsMask q.us.mhp k
  mdp : IsMask q.us.mdp kd
  hdrMask : q.hdrPtrMask = q.us.mhp
  items : t.items = 2 * 2 ^ k
  driver : Driver k kd t.w.published t.w.hwHdrs t.w.hwBytes G (sentBytes (t.sent.take t.w.published)) t.w.ch t.w.ksync
  published : t.w.published ≤ t.sent.length
  usShp : q.us.shp.toNat = t.w.published % 2 ^ k
  shp : q.shp.toNat = q.us.shp.toNat + (t.sent.length - t.w.published) + r
  hdrs : q.hdrs = q.shp.toNat
  usHhp : q.us.hhp.toNat = HU % 2 ^ k
  syncHwptr : q.sync.hwptr = q.us.hhp.setWidth 64
  seen : HU ≤ t.w.hwHdrs
  window : t.sent.length + r + q.pktsAvailable.toNat ≤ HU + (2 ^ k - 1)
  granted : t.sent.length + r + q.pktsAvailable.toNat ≤ G
  usHdp : q.us.hdp.toNat = DU % 2 ^ kd
  seenBytes : DU ≤ t.w.hwBytes
  usFree : q.us.free.toNat + sentBytes (t.sent.take t.w.published) = 2 ^ kd - 32 + DU
  pend : sentBytes (t.sent.drop t.w.published) = cellBytes t.items t.mem q.us.shp.toNat (t.sent.length - t.w.published)
  avail : q.bytesAvailable.toNat + sentBytes (t.sent.drop t.w.published) ≤ q.us.free.toNat
  agreed : ∀ r ∈ t.w.recs, r.Agrees

/-- A sync of a queue in step that publishes all headers put. -/
structure Synced (k kd n HU DU : Nat) (kind : SyncKind) (t : TxWorld UsWorld) (q : QueueV3Tx) (us : Uspace)
    (sync : SubscriptionSync) (ch : Channel CalypteTxCtrl) (ksync : SubscriptionSync) : Prop where
  call : usCall kind t q =
    ({ hwAdvance t with
        w := { (hwAdvance t).w with
          published := t.sent.length
          ch, ksync
          recs := t.w.recs ++ [{ kind, us := { q with us, sync }, kernel := ksync
                                 counted := t.sent.length - t.w.published, put := t.sent.length - t.w.published }] } },
      { q with us, sync }, 0)
  us : UsSynced k kd (hwAdvance t) q t.sent.length HU (hwAdvance t).w.hwHdrs DU (hwAdvance t).w.hwBytes
    (sentBytes (t.sent.drop t.w.published)) us sync
  driver : Driver k kd t.sent.length (hwAdvance t).w.hwHdrs (hwAdvance t).w.hwBytes
    (t.sent.length + min n ((hwAdvance t).w.hwHdrs + 2 ^ k - 1 - t.sent.length)) (sentBytes t.sent) ch ksync
  size : ksync.size.toNat + sentBytes t.sent = 2 ^ kd - 1 + (hwAdvance t).w.hwBytes

theorem hwAdvance_bounds {t : TxWorld UsWorld} {h d : Nat} (hh : t.w.hwHdrs ≤ t.sent.length)
    (hd : t.w.hwBytes ≤ sentBytes t.sent) (hh' : h = (hwAdvance t).w.hwHdrs) (hd' : d = (hwAdvance t).w.hwBytes) :
    t.w.hwHdrs ≤ h ∧ h ≤ t.sent.length ∧ t.w.hwBytes ≤ d ∧ d ≤ sentBytes t.sent := by
  have h1 : h = min (t.w.hwHdrs + (t.w.moves.headD ⟨0, 0⟩).hdrs) t.sent.length := hh'
  have h2 : d = min (t.w.hwBytes + (t.w.moves.headD ⟨0, 0⟩).bytes) (sentBytes t.sent) := hd'
  omega

theorem InStep.synced {r HU DU G n : Nat} {t : TxWorld UsWorld} {q : QueueV3Tx} (h : InStep k kd r HU DU G t q)
    (kind : SyncKind) (s : SubscriptionSync) (sh : U32) (hd : Int)
    (hs : (s.hwptr.setWidth 32 : U32).toNat = t.sent.length % 2 ^ k)
    (hreq : (driverRequest kind t.w.ch.ptrmask t.sent.length t.w.ksync).hwptr.toNat = t.sent.length % 2 ^ k)
    (hn : (((driverRequest kind t.w.ch.ptrmask t.sent.length t.w.ksync).swptr -
      (driverRequest kind t.w.ch.ptrmask t.sent.length t.w.ksync).hwptr) &&& t.w.ch.ptrmask).toNat = n) :
    ∃ us sync ch ksync, Synced k kd n HU DU kind t { q with sync := s, shp := sh, hdrs := hd } us sync ch ksync := by
  have hUP := h.published
  have hseen := h.seen
  have hwin := h.window
  have hgr := h.granted
  have hsb := h.seenBytes
  have hfree := h.usFree
  have havail := h.avail
  have hpend := h.pend
  have hkd := h.hkd
  have hsplit := sentBytes_split t.sent t.w.published
  have hdone := h.driver.done
  have hdb := h.driver.doneBytes
  have hk32 := h.mhp.le_width
  have hkd32 := h.mdp.le_width
  have hposk : 0 < 2 ^ k := by positivity
  have hpow : 2 ^ kd ≤ 2 ^ 32 := Nat.pow_le_pow_right (by norm_num) hkd32
  have h32 : 2 ^ 5 ≤ 2 ^ kd := Nat.pow_le_pow_right (by norm_num) hkd
  obtain ⟨hH1, hH2, hD1, hD2⟩ := @hwAdvance_bounds t _ _ (by omega) (by omega) rfl rfl
  have hcells : cellBytes (hwAdvance t).items (hwAdvance t).mem q.us.shp.toNat (t.sent.length - t.w.published) =
      sentBytes (t.sent.drop t.w.published) := hpend.symm
  have hshow1 : (hwShows (hwAdvance t) q.us).hhp.toNat = (hwAdvance t).w.hwHdrs % 2 ^ k :=
    (at_ofNat hk32 _).toNat_and h.mhp
  have hshow2 : (hwShows (hwAdvance t) q.us).hdp.toNat = (hwAdvance t).w.hwBytes % 2 ^ kd :=
    (at_ofNat hkd32 _).toNat_and h.mdp
  -- the side in userspace
  obtain ⟨us, sync, hus, husd⟩ := @txSyncV3Us_spec k kd (hwAdvance t) { q with sync := s, shp := sh, hdrs := hd } (hwShows (hwAdvance t) q.us)
    t.w.published t.sent.length HU (hwAdvance t).w.hwHdrs DU (hwAdvance t).w.hwBytes h.mhp h.mdp h.usShp hs hUP (by omega)
    (by show cellBytes (hwAdvance t).items (hwAdvance t).mem q.us.shp.toNat _ ≤ q.us.free.toNat; omega)
    h.usHhp hshow1 (by omega) hH2 (by omega) h.usHdp hshow2 (by omega) (by omega)
    (by show q.us.free.toNat + _ < 2 ^ 32 + cellBytes (hwAdvance t).items (hwAdvance t).mem q.us.shp.toNat _; omega)
  have hcells' : cellBytes (2 * 2 ^ k) t.mem (t.w.published % 2 ^ k) (t.sent.length - t.w.published) =
      sentBytes (t.sent.drop t.w.published) := by
    rw [← h.items, ← h.usShp]; exact hpend.symm
  -- the driver, asked for the same headers
  obtain ⟨ch, ksync, hk, hdr, hsize⟩ := @driver_sync k kd t.w.published t.sent.length t.w.hwHdrs (hwAdvance t).w.hwHdrs
    t.w.hwBytes (hwAdvance t).w.hwBytes G (sentBytes (t.sent.take t.w.published)) (sentBytes (t.sent.drop t.w.published)) n
    { t.w.ch with ctrl := { t.w.ch.ctrl with ts := { t.w.ch.ctrl.ts with hdr := t.mem } } } t.w.ksync
    (driverRequest kind t.w.ch.ptrmask t.sent.length t.w.ksync)
    { hwStill with hdp := (hwShows (hwAdvance t) q.us).hdp, hhp := (hwShows (hwAdvance t) q.us).hhp }
    ⟨h.driver.running, h.driver.ptrmask, h.driver.mhp, h.driver.mdp, h.driver.hdrItems, h.driver.shp, h.driver.swptr,
      h.driver.syncHwptr, h.driver.syncSwptr, h.driver.locked, h.driver.done, h.driver.granted, h.driver.lap, h.driver.hdp,
      h.driver.doneBytes, h.driver.free⟩
    hreq hn hUP (by omega) hcells' (by omega) hshow1 (by omega) hH2 hshow2 (by omega) (by omega)
  rw [hsplit] at hdr hsize
  have hcount : ((s.hwptr.setWidth 32 - q.us.shp) &&& q.us.mhp).toNat = t.sent.length - t.w.published :=
    (at_of_mod hs).toNat_sub_and h.mhp (at_of_mod h.usShp) hUP (by omega)
  refine ⟨us, sync, ch, ksync, ?_, ?_, hdr, hsize⟩
  · unfold usCall driverSync
    simp only
    have hk' : ndpSubscriptionSync calypteTxOps .tx
        { hwStill with hdp := (hwShows (hwAdvance t) q.us).hdp, hhp := (hwShows (hwAdvance t) q.us).hhp }
        { (hwAdvance t).w.ch with ctrl := { (hwAdvance t).w.ch.ctrl with ts := { (hwAdvance t).w.ch.ctrl.ts with
            hdr := (hwAdvance t).mem } } } 0
        (driverRequest kind (hwAdvance t).w.ch.ptrmask (hwAdvance t).sent.length (hwAdvance t).w.ksync) = (ch, ksync, 0) := hk
    rw [hk', hus, hcount]
    rfl
  · rw [← hcells]; exact husd

/-- The world behind a sync. -/
def syncedWorld (kind : SyncKind) (t : TxWorld UsWorld) (q : QueueV3Tx) (us : Uspace) (sync : SubscriptionSync)
    (ch : Channel CalypteTxCtrl) (ksync : SubscriptionSync) : TxWorld UsWorld :=
  { hwAdvance t with
    w := { (hwAdvance t).w with
      published := t.sent.length
      ch, ksync
      recs := t.w.recs ++ [{ kind, us := { q with us, sync }, kernel := ksync
                             counted := t.sent.length - t.w.published, put := t.sent.length - t.w.published }] } }

section Sync

variable {r n HU DU G : Nat} {kind : SyncKind} {t : TxWorld UsWorld} {q : QueueV3Tx} {us : Uspace}
  {s sync : SubscriptionSync} {sh : U32} {hd : Int} {ch : Channel CalypteTxCtrl} {ksync : SubscriptionSync}

theorem Synced.call_eq (hs : Synced k kd n HU DU kind t q us sync ch ksync) :
    usCall kind t q = (syncedWorld kind t q us sync ch ksync, { q with us, sync }, 0) := hs.call

theorem Synced.free_le (h : InStep k kd r HU DU G t q)
    (hs : Synced k kd n HU DU kind t { q with sync := s, shp := sh, hdrs := hd } us sync ch ksync) :
    ∃ DU', DU' ≤ (hwAdvance t).w.hwBytes ∧ us.hdp.toNat = DU' % 2 ^ kd ∧
      us.free.toNat + sentBytes t.sent = 2 ^ kd - 32 + DU' ∧ sync.size.toNat ≤ ksync.size.toNat := by
  obtain ⟨DU', h1, h2, h3, h4⟩ := hs.us.bytes
  have hfree := h.usFree
  have hsplit := sentBytes_split t.sent t.w.published
  have hsize := hs.size
  have hsz := hs.us.size
  have hkd := h.hkd
  have h32 : 2 ^ 5 ≤ 2 ^ kd := Nat.pow_le_pow_right (by norm_num) hkd
  have h4' : us.free.toNat + sentBytes (t.sent.drop t.w.published) + DU = q.us.free.toNat + DU' := h4
  refine ⟨DU', h2, h3, by omega, by omega⟩

/-- Behind a sync the queue is in step again, whatever its code does with the headers that it got. -/
theorem Synced.inStep (h : InStep k kd r HU DU G t q)
    (hs : Synced k kd n HU DU kind t { q with sync := s, shp := sh, hdrs := hd } us sync ch ksync) (q' : QueueV3Tx) (r' : Nat) (hus : q'.us = us)
    (hsync : q'.sync = sync) (huser : q'.userspace = true) (hmask : q'.hdrPtrMask = q.hdrPtrMask)
    (hshp : q'.shp.toNat = t.sent.length % 2 ^ k + r') (hhdrs : q'.hdrs = q'.shp.toNat)
    (hwin : t.sent.length + r' + q'.pktsAvailable.toNat ≤
      usSeen (hwAdvance t) { q with sync := s, shp := sh, hdrs := hd } HU (hwAdvance t).w.hwHdrs + (2 ^ k - 1))
    (hgr : r' + q'.pktsAvailable.toNat ≤ min n ((hwAdvance t).w.hwHdrs + 2 ^ k - 1 - t.sent.length))
    (hbytes : q'.bytesAvailable.toNat ≤ us.free.toNat)
    (hagree : SyncRec.Agrees { kind, us := { q with us, sync, shp := sh, hdrs := hd }, kernel := ksync
                               counted := t.sent.length - t.w.published, put := t.sent.length - t.w.published }) :
    ∃ DU', InStep k kd r' (usSeen (hwAdvance t) { q with sync := s, shp := sh, hdrs := hd } HU (hwAdvance t).w.hwHdrs) DU'
      (t.sent.length + min n ((hwAdvance t).w.hwHdrs + 2 ^ k - 1 - t.sent.length))
      (syncedWorld kind t { q with sync := s, shp := sh, hdrs := hd } us sync ch ksync) q' := by
  obtain ⟨DU', hD, hdp, hfree, _⟩ := hs.free_le h
  have htake : t.sent.take t.sent.length = t.sent := List.take_length
  have hdrop : t.sent.drop t.sent.length = [] := List.drop_length
  have hmhp : us.mhp = q.us.mhp := hs.us.mhp
  have hmdp : us.mdp = q.us.mdp := hs.us.mdp
  have hHU : HU ≤ (hwAdvance t).w.hwHdrs := by
    have hseen := h.seen
    have hUP := h.published
    have hdone := h.driver.done
    have hdb := h.driver.doneBytes
    have hsplit := sentBytes_split t.sent t.w.published
    obtain ⟨h1, _, _, _⟩ := @hwAdvance_bounds t _ _ (by omega) (by omega) rfl rfl
    omega
  refine ⟨DU', ?_⟩
  constructor
  case hk => exact h.hk
  case hkd => exact h.hkd
  case user => exact huser
  case mhp =>
    rw [hus, hmhp]
    exact h.mhp
  case mdp =>
    rw [hus, hmdp]
    exact h.mdp
  case hdrMask =>
    rw [hmask, hus, hmhp]
    exact h.hdrMask
  case items => exact h.items
  case driver =>
    show Driver k kd t.sent.length _ _ _ (sentBytes (t.sent.take t.sent.length)) ch ksync
    rw [htake]
    exact hs.driver
  case published => exact le_rfl
  case usShp =>
    rw [hus]
    exact hs.us.shp
  case shp =>
    show q'.shp.toNat = q'.us.shp.toNat + (t.sent.length - t.sent.length) + r'
    rw [hus, hs.us.shp, hshp, Nat.sub_self, Nat.add_zero]
  case hdrs => exact hhdrs
  case usHhp =>
    rw [hus]
    exact hs.us.hhp
  case syncHwptr =>
    rw [hsync, hus]
    apply BitVec.eq_of_toNat_eq
    rw [toNat_setWidth64, hs.us.hwptr, hs.us.hhp]
  case seen => exact (usSeen_bounds _ _ hHU).2
  case window => exact hwin
  case granted =>
    show t.sent.length + r' + q'.pktsAvailable.toNat ≤ _
    omega
  case usHdp =>
    rw [hus]
    exact hdp
  case seenBytes => exact hD
  case usFree =>
    show q'.us.free.toNat + sentBytes (t.sent.take t.sent.length) = _
    rw [hus, htake]; exact hfree
  case pend =>
    show sentBytes (t.sent.drop t.sent.length) = cellBytes t.items t.mem q'.us.shp.toNat (t.sent.length - t.sent.length)
    rw [hdrop, Nat.sub_self]
    rfl
  case avail =>
    show q'.bytesAvailable.toNat + sentBytes (t.sent.drop t.sent.length) ≤ q'.us.free.toNat
    rw [hdrop, hus]
    exact hbytes
  case agreed =>
    intro x hx
    rcases List.mem_append.1 hx with hx | hx
    · exact h.agreed x hx
    · rw [List.mem_singleton.1 hx]; exact hagree

end Sync

/-! ## Asking for space -/

section Calls

variable {r HU DU G : Nat} {t t' : TxWorld UsWorld} {q q' : QueueV3Tx} {ret : Int} {shp : U32}

theorem put_slot (hm : IsMask t.w.ch.ptrmask k) (n : Nat) :
    (BitVec.ofNat 64 n &&& t.w.ch.ptrmask).toNat = n % 2 ^ k := (at_ofNat hm.le_width n).toNat_and hm

/-- A request for space in front of a header that is in the first half of the header buffer keeps the queue in
step. -/
theorem InStep.requestSpace (h : InStep k kd r HU DU G t q) (hs : shp.toNat = t.sent.length % 2 ^ k)
    (hfirst : q.shp.toNat = shp.toNat + r) :
    ∃ t' q' HU' DU', ncNdpV3TxRequestSpace usCall t q shp = (t', q', 0) ∧ InStep k kd r HU' DU' G t' q' ∧ t'.sent = t.sent ∧
      t'.mem = t.mem ∧ t'.items = t.items ∧ q'.shp = q.shp ∧ q'.hdrPtrMask = q.hdrPtrMask := by
  have hgr := h.granted
  have hUG := h.driver.granted
  have hlap := h.driver.lap
  have hUP := h.published
  have hwin := h.window
  have hseen := h.seen
  have hdone := h.driver.done
  have hdb := h.driver.doneBytes
  have hsplit := sentBytes_split t.sent t.w.published
  have hpos : 0 < 2 ^ k := by positivity
  obtain ⟨hH1, hH2, _, _⟩ := @hwAdvance_bounds t _ _ (by omega) (by omega) rfl rfl
  have hslot := put_slot h.driver.ptrmask t.sent.length
  have hn : (((driverRequest .space t.w.ch.ptrmask t.sent.length t.w.ksync).swptr -
      (driverRequest .space t.w.ch.ptrmask t.sent.length t.w.ksync).hwptr) &&& t.w.ch.ptrmask).toNat = G - t.sent.length :=
    (at_of_mod h.driver.syncSwptr).toNat_sub_and h.driver.ptrmask (at_of_mod hslot) (by omega) (by omega)
  obtain ⟨us, sync, ch, ksync, hsy⟩ := h.synced .space { q.sync with hwptr := shp.setWidth 64 } q.shp q.hdrs
    (by rw [BitVec.setWidth_setWidth_of_le _ (by norm_num), BitVec.setWidth_eq]; exact hs) hslot hn
  obtain ⟨_, _, _, _, hle⟩ := hsy.free_le h
  have hmin : min (G - t.sent.length) ((hwAdvance t).w.hwHdrs + 2 ^ k - 1 - t.sent.length) = G - t.sent.length := by omega
  obtain ⟨hb1, _⟩ := usSeen_bounds (hwAdvance t) { q with sync := { q.sync with hwptr := shp.setWidth 64 } }
    (show HU ≤ (hwAdvance t).w.hwHdrs by omega)
  have hsize := hsy.us.size
  obtain ⟨DU', hin⟩ := Synced.inStep h hsy (spaceTail { q with us, sync }) r rfl rfl h.user rfl
    (by show q.shp.toNat = _; rw [hfirst, hs]) h.hdrs
    (by show _ + _ + q.pktsAvailable.toNat ≤ _; omega) (by show _ + q.pktsAvailable.toNat ≤ _; omega)
    (by show sync.size.toNat ≤ _; omega)
    ⟨rfl, BitVec.le_def.2 hle, fun hne => absurd rfl hne⟩
  have hG : t.sent.length + min (G - t.sent.length) ((hwAdvance t).w.hwHdrs + 2 ^ k - 1 - t.sent.length) = G := by omega
  rw [hG] at hin
  refine ⟨_, _, _, DU', ?_, hin, rfl, rfl, rfl, rfl, rfl⟩
  unfold ncNdpV3TxRequestSpace
  have hcall := hsy.call_eq
  rw [hcall]
  rfl

/-! ## Flush -/

/-- A flush finds the queue in the first half of the header buffer, or brings it back there. -/
def QueueV3Tx.Folds (q : QueueV3Tx) (k sent : Nat) : Prop :=
  ∃ sh hd, (if q.shp ≥ q.hdrPtrMask + 1 then
      { q with shp := q.shp - (q.hdrPtrMask + 1), hdrs := q.hdrs - (q.hdrPtrMask + 1).toNat } else q) =
        { q with shp := sh, hdrs := hd } ∧
    sh.toNat = sent % 2 ^ k ∧ hd = sh.toNat

theorem folds_of {published sent : Nat} (hm : IsMask q.hdrPtrMask k) (hk : k ≤ 31) (hle : published ≤ sent)
    (hshp : q.shp.toNat = published % 2 ^ k + (sent - published)) (hlt : q.shp.toNat < 2 * 2 ^ k) (hhdrs : q.hdrs = q.shp.toNat) :
    q.Folds k sent := by
  have hN : (q.hdrPtrMask + 1).toNat = 2 ^ k := by
    have hpow : 2 ^ k ≤ 2 ^ 31 := Nat.pow_le_pow_right (by norm_num) hk
    unfold IsMask at hm
    rw [BitVec.toNat_add]
    show (q.hdrPtrMask.toNat + 1) % 2 ^ 32 = _
    rw [Nat.mod_eq_of_lt (by omega), hm]
  have hmod : q.shp.toNat % 2 ^ k = sent % 2 ^ k := by
    have hsum : published + (sent - published) = sent := by omega
    rw [hshp, Nat.mod_add_mod, hsum]
  by_cases hge : q.shp ≥ q.hdrPtrMask + 1
  · have hge' : 2 ^ k ≤ q.shp.toNat := by rw [← hN]; exact BitVec.le_def.1 hge
    have hsub : (q.shp - (q.hdrPtrMask + 1)).toNat = q.shp.toNat - 2 ^ k := by rw [toNat_sub_of_le (by omega), hN]
    refine ⟨_, _, if_pos hge, ?_, ?_⟩
    · rw [hsub, ← hmod, Nat.mod_eq_sub_mod hge', Nat.mod_eq_of_lt (by omega)]
    · rw [hsub, hN, hhdrs]
      omega
  · have hgt : q.shp.toNat < 2 ^ k := by
      rw [← hN]
      exact BitVec.lt_def.1 (BitVec.not_le.1 hge)
    refine ⟨q.shp, q.hdrs, if_neg hge, ?_, hhdrs⟩
    rw [← hmod, Nat.mod_eq_of_lt hgt]

theorem InStep.folded (h : InStep k kd 0 HU DU G t q) : q.Folds k t.sent.length := by
  have hshp := h.shp
  have hwin := h.window
  have hseen := h.seen
  have hdone := h.driver.done
  have hUP := h.published
  have hlt := Nat.mod_lt t.w.published (show 0 < 2 ^ k by positivity)
  rw [h.usShp] at hshp
  exact folds_of (by rw [h.hdrMask]; exact h.mhp) h.hk (by omega) hshp (by omega) h.hdrs

theorem toNat_granted {m : U32} (hm : IsMask m k) {x y : U64} {a n : Nat} (hx : x.toNat = a % 2 ^ k)
    (hy : y.toNat = (a + n) % 2 ^ k) (hn : n < 2 ^ k) :
    (((y - x) &&& m.setWidth 64).setWidth 32 : U32).toNat = n := by
  have hk := hm.le_width
  have hpow : 2 ^ k ≤ 2 ^ 32 := Nat.pow_le_pow_right (by norm_num) hk
  have hd := (at_of_mod hy).toNat_sub_and (hm.setWidth (show k ≤ 64 by omega)) (at_of_mod hx) (Nat.le_add_right a n) (by omega)
  rw [BitVec.toNat_setWidth, hd, Nat.mod_eq_of_lt (by omega)]
  omega

theorem InStep.ahead (h : InStep k kd r HU DU G t q) : HU ≤ t.sent.length ∧ t.sent.length < HU + 2 ^ k := by
  have hseen := h.seen
  have hdone := h.driver.done
  have hUP := h.published
  have hwin := h.window
  have hpos : 0 < 2 ^ k := by positivity
  omega

theorem InStep.seen_bounds (h : InStep k kd r HU DU G t q) (q' : QueueV3Tx) :
    HU ≤ usSeen (hwAdvance t) q' HU (hwAdvance t).w.hwHdrs ∧
      usSeen (hwAdvance t) q' HU (hwAdvance t).w.hwHdrs ≤ (hwAdvance t).w.hwHdrs ∧ (hwAdvance t).w.hwHdrs ≤ t.sent.length := by
  have hseen := h.seen
  have hdone := h.driver.done
  have hUP := h.published
  have hdb := h.driver.doneBytes
  have hsplit := sentBytes_split t.sent t.w.published
  obtain ⟨h1, h2, _, _⟩ := @hwAdvance_bounds t _ _ (by omega) (by omega) rfl rfl
  obtain ⟨h3, h4⟩ := usSeen_bounds (hwAdvance t) q' (le_trans hseen h1)
  exact ⟨h3, h4, h2⟩

theorem InStep.caught_up (h : InStep k kd r HU DU G t q) (he : q.us.hhp.toNat = t.sent.length % 2 ^ k) :
    HU = t.sent.length ∧ t.w.published = t.sent.length ∧ t.w.hwHdrs = t.sent.length := by
  obtain ⟨h1, h2⟩ := h.ahead
  have hseen := h.seen
  have hdone := h.driver.done
  have hUP := h.published
  rw [h.usHhp] at he
  have heq : HU = t.sent.length := slot_inj (k := k) he (by omega) h2
  omega

theorem toNat_mark {w a : Nat} {m x : BitVec w} (hm : IsMask m k) (hx : x.toNat = a % 2 ^ k) :
    (((x + 64) &&& m) - x &&& m).toNat = 64 % 2 ^ k := by
  have h64 : At k (64 : BitVec w) 64 := at_ofNat hm.le_width 64
  have hsum := (At.add hm.le_width (at_of_mod hx) h64).and hm
  rw [(At.sub hm.le_width hsum (at_of_mod hx) (Nat.le_add_right _ _)).toNat_and hm, Nat.add_sub_cancel_left]

theorem toNat_mark_zext {a : Nat} {m x : U32} (hm : IsMask m k) (hx : x.toNat = a % 2 ^ k) :
    ((((x + 64) &&& m).setWidth 64 - x.setWidth 64 : U64) &&& m.setWidth 64).toNat = 64 % 2 ^ k := by
  have hk := hm.le_width
  have h64 : At k (64 : U32) 64 := at_ofNat hk 64
  have hsum : At k (((x + 64) &&& m).setWidth 64 : U64) (a + 64) :=
    ((At.add hk (at_of_mod hx) h64).and hm).setWidth (by omega)
  have hx' : At k (x.setWidth 64 : U64) a := (at_of_mod hx).setWidth (by omega)
  rw [(At.sub (by omega) hsum hx' (Nat.le_add_right _ _)).toNat_and (hm.setWidth (by omega)), Nat.add_sub_cancel_left]

/-- A flush keeps the queue in step, and publishes all headers put. -/
theorem InStep.flushPut (h : InStep k kd 0 HU DU G t q) :
    ∃ t' q' HU' DU' G', flushPut usCall t q = (t', q', 0) ∧ InStep k kd 0 HU' DU' G' t' q' ∧
      t'.w.published = t'.sent.length ∧ q'.pktsToSend = q.pktsToSend := by
  obtain ⟨sh, hd, hq, hsh, hhd⟩ := h.folded
  have hk := h.hk
  have hpos : 0 < 2 ^ k := by positivity
  unfold Calypte.flushPut
  simp only [hq]
  rw [if_pos h.user]
  by_cases heq : q.sync.hwptr = sh.setWidth 64
  · -- the early return: nothing was put since the hardware was last seen
    have hhhp : q.us.hhp.toNat = t.sent.length % 2 ^ k := by
      rw [h.syncHwptr] at heq
      rw [← hsh, ← toNat_setWidth64, heq, toNat_setWidth64]
    obtain ⟨_, hpub, _⟩ := h.caught_up hhhp
    have hsame : sh = q.shp := by
      apply BitVec.eq_of_toNat_eq
      rw [hsh, h.shp, h.usShp, hpub, Nat.sub_self]
      rfl
    rw [if_pos heq]
    subst hsame
    rw [← h.hdrs] at hhd
    subst hhd
    exact ⟨t, q, HU, DU, G, rfl, h, hpub, rfl⟩
  · rw [if_neg heq]
    have hmask : IsMask q.hdrPtrMask k := by rw [h.hdrMask]; exact h.mhp
    have hslot := put_slot h.driver.ptrmask t.sent.length
    have hn : (((driverRequest .flush t.w.ch.ptrmask t.sent.length t.w.ksync).swptr -
        (driverRequest .flush t.w.ch.ptrmask t.sent.length t.w.ksync).hwptr) &&& t.w.ch.ptrmask).toNat = 64 % 2 ^ k :=
      toNat_mark h.driver.ptrmask hslot
    obtain ⟨us, sync, ch, ksync, hsy⟩ := h.synced .flush
      { size := q.sync.size, hwptr := sh.setWidth 64, swptr := ((sh + 64) &&& q.hdrPtrMask).setWidth 64 } sh hd
      (by rw [BitVec.setWidth_setWidth_of_le _ (by norm_num), BitVec.setWidth_eq]; exact hsh) hslot hn
    obtain ⟨_, _, _, _, hle⟩ := hsy.free_le h
    have hsize := hsy.us.size
    obtain ⟨hb1, hb2, hb3⟩ := h.seen_bounds { q with
      sync := { size := q.sync.size, hwptr := sh.setWidth 64, swptr := ((sh + 64) &&& q.hdrPtrMask).setWidth 64 }
      shp := sh
      hdrs := hd }
    have hswptr := hsy.us.swptr
    have hhwptr := hsy.us.hwptr
    obtain ⟨h1, h2⟩ := h.ahead
    have hlen : ((((sh + 64) &&& q.hdrPtrMask).setWidth 64 - sh.setWidth 64 : U64) &&& q.us.mhp.setWidth 64).toNat =
        64 % 2 ^ k := by
      rw [← h.hdrMask]
      exact toNat_mark_zext hmask hsh
    simp only [hlen] at hswptr
    have hlt : 64 % 2 ^ k < 2 ^ k := Nat.mod_lt _ hpos
    have hus := toNat_granted hmask hhwptr hswptr (by omega)
    have hks := toNat_granted hmask hsy.driver.syncHwptr hsy.driver.syncSwptr (by omega)
    have hpos' : sh.setWidth 64 = ksync.hwptr := by
      apply BitVec.eq_of_toNat_eq
      rw [toNat_setWidth64, hsh, hsy.driver.syncHwptr]
    obtain ⟨DU', hin⟩ := Synced.inStep h hsy (flushTail { q with us, sync, shp := sh, hdrs := hd }) 0 rfl rfl h.user rfl
      hsh hhd
      (by show _ + _ + BitVec.toNat (BitVec.setWidth 32 ((sync.swptr - sync.hwptr) &&& BitVec.setWidth 64 q.hdrPtrMask)) ≤ _
          rw [hus]; omega)
      (by show _ + BitVec.toNat (BitVec.setWidth 32 ((sync.swptr - sync.hwptr) &&& BitVec.setWidth 64 q.hdrPtrMask)) ≤ _
          rw [hus]; omega)
      (by show sync.size.toNat ≤ _; omega)
      ⟨rfl, BitVec.le_def.2 hle, fun _ => ⟨hpos', BitVec.le_def.2 (by
        show BitVec.toNat (BitVec.setWidth 32 ((sync.swptr - sync.hwptr) &&& BitVec.setWidth 64 q.hdrPtrMask)) ≤
          BitVec.toNat (BitVec.setWidth 32 ((ksync.swptr - ksync.hwptr) &&& BitVec.setWidth 64 q.hdrPtrMask))
        rw [hus, hks]; omega)⟩⟩
    refine ⟨_, _, _, DU', _, ?_, hin, rfl, rfl⟩
    have hcall := hsy.call_eq
    rw [hcall]

/-! ## Lock -/

theorem toNat_whole {w a : Nat} {m x : BitVec w} (hm : IsMask m k) (hx : x.toNat = a % 2 ^ k) :
    (((x - 1) &&& m) - x &&& m).toNat = 2 ^ k - 1 := by
  have hk := hm.le_width
  have hpos : 0 < 2 ^ k := by positivity
  have h1 : At k (1 : BitVec w) 1 := at_ofNat hk 1
  have hnext : At k x (a + 2 ^ k) := (at_of_mod hx).congr (by simp [Nat.ModEq])
  have hback := (At.sub hk hnext h1 (by omega)).and hm
  rw [(At.sub hk hback (at_of_mod hx) (by omega)).toNat_and hm, Nat.mod_eq_of_lt (by omega)]
  omega

theorem lockTail_eq {q : QueueV3Tx} (h : q.sync.hwptr = q.shp.setWidth 64) (lockValid : Bool) :
    lockTail lockValid q =
      { q with
        pktsAvailable := ((q.sync.swptr - q.sync.hwptr) &&& q.hdrPtrMask.setWidth 64).setWidth 32
        bytesAvailable := q.sync.size } := by
  have hzero : (q.sync.hwptr - q.shp.setWidth 64).setWidth 32 = (0 : U32) := by
    rw [h, BitVec.sub_self]; rfl
  unfold lockTail
  cases lockValid with
  | true => simp only [if_true]; rw [h]
  | false =>
    simp only [Bool.false_eq_true, if_false, hzero]
    rw [h]
    simp

/-- A lock keeps the queue in step where the last sync left its pointer at the position of the queue. -/
theorem InStep.lock (h : InStep k kd 0 HU DU G t q) (hpub : t.w.published = t.sent.length)
    (hok : q.sync.hwptr = q.shp.setWidth 64) :
    ∃ t' q' HU' DU' G', ncNdpV3TxLock usCall t q = (t', q') ∧ InStep k kd 0 HU' DU' G' t' q' ∧
      t'.w.published = t'.sent.length ∧ q'.pktsToSend = q.pktsToSend := by
  have hpos : 0 < 2 ^ k := by positivity
  have hmask : IsMask q.hdrPtrMask k := by rw [h.hdrMask]; exact h.mhp
  have hk := hmask.le_width
  have hshp : q.shp.toNat = t.sent.length % 2 ^ k := by
    rw [h.shp, h.usShp, hpub, Nat.sub_self]
    rfl
  have hhw : q.sync.hwptr.toNat = t.sent.length % 2 ^ k := by rw [hok, toNat_setWidth64, hshp]
  obtain ⟨rfl, -, -⟩ := h.caught_up (by rw [← toNat_setWidth64, ← h.syncHwptr, hhw])
  have hreq : t.w.ksync.hwptr.toNat = t.sent.length % 2 ^ k := by rw [h.driver.syncHwptr, hpub]
  have hn := toNat_whole h.driver.ptrmask hreq
  have hlen := toNat_whole (h.mhp.setWidth (show k ≤ 64 by omega)) hhw
  have hs : (q.sync.hwptr.setWidth 32 : U32).toNat = t.sent.length % 2 ^ k := by
    rw [hok, BitVec.setWidth_setWidth_of_le _ (by norm_num), BitVec.setWidth_eq, hshp]
  obtain ⟨us, sync, ch, ksync, hsy⟩ := h.synced (.lock (q.sync.swptr ≠ q.sync.hwptr))
    { size := q.sync.size, hwptr := q.sync.hwptr, swptr := (q.sync.hwptr - 1) &&& q.hdrPtrMask.setWidth 64 } q.shp q.hdrs
    hs hreq hn
  obtain ⟨_, _, _, _, hle⟩ := hsy.free_le h
  have hsize := hsy.us.size
  obtain ⟨hb1, hb2, hb3⟩ := h.seen_bounds { q with
    sync := { size := q.sync.size, hwptr := q.sync.hwptr, swptr := (q.sync.hwptr - 1) &&& q.hdrPtrMask.setWidth 64 } }
  have hswptr := hsy.us.swptr
  have hhwptr := hsy.us.hwptr
  have hgrant := hsy.driver.syncSwptr
  -- the hardware was seen at the last header put, so it is still there
  have hS : usSeen (hwAdvance t) { q with
      sync := { size := q.sync.size, hwptr := q.sync.hwptr, swptr := (q.sync.hwptr - 1) &&& q.hdrPtrMask.setWidth 64 } }
        t.sent.length (hwAdvance t).w.hwHdrs = t.sent.length := by omega
  rw [hS] at hswptr hhwptr
  simp only [h.hdrMask, hlen] at hswptr
  have hmin : min (2 ^ k - 1) (t.sent.length + (2 ^ k - 1) - t.sent.length) = 2 ^ k - 1 := by omega
  have hmin' : min (2 ^ k - 1) ((hwAdvance t).w.hwHdrs + 2 ^ k - 1 - t.sent.length) = 2 ^ k - 1 := by omega
  rw [hmin] at hswptr
  rw [hmin'] at hgrant
  have hus := toNat_granted hmask hhwptr hswptr (by omega)
  have hks := toNat_granted hmask hsy.driver.syncHwptr hgrant (by omega)
  have hat : ∀ x : U64, x.toNat = t.sent.length % 2 ^ k → x = q.shp.setWidth 64 := fun x hx =>
    BitVec.eq_of_toNat_eq (by rw [hx, toNat_setWidth64, hshp])
  have htail := @lockTail_eq { q with us, sync } (hat _ hhwptr) (q.sync.swptr ≠ q.sync.hwptr)
  have hktail := @lockTail_eq { q with us, sync := ksync } (hat _ hsy.driver.syncHwptr) (q.sync.swptr ≠ q.sync.hwptr)
  have hagree : SyncRec.Agrees
      { kind := .lock (q.sync.swptr ≠ q.sync.hwptr), us := { q with us, sync }, kernel := ksync
        counted := t.sent.length - t.w.published, put := t.sent.length - t.w.published } := by
    refine ⟨rfl, ?_, fun _ => ⟨?_, ?_⟩⟩
    · show (lockTail _ _).bytesAvailable ≤ (lockTail _ _).bytesAvailable
      rw [htail, hktail]
      exact BitVec.le_def.2 hle
    · show (lockTail _ _).shp.setWidth 64 = _
      rw [htail]
      exact (hat _ hsy.driver.syncHwptr).symm
    · show (lockTail _ _).pktsAvailable ≤ (lockTail _ _).pktsAvailable
      rw [htail, hktail]
      exact BitVec.le_def.2 (hus.trans hks.symm).le
  obtain ⟨DU', hin⟩ := Synced.inStep h hsy (lockTail (q.sync.swptr ≠ q.sync.hwptr) { q with us, sync }) 0
    (by rw [htail]) (by rw [htail]) (by rw [htail]; exact h.user) (by rw [htail]) (by rw [htail]; exact hshp)
    (by rw [htail]; exact h.hdrs) (by rw [htail, hS]; simp only; omega) (by rw [htail]; simp only; omega)
    (by rw [htail]; simp only; omega) hagree
  refine ⟨_, _, _, DU', _, ?_, hin, rfl, by rw [htail]⟩
  unfold ncNdpV3TxLock
  have hcall := hsy.call_eq
  simp only
  rw [hcall]
  rfl

/-! ## Put -/

/-- If a put asks for space only in front of headers in the first half of the header buffer. In the second half
the sync would go on from the same slot of the first, where it finds the headers of the lap before. -/
def putsInFirstHalf (hdr : Int) : Nat → Nat → U32 → Nat → TxWorld UsWorld → QueueV3Tx → Bool
  | 0, _, _, _, _, _ => true
  | n + 1, i, shp, fuel, t, q =>
    let need : U64 := (frameLenCeil ((t.hdr (hdr + i)).frameLen.setWidth 32)).setWidth 64
    (decide (q.bytesAvailable < need → hdr + i = shp.toNat)) &&
      match waitSpace usCall shp need fuel t q with
      | none => true
      | some (fuel, t, q, _) =>
        putsInFirstHalf hdr n (i + 1) ((shp + 1) &&& q.hdrPtrMask) fuel
          { t with sent := t.sent ++ [(shp, t.hdr (hdr + i))] } { q with bytesAvailable := q.bytesAvailable - need }

/-- Waiting for space keeps the queue in step. -/
theorem InStep.waitSpace {need : U64} {fuel fuel' : Nat} (h : InStep k kd r HU DU G t q) (hs : shp.toNat = t.sent.length % 2 ^ k)
    (hfirst : q.bytesAvailable < need → q.shp.toNat = shp.toNat + r) (hw : waitSpace usCall shp need fuel t q = some (fuel', t', q', ret)) :
    ret = 0 ∧ need ≤ q'.bytesAvailable ∧ (∃ HU' DU', InStep k kd r HU' DU' G t' q') ∧ t'.sent = t.sent ∧ t'.mem = t.mem ∧
      t'.items = t.items ∧ q'.shp = q.shp ∧ q'.hdrPtrMask = q.hdrPtrMask := by
  induction fuel generalizing HU DU t q with
  | zero =>
    unfold Calypte.waitSpace at hw
    by_cases hlt : q.bytesAvailable < need
    · rw [if_pos hlt] at hw
      exact absurd hw (by simp)
    · rw [if_neg hlt] at hw
      cases hw
      exact ⟨rfl, BitVec.not_lt.1 hlt, ⟨HU, DU, h⟩, rfl, rfl, rfl, rfl, rfl⟩
  | succ fuel ih =>
    unfold Calypte.waitSpace at hw
    by_cases hlt : q.bytesAvailable < need
    · rw [if_pos hlt] at hw
      obtain ⟨t₁, q₁, HU₁, DU₁, hreq, h₁, hsent, hmem, hitems, hshp, hmask⟩ := h.requestSpace hs (hfirst hlt)
      simp only [hreq, ne_eq, not_true_eq_false, if_false] at hw
      obtain ⟨hr, hb, hin, h2, h3, h4, h5, h6⟩ := ih h₁ (by rw [hsent]; exact hs) (fun _ => by rw [hshp]; exact hfirst hlt) hw
      exact ⟨hr, hb, hin, h2.trans hsent, h3.trans hmem, h4.trans hitems, h5.trans hshp, h6.trans hmask⟩
    · rw [if_neg hlt] at hw
      cases hw
      exact ⟨rfl, BitVec.not_lt.1 hlt, ⟨HU, DU, h⟩, rfl, rfl, rfl, rfl, rfl⟩

/-- A header put to the hardware. -/
theorem InStep.putOne {n : Nat} {x : Int} (shp : U32) (h : InStep k kd (n + 1) HU DU G t q)
    (hx : x = (q.shp.toNat - (n + 1) : Nat))
    (hb : (frameLenCeil ((t.hdr x).frameLen.setWidth 32)).setWidth 64 ≤ q.bytesAvailable) :
    InStep k kd n HU DU G { t with sent := t.sent ++ [(shp, t.hdr x)] }
      { q with bytesAvailable := q.bytesAvailable - (frameLenCeil ((t.hdr x).frameLen.setWidth 32)).setWidth 64 } := by
  have hUP := h.published
  have hshp := h.shp
  have havail := h.avail
  have hle : t.w.published ≤ t.sent.length := h.published
  have hlen : (t.sent ++ [(shp, t.hdr x)]).length = t.sent.length + 1 := by rw [List.length_append]; rfl
  have htake : (t.sent ++ [(shp, t.hdr x)]).take t.w.published = t.sent.take t.w.published := List.take_append_of_le_length hle
  have hone : sentBytes [(shp, t.hdr x)] = (frameLenCeil ((t.hdr x).frameLen.setWidth 32)).toNat := by simp [sentBytes]
  have hdrop : sentBytes ((t.sent ++ [(shp, t.hdr x)]).drop t.w.published) =
      sentBytes (t.sent.drop t.w.published) + (frameLenCeil ((t.hdr x).frameLen.setWidth 32)).toNat := by
    rw [List.drop_append_of_le_length hle, sentBytes_append, hone]
  have hcell : t.hdr x = t.mem ((q.us.shp.toNat + (t.sent.length - t.w.published)) % t.items) := by
    have hpos : q.shp.toNat - (n + 1) = q.us.shp.toNat + (t.sent.length - t.w.published) := by omega
    rw [hx, TxWorld.hdr, shadowSlot_natCast, hpos]
  have hsub : (q.bytesAvailable - (frameLenCeil ((t.hdr x).frameLen.setWidth 32)).setWidth 64).toNat =
      q.bytesAvailable.toNat - (frameLenCeil ((t.hdr x).frameLen.setWidth 32)).toNat := by
    rw [toNat_sub_of_le (BitVec.le_def.1 hb), toNat_setWidth64]
  have hb' := BitVec.le_def.1 hb
  rw [toNat_setWidth64] at hb'
  have hwin := h.window
  have hgr := h.granted
  constructor
  case hk => exact h.hk
  case hkd => exact h.hkd
  case user => exact h.user
  case mhp => exact h.mhp
  case mdp => exact h.mdp
  case hdrMask => exact h.hdrMask
  case items => exact h.items
  case driver =>
    rw [htake]
    exact h.driver
  case published =>
    rw [hlen]
    exact le_trans hle (Nat.le_succ _)
  case usShp => exact h.usShp
  case shp =>
    rw [hlen]
    show q.shp.toNat = q.us.shp.toNat + (t.sent.length + 1 - t.w.published) + n
    omega
  case hdrs => exact h.hdrs
  case usHhp => exact h.usHhp
  case syncHwptr => exact h.syncHwptr
  case seen => exact h.seen
  case window =>
    rw [hlen]
    show _ + _ + q.pktsAvailable.toNat ≤ _
    omega
  case granted =>
    rw [hlen]
    show _ + _ + q.pktsAvailable.toNat ≤ _
    omega
  case usHdp => exact h.usHdp
  case seenBytes => exact h.seenBytes
  case usFree =>
    rw [htake]
    exact h.usFree
  case pend =>
    have hcount : t.sent.length + 1 - t.w.published = (t.sent.length - t.w.published) + 1 := by omega
    rw [hdrop, hlen]
    show _ = cellBytes t.items t.mem q.us.shp.toNat (t.sent.length + 1 - t.w.published)
    rw [hcount, cellBytes, ← hcell, h.pend]
  case avail =>
    rw [hdrop]
    show (q.bytesAvailable - _).toNat + _ ≤ q.us.free.toNat
    omega
  case agreed => exact h.agreed

theorem toNat_next {m x : U32} {a : Nat} (hm : IsMask m k) (hx : x.toNat = a % 2 ^ k) :
    ((x + 1) &&& m).toNat = (a + 1) % 2 ^ k := by
  have h1 : At k (1 : U32) 1 := at_ofNat hm.le_width 1
  exact (At.add hm.le_width (at_of_mod hx) h1).toNat_and hm

/-- The rounds of a put keep the queue in step. -/
theorem InStep.putRounds {hdr : Int} {n i fuel : Nat} (h : InStep k kd n HU DU G t q) (hs : shp.toNat = t.sent.length % 2 ^ k)
    (hhdr : hdr + i = (q.shp.toNat - n : Nat)) (hok : putsInFirstHalf hdr n i shp fuel t q = true)
    (hp : putRounds usCall hdr n i shp fuel t q = some (t', q', ret)) : ret = 0 ∧ ∃ HU' DU', InStep k kd 0 HU' DU' G t' q' := by
  induction n generalizing i shp fuel HU DU t q with
  | zero =>
    rw [Calypte.putRounds] at hp
    cases hp
    exact ⟨rfl, HU, DU, h⟩
  | succ n ih =>
    have hshp := h.shp
    rw [Calypte.putRounds] at hp
    rw [putsInFirstHalf, Bool.and_eq_true, decide_eq_true_iff] at hok
    obtain ⟨hfirst, hrest⟩ := hok
    obtain ⟨⟨fuel₁, t₁, q₁, ret₁⟩, hw, hp⟩ := Option.bind_eq_some_iff.1 hp
    obtain ⟨hret, hb, ⟨HU₁, DU₁, h₁⟩, hsent, hmem, hitems, hshp₁, hmask⟩ := h.waitSpace hs (fun hlt => by
      have := hfirst hlt
      rw [hhdr] at this
      omega) hw
    have hhdr' : ∀ x, t₁.hdr x = t.hdr x := fun x => by unfold TxWorld.hdr; rw [hmem, hitems]
    simp only [hw] at hrest
    subst hret
    simp only [ne_eq, not_true_eq_false, if_false] at hp
    have hput := h₁.putOne shp (x := hdr + i) (by rw [hhdr, hshp₁]) (by rw [hhdr']; exact hb)
    have hm₁ : IsMask q₁.hdrPtrMask k := by rw [h₁.hdrMask]; exact h₁.mhp
    simp only [hhdr'] at hput hp hrest
    refine ih (i := i + 1) hput ?_ ?_ hrest hp
    · rw [List.length_append, hsent]
      exact toNat_next hm₁ hs
    · show hdr + ((i + 1 : Nat) : Int) = (q₁.shp.toNat - n : Nat)
      rw [hshp₁]
      push_cast
      omega

/-- Between the calls of the application the queue is in step, with everything put published. -/
def AtRest (k kd : Nat) (t : TxWorld UsWorld) (q : QueueV3Tx) : Prop :=
  ∃ HU DU G, InStep k kd q.pktsToSend.toNat HU DU G t q ∧ t.w.published = t.sent.length

/-- If the put of the packets reserved asks for space only in front of headers in the first half. -/
def PutOk (fuel : Nat) (t : TxWorld UsWorld) (q : QueueV3Tx) : Prop :=
  putsInFirstHalf (q.hdrs - q.pktsToSend.toNat) q.pktsToSend.toNat 0 (q.shp - q.pktsToSend) fuel t q = true

instance (fuel : Nat) (t : TxWorld UsWorld) (q : QueueV3Tx) : Decidable (PutOk fuel t q) :=
  inferInstanceAs (Decidable (_ = true))

theorem AtRest.flushPut (h : AtRest k kd t q) (h0 : q.pktsToSend = 0) : AtRest k kd (flushPut usCall t q).1 (flushPut usCall t q).2.1 := by
  obtain ⟨HU, DU, G, hin, _⟩ := h
  rw [h0] at hin
  obtain ⟨t', q', HU', DU', G', he, hin', hpub, hsend⟩ := hin.flushPut
  rw [he]
  refine ⟨HU', DU', G', ?_, hpub⟩
  rw [hsend, h0]
  exact hin'

theorem AtRest.put {fuel : Nat} (h : AtRest k kd t q) (hok : PutOk fuel t q) (hp : ncNdpV3TxBurstPut usCall fuel t q = some (t', q', ret)) :
    AtRest k kd t' q' := by
  obtain ⟨HU, DU, G, hin, hpub⟩ := h
  have hshp := hin.shp
  rw [hin.usShp, hpub, Nat.sub_self] at hshp
  rw [ncNdpV3TxBurstPut] at hp
  obtain ⟨⟨t₁, q₁, ret₁⟩, hr, he⟩ := Option.map_eq_some_iff.1 hp
  have hfirst : (q.shp - q.pktsToSend).toNat = t.sent.length % 2 ^ k := by
    rw [toNat_sub_of_le (by omega)]
    omega
  obtain ⟨hret, HU₁, DU₁, h₁⟩ := hin.putRounds hfirst (by rw [hin.hdrs]; push_cast; omega) hok hr
  subst hret
  simp only [ne_eq, not_true_eq_false, if_false] at he
  have hzero : InStep k kd 0 HU₁ DU₁ G t₁ { q₁ with pktsToSend := 0 } := { h₁ with }
  obtain ⟨t₂, q₂, HU₂, DU₂, G₂, hf, h₂, hpub₂, hsend⟩ := hzero.flushPut
  simp only [hf] at he
  cases he
  refine ⟨HU₂, DU₂, G₂, ?_, hpub₂⟩
  rw [hsend]
  exact h₂

theorem AtRest.flush {fuel : Nat} (h : AtRest k kd t q) (hok : PutOk fuel t q)
    (hf : ncNdpV3TxBurstFlush usCall fuel t q = some (t', q', ret)) : AtRest k kd t' q' := by
  rw [ncNdpV3TxBurstFlush] at hf
  by_cases hsend : q.pktsToSend > 0
  · rw [if_pos hsend] at hf
    exact h.put hok hf
  · rw [if_neg hsend] at hf
    have hzero : q.pktsToSend = 0 := BitVec.eq_of_toNat_eq (Nat.le_zero.1 (BitVec.le_def.1 (BitVec.not_lt.1 hsend)))
    have hrest := h.flushPut hzero
    rw [Option.some.inj hf] at hrest
    exact hrest

/-! ## Get -/

theorem InStep.withMem (h : InStep k kd r HU DU G t q) (hpub : t.w.published = t.sent.length) (mem : Nat → V3PacketHdr) :
    InStep k kd r HU DU G { t with mem } q := by
  refine { h with pend := ?_ }
  show sentBytes (t.sent.drop t.w.published) = cellBytes t.items mem q.us.shp.toNat (t.sent.length - t.w.published)
  rw [hpub, List.drop_length, Nat.sub_self]
  rfl

/-- Reserving headers that are available. -/
theorem AtRest.reserve (h : AtRest k kd t q) (h0 : q.pktsToSend = 0) {packets : Nat → NdpPacket} {count : U32}
    (hc : count ≤ q.pktsAvailable) :
    AtRest k kd (burstReserve t q packets count).1 (burstReserve t q packets count).2.1 := by
  obtain ⟨HU, DU, G, hin, hpub⟩ := h
  obtain ⟨mem, hmem⟩ := getRounds_world q packets t count.toNat
  have hc' := BitVec.le_def.1 hc
  obtain ⟨hHU, _⟩ := hin.ahead
  have hwin := hin.window
  have hgr := hin.granted
  have hshp := hin.shp
  have hslot := Nat.mod_lt t.w.published (show 0 < 2 ^ k by positivity)
  have hpow : 2 ^ k ≤ 2 ^ 31 := Nat.pow_le_pow_right (by norm_num) hin.hk
  rw [h0] at hin hwin hgr hshp
  rw [hin.usShp, hpub, Nat.sub_self] at hshp
  rw [hpub] at hslot
  have hz : (0 : U32).toNat = 0 := rfl
  have hin' := hin.withMem hpub mem
  unfold burstReserve
  generalize getRounds q packets t count.toNat = x at hmem
  obtain ⟨t₁, pkts, sdp⟩ := x
  simp only at hmem
  subst hmem
  cases sdp with
  | none =>
    refine ⟨HU, DU, G, ?_, hpub⟩
    show InStep k kd q.pktsToSend.toNat HU DU G { t with mem } { q with txPkts := pkts }
    rw [h0]
    exact { hin' with }
  | some sdp =>
    have hadd : (q.shp + count).toNat = q.shp.toNat + count.toNat := by
      rw [BitVec.toNat_add, Nat.mod_eq_of_lt (by omega)]
    have hsub : (q.pktsAvailable - count).toNat = q.pktsAvailable.toNat - count.toNat := toNat_sub_of_le hc'
    have hsend : (q.pktsToSend + count).toNat = count.toNat := by rw [h0, BitVec.ofNat_eq_ofNat, BitVec.zero_add]
    refine ⟨HU, DU, G, ?_, hpub⟩
    simp only [hsend]
    refine { hin' with shp := ?_, hdrs := ?_, window := ?_, granted := ?_ }
    · show (q.shp + count).toNat = q.us.shp.toNat + (t.sent.length - t.w.published) + count.toNat
      rw [hadd, hshp, hin.usShp, hpub, Nat.sub_self]
      omega
    · show q.hdrs + count.toNat = ((q.shp + count).toNat : Int)
      rw [hadd, hin.hdrs]
      push_cast
      rfl
    · show t.sent.length + count.toNat + (q.pktsAvailable - count).toNat ≤ _
      omega
    · show t.sent.length + count.toNat + (q.pktsAvailable - count).toNat ≤ _
      omega

/-- Elsewhere a lock miscounts: nothing was put, but the library takes the headers from the position of the queue
to that of the hardware for newly published. -/
theorem AtRest.lock_miscounts (h : AtRest k kd t q) (h0 : q.pktsToSend = 0) (hne : q.sync.hwptr ≠ q.shp.setWidth 64) :
    ∃ r ∈ (ncNdpV3TxLock usCall t q).1.w.recs, ¬ r.Agrees := by
  obtain ⟨HU, DU, G, hin, hpub⟩ := h
  have hpos : 0 < 2 ^ k := by positivity
  have hshp : q.shp = q.us.shp := by
    apply BitVec.eq_of_toNat_eq
    rw [hin.shp, hpub, Nat.sub_self, h0]
    rfl
  have hcount : ((q.sync.hwptr.setWidth 32 - q.us.shp) &&& q.us.mhp).toNat ≠ 0 := by
    intro hc
    have hat : At k q.us.hhp q.us.shp.toNat := by
      have hd : At k q.us.hhp (q.us.shp.toNat + ((q.us.hhp - q.us.shp) &&& q.us.mhp).toNat) := (at_toNat _).add_dist hin.mhp
      rw [hin.syncHwptr, BitVec.setWidth_setWidth_of_le _ (by norm_num), BitVec.setWidth_eq] at hc
      rwa [hc, Nat.add_zero] at hd
    have hhhp : q.us.hhp = q.us.shp := by
      apply BitVec.eq_of_toNat_eq
      rw [hat.toNat_eq (by rw [hin.usHhp]; exact Nat.mod_lt _ hpos), hin.usShp, Nat.mod_mod]
    exact hne (by rw [hin.syncHwptr, hhhp, hshp])
  refine ⟨_, List.mem_append_right _ (List.mem_singleton.2 rfl), fun hagree => hcount ?_⟩
  have hput : (hwAdvance t).sent.length - (hwAdvance t).w.published = 0 := by
    show t.sent.length - t.w.published = 0
    omega
  exact hagree.1.trans hput

/-- If a get locks. -/
def Locks (q : QueueV3Tx) (count : U32) : Prop :=
  q.pktsToSend = 0 ∧ count.setWidth 64 ≤ q.txPktsCnt ∧ q.pktsAvailable < count

instance (q : QueueV3Tx) (count : U32) : Decidable (Locks q count) := inferInstanceAs (Decidable (_ ∧ _ ∧ _))

theorem AtRest.get (h : AtRest k kd t q) {packets : Nat → NdpPacket} {count : U32}
    (hok : Locks q count → q.sync.hwptr = q.shp.setWidth 64) :
    AtRest k kd (ncNdpV3TxBurstGet usCall t q packets count).1 (ncNdpV3TxBurstGet usCall t q packets count).2.1 := by
  unfold ncNdpV3TxBurstGet
  by_cases hno : q.pktsToSend ≠ 0 ∨ q.txPktsCnt < count.setWidth 64
  · rw [if_pos hno]
    exact h
  · rw [if_neg hno]
    obtain ⟨h0, hcnt⟩ := not_or.1 hno
    have h0 : q.pktsToSend = 0 := not_not.1 h0
    by_cases hlt : q.pktsAvailable < count
    · rw [if_pos hlt]
      obtain ⟨HU, DU, G, hin, hpub⟩ := h
      rw [h0] at hin
      obtain ⟨t₁, q₁, HU₁, DU₁, G₁, hlock, h₁, hpub₁, hsend⟩ := hin.lock hpub (hok ⟨h0, BitVec.not_lt.1 hcnt, hlt⟩)
      have hrest : AtRest k kd t₁ q₁ := by
        refine ⟨HU₁, DU₁, G₁, ?_, hpub₁⟩
        rw [hsend, h0]
        exact h₁
      rw [hlock]
      simp only
      by_cases hfew : q₁.pktsAvailable < count ∨ count = 0
      · rw [if_pos hfew]
        exact hrest
      · rw [if_neg hfew]
        exact hrest.reserve (hsend.trans h0) (BitVec.not_lt.1 (not_or.1 hfew).1)
    · rw [if_neg hlt]
      exact h.reserve h0 (BitVec.not_lt.1 hlt)

end Calls

/-! ## Runs -/

/-- The condition on a step: a get locks only where the last sync left the position of the queue, that is, where
the library has seen all headers done; a put asks for space only in the first half of the header buffer. -/
def StepOk (s : UsState) : UsOp → Prop
  | .get _ count _ => Locks s.q count → s.q.sync.hwptr = s.q.shp.setWidth 64
  | .put fuel moves => PutOk fuel (s.withMoves moves) s.q
  | .flush fuel moves => PutOk fuel (s.withMoves moves) s.q

instance : ∀ (s : UsState) (op : UsOp), Decidable (StepOk s op)
  | s, .get _ count _ => inferInstanceAs (Decidable (Locks s.q count → s.q.sync.hwptr = s.q.shp.setWidth 64))
  | s, .put fuel moves => inferInstanceAs (Decidable (PutOk fuel (s.withMoves moves) s.q))
  | s, .flush fuel moves => inferInstanceAs (Decidable (PutOk fuel (s.withMoves moves) s.q))

theorem AtRest.withMoves {s : UsState} (h : AtRest k kd s.t s.q) (moves : List HwMove) : AtRest k kd (s.withMoves moves) s.q := by
  obtain ⟨HU, DU, G, hin, hpub⟩ := h
  exact ⟨HU, DU, G, { hin with }, hpub⟩

theorem usStep_atRest (s : UsState) (op : UsOp) (s' : UsState) (hok : StepOk s op) (h : AtRest k kd s.t s.q)
    (hs : usStep s op = some s') : AtRest k kd s'.t s'.q := by
  cases op with
  | get packets count moves =>
    have hget := @AtRest.get k kd _ _ (h.withMoves moves) packets count hok
    cases hs
    exact hget
  | put fuel moves =>
    obtain ⟨⟨t, q, ret⟩, hp, rfl⟩ := Option.map_eq_some_iff.1 hs
    exact (h.withMoves moves).put hok hp
  | flush fuel moves =>
    obtain ⟨⟨t, q, ret⟩, hp, rfl⟩ := Option.map_eq_some_iff.1 hs
    exact (h.withMoves moves).flush hok hp

theorem startedChannel_driver {p : TxParams} (hm : IsMask p.mhp k) (hmd : IsMask p.mdp kd) :
    Driver k kd 0 0 0 0 0 (startedChannel p) { size := 0, hwptr := 0, swptr := 0 } := by
  have hk := hm.le_width
  have hzero : ∀ n, 0 = 0 % 2 ^ n := fun n => (Nat.zero_mod _).symm
  constructor
  case running => rfl
  case ptrmask => exact hm.setWidth (by omega)
  case mhp => exact hm
  case mdp => exact hmd
  case hdrItems =>
    show 2 * (p.mhp.toNat + 1) = _
    rw [hm]
  case shp => exact hzero k
  case swptr => exact hzero k
  case syncHwptr => exact hzero k
  case syncSwptr => exact hzero k
  case locked => rfl
  case done => exact le_rfl
  case granted => exact le_rfl
  case lap => exact Nat.zero_le _
  case hdp => exact hzero kd
  case doneBytes => exact le_rfl
  case free =>
    show (p.mdp.setWidth 64 : U64).toNat = _
    rw [toNat_setWidth64, hmd.toNat_eq]
    rfl

theorem usStart_atRest {p : TxParams} (hm : IsMask p.mhp k) (hk : k ≤ 31) (hmd : IsMask p.mdp kd) (hkd : 5 ≤ kd) :
    AtRest k kd (usStart p).t (usStart p).q := by
  have hposd : 2 ^ 5 ≤ 2 ^ kd := Nat.pow_le_pow_right (by norm_num) hkd
  have hpowd : 2 ^ kd ≤ 2 ^ 32 := Nat.pow_le_pow_right (by norm_num) hmd.le_width
  have hfree : (p.mdp + 1 - ndpTxCalypteBlockSize).toNat = 2 ^ kd - 32 := by
    unfold IsMask at hmd
    rw [BitVec.toNat_sub, BitVec.toNat_add]
    show (2 ^ 32 - 32 + (p.mdp.toNat + 1) % 2 ^ 32) % 2 ^ 32 = _
    rw [hmd]
    omega
  refine ⟨0, 0, 0, ?_, rfl⟩
  constructor
  case hk => exact hk
  case hkd => exact hkd
  case user => rfl
  case mhp => exact hm
  case mdp => exact hmd
  case hdrMask => rfl
  case items =>
    show 2 * (p.mhp.toNat + 1) = _
    rw [hm]
  case driver => exact startedChannel_driver hm hmd
  case published => exact le_rfl
  case usShp => exact (Nat.zero_mod _).symm
  case shp => rfl
  case hdrs => rfl
  case usHhp => exact (Nat.zero_mod _).symm
  case syncHwptr => rfl
  case seen => exact le_rfl
  case window => exact Nat.zero_le _
  case granted => exact le_rfl
  case usHdp => exact (Nat.zero_mod _).symm
  case seenBytes => exact le_rfl
  case usFree => exact hfree
  case pend => rfl
  case avail => exact Nat.zero_le _
  case agreed =>
    intro r hr
    exact absurd hr List.not_mem_nil

/-- In every run of a queue in userspace mode whose steps meet the condition, every sync agrees with the driver's. -/
theorem us_sync_refines {p : TxParams} (hm : IsMask p.mhp k) (hk : k ≤ 31) (hmd : IsMask p.mdp kd) (hkd : 5 ≤ kd)
    {l l' : List UsOp} {s : UsState} (hok : MeetsM usStep StepOk (usStart p) l) (hl : l' <+: l)
    (h : runM usStep (usStart p) l' = some s) : ∀ r ∈ s.t.w.recs, r.Agrees := by
  obtain ⟨_, _, _, hin, _⟩ := runM_inv_of (I := fun s => AtRest k kd s.t s.q) (fun s op s' => usStep_atRest s op s') l l' _ _
    hl hok (usStart_atRest hm hk hmd hkd) h
  exact hin.agreed

/-- A queue with rings of 128 headers and 64 KiB. -/
def smallQueue : TxParams where
  mhp := 127
  mdp := 65535
  frameSizeMin := 60
  frameSizeMax := 9000
  mem _ := { frameLen := 0, framePtr := 0, valid := 0, headerSize := 0, flags := 0 }

def packets100 (_ : Nat) : NdpPacket := { data := 0, header := 0, dataLength := 100, headerLength := 0, flags := 0 }

/-- The hardware sends all packets before the sync that publishes them, and the second get locks again. -/
theorem us_sync_refines_small :
    MeetsM usStep StepOk (usStart smallQueue) [.get packets100 3 [], .put 0 [⟨3, 384⟩], .get packets100 70 []] ∧
      ∃ s, runM usStep (usStart smallQueue) [.get packets100 3 [], .put 0 [⟨3, 384⟩], .get packets100 70 []] = some s ∧
        s.t.w.recs.length = 3 ∧ ∀ r ∈ s.t.w.recs, r.Agrees := by
  have hok : MeetsM usStep StepOk (usStart smallQueue)
      [.get packets100 3 [], .put 0 [⟨3, 384⟩], .get packets100 70 []] := by decide +kernel
  have hrun : (runM usStep (usStart smallQueue) [.get packets100 3 [], .put 0 [⟨3, 384⟩], .get packets100 70 []]).map
      (fun s => s.t.w.recs.length) = some 3 := by decide +kernel
  obtain ⟨s, hs, hlen⟩ := Option.map_eq_some_iff.1 hrun
  refine ⟨hok, s, hs, hlen, ?_⟩
  exact @us_sync_refines 7 16 smallQueue (by decide) (by decide) (by decide) (by decide) _ _ s hok (List.prefix_refl _) hs

/-- A lock while a packet is on its way takes the 127 headers behind it for newly published. -/
theorem us_sync_miscounts :
    ¬ ∀ (l : List UsOp) (s : UsState), runM usStep (usStart smallQueue) l = some s → ∀ r ∈ s.t.w.recs, r.Agrees := by
  intro h
  have key : (runM usStep (usStart smallQueue) [.get packets100 1 [], .put 0 [], .get packets100 70 []]).map
      (fun s => decide (∀ r ∈ s.t.w.recs, r.Agrees)) = some false := by decide +kernel
  obtain ⟨s, hs, hd⟩ := Option.map_eq_some_iff.1 key
  exact of_decide_eq_false hd (h _ s hs)

end NdkSw.Calypte

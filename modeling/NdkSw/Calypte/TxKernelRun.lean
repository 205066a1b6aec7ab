/-
What a Calypte TX queue delivers through the driver: the headers that the driver takes are those that the application has put, in
their order and at the same positions of the data ring, and no frame is written over one that the hardware still has to send.
-/
import NdkSw.Calypte.TxKernel

namespace NdkSw.Calypte

open Ndp Ring Bits

variable {k kd : Nat} {ch : Channel CalypteTxCtrl} {mem : Nat → V3PacketHdr}

/-! ## Items of the header buffer -/

/-- The `n` items of a header buffer from `base` on. -/
def hdrCells (items : Nat) (mem : Nat → V3PacketHdr) (base n : Nat) : List V3PacketHdr :=
  (List.range n).map fun i => mem ((base + i) % items)

theorem hdrCells_succ (items : Nat) (mem : Nat → V3PacketHdr) (base n : Nat) :
    hdrCells items mem base (n + 1) = hdrCells items mem base n ++ [mem ((base + n) % items)] := by
  rw [hdrCells, List.range_succ, List.map_append]
  rfl

theorem take_hdrCells {items : Nat} {base m n : Nat} (h : m ≤ n) : (hdrCells items mem base n).take m = hdrCells items mem base m := by
  rw [hdrCells, ← List.map_take, List.take_range, Nat.min_eq_left h]
  rfl

theorem sentBytes_of_cells {items : Nat} {base : Nat} :
    ∀ {n : Nat} {l : List (U32 × V3PacketHdr)}, l.map Prod.snd = hdrCells items mem base n → sentBytes l = cellBytes items mem base n := by
  intro n l h
  have hsum : sentBytes l = ((l.map Prod.snd).map fun x => (frameLenCeil (x.frameLen.setWidth 32)).toNat).sum := by
    unfold sentBytes
    rw [List.map_map]
    rfl
  rw [hsum, h]
  clear h hsum
  induction n with
  | zero => rfl
  | succ n ih =>
    rw [hdrCells_succ, List.map_append, List.sum_append, ih, cellBytes]
    simp

theorem cellBytes_cons (items : Nat) (mem : Nat → V3PacketHdr) (base n : Nat) :
    cellBytes items mem base (n + 1) =
      (frameLenCeil ((mem (base % items)).frameLen.setWidth 32)).toNat + cellBytes items mem (base + 1) n := by
  induction n with
  | zero => rw [cellBytes, cellBytes, cellBytes, Nat.zero_add, Nat.add_zero, Nat.add_zero]
  | succ n ih =>
    have hshift : base + (n + 1) = base + 1 + n := by omega
    rw [cellBytes, ih, hshift, Nat.add_assoc]
    rfl

/-! ## The invariant -/

/-- What the opening of the queue fixes. -/
structure KernQueue (k kd : Nat) (q : QueueV3Tx) : Prop where
  kernel : q.userspace = false
  hdrMask : IsMask q.hdrPtrMask k
  dataMask : IsMask q.dataPtrMask kd
  frameMin : q.frameSizeMin.toNat < 2 ^ 16
  frameMax : q.frameSizeMax.toNat < 2 ^ 16
  count : q.txPktsCnt.toNat ≤ 256

/-- What was put and what the driver has taken of it. A header stands behind those before it, in the header ring and by its pointer in the
data ring, and some sync before had shown room for it and for its frame. -/
structure KernPast (k kd : Nat) (t : TxWorld KernWorld) : Prop where
  published : t.w.published ≤ t.sent.length
  placed : ∀ j x, t.sent[j]? = some x → x.1.toNat = j % 2 ^ k ∧ x.2.framePtr.toNat = sentBytes (t.sent.take j) % 2 ^ kd
  taken : t.w.taken.map Prod.fst = (t.sent.take t.w.published).map Prod.snd
  pointer : ∀ x ∈ t.w.taken, x.1.framePtr.toNat = x.2.toNat ∧ 32 ∣ x.2.toNat
  room : ∀ j < t.sent.length, ∃ look ∈ t.w.looks, look.1 ≤ j ∧ j + 1 ≤ look.2.hdrs + (2 ^ k - 1) ∧
    sentBytes (t.sent.take (j + 1)) ≤ look.2.bytes + (2 ^ kd - 1)
  last : ∃ n ≤ t.sent.length, (n, ⟨t.w.hwHdrs, t.w.hwBytes⟩) ∈ t.w.looks

/-- The library is in line with the driver: `r` headers are reserved and not put yet, and the driver has granted the positions up
to `G`. -/
structure InLine (k kd r G : Nat) (t : TxWorld KernWorld) (q : QueueV3Tx) : Prop where
  hk : k ≤ 31
  hkd : 5 ≤ kd
  hkd' : kd ≤ 16
  fixed : KernQueue k kd q
  items : t.items = 2 * 2 ^ k
  driver : Driver k kd t.w.published t.w.hwHdrs t.w.hwBytes G (sentBytes (t.sent.take t.w.published)) t.w.ch q.sync
  driverSdp : t.w.ch.ctrl.c.sdp.toNat = sentBytes (t.sent.take t.w.published) % 2 ^ kd
  past : KernPast k kd t
  shp : q.shp.toNat = t.w.published % 2 ^ k + (t.sent.length - t.w.published) + r
  hdrs : q.hdrs = q.shp.toNat
  granted : t.sent.length + r + q.pktsAvailable.toNat ≤ G
  avail : q.bytesAvailable.toNat + sentBytes (t.sent.drop t.w.published) ≤ t.w.ch.ctrl.ts.freeBytes.toNat
  recent : (t.sent.drop t.w.published).map Prod.snd =
    hdrCells t.items t.mem (t.w.published % 2 ^ k) (t.sent.length - t.w.published)
  reserved : ∀ i < r, (t.mem ((q.shp.toNat - r + i) % t.items)).framePtr.toNat =
    (sentBytes t.sent + cellBytes t.items t.mem (q.shp.toNat - r) i) % 2 ^ kd
  sdp : q.sdp.toNat = (sentBytes t.sent + cellBytes t.items t.mem (q.shp.toNat - r) r) % 2 ^ kd

/-! ## A sync -/

theorem kernAdvance_bounds {t : TxWorld KernWorld} (hh : t.w.hwHdrs ≤ t.sent.length) (hd : t.w.hwBytes ≤ sentBytes t.sent) :
    t.w.hwHdrs ≤ (kernAdvance t).w.hwHdrs ∧ (kernAdvance t).w.hwHdrs ≤ t.sent.length ∧
      t.w.hwBytes ≤ (kernAdvance t).w.hwBytes ∧ (kernAdvance t).w.hwBytes ≤ sentBytes t.sent := by
  have h1 : (kernAdvance t).w.hwHdrs = min (t.w.hwHdrs + (t.w.moves.headD ⟨0, 0⟩).hdrs) t.sent.length := rfl
  have h2 : (kernAdvance t).w.hwBytes = min (t.w.hwBytes + (t.w.moves.headD ⟨0, 0⟩).bytes) (sentBytes t.sent) := rfl
  omega

/-- The world behind a sync that publishes all headers put, asked for `n` more. -/
structure KernSynced (k kd n : Nat) (t t' : TxWorld KernWorld) (sync : SubscriptionSync) : Prop where
  sent : t'.sent = t.sent
  mem : t'.mem = t.mem
  items : t'.items = t.items
  published : t'.w.published = t.sent.length
  driver : Driver k kd t.sent.length t'.w.hwHdrs t'.w.hwBytes (t.sent.length + min n (t'.w.hwHdrs + 2 ^ k - 1 - t.sent.length))
    (sentBytes t.sent) t'.w.ch sync
  driverSdp : t'.w.ch.ctrl.c.sdp.toNat = sentBytes t.sent % 2 ^ kd
  size : sync.size = t'.w.ch.ctrl.ts.freeBytes
  hwHdrs : t.w.hwHdrs ≤ t'.w.hwHdrs
  hwBytes : t.w.hwBytes ≤ t'.w.hwBytes
  past : KernPast k kd t'

theorem Driver.withHdr {U H D G B : Nat} {sync : SubscriptionSync} (h : Driver k kd U H D G B ch sync) (hdr : Nat → V3PacketHdr) :
    Driver k kd U H D G B { ch with ctrl := { ch.ctrl with ts := { ch.ctrl.ts with hdr } } } sync :=
  ⟨h.running, h.ptrmask, h.mhp, h.mdp, h.hdrItems, h.shp, h.swptr, h.syncHwptr, h.syncSwptr, h.locked, h.done, h.granted, h.lap, h.hdp,
    h.doneBytes, h.free⟩

/-- The world behind a sync that leaves the channel `ch`, with the headers taken in it. -/
def syncedKern (t : TxWorld KernWorld) (ch : Channel CalypteTxCtrl) (takes : List (V3PacketHdr × U32)) : TxWorld KernWorld :=
  { kernAdvance t with
    w := { (kernAdvance t).w with
      published := t.sent.length
      ch
      taken := t.w.taken ++ takes
      looks := t.w.looks ++ [(t.sent.length, ⟨(kernAdvance t).w.hwHdrs, (kernAdvance t).w.hwBytes⟩)] } }

section Sync

variable {r n G : Nat} {t t' : TxWorld KernWorld} {q : QueueV3Tx} {sync : SubscriptionSync}

theorem InLine.takes_pointer (h : InLine k kd r G t q) {j : Nat} (hj : j < t.sent.length - t.w.published) :
    (t.mem ((t.w.published % 2 ^ k + j) % t.items)).framePtr.toNat =
      (sentBytes (t.sent.take t.w.published) + cellBytes t.items t.mem (t.w.published % 2 ^ k) j) % 2 ^ kd := by
  have hlen : j < (t.sent.drop t.w.published).length := by rwa [List.length_drop]
  have hcell := congrArg (fun l => l[j]?) h.recent
  simp only [List.getElem?_map, hdrCells, List.getElem?_range hj, Option.map_some] at hcell
  obtain ⟨x, hx, hmem⟩ := Option.map_eq_some_iff.1 hcell
  rw [List.getElem?_drop] at hx
  have hbytes : sentBytes ((t.sent.drop t.w.published).take j) = cellBytes t.items t.mem (t.w.published % 2 ^ k) j := by
    apply sentBytes_of_cells
    rw [List.map_take, h.recent, take_hdrCells hj.le]
  have htake : t.sent.take (t.w.published + j) = t.sent.take t.w.published ++ (t.sent.drop t.w.published).take j := List.take_add
  rw [← hmem, (h.past.placed _ x hx).2, htake, sentBytes_append, hbytes]

/-- What the past becomes with a sync. -/
theorem InLine.past_synced (h : InLine k kd r G t q) {takes : List (V3PacketHdr × U32)}
    (htakes : takes = (List.range (t.sent.length - t.w.published)).map fun j => (t.mem ((t.w.published % 2 ^ k + j) % t.items), BitVec.ofNat 32 ((sentBytes (t.sent.take t.w.published) + cellBytes t.items t.mem (t.w.published % 2 ^ k) j) % 2 ^ kd))) :
    KernPast k kd (syncedKern t ch takes) := by
  have hpow : 2 ^ kd ≤ 2 ^ 16 := Nat.pow_le_pow_right (by norm_num) h.hkd'
  constructor
  case published => exact le_rfl
  case placed => exact h.past.placed
  case taken =>
    show (t.w.taken ++ takes).map Prod.fst = (t.sent.take t.sent.length).map Prod.snd
    have hrecent : takes.map Prod.fst = (t.sent.drop t.w.published).map Prod.snd := by
      rw [h.recent, htakes, List.map_map]
      rfl
    rw [List.map_append, h.past.taken, hrecent, ← List.map_append, List.take_append_drop, List.take_length]
  case pointer =>
    intro x hx
    rcases List.mem_append.1 hx with hx | hx
    · exact h.past.pointer x hx
    · rw [htakes] at hx
      obtain ⟨j, hj, rfl⟩ := List.mem_map.1 hx
      have hlt : (sentBytes (t.sent.take t.w.published) + cellBytes t.items t.mem (t.w.published % 2 ^ k) j) % 2 ^ kd < 2 ^ kd :=
        Nat.mod_lt _ (by positivity)
      rw [BitVec.toNat_ofNat, Nat.mod_eq_of_lt (show _ < 2 ^ 32 by omega)]
      exact ⟨h.takes_pointer (List.mem_range.1 hj), dvd_mod h.hkd (dvd_add (dvd_sentBytes _) (dvd_cellBytes _ _ _ _))⟩
  case room =>
    intro j hj
    obtain ⟨look, hmem, hroom⟩ := h.past.room j hj
    exact ⟨look, List.mem_append_left _ hmem, hroom⟩
  case last => exact ⟨t.sent.length, le_rfl, List.mem_append_right _ (List.mem_singleton.2 rfl)⟩

/-- A sync of a queue in line publishes all headers put. -/
theorem InLine.synced (h : InLine k kd r G t q) (kind : SyncKind) (q' : QueueV3Tx) (hreq : q'.sync.hwptr.toNat = t.sent.length % 2 ^ k)
    (hn : ((q'.sync.swptr - q'.sync.hwptr) &&& t.w.ch.ptrmask).toNat = n) :
    ∃ t' sync, kernCall kind t q' = (t', { q' with sync }, 0) ∧ KernSynced k kd n t t' sync := by
  have hgr := h.granted
  have hlap := h.driver.lap
  have hUP := h.past.published
  have hdone := h.driver.done
  have hdb := h.driver.doneBytes
  have hfree := h.driver.free
  have havail := h.avail
  have hsplit := sentBytes_split t.sent t.w.published
  have hkd := h.hkd
  have hposk : 0 < 2 ^ k := by positivity
  have hposd : 0 < 2 ^ kd := by positivity
  obtain ⟨hH1, hH2, hD1, hD2⟩ := @kernAdvance_bounds t (by omega) (by omega)
  have hcells : cellBytes (2 * 2 ^ k) t.mem (t.w.published % 2 ^ k) (t.sent.length - t.w.published) = sentBytes (t.sent.drop t.w.published) := by
    rw [← h.items]
    exact (sentBytes_of_cells h.recent).symm
  have hshow1 : (kernHw (kernAdvance t)).hhp.toNat = (kernAdvance t).w.hwHdrs % 2 ^ k :=
    (at_ofNat h.driver.mhp.le_width _).toNat_and h.driver.mhp
  have hshow2 : (kernHw (kernAdvance t)).hdp.toNat = (kernAdvance t).w.hwBytes % 2 ^ kd :=
    (at_ofNat h.driver.mdp.le_width _).toNat_and h.driver.mdp
  have hchan : Driver k kd t.w.published t.w.hwHdrs t.w.hwBytes G (sentBytes (t.sent.take t.w.published)) (kernChannel (kernAdvance t)) q.sync :=
    h.driver.withHdr t.mem
  obtain ⟨ch, sync, hcall, hdr, hsize⟩ := driver_sync hchan hreq hn hUP (by omega) hcells (by omega) hshow1 hH1 hH2 hshow2 hD1 (by omega)
  obtain ⟨hsdp, htakes⟩ := @sync_sdp k kd t.w.published t.sent.length t.w.hwHdrs t.w.hwBytes G (sentBytes (t.sent.take t.w.published))
    (kernChannel (kernAdvance t)) q.sync q'.sync (kernHw (kernAdvance t)) hkd h.hkd' hchan (dvd_sentBytes _) h.driverSdp hreq hUP (by omega)
  rw [hcall] at hsdp
  rw [hsplit] at hdr hsize
  have hsdp' : ch.ctrl.c.sdp.toNat = sentBytes t.sent % 2 ^ kd := by
    rw [← hsplit, ← hcells]
    exact hsdp
  refine ⟨syncedKern t ch (kernTakes (kernChannel (kernAdvance t)) q'.sync), sync, ?_, ?_⟩
  · unfold kernCall
    simp only [hcall]
    rfl
  · refine ⟨rfl, rfl, rfl, rfl, hdr, hsdp', ?_, hH1, hD1, h.past_synced ?_⟩
    · have hfree' := hdr.free
      show sync.size = ch.ctrl.ts.freeBytes
      exact BitVec.eq_of_toNat_eq (by omega)
    · rw [htakes, h.items]
      rfl

/-- Behind a sync the queue is in line again, whatever its code does with the headers that it got. -/
theorem KernSynced.inLine (h : InLine k kd r G t q) (hs : KernSynced k kd n t t' sync) (q' : QueueV3Tx) (hfixed : KernQueue k kd q')
    (hsync : q'.sync = sync) (hshp : q'.shp.toNat = t.sent.length % 2 ^ k + r) (hhdrs : q'.hdrs = q'.shp.toNat)
    (hgr : r + q'.pktsAvailable.toNat ≤ min n (t'.w.hwHdrs + 2 ^ k - 1 - t.sent.length))
    (havail : q'.bytesAvailable.toNat ≤ t'.w.ch.ctrl.ts.freeBytes.toNat) (hsdp : q'.sdp = q.sdp) (hcell : r = 0 ∨ q'.shp = q.shp) :
    InLine k kd r (t.sent.length + min n (t'.w.hwHdrs + 2 ^ k - 1 - t.sent.length)) t' q' := by
  have htake : t.sent.take t.sent.length = t.sent := List.take_length
  have hdrop : t.sent.drop t.sent.length = [] := List.drop_length
  constructor
  case hk => exact h.hk
  case hkd => exact h.hkd
  case hkd' => exact h.hkd'
  case fixed => exact hfixed
  case items => rw [hs.items, h.items]
  case driver =>
    rw [hs.published, hs.sent, htake, hsync]
    exact hs.driver
  case driverSdp =>
    rw [hs.published, hs.sent, htake]
    exact hs.driverSdp
  case past => exact hs.past
  case shp => rw [hs.published, hs.sent, hshp, Nat.sub_self, Nat.add_zero]
  case hdrs => exact hhdrs
  case granted =>
    rw [hs.sent]
    omega
  case avail =>
    rw [hs.published, hs.sent, hdrop]
    exact havail
  case recent =>
    rw [hs.published, hs.sent, hdrop, Nat.sub_self]
    rfl
  case reserved =>
    intro i hi
    rcases hcell with rfl | hcell
    · exact absurd hi (Nat.not_lt_zero i)
    · rw [hs.mem, hs.items, hs.sent, hcell]
      exact h.reserved i hi
  case sdp =>
    rw [hsdp, h.sdp, hs.mem, hs.items, hs.sent]
    rcases hcell with rfl | hcell
    · rfl
    · rw [hcell]

end Sync

/-! ## Asking for space, flush and lock -/

section Calls

variable {r G n : Nat} {t t' : TxWorld KernWorld} {q q' : QueueV3Tx} {packets : Nat → NdpPacket} {shp : U32} {ret : Int}

theorem InLine.free (h : InLine k kd r G t q) :
    q.bytesAvailable.toNat + sentBytes t.sent ≤ 2 ^ kd - 1 + t.w.hwBytes := by
  have hfree := h.driver.free
  have havail := h.avail
  have hsplit := sentBytes_split t.sent t.w.published
  omega

/-- A request for space in front of a header that is in the first half of the header buffer keeps the queue in line. -/
theorem InLine.requestSpace (h : InLine k kd r G t q) (hs : shp.toNat = t.sent.length % 2 ^ k) (hfirst : q.shp.toNat = shp.toNat + r) :
    ∃ t' q', ncNdpV3TxRequestSpace kernCall t q shp = (t', q', 0) ∧ InLine k kd r G t' q' ∧ t'.sent = t.sent ∧
      t'.mem = t.mem ∧ t'.items = t.items ∧ q'.shp = q.shp ∧ q'.hdrPtrMask = q.hdrPtrMask := by
  have hgr := h.granted
  have hlap := h.driver.lap
  have hposk : 0 < 2 ^ k := by positivity
  have hslot : (shp.setWidth 64 : U64).toNat = t.sent.length % 2 ^ k := by rw [toNat_setWidth64, hs]
  have hn : ((q.sync.swptr - shp.setWidth 64) &&& t.w.ch.ptrmask).toNat = G - t.sent.length :=
    (at_of_mod h.driver.syncSwptr).toNat_sub_and h.driver.ptrmask (at_of_mod hslot) (by omega) (by
      have hdone := h.driver.done
      have hUP := h.past.published
      omega)
  obtain ⟨t', sync, hcall, hsy⟩ := h.synced .space { q with sync := { q.sync with hwptr := shp.setWidth 64 } } hslot hn
  have hH := hsy.hwHdrs
  have hsent := hsy.sent
  have hmin : min (G - t.sent.length) (t'.w.hwHdrs + 2 ^ k - 1 - t.sent.length) = G - t.sent.length := by omega
  have hin := hsy.inLine h (spaceTail { q with sync }) { h.fixed with } rfl (by show q.shp.toNat = _; rw [hfirst, hs]) h.hdrs
    (by show r + q.pktsAvailable.toNat ≤ _; omega) (by show sync.size.toNat ≤ _; rw [hsy.size]) rfl (Or.inr rfl)
  have hG : t.sent.length + min (G - t.sent.length) (t'.w.hwHdrs + 2 ^ k - 1 - t.sent.length) = G := by omega
  rw [hG] at hin
  refine ⟨t', _, ?_, hin, hsent, hsy.mem, hsy.items, rfl, rfl⟩
  unfold ncNdpV3TxRequestSpace
  rw [hcall]
  rfl

theorem InLine.folded (h : InLine k kd 0 G t q) : q.Folds k t.sent.length := by
  have hshp := h.shp
  have hgr := h.granted
  have hlap := h.driver.lap
  have hdone := h.driver.done
  have hUP := h.past.published
  have hlt := Nat.mod_lt t.w.published (show 0 < 2 ^ k by positivity)
  exact folds_of h.fixed.hdrMask h.hk (by omega) hshp (by omega) h.hdrs

theorem InLine.flushPut (h : InLine k kd 0 G t q) :
    ∃ t' q' G', flushPut kernCall t q = (t', q', 0) ∧ InLine k kd 0 G' t' q' ∧ t'.w.published = t'.sent.length ∧
      q'.pktsToSend = q.pktsToSend := by
  obtain ⟨sh, hd, hq, hsh, hhd⟩ := h.folded
  have hslot : (sh.setWidth 64 : U64).toNat = t.sent.length % 2 ^ k := by rw [toNat_setWidth64, hsh]
  have hn : ((sh.setWidth 64 - sh.setWidth 64 : U64) &&& t.w.ch.ptrmask).toNat = 0 := by rw [BitVec.sub_self, BitVec.zero_and]; rfl
  obtain ⟨t', sync, hcall, hsy⟩ := h.synced .flush
    { q with shp := sh, hdrs := hd, sync := { size := q.sync.size, hwptr := sh.setWidth 64, swptr := sh.setWidth 64 }, pktsAvailable := 0 }
    hslot hn
  have hfree := hsy.driver.free
  have hspace := h.free
  have hbytes := hsy.hwBytes
  have hin := hsy.inLine h { q with shp := sh, hdrs := hd, sync, pktsAvailable := 0 } { h.fixed with } rfl hsh hhd
    (by show 0 + (0 : U32).toNat ≤ _; simp) (by show q.bytesAvailable.toNat ≤ _; omega) rfl (Or.inl rfl)
  refine ⟨t', _, _, ?_, hin, by rw [hsy.published, hsy.sent], rfl⟩
  unfold Calypte.flushPut
  simp only [hq]
  rw [if_neg (by rw [h.fixed.kernel]; decide)]
  simp only [hcall]
  rfl

/-- A lock keeps the queue in line. -/
theorem InLine.lock (h : InLine k kd 0 G t q) (hpub : t.w.published = t.sent.length) :
    ∃ t' q' G', ncNdpV3TxLock kernCall t q = (t', q') ∧ InLine k kd 0 G' t' q' ∧ t'.w.published = t'.sent.length ∧
      q'.pktsToSend = q.pktsToSend := by
  have hpos : 0 < 2 ^ k := by positivity
  have hmask := h.fixed.hdrMask
  have hk := hmask.le_width
  have hmask64 : IsMask (q.hdrPtrMask.setWidth 64 : U64) k := hmask.setWidth (by omega)
  have heq64 : t.w.ch.ptrmask = q.hdrPtrMask.setWidth 64 := by
    have hm := h.driver.ptrmask
    unfold IsMask at hm hmask64
    exact BitVec.eq_of_toNat_eq (by omega)
  have hshp : q.shp.toNat = t.sent.length % 2 ^ k := by
    rw [h.shp, hpub, Nat.sub_self]
    rfl
  have hreq : q.sync.hwptr.toNat = t.sent.length % 2 ^ k := by rw [h.driver.syncHwptr, hpub]
  have hn : ((((q.sync.hwptr - 1) &&& q.hdrPtrMask.setWidth 64) - q.sync.hwptr) &&& t.w.ch.ptrmask).toNat = 2 ^ k - 1 := by
    rw [heq64]
    exact toNat_whole hmask64 hreq
  obtain ⟨t', sync, hcall, hsy⟩ := h.synced (.lock (q.sync.swptr ≠ q.sync.hwptr))
    { q with sync := { size := q.sync.size, hwptr := q.sync.hwptr, swptr := (q.sync.hwptr - 1) &&& q.hdrPtrMask.setWidth 64 } } hreq hn
  have hat : sync.hwptr = q.shp.setWidth 64 := BitVec.eq_of_toNat_eq (by rw [hsy.driver.syncHwptr, toNat_setWidth64, hshp])
  have htail := @lockTail_eq { q with sync } hat (q.sync.swptr ≠ q.sync.hwptr)
  have hlt : min (2 ^ k - 1) (t'.w.hwHdrs + 2 ^ k - 1 - t.sent.length) < 2 ^ k := by omega
  have hgranted := toNat_granted hmask hsy.driver.syncHwptr hsy.driver.syncSwptr hlt
  have hin := hsy.inLine h (lockTail (q.sync.swptr ≠ q.sync.hwptr) { q with sync }) (by rw [htail]; exact { h.fixed with }) (by rw [htail])
    (by rw [htail]; exact hshp) (by rw [htail]; exact h.hdrs) (by rw [htail]; simp only; omega)
    (by rw [htail]; simp only; rw [hsy.size]) (by rw [htail]) (Or.inl rfl)
  refine ⟨t', _, _, ?_, hin, by rw [hsy.published, hsy.sent], by rw [htail]⟩
  unfold ncNdpV3TxLock
  simp only
  rw [hcall]
  rfl

/-! ## Put -/

/-- If a put asks for space only in front of headers in the first half of the header buffer. In the second half the driver would go on
from the same slot of the first, where it finds the headers of the lap before. -/
def asksInFirstHalf {W : Type} (call : SyncCall W) (hdr : Int) : Nat → Nat → U32 → Nat → TxWorld W → QueueV3Tx → Bool
  | 0, _, _, _, _, _ => true
  | n + 1, i, shp, fuel, t, q =>
    let need : U64 := (frameLenCeil ((t.hdr (hdr + i)).frameLen.setWidth 32)).setWidth 64
    (decide (q.bytesAvailable < need → hdr + i = shp.toNat)) &&
      match waitSpace call shp need fuel t q with
      | none => true
      | some (fuel, t, q, _) =>
        asksInFirstHalf call hdr n (i + 1) ((shp + 1) &&& q.hdrPtrMask) fuel
          { t with sent := t.sent ++ [(shp, t.hdr (hdr + i))] } { q with bytesAvailable := q.bytesAvailable - need }

theorem InLine.waitSpace {need : U64} {fuel fuel' : Nat} (h : InLine k kd r G t q) (hs : shp.toNat = t.sent.length % 2 ^ k)
    (hfirst : q.bytesAvailable < need → q.shp.toNat = shp.toNat + r)
    (hw : waitSpace kernCall shp need fuel t q = some (fuel', t', q', ret)) :
    ret = 0 ∧ need ≤ q'.bytesAvailable ∧ InLine k kd r G t' q' ∧ t'.sent = t.sent ∧ t'.mem = t.mem ∧
      t'.items = t.items ∧ q'.shp = q.shp ∧ q'.hdrPtrMask = q.hdrPtrMask := by
  induction fuel generalizing t q with
  | zero =>
    unfold Calypte.waitSpace at hw
    by_cases hlt : q.bytesAvailable < need
    · rw [if_pos hlt] at hw
      exact absurd hw (by simp)
    · rw [if_neg hlt] at hw
      cases hw
      exact ⟨rfl, BitVec.not_lt.1 hlt, h, rfl, rfl, rfl, rfl, rfl⟩
  | succ fuel ih =>
    unfold Calypte.waitSpace at hw
    by_cases hlt : q.bytesAvailable < need
    · rw [if_pos hlt] at hw
      obtain ⟨t₁, q₁, hreq, h₁, hsent, hmem, hitems, hshp, hmask⟩ := h.requestSpace hs (hfirst hlt)
      simp only [hreq, ne_eq, not_true_eq_false, if_false] at hw
      obtain ⟨hr, hb, hin, h2, h3, h4, h5, h6⟩ := ih h₁ (by rw [hsent]; exact hs) (fun _ => by rw [hshp]; exact hfirst hlt) hw
      exact ⟨hr, hb, hin, h2.trans hsent, h3.trans hmem, h4.trans hitems, h5.trans hshp, h6.trans hmask⟩
    · rw [if_neg hlt] at hw
      cases hw
      exact ⟨rfl, BitVec.not_lt.1 hlt, h, rfl, rfl, rfl, rfl, rfl⟩

/-- What the past becomes with a header put. -/
theorem InLine.past_put {hdr : V3PacketHdr} (h : InLine k kd (n + 1) G t q) (hs : shp.toNat = t.sent.length % 2 ^ k)
    (hptr : hdr.framePtr.toNat = sentBytes t.sent % 2 ^ kd)
    (hb : (frameLenCeil (hdr.frameLen.setWidth 32)).toNat ≤ q.bytesAvailable.toNat) :
    KernPast k kd { t with sent := t.sent ++ [(shp, hdr)] } := by
  have hlen : (t.sent ++ [(shp, hdr)]).length = t.sent.length + 1 := by rw [List.length_append]; rfl
  have hone : sentBytes [(shp, hdr)] = (frameLenCeil (hdr.frameLen.setWidth 32)).toNat := by simp [sentBytes]
  obtain ⟨m, hm, hlast⟩ := h.past.last
  constructor
  case published =>
    rw [hlen]
    exact le_trans h.past.published (Nat.le_succ _)
  case placed =>
    intro j x hx
    rcases Nat.lt_trichotomy j t.sent.length with hlt | rfl | hgt
    · rw [List.getElem?_append_left hlt] at hx
      rw [List.take_append_of_le_length hlt.le]
      exact h.past.placed j x hx
    · rw [List.getElem?_append_right le_rfl, Nat.sub_self] at hx
      obtain rfl : (shp, hdr) = x := Option.some.inj hx
      rw [List.take_append_of_le_length le_rfl, List.take_length]
      exact ⟨hs, hptr⟩
    · rw [List.getElem?_eq_none (by rw [hlen]; omega)] at hx
      cases hx
  case taken =>
    rw [List.take_append_of_le_length h.past.published]
    exact h.past.taken
  case pointer => exact h.past.pointer
  case room =>
    intro j hj
    rw [hlen] at hj
    by_cases hold : j < t.sent.length
    · obtain ⟨look, hmem, hle, hroom, hbytes⟩ := h.past.room j hold
      refine ⟨look, hmem, hle, hroom, ?_⟩
      rw [List.take_append_of_le_length hold]
      exact hbytes
    · obtain rfl : j = t.sent.length := by omega
      have hgr := h.granted
      have hlap := h.driver.lap
      have hspace := h.free
      refine ⟨_, hlast, hm, by show _ ≤ t.w.hwHdrs + _; omega, ?_⟩
      rw [List.take_of_length_le hlen.le, sentBytes_append, hone]
      show _ ≤ t.w.hwBytes + _
      omega
  case last => exact ⟨m, by rw [hlen]; omega, hlast⟩

/-- A header put to the hardware. -/
theorem InLine.putOne {x : Int} (h : InLine k kd (n + 1) G t q) (hs : shp.toNat = t.sent.length % 2 ^ k)
    (hx : x = (q.shp.toNat - (n + 1) : Nat)) (hb : (frameLenCeil ((t.hdr x).frameLen.setWidth 32)).setWidth 64 ≤ q.bytesAvailable) :
    InLine k kd n G { t with sent := t.sent ++ [(shp, t.hdr x)] }
      { q with bytesAvailable := q.bytesAvailable - (frameLenCeil ((t.hdr x).frameLen.setWidth 32)).setWidth 64 } := by
  have hle := h.past.published
  have hshp := h.shp
  have havail := h.avail
  have hgr := h.granted
  have hlen : (t.sent ++ [(shp, t.hdr x)]).length = t.sent.length + 1 := by rw [List.length_append]; rfl
  have htake : (t.sent ++ [(shp, t.hdr x)]).take t.w.published = t.sent.take t.w.published := List.take_append_of_le_length hle
  have hdrop : (t.sent ++ [(shp, t.hdr x)]).drop t.w.published = t.sent.drop t.w.published ++ [(shp, t.hdr x)] :=
    List.drop_append_of_le_length hle
  have hone : sentBytes [(shp, t.hdr x)] = (frameLenCeil ((t.hdr x).frameLen.setWidth 32)).toNat := by simp [sentBytes]
  have hfirst : t.hdr x = t.mem ((q.shp.toNat - (n + 1)) % t.items) := by rw [hx, TxWorld.hdr, shadowSlot_natCast]
  have hb' := BitVec.le_def.1 hb
  rw [toNat_setWidth64] at hb'
  have hsub : (q.bytesAvailable - (frameLenCeil ((t.hdr x).frameLen.setWidth 32)).setWidth 64).toNat =
      q.bytesAvailable.toNat - (frameLenCeil ((t.hdr x).frameLen.setWidth 32)).toNat := by
    rw [toNat_sub_of_le (BitVec.le_def.1 hb), toNat_setWidth64]
  have hptr := h.reserved 0 (Nat.succ_pos n)
  rw [Nat.add_zero, ← hfirst, cellBytes, Nat.add_zero] at hptr
  -- the header leaves the reserved ones at their front
  have hrest (i : Nat) : sentBytes t.sent + cellBytes t.items t.mem (q.shp.toNat - (n + 1)) (i + 1) =
      sentBytes (t.sent ++ [(shp, t.hdr x)]) + cellBytes t.items t.mem (q.shp.toNat - n) i := by
    have hnext : q.shp.toNat - (n + 1) + 1 = q.shp.toNat - n := by omega
    rw [cellBytes_cons, hnext, ← hfirst, sentBytes_append, hone, Nat.add_assoc]
  constructor
  case hk => exact h.hk
  case hkd => exact h.hkd
  case hkd' => exact h.hkd'
  case fixed => exact { h.fixed with }
  case items => exact h.items
  case driver =>
    rw [htake]
    exact h.driver
  case driverSdp =>
    rw [htake]
    exact h.driverSdp
  case past => exact h.past_put hs hptr hb'
  case shp =>
    rw [hlen]
    show q.shp.toNat = t.w.published % 2 ^ k + (t.sent.length + 1 - t.w.published) + n
    omega
  case hdrs => exact h.hdrs
  case granted =>
    rw [hlen]
    show _ + _ + q.pktsAvailable.toNat ≤ _
    omega
  case avail =>
    rw [hdrop, sentBytes_append, hone]
    show (q.bytesAvailable - _).toNat + _ ≤ t.w.ch.ctrl.ts.freeBytes.toNat
    omega
  case recent =>
    have hcount : t.sent.length + 1 - t.w.published = (t.sent.length - t.w.published) + 1 := by omega
    have hpos : q.shp.toNat - (n + 1) = t.w.published % 2 ^ k + (t.sent.length - t.w.published) := by omega
    rw [hdrop, hlen]
    show _ = hdrCells t.items t.mem (t.w.published % 2 ^ k) (t.sent.length + 1 - t.w.published)
    rw [hcount, hdrCells_succ, List.map_append, h.recent, ← hpos, ← hfirst]
    rfl
  case reserved =>
    intro i hi
    have hold := h.reserved (i + 1) (by omega)
    have hcell : q.shp.toNat - (n + 1) + (i + 1) = q.shp.toNat - n + i := by omega
    rw [hcell, hrest] at hold
    exact hold
  case sdp =>
    have hold := h.sdp
    rw [hrest] at hold
    exact hold

/-- The rounds of a put keep the queue in line. -/
theorem InLine.putRounds {hdr : Int} {i fuel : Nat} (h : InLine k kd n G t q) (hs : shp.toNat = t.sent.length % 2 ^ k)
    (hhdr : hdr + i = (q.shp.toNat - n : Nat)) (hok : asksInFirstHalf kernCall hdr n i shp fuel t q = true)
    (hp : putRounds kernCall hdr n i shp fuel t q = some (t', q', ret)) : ret = 0 ∧ InLine k kd 0 G t' q' := by
  induction n generalizing i shp fuel t q with
  | zero =>
    rw [Calypte.putRounds] at hp
    cases hp
    exact ⟨rfl, h⟩
  | succ n ih =>
    have hshp := h.shp
    rw [Calypte.putRounds] at hp
    rw [asksInFirstHalf, Bool.and_eq_true, decide_eq_true_iff] at hok
    obtain ⟨hfirst, hrest⟩ := hok
    obtain ⟨⟨fuel₁, t₁, q₁, ret₁⟩, hw, hp⟩ := Option.bind_eq_some_iff.1 hp
    obtain ⟨hret, hb, h₁, hsent, hmem, hitems, hshp₁, hmask⟩ := h.waitSpace hs (fun hlt => by
      have hx := hfirst hlt
      rw [hhdr] at hx
      omega) hw
    have hhdr' : ∀ x, t₁.hdr x = t.hdr x := fun x => by unfold TxWorld.hdr; rw [hmem, hitems]
    simp only [hw] at hrest
    subst hret
    simp only [ne_eq, not_true_eq_false, if_false] at hp
    have hput := h₁.putOne (x := hdr + i) (by rw [hsent]; exact hs) (by rw [hhdr, hshp₁]) (by rw [hhdr']; exact hb)
    simp only [hhdr'] at hput hp hrest
    refine ih (i := i + 1) hput ?_ ?_ hrest hp
    · rw [List.length_append, hsent]
      exact toNat_next h₁.fixed.hdrMask hs
    · show hdr + ((i + 1 : Nat) : Int) = (q₁.shp.toNat - n : Nat)
      rw [hshp₁]
      push_cast
      omega

/-! ## Get -/

theorem cellBytes_le (items : Nat) (mem : Nat → V3PacketHdr) (base n : Nat) : cellBytes items mem base n ≤ n * 2 ^ 16 := by
  induction n with
  | zero => exact Nat.zero_le _
  | succ n ih =>
    have hlen := (mem ((base + n) % items)).frameLen.isLt
    have hone : ceilTo 32 (mem ((base + n) % items)).frameLen.toNat ≤ 2 ^ 16 := ceilTo_le (by norm_num) hlen.le (by norm_num)
    rw [cellBytes, toNat_frameLenCeil_len]
    omega

theorem getRound_size {W : Type} {p : NdpPacket} {i : Nat} {t t' : TxWorld W} {sdp sdp' : U32} (hq : KernQueue k kd q)
    (h : getRound q p i t sdp = (t', some sdp')) : (packetSize q.frameSizeMin p).toNat < 2 ^ 16 := by
  obtain ⟨h255, -⟩ := getRound_some h
  have hmin := hq.frameMin
  have hmax := hq.frameMax
  have hand : (p.headerLength.setWidth 32 &&& 0xff : U32) = p.headerLength.setWidth 32 :=
    BitVec.eq_of_toNat_eq (by rw [headerLength_and h255, toNat_widen32])
  unfold packetSize
  dsimp only
  by_cases hlt : p.dataLength + p.headerLength.setWidth 32 < q.frameSizeMin
  · rw [if_pos hlt]
    exact hmin
  · rw [if_neg hlt]
    by_cases hgt : p.dataLength + p.headerLength.setWidth 32 > q.frameSizeMax
    · -- a packet above the limit is refused
      have hfit : ¬p.headerLength > 0xff := fun hlt => absurd (BitVec.lt_def.1 hlt) (by simpa using h255)
      unfold getRound at h
      rw [if_neg hfit] at h
      simp only [hand, if_neg hlt, if_pos hgt] at h
      cases h
    · have hle := BitVec.le_def.1 (BitVec.not_lt.1 hgt)
      omega

theorem getRounds_size {W : Type} {t : TxWorld W} (hq : KernQueue k kd q) {t' : TxWorld W} {pkts : Nat → U32} {sdp : U32}
    (h : getRounds q packets t n = (t', pkts, some sdp)) : ∀ j < n, (packetSize q.frameSizeMin (packets j)).toNat < 2 ^ 16 := by
  induction n generalizing t' pkts sdp with
  | zero => exact fun j hj => absurd hj (Nat.not_lt_zero j)
  | succ n ih =>
    rw [getRounds] at h
    rcases hr : getRounds q packets t n with ⟨t₁, pkts₁, _ | sdp₁⟩
    · rw [hr] at h
      cases h
    rw [hr] at h
    dsimp only at h
    rcases hround : getRound q (packets n) n t₁ sdp₁ with ⟨t₂, _ | sdp₂⟩
    · rw [hround] at h
      cases h
    intro j hj
    by_cases hjn : j = n
    · rw [hjn]
      exact getRound_size hq hround
    · exact ih hr j (by omega)

theorem toNat_v3Pos_cells {W : Type} {t' : TxWorld W} {pkts : Nat → U32} {base : Nat} (hf : V3Filled q packets n t' pkts)
    (hbase : q.hdrs = base) (h32 : 32 ∣ q.sdp.toNat) (hsdp : q.sdp.toNat < 2 ^ 16) (hn : n ≤ 256)
    (hsize : ∀ j < n, (packetSize q.frameSizeMin (packets j)).toNat < 2 ^ 16) :
    ∀ j ≤ n, (v3Pos q packets j).toNat = q.sdp.toNat + cellBytes t'.items t'.mem base j := by
  intro j
  induction j with
  | zero => exact fun _ => rfl
  | succ j ih =>
    intro hj
    have hpos := ih (by omega)
    have hs := hsize j (by omega)
    have hle := cellBytes_le t'.items t'.mem base j
    have hhdr : t'.hdr (q.hdrs + j) = t'.mem ((base + j) % t'.items) := by
      rw [hbase, ← Nat.cast_add, TxWorld.hdr, shadowSlot_natCast]
    have hlen := (hf.hdr j (by omega)).frameLen
    rw [hhdr] at hlen
    have hframe : (t'.mem ((base + j) % t'.items)).frameLen.toNat = (packetSize q.frameSizeMin (packets j)).toNat := by
      rw [hlen, BitVec.toNat_setWidth, Nat.mod_eq_of_lt hs]
    have hadd : (v3Pos q packets j + packetSize q.frameSizeMin (packets j)).toNat =
        q.sdp.toNat + cellBytes t'.items t'.mem base j + (packetSize q.frameSizeMin (packets j)).toNat := by
      rw [BitVec.toNat_add, hpos, Nat.mod_eq_of_lt (by omega)]
    rw [v3Pos, toNat_frameLenCeil (by rw [hadd]; omega), hadd, ceilTo_add (dvd_add h32 (dvd_cellBytes _ _ _ _)), cellBytes,
      toNat_frameLenCeil_len, hframe, Nat.add_assoc]

theorem InLine.withMem (h : InLine k kd 0 G t q) (hpub : t.w.published = t.sent.length) (mem : Nat → V3PacketHdr) :
    InLine k kd 0 G { t with mem } q := by
  refine { h with past := { h.past with }, recent := ?_, reserved := ?_ }
  · show (t.sent.drop t.w.published).map Prod.snd = hdrCells t.items mem _ (t.sent.length - t.w.published)
    rw [hpub, List.drop_length, Nat.sub_self]
    rfl
  · exact fun i hi => absurd hi (Nat.not_lt_zero i)

/-- Between the calls of the application the queue is in line, with everything put published. -/
def KernRest (k kd : Nat) (t : TxWorld KernWorld) (q : QueueV3Tx) : Prop :=
  ∃ G, InLine k kd q.pktsToSend.toNat G t q ∧ t.w.published = t.sent.length

/-- Reserving headers that are available. -/
theorem KernRest.reserve (h : KernRest k kd t q) (h0 : q.pktsToSend = 0) {count : U32} (hc : count ≤ q.pktsAvailable)
    (hcnt : count.toNat ≤ 256) : KernRest k kd (burstReserve t q packets count).1 (burstReserve t q packets count).2.1 := by
  obtain ⟨G, hin, hpub⟩ := h
  obtain ⟨mem, hmem⟩ := getRounds_world q packets t count.toNat
  have hc' := BitVec.le_def.1 hc
  have hz : (0 : U32).toNat = 0 := rfl
  rw [h0, hz] at hin
  have hgr := hin.granted
  have hlap := hin.driver.lap
  have hshp := hin.shp
  have hUP := hin.past.published
  have hdone := hin.driver.done
  rw [hpub, Nat.sub_self] at hshp
  have hslot := Nat.mod_lt t.sent.length (show 0 < 2 ^ k by positivity)
  have hpow : 2 ^ k ≤ 2 ^ 31 := Nat.pow_le_pow_right (by norm_num) hin.hk
  have hpowd : 2 ^ kd ≤ 2 ^ 16 := Nat.pow_le_pow_right (by norm_num) hin.hkd'
  have hin' := hin.withMem hpub mem
  have hsdp : q.sdp.toNat = sentBytes t.sent % 2 ^ kd := hin.sdp
  have h32 : 32 ∣ q.sdp.toNat := by
    rw [hsdp]
    exact dvd_mod hin.hkd (dvd_sentBytes _)
  have hlt : sentBytes t.sent % 2 ^ kd < 2 ^ kd := Nat.mod_lt _ (by positivity)
  unfold burstReserve
  rcases hr : getRounds q packets t count.toNat with ⟨t₁, pkts, _ | sdp⟩
  · rw [hr] at hmem
    simp only at hmem
    subst hmem
    refine ⟨G, ?_, hpub⟩
    show InLine k kd q.pktsToSend.toNat G { t with mem } { q with txPkts := pkts }
    rw [h0]
    exact { hin' with fixed := { hin'.fixed with } }
  · obtain ⟨-, hpos, hf⟩ := getRounds_filled q packets t (by rw [hin.items]; omega) hr
    have hsize := getRounds_size hin.fixed hr
    rw [hr] at hmem
    simp only at hmem
    subst hmem
    have hcells := toNat_v3Pos_cells hf hin.hdrs h32 (by omega) hcnt hsize
    have hadd : (q.shp + count).toNat = q.shp.toNat + count.toNat := by
      rw [BitVec.toNat_add, Nat.mod_eq_of_lt (by omega)]
    have hsub : (q.pktsAvailable - count).toNat = q.pktsAvailable.toNat - count.toNat := toNat_sub_of_le hc'
    have hsend : (q.pktsToSend + count).toNat = count.toNat := by rw [h0, BitVec.ofNat_eq_ofNat, BitVec.zero_add]
    have hback : (q.shp + count).toNat - count.toNat = q.shp.toNat := by omega
    refine ⟨G, ?_, hpub⟩
    simp only [hsend]
    refine { hin' with fixed := { hin'.fixed with }, shp := ?_, hdrs := ?_, granted := ?_, reserved := ?_, sdp := ?_ }
    · show (q.shp + count).toNat = t.w.published % 2 ^ k + (t.sent.length - t.w.published) + count.toNat
      rw [hadd, hshp, hpub, Nat.sub_self]
    · show q.hdrs + count.toNat = ((q.shp + count).toNat : Int)
      rw [hadd, hin.hdrs]
      push_cast
      rfl
    · show t.sent.length + count.toNat + (q.pktsAvailable - count).toNat ≤ _
      omega
    · intro i hi
      show (mem (((q.shp + count).toNat - count.toNat + i) % t.items)).framePtr.toNat =
        (sentBytes t.sent + cellBytes t.items mem ((q.shp + count).toNat - count.toNat) i) % 2 ^ kd
      have hhdr : TxWorld.hdr { t with mem } (q.hdrs + i) = mem ((q.shp.toNat + i) % t.items) := by
        rw [hin.hdrs, ← Nat.cast_add, TxWorld.hdr, shadowSlot_natCast]
      have hptr := (hf.hdr i hi).framePtr
      rw [hhdr] at hptr
      have hle : (sentBytes t.sent % 2 ^ kd + cellBytes t.items mem q.shp.toNat i) % 2 ^ kd < 2 ^ kd := Nat.mod_lt _ (by positivity)
      rw [hback, hptr, BitVec.toNat_setWidth, hin.fixed.dataMask.toNat_and, hcells i hi.le, hsdp, Nat.mod_eq_of_lt (by omega),
        Nat.mod_add_mod]
    · show (sdp &&& q.dataPtrMask).toNat = (sentBytes t.sent + cellBytes t.items mem ((q.shp + count).toNat - count.toNat) count.toNat) % 2 ^ kd
      rw [hback, hin.fixed.dataMask.toNat_and, hpos, hcells _ le_rfl, hsdp, Nat.mod_add_mod]

theorem KernRest.get (h : KernRest k kd t q) (packets : Nat → NdpPacket) (count : U32) :
    KernRest k kd (ncNdpV3TxBurstGet kernCall t q packets count).1 (ncNdpV3TxBurstGet kernCall t q packets count).2.1 := by
  unfold ncNdpV3TxBurstGet
  by_cases hno : q.pktsToSend ≠ 0 ∨ q.txPktsCnt < count.setWidth 64
  · rw [if_pos hno]
    exact h
  · rw [if_neg hno]
    obtain ⟨h0, hcnt⟩ := not_or.1 hno
    have h0 : q.pktsToSend = 0 := not_not.1 h0
    have hle := BitVec.le_def.1 (BitVec.not_lt.1 hcnt)
    rw [toNat_setWidth64] at hle
    have h256 : count.toNat ≤ 256 := by
      obtain ⟨_, hin, _⟩ := h
      exact hle.trans hin.fixed.count
    by_cases hlt : q.pktsAvailable < count
    · rw [if_pos hlt]
      obtain ⟨G, hin, hpub⟩ := h
      rw [h0] at hin
      obtain ⟨t₁, q₁, G₁, hlock, h₁, hpub₁, hsend⟩ := hin.lock hpub
      have hrest : KernRest k kd t₁ q₁ := by
        refine ⟨G₁, ?_, hpub₁⟩
        rw [hsend, h0]
        exact h₁
      rw [hlock]
      simp only
      by_cases hfew : q₁.pktsAvailable < count ∨ count = 0
      · rw [if_pos hfew]
        exact hrest
      · rw [if_neg hfew]
        exact hrest.reserve (hsend.trans h0) (BitVec.not_lt.1 (not_or.1 hfew).1) h256
    · rw [if_neg hlt]
      exact h.reserve h0 (BitVec.not_lt.1 hlt) h256

/-! ## Put and flush -/

/-- If the put of the packets reserved asks for space only in front of headers in the first half. -/
def KernPutOk (fuel : Nat) (t : TxWorld KernWorld) (q : QueueV3Tx) : Prop :=
  asksInFirstHalf kernCall (q.hdrs - q.pktsToSend.toNat) q.pktsToSend.toNat 0 (q.shp - q.pktsToSend) fuel t q = true

instance (fuel : Nat) (t : TxWorld KernWorld) (q : QueueV3Tx) : Decidable (KernPutOk fuel t q) :=
  inferInstanceAs (Decidable (_ = true))

theorem KernRest.flushPut (h : KernRest k kd t q) (h0 : q.pktsToSend = 0) :
    KernRest k kd (flushPut kernCall t q).1 (flushPut kernCall t q).2.1 := by
  obtain ⟨G, hin, _⟩ := h
  rw [h0] at hin
  obtain ⟨t', q', G', he, hin', hpub, hsend⟩ := hin.flushPut
  rw [he]
  refine ⟨G', ?_, hpub⟩
  rw [hsend, h0]
  exact hin'

theorem KernRest.put {fuel : Nat} (h : KernRest k kd t q) (hok : KernPutOk fuel t q)
    (hp : ncNdpV3TxBurstPut kernCall fuel t q = some (t', q', ret)) : KernRest k kd t' q' := by
  obtain ⟨G, hin, hpub⟩ := h
  have hshp := hin.shp
  rw [hpub, Nat.sub_self] at hshp
  rw [ncNdpV3TxBurstPut] at hp
  obtain ⟨⟨t₁, q₁, ret₁⟩, hr, he⟩ := Option.map_eq_some_iff.1 hp
  have hfirst : (q.shp - q.pktsToSend).toNat = t.sent.length % 2 ^ k := by
    rw [toNat_sub_of_le (by omega)]
    omega
  obtain ⟨hret, h₁⟩ := hin.putRounds hfirst (by rw [hin.hdrs]; push_cast; omega) hok hr
  subst hret
  simp only [ne_eq, not_true_eq_false, if_false] at he
  have hzero : InLine k kd 0 G t₁ { q₁ with pktsToSend := 0 } := { h₁ with fixed := { h₁.fixed with } }
  obtain ⟨t₂, q₂, G₂, hf, h₂, hpub₂, hsend⟩ := hzero.flushPut
  simp only [hf] at he
  cases he
  refine ⟨G₂, ?_, hpub₂⟩
  rw [hsend]
  exact h₂

theorem KernRest.flush {fuel : Nat} (h : KernRest k kd t q) (hok : KernPutOk fuel t q)
    (hf : ncNdpV3TxBurstFlush kernCall fuel t q = some (t', q', ret)) : KernRest k kd t' q' := by
  rw [ncNdpV3TxBurstFlush] at hf
  by_cases hsend : q.pktsToSend > 0
  · rw [if_pos hsend] at hf
    exact h.put hok hf
  · rw [if_neg hsend] at hf
    have hzero : q.pktsToSend = 0 := BitVec.eq_of_toNat_eq (Nat.le_zero.1 (BitVec.le_def.1 (BitVec.not_lt.1 hsend)))
    have hrest := h.flushPut hzero
    rw [Option.some.inj hf] at hrest
    exact hrest

end Calls

/-! ## Runs -/

structure KernState where
  t : TxWorld KernWorld
  q : QueueV3Tx

def KernState.withMoves (s : KernState) (moves : List HwMove) : TxWorld KernWorld := { s.t with w := { s.t.w with moves } }

def kernStep (s : KernState) : UsOp → Option KernState
  | .get packets count moves =>
    match ncNdpV3TxBurstGet kernCall (s.withMoves moves) s.q packets count with
    | (t, q, _) => some ⟨t, q⟩
  | .put fuel moves => (ncNdpV3TxBurstPut kernCall fuel (s.withMoves moves) s.q).map fun (t, q, _) => ⟨t, q⟩
  | .flush fuel moves => (ncNdpV3TxBurstFlush kernCall fuel (s.withMoves moves) s.q).map fun (t, q, _) => ⟨t, q⟩

/-- The condition on a step: a put asks for space only in the first half of the header buffer. -/
def KernOk (s : KernState) : UsOp → Prop
  | .get _ _ _ => True
  | .put fuel moves => KernPutOk fuel (s.withMoves moves) s.q
  | .flush fuel moves => KernPutOk fuel (s.withMoves moves) s.q

instance : ∀ (s : KernState) (op : UsOp), Decidable (KernOk s op)
  | _, .get _ _ _ => inferInstanceAs (Decidable True)
  | s, .put fuel moves => inferInstanceAs (Decidable (KernPutOk fuel (s.withMoves moves) s.q))
  | s, .flush fuel moves => inferInstanceAs (Decidable (KernPutOk fuel (s.withMoves moves) s.q))

/-- The queue that has not opened the component of its controller. -/
def QueueV3Tx.inKernel (q : QueueV3Tx) : QueueV3Tx := { q with userspace := false }

/-- A queue that was opened and started, with a driver that has not seen the hardware move. -/
def kernStart (p : TxParams) : KernState where
  t := { items := 2 * (p.mhp.toNat + 1), mem := p.mem, sent := []
         w := { hwHdrs := 0, hwBytes := 0, moves := [], published := 0, ch := startedChannel p, taken := [], looks := [(0, ⟨0, 0⟩)] } }
  q := (startedQueue p).inKernel

theorem KernRest.withMoves {s : KernState} (h : KernRest k kd s.t s.q) (moves : List HwMove) : KernRest k kd (s.withMoves moves) s.q := by
  obtain ⟨G, hin, hpub⟩ := h
  exact ⟨G, { hin with past := { hin.past with } }, hpub⟩

theorem kernStep_rest (s : KernState) (op : UsOp) (s' : KernState) (hok : KernOk s op) (h : KernRest k kd s.t s.q)
    (hs : kernStep s op = some s') : KernRest k kd s'.t s'.q := by
  cases op with
  | get packets count moves =>
    have hget := (h.withMoves moves).get packets count
    cases hs
    exact hget
  | put fuel moves =>
    obtain ⟨⟨t, q, ret⟩, hp, rfl⟩ := Option.map_eq_some_iff.1 hs
    exact (h.withMoves moves).put hok hp
  | flush fuel moves =>
    obtain ⟨⟨t, q, ret⟩, hp, rfl⟩ := Option.map_eq_some_iff.1 hs
    exact (h.withMoves moves).flush hok hp

theorem kernStart_rest {p : TxParams} (hm : IsMask p.mhp k) (hk : k ≤ 31) (hmd : IsMask p.mdp kd) (hkd : 5 ≤ kd) (hkd' : kd ≤ 16)
    (hmin : p.frameSizeMin.toNat < 2 ^ 16) (hmax : p.frameSizeMax.toNat < 2 ^ 16) :
    KernRest k kd (kernStart p).t (kernStart p).q := by
  refine ⟨0, ?_, rfl⟩
  constructor
  case hk => exact hk
  case hkd => exact hkd
  case hkd' => exact hkd'
  case fixed => exact ⟨rfl, hm, hmd, hmin, hmax, by show (256 : U64).toNat ≤ 256; decide⟩
  case items =>
    show 2 * (p.mhp.toNat + 1) = _
    rw [hm]
  case driver => exact startedChannel_driver hm hmd
  case driverSdp => exact (Nat.zero_mod _).symm
  case past =>
    refine ⟨le_rfl, ?_, rfl, ?_, ?_, ⟨0, le_rfl, List.mem_singleton.2 rfl⟩⟩
    · intro j x hx
      cases hx
    · intro x hx
      exact absurd hx List.not_mem_nil
    · intro j hj
      exact absurd hj (Nat.not_lt_zero j)
  case shp => rfl
  case hdrs => rfl
  case granted => exact Nat.zero_le _
  case avail => exact Nat.zero_le _
  case recent => rfl
  case reserved => exact fun i hi => absurd hi (Nat.not_lt_zero i)
  case sdp => exact (Nat.zero_mod _).symm

/-- What a queue has delivered between the calls of its application. The driver has taken the headers that were put, in their order, each
at the position that it points to, a multiple of the block size. Header and frame of each lie behind those before it, and were written
only after a sync had shown room for both. The library never counts more free bytes than the driver has, and with nothing reserved both are at
the same positions. -/
structure KernDelivered (k kd : Nat) (s : KernState) : Prop where
  taken : s.t.w.taken.map Prod.fst = s.t.sent.map Prod.snd
  pointer : ∀ x ∈ s.t.w.taken, x.1.framePtr.toNat = x.2.toNat ∧ 32 ∣ x.2.toNat
  placed : ∀ j x, s.t.sent[j]? = some x → x.1.toNat = j % 2 ^ k ∧ x.2.framePtr.toNat = sentBytes (s.t.sent.take j) % 2 ^ kd
  room : ∀ j < s.t.sent.length, ∃ look ∈ s.t.w.looks, look.1 ≤ j ∧ j + 1 ≤ look.2.hdrs + (2 ^ k - 1) ∧
    sentBytes (s.t.sent.take (j + 1)) ≤ look.2.bytes + (2 ^ kd - 1)
  space : s.t.w.ch.ctrl.ts.freeBytes.toNat + sentBytes s.t.sent = 2 ^ kd - 1 + s.t.w.hwBytes
  avail : s.q.bytesAvailable ≤ s.t.w.ch.ctrl.ts.freeBytes
  agreed : s.q.pktsToSend = 0 → s.q.sdp = s.t.w.ch.ctrl.c.sdp ∧ s.q.shp.setWidth 64 = s.t.w.ch.swptr

theorem KernRest.delivered {s : KernState} (h : KernRest k kd s.t s.q) : KernDelivered k kd s := by
  obtain ⟨G, hin, hpub⟩ := h
  have htake : s.t.sent.take s.t.w.published = s.t.sent := by rw [hpub, List.take_length]
  have hdrop : s.t.sent.drop s.t.w.published = [] := by rw [hpub, List.drop_length]
  constructor
  case taken =>
    rw [hin.past.taken, htake]
  case pointer => exact hin.past.pointer
  case placed => exact hin.past.placed
  case room => exact hin.past.room
  case space =>
    rw [← hin.driver.free, htake]
  case avail =>
    have havail := hin.avail
    rw [hdrop] at havail
    exact BitVec.le_def.2 havail
  case agreed =>
    intro h0
    have hsdp := hin.sdp
    have hdsdp := hin.driverSdp
    have hshp := hin.shp
    rw [h0] at hsdp hshp
    rw [htake] at hdsdp
    rw [hpub, Nat.sub_self] at hshp
    refine ⟨BitVec.eq_of_toNat_eq (hsdp.trans hdsdp.symm), BitVec.eq_of_toNat_eq ?_⟩
    rw [toNat_setWidth64, hshp, hin.driver.swptr, hpub]
    rfl

/-- In every run of a queue through the driver whose puts ask for space only in the first half of the header buffer, everything put is
delivered. -/
theorem kern_delivers {p : TxParams} (hm : IsMask p.mhp k) (hk : k ≤ 31) (hmd : IsMask p.mdp kd) (hkd : 5 ≤ kd) (hkd' : kd ≤ 16)
    (hmin : p.frameSizeMin.toNat < 2 ^ 16) (hmax : p.frameSizeMax.toNat < 2 ^ 16) {l l' : List UsOp} {s : KernState}
    (hok : MeetsM kernStep KernOk (kernStart p) l) (hl : l' <+: l) (h : runM kernStep (kernStart p) l' = some s) : KernDelivered k kd s :=
  (runM_inv_of (I := fun s => KernRest k kd s.t s.q) (fun s op s' => kernStep_rest s op s') l l' _ _ hl hok
    (kernStart_rest hm hk hmd hkd hkd' hmin hmax) h).delivered

def packets9000 (_ : Nat) : NdpPacket := { data := 0, header := 0, dataLength := 9000, headerLength := 0, flags := 0 }

/-- Eight packets of 9000 bytes do not fit a ring of 64 KiB: the put waits until the hardware has sent three of them. -/
theorem kern_delivers_waiting :
    MeetsM kernStep KernOk (kernStart smallQueue) [.get packets9000 8 [], .put 1 [⟨3, 27072⟩]] ∧
      ∃ s, runM kernStep (kernStart smallQueue) [.get packets9000 8 [], .put 1 [⟨3, 27072⟩]] = some s ∧
        s.t.sent.length = 8 ∧ KernDelivered 7 16 s := by
  have hok : MeetsM kernStep KernOk (kernStart smallQueue) [.get packets9000 8 [], .put 1 [⟨3, 27072⟩]] := by decide +kernel
  have hrun : (runM kernStep (kernStart smallQueue) [.get packets9000 8 [], .put 1 [⟨3, 27072⟩]]).map
      (fun s => s.t.sent.length) = some 8 := by decide +kernel
  obtain ⟨s, hs, hlen⟩ := Option.map_eq_some_iff.1 hrun
  refine ⟨hok, s, hs, hlen, ?_⟩
  exact @kern_delivers 7 16 smallQueue (by decide) (by decide) (by decide) (by decide) (by decide) (by decide) (by decide) _ _ s hok
    (List.prefix_refl _) hs

end NdkSw.Calypte

/-
The byte stream of a protocol 1 RX channel. Ring positions are counted without bound, and frames by their number: the
hardware may write behind the first `p` bytes, the channel knows of `h`, and a running subscription has released the
first `rel` bytes, got the frames before number `n`, and was shown those before number `m`.
-/
import NdkSw.Ndp.RxV1
import NdkSw.Ndp.RxSync
import NdkSw.Ndp.Subscribe
import NdkSw.Ndp.TxV1Inv

namespace NdkSw.Ndp

open Ring

variable {k p h : Nat} {c : RxByteCtrl}

/-! ## Frame boundaries -/

/-- Where the data of a frame begin. -/
def V1RxFrame.area (f : V1RxFrame) : Nat := (f.headerSize.toNat + 11) / 8 * 8

theorem V1RxFrame.length_image (f : V1RxFrame) : f.image.length = (f.packetSize.toNat + 7) / 8 * 8 := by
  have hbody := f.length_body
  unfold V1RxFrame.image V1PacketHdr.bytes
  rw [List.length_append]
  simp only [List.length_cons, List.length_nil]
  omega

theorem V1RxFrame.image_bounds (f : V1RxFrame) : f.headerSize.toNat + 4 ≤ f.area ∧ f.area ≤ f.packetSize.toNat ∧
    f.packetSize.toNat ≤ f.image.length ∧ f.image.length < 2 ^ 16 ∧ 8 ≤ f.area := by
  have h1 := f.header_le
  have h2 := f.padded_lt
  rw [f.length_image]
  unfold V1RxFrame.area
  omega

/-- The position where frame number `n` begins. -/
def bound (fs : List V1RxFrame) (n : Nat) : Nat := ((fs.take n).flatMap V1RxFrame.image).length

section Bound

variable {fs : List V1RxFrame} {f : V1RxFrame} {n m : Nat}

theorem bound_zero (fs : List V1RxFrame) : bound fs 0 = 0 := by
  simp [bound]

theorem bound_length (fs : List V1RxFrame) : bound fs fs.length = (fs.flatMap V1RxFrame.image).length := by
  rw [bound, List.take_length]

theorem bound_succ (hf : fs[n]? = some f) : bound fs (n + 1) = bound fs n + f.image.length := by
  unfold bound
  rw [List.take_add_one, hf, Option.toList_some, List.flatMap_append, List.length_append, List.flatMap_singleton]

theorem bound_append (gs : List V1RxFrame) (hn : n ≤ fs.length) : bound (fs ++ gs) n = bound fs n := by
  unfold bound
  rw [List.take_append_of_le_length hn]

theorem bound_mono (fs : List V1RxFrame) (hnm : n ≤ m) : bound fs n ≤ bound fs m := by
  obtain ⟨d, rfl⟩ := Nat.exists_eq_add_of_le hnm
  unfold bound
  rw [List.take_add, List.flatMap_append, List.length_append]
  exact Nat.le_add_right _ _

theorem bound_next (hf : fs[n]? = some f) (hnm : n < m) : bound fs n + f.image.length ≤ bound fs m := by
  rw [← bound_succ hf]
  exact bound_mono fs hnm

theorem bound_eq_iff (hm : m ≤ fs.length) (hnm : n ≤ m) : bound fs n = bound fs m ↔ n = m := by
  constructor
  · intro heq
    by_contra hne
    have hlt : n < fs.length := by omega
    have hnext := bound_next (List.getElem?_eq_getElem hlt) (show n < m by omega)
    have hpos := fs[n].image_bounds
    omega
  · rintro rfl
    rfl

theorem getElem?_image (hf : fs[n]? = some f) {j : Nat} {b : U8} (hb : f.image[j]? = some b) :
    (fs.flatMap V1RxFrame.image)[bound fs n + j]? = some b := by
  obtain ⟨hn, hfn⟩ := List.getElem?_eq_some_iff.1 hf
  have hsplit : fs = fs.take n ++ f :: fs.drop (n + 1) := by
    rw [← hfn, List.getElem_cons_drop, List.take_append_drop]
  have hall : fs.flatMap V1RxFrame.image =
      (fs.take n).flatMap V1RxFrame.image ++ (f.image ++ (fs.drop (n + 1)).flatMap V1RxFrame.image) := by
    conv_lhs => rw [hsplit]
    rw [List.flatMap_append, List.flatMap_cons]
  have hj := (List.getElem?_eq_some_iff.1 hb).1
  rw [hall]
  unfold bound
  rw [List.getElem?_append_right (Nat.le_add_right _ _), Nat.add_sub_cancel_left, List.getElem?_append_left hj, hb]

end Bound

/-! ## The ring -/

/-- The ring of a controller: the hardware may write behind position `p`, and the last lap of what it has written is
there. -/
structure RingInv (k p : Nat) (c : RxByteCtrl) : Prop where
  mask : IsMask c.mhp k
  swptr : c.swptr.toNat = p % 2 ^ k
  le : p ≤ c.log.length
  lap : c.log.length < p + 2 ^ k
  mem : HoldsLast (2 ^ k) c.mem c.log
  log : c.log = c.frames.flatMap V1RxFrame.image

theorem RingInv.receive (hc : RingInv k p c) (f : V1RxFrame) :
    RingInv k p (c.receive f) ∧ ∃ gs, (c.receive f).frames = c.frames ++ gs := by
  have hle := hc.le
  have hlap := hc.lap
  have hspace : ((c.swptr - BitVec.ofNat 64 c.log.length - 1) &&& c.mhp).toNat = p + 2 ^ k - 1 - c.log.length :=
    toNat_chlen hc.mask (at_of_mod hc.swptr) (at_ofNat hc.mask.le_width _) hle hlap
  unfold RxByteCtrl.receive
  split
  · rename_i hfits
    rw [hspace] at hfits
    refine ⟨⟨hc.mask, hc.swptr, ?_, ?_, ?_, ?_⟩, [f], rfl⟩
    · simp only [List.length_append]
      omega
    · simp only [List.length_append]
      omega
    · show HoldsLast _ (writeFrom (c.mhp.toNat + 1) _ _ _) _
      rw [hc.mask]
      exact hc.mem.writeFrom f.image
    · simp only [List.flatMap_append, List.flatMap_singleton, ← hc.log]
  · exact ⟨hc, [], (List.append_nil _).symm⟩

theorem RingInv.receiveAll (fs : List V1RxFrame) : ∀ {c : RxByteCtrl}, RingInv k p c →
    RingInv k p (fs.foldl RxByteCtrl.receive c) ∧ (∃ gs, (fs.foldl RxByteCtrl.receive c).frames = c.frames ++ gs) ∧
      (fs.foldl RxByteCtrl.receive c).mhp = c.mhp ∧ (fs.foldl RxByteCtrl.receive c).swptr = c.swptr := by
  induction fs with
  | nil => exact fun hc => ⟨hc, ⟨[], (List.append_nil _).symm⟩, rfl, rfl⟩
  | cons f fs ih =>
    intro c hc
    obtain ⟨hc₁, gs, hgs⟩ := hc.receive f
    obtain ⟨hc₂, ⟨gs', hgs'⟩, hm, hs⟩ := ih hc₁
    have hkeep : (c.receive f).mhp = c.mhp ∧ (c.receive f).swptr = c.swptr := by
      unfold RxByteCtrl.receive
      split <;> exact ⟨rfl, rfl⟩
    exact ⟨hc₂, ⟨gs ++ gs', by rw [List.foldl_cons, hgs', hgs, List.append_assoc]⟩, hm.trans hkeep.1, hs.trans hkeep.2⟩

theorem RingInv.bound_length (hc : RingInv k p c) : c.log.length = bound c.frames c.frames.length := by
  rw [hc.log, Ndp.bound_length]

theorem RingInv.pos (hc : RingInv k p c) {x : U64} {n : Nat} (hx : At k x n) (hp : p ≤ n) (hn : n ≤ c.log.length) : c.pos x = n := by
  have hlap := hc.lap
  unfold RxByteCtrl.pos
  rw [(at_ofNat hc.mask.le_width _).toNat_sub_and hc.mask hx hn (by omega)]
  omega

/-! ## The channel -/

/-- The channel's pointers stand for the positions: up to `p` released by all, up to `h` seen, which is the end of a
frame. -/
structure RxByteChan (k p h : Nat) (ch : Channel RxByteCtrl) : Prop where
  ring : RingInv k p ch.ctrl
  mhp : ch.ctrl.mhp = ch.ptrmask
  hwptr : ch.hwptr.toNat = h % 2 ^ k
  swptr : ch.ctrl.swptr = ch.swptr
  le : p ≤ h
  seen : ∃ n, n ≤ ch.ctrl.frames.length ∧ h = bound ch.ctrl.frames n
  listed : Listed ch

theorem RxByteChan.mask {ch : Channel RxByteCtrl} (hC : RxByteChan k p h ch) : IsMask ch.ptrmask k := hC.mhp ▸ hC.ring.mask

theorem RxByteChan.seen_le {ch : Channel RxByteCtrl} (hC : RxByteChan k p h ch) : h ≤ ch.ctrl.log.length := by
  obtain ⟨n, hn, rfl⟩ := hC.seen
  rw [hC.ring.bound_length]
  exact bound_mono _ hn

/-- A running subscription: the bytes before `rel` are released, the frames before number `n` are handed out, and those
before number `m` were shown. The data pointer counts only while there are bytes left. -/
structure V1RxSub (k p h : Nat) (fs : List V1RxFrame) (sub : Subscription) (q : QueueV1) (rel n m : Nat) : Prop where
  low : p ≤ rel
  le : rel ≤ bound fs n
  nm : n ≤ m
  mlen : m ≤ fs.length
  shown : bound fs m ≤ h
  subSwptr : sub.swptr.toNat = rel % 2 ^ k
  sync : q.sync.swptr = sub.swptr
  swptr : q.swptr.toNat = bound fs n - rel
  bytes : q.bytes.toNat = bound fs m - bound fs n
  total : q.total.toNat = bound fs m - rel
  data : q.bytes ≠ 0 → ∃ o : Nat, q.data = q.buffer + o ∧ o % 2 ^ k = bound fs n % 2 ^ k ∧ o + q.bytes.toNat ≤ 2 * 2 ^ k

variable {ch : Channel RxByteCtrl} {fs : List V1RxFrame} {sub : Subscription} {q : QueueV1} {rel n m i : Nat}

theorem V1RxSub.mono {p' h' : Nat} (hS : V1RxSub k p h fs sub q rel n m) (gs : List V1RxFrame) (hp : p' ≤ rel) (hh : h ≤ h') :
    V1RxSub k p' h' (fs ++ gs) sub q rel n m := by
  have hm := hS.mlen
  have hnm := hS.nm
  have hbn : bound (fs ++ gs) n = bound fs n := bound_append gs (by omega)
  have hbm : bound (fs ++ gs) m = bound fs m := bound_append gs hm
  constructor
  case low => exact hp
  case mlen =>
    rw [List.length_append]
    omega
  case shown => exact (hbm.le.trans hS.shown).trans hh
  case nm => exact hnm
  case subSwptr => exact hS.subSwptr
  case sync => exact hS.sync
  all_goals simp only [hbn, hbm]
  · exact hS.le
  · exact hS.swptr
  · exact hS.bytes
  · exact hS.total
  · exact hS.data

/-- All running subscriptions but `i`. -/
def Others (k p h : Nat) (ch : Channel RxByteCtrl) (i : Nat) (q : Nat → QueueV1) (rel n m : Nat → Nat) : Prop :=
  ∀ j, j ≠ i → (ch.sub j).status = .running → V1RxSub k p h ch.ctrl.frames (ch.sub j) (q j) (rel j) (n j) (m j)

/-- What never changes in a queue. -/
structure V1RxQueue (k : Nat) (buffer : Int) (q : QueueV1) : Prop where
  k63 : k ≤ 63
  size : q.size.toNat = 2 ^ k
  buffer : q.buffer = buffer

theorem V1RxQueue.mask {buffer : Int} (hq : V1RxQueue k buffer q) : IsMask q.mask k := QueueV1.isMask hq.k63 hq.size

/-- What every call leaves of the channel: frames may have arrived, and nobody starts or stops. -/
structure Later (ch ch' : Channel RxByteCtrl) : Prop where
  grown : ∃ gs, ch'.ctrl.frames = ch.ctrl.frames ++ gs
  status : ∀ j, (ch'.sub j).status = (ch.sub j).status

theorem Later.refl (ch : Channel RxByteCtrl) : Later ch ch := ⟨⟨[], (List.append_nil _).symm⟩, fun _ => rfl⟩

theorem Later.trans {ch₁ ch₂ : Channel RxByteCtrl} (h01 : Later ch ch₁) (h12 : Later ch₁ ch₂) : Later ch ch₂ := by
  obtain ⟨gs, hgs⟩ := h01.grown
  obtain ⟨gs', hgs'⟩ := h12.grown
  exact ⟨⟨gs ++ gs', by rw [hgs', hgs, List.append_assoc]⟩, fun j => (h12.status j).trans (h01.status j)⟩

/-! ## One sync -/

/-- What a sync of `i` with its pointer at `rel` makes of the channel. -/
structure RxByteSynced (k p h : Nat) (ch : Channel RxByteCtrl) (i : Nat) (swptr : U64) (rels : Nat → Nat) (p' : Nat)
    (ch' : Channel RxByteCtrl) : Prop where
  chan : RxByteChan k p' ch'.ctrl.log.length ch'
  low : ∀ j, (ch.sub j).status = .running → p' ≤ rels j
  grown : ∃ gs, ch'.ctrl.frames = ch.ctrl.frames ++ gs
  later : h ≤ ch'.ctrl.log.length
  status : ∀ j, (ch'.sub j).status = (ch.sub j).status
  self : (ch'.sub i).swptr = swptr
  other : ∀ j, j ≠ i → ch'.sub j = ch.sub j

theorem rxByteSync_synced (hC : RxByteChan k p h ch) (e : RxByteEnv) (hr : (ch.sub i).status = .running)
    (sync : SubscriptionSync) (rels : Nat → Nat)
    (hrel : ∀ j, (ch.sub j).status = .running → j ≠ i → (ch.sub j).swptr.toNat = rels j % 2 ^ k ∧ p ≤ rels j ∧ rels j ≤ h)
    (hsw : sync.swptr.toNat = rels i % 2 ^ k) (hp : p ≤ rels i) (hh : rels i ≤ h) :
    ∃ p', RxByteSynced k p h ch i sync.swptr rels p' (ndpSubscriptionSync rxByteOps .rx e ch i sync).1 ∧
      (ndpSubscriptionSync rxByteOps .rx e ch i sync).2.1.swptr = sync.swptr ∧
      (ndpSubscriptionSync rxByteOps .rx e ch i sync).2.1.hwptr.toNat =
        (ndpSubscriptionSync rxByteOps .rx e ch i sync).1.ctrl.log.length % 2 ^ k ∧
      (ndpSubscriptionSync rxByteOps .rx e ch i sync).2.2 = 0 := by
  have hseen := hC.seen_le
  have hlap := hC.ring.lap
  have hset : rxByteOps.setSwptr ch.ctrl e ch.swptr = ch.ctrl := by
    show ({ ch.ctrl with swptr := ch.swptr } : RxByteCtrl) = ch.ctrl
    rw [← hC.swptr]
  obtain ⟨p', w, h1, hph, hw, hmin, hres⟩ := rxsync_released rxByteOps hset hC.mask hC.hwptr hC.le (by omega)
    hC.listed.list hr sync rels hrel hsw hp hh
  -- the ring that the hardware may write up to `w`, and what it writes
  have hring : RingInv k p' { ch.ctrl with swptr := w } :=
    ⟨hC.ring.mask, hw, by show p' ≤ ch.ctrl.log.length; omega, by show ch.ctrl.log.length < p' + 2 ^ k; omega, hC.ring.mem,
      hC.ring.log⟩
  obtain ⟨hring', ⟨gs, hgs⟩, hm, hs⟩ := hring.receiveAll e.frames
  have hlen := hring'.bound_length
  have hstat : ∀ j, ((ch.rxsynced rxByteOps e i sync.swptr w).sub j).status = (ch.sub j).status := by
    intro j
    by_cases hji : j = i
    · subst hji
      simp [Channel.rxsynced]
    · simp [Channel.rxsynced, hji]
  have hsync : ndpSubscriptionSync rxByteOps .rx e ch i sync =
      (ch.rxsynced rxByteOps e i sync.swptr w, { sync with hwptr := (ch.rxsynced rxByteOps e i sync.swptr w).hwptr }, 0) := by
    unfold ndpSubscriptionSync
    rw [if_neg (not_not.2 hr)]
    simp only [hres]
  rw [hsync]
  generalize hctrl : e.frames.foldl RxByteCtrl.receive { ch.ctrl with swptr := w } = c at hring' hgs hm hs hlen
  have hch : ch.rxsynced rxByteOps e i sync.swptr w =
      { ch with
        swptr := w, ctrl := c, hwptr := BitVec.ofNat 64 c.log.length &&& c.mhp
        sub := Function.update ch.sub i { ch.sub i with swptr := sync.swptr, hwptr := BitVec.ofNat 64 c.log.length &&& c.mhp } } := by
    unfold Channel.rxsynced
    simp only [rxByteOps, hctrl]
  have hhw : (BitVec.ofNat 64 c.log.length &&& c.mhp).toNat = c.log.length % 2 ^ k :=
    (at_ofNat hring'.mask.le_width _).toNat_and hring'.mask
  rw [hch] at hstat ⊢
  have hgrown : c.frames = ch.ctrl.frames ++ gs := hgs
  have hle' : ch.ctrl.log.length ≤ c.log.length := by
    rw [hlen, hgrown, hC.ring.bound_length, ← bound_append gs le_rfl]
    exact bound_mono _ (by rw [List.length_append]; omega)
  refine ⟨p', ⟨⟨hring', hm.trans hC.mhp, hhw, hs, hring'.le, ⟨_, le_rfl, hlen⟩, hC.listed.congr rfl rfl hstat⟩, hmin, ⟨gs, hgrown⟩,
    by show h ≤ c.log.length; omega, hstat, by simp, fun j hj => by simp [hj]⟩, rfl, hhw, rfl⟩

/-! ## Lock, unlock and get -/

/-- The channel and the queue of a running `i` during a call; `rels`, `ns` and `ms` are the positions of all. -/
structure RxAt (k p h : Nat) (buffer : Int) (qs : Nat → QueueV1) (rels ns ms : Nat → Nat) (i : Nat) (ch : Channel RxByteCtrl)
    (q : QueueV1) (n m : Nat) : Prop where
  chan : RxByteChan k p h ch
  queue : V1RxQueue k buffer q
  running : (ch.sub i).status = .running
  sub : V1RxSub k p h ch.ctrl.frames (ch.sub i) q (rels i) n m
  others : Others k p h ch i qs rels ns ms

variable {buffer : Int} {qs : Nat → QueueV1} {rels ns ms : Nat → Nat}

/-- Where the other subscriptions stand, for a sync of `i`. -/
theorem RxAt.released (hA : RxAt k p h buffer qs rels ns ms i ch q n m) (j : Nat) (hj : (ch.sub j).status = .running)
    (hji : j ≠ i) : (ch.sub j).swptr.toNat = rels j % 2 ^ k ∧ p ≤ rels j ∧ rels j ≤ h := by
  have hS := hA.others j hji hj
  exact ⟨hS.subSwptr, hS.low, hS.le.trans ((bound_mono _ hS.nm).trans hS.shown)⟩

theorem Others.synced {x : U64} {rels' : Nat → Nat} {p' : Nat} {ch' : Channel RxByteCtrl} (hO : Others k p h ch i qs rels ns ms)
    (hs : RxByteSynced k p h ch i x rels' p' ch') (hrel : ∀ j, j ≠ i → rels' j = rels j) :
    Others k p' ch'.ctrl.log.length ch' i qs rels ns ms := by
  intro j hji hj
  have hj' : (ch.sub j).status = .running := by rwa [← hs.status]
  obtain ⟨gs, hgs⟩ := hs.grown
  have hlow := hs.low j hj'
  rw [hrel j hji] at hlow
  rw [hs.other j hji, hgs]
  exact (hO j hji hj').mono gs hlow hs.later

/-- After a lock everything received and not yet handed out is there. -/
theorem rxV1Lock_at (hA : RxAt k p h buffer qs rels ns ms i ch q n m) (e : RxByteEnv) :
    ∃ p' ch' q', ncNdpV1RxLock rxByteOps e i ch q = (ch', q', 0) ∧
      RxAt k p' ch'.ctrl.log.length buffer qs rels ns ms i ch' q' n ch'.ctrl.frames.length ∧ Later ch ch' := by
  have hS := hA.sub
  have hqm := hA.queue.mask
  have hmono := bound_mono ch.ctrl.frames hS.nm
  have hle := hS.le
  have hnm := hS.nm
  have hmlen := hS.mlen
  have hshown := hS.shown
  obtain ⟨p', hs, hsw, hhw, hret⟩ := rxByteSync_synced hA.chan e hA.running q.sync rels hA.released
    (by rw [hS.sync]; exact hS.subSwptr) hS.low (by omega)
  unfold ncNdpV1RxLock
  generalize ndpSubscriptionSync rxByteOps .rx e ch i q.sync = r at hs hsw hhw hret
  obtain ⟨ch', sync, ret⟩ := r
  simp only at hs hsw hhw hret ⊢
  obtain ⟨gs, hgs⟩ := hs.grown
  have hC' := hs.chan
  have hlap := hC'.ring.lap
  have hlen := hC'.ring.bound_length
  have hlow := hs.low i hA.running
  have hbn : bound ch'.ctrl.frames n = bound ch.ctrl.frames n := by
    rw [hgs]
    exact bound_append gs (by omega)
  have hfn : n ≤ ch'.ctrl.frames.length := by
    rw [hgs, List.length_append]
    omega
  have hbl := bound_mono ch'.ctrl.frames hfn
  have hrel : sync.swptr.toNat = rels i % 2 ^ k := by
    rw [hsw, hS.sync]
    exact hS.subSwptr
  -- the distances from the released position
  have htotal : At k (sync.hwptr - sync.swptr) (ch'.ctrl.log.length - rels i) :=
    At.sub hqm.le_width (at_of_mod hhw) (at_of_mod hrel) (by omega)
  have hused : At k q.swptr (bound ch.ctrl.frames n - rels i) := by
    rw [← hS.swptr]
    exact at_toNat _
  have hbytes : ((sync.hwptr - sync.swptr - q.swptr) &&& q.mask).toNat =
      ch'.ctrl.log.length - bound ch.ctrl.frames n := by
    rw [(At.sub hqm.le_width htotal hused (by omega)).toNat_and hqm, Nat.mod_eq_of_lt (by omega)]
    omega
  have htot : ((sync.hwptr - sync.swptr) &&& q.mask).toNat = ch'.ctrl.log.length - rels i := by
    rw [htotal.toNat_and hqm, Nat.mod_eq_of_lt (by omega)]
  have hmod : rels i % 2 ^ k < 2 ^ k := Nat.mod_lt _ (by positivity)
  rw [if_neg (not_not.2 hret)]
  refine ⟨p', ch', _, rfl, ⟨hC', ⟨hA.queue.k63, hA.queue.size, hA.queue.buffer⟩, (hs.status i).trans hA.running, ?_,
    hA.others.synced hs fun _ _ => rfl⟩, ⟨gs, hgs⟩, hs.status⟩
  constructor
  case low => exact hlow
  case le => rwa [hbn]
  case nm => exact hfn
  case mlen => exact le_rfl
  case shown => exact hlen.ge
  case subSwptr => rw [hs.self, hS.sync]; exact hS.subSwptr
  case sync => rw [hs.self]; exact hsw
  case swptr => rw [hbn]; exact hS.swptr
  case bytes =>
    rw [hbn, ← hlen]
    exact hbytes
  case total =>
    rw [← hlen]
    exact htot
  case data =>
    intro _
    refine ⟨rels i % 2 ^ k + (bound ch.ctrl.frames n - rels i), ?_, ?_, ?_⟩
    · show q.buffer + (sync.swptr.toNat : Int) + (q.swptr.toNat : Int) = q.buffer + _
      rw [hrel, hS.swptr]
      push_cast
      ring
    · rw [hbn, Nat.mod_add_mod, Nat.add_sub_cancel' hle]
    · show _ + ((sync.hwptr - sync.swptr - q.swptr) &&& q.mask).toNat ≤ _
      rw [hbytes]
      omega

/-- A put releases everything handed out so far. -/
theorem rxV1Unlock_at (hA : RxAt k p h buffer qs rels ns ms i ch q n m) (e : RxByteEnv) :
    ∃ p' ch' q', ncNdpV1RxUnlock rxByteOps e i ch q = (ch', q') ∧
      RxAt k p' ch'.ctrl.log.length buffer qs (Function.update rels i (bound ch.ctrl.frames n)) ns ms i ch' q' n m ∧
      Later ch ch' := by
  have hS := hA.sub
  have hqm := hA.queue.mask
  have hmono := bound_mono ch.ctrl.frames hS.nm
  have hle := hS.le
  have hnm := hS.nm
  have hmlen := hS.mlen
  have hshown := hS.shown
  have hlow := hS.low
  have hb := hS.bytes
  have ht := hS.total
  have hunlock : (q.total - q.bytes).toNat = bound ch.ctrl.frames n - rels i := by
    rw [BitVec.toNat_sub_of_le (BitVec.le_def.2 (by omega)), hb, ht]
    omega
  have hptr : ((q.sync.swptr + (q.total - q.bytes)) &&& q.mask).toNat = bound ch.ctrl.frames n % 2 ^ k := by
    have h1 : At k q.sync.swptr (rels i) := by
      rw [hS.sync]
      exact at_of_mod hS.subSwptr
    have h2 : At k (q.total - q.bytes) (bound ch.ctrl.frames n - rels i) := by
      rw [← hunlock]
      exact at_toNat _
    rw [(At.add hqm.le_width h1 h2).toNat_and hqm, Nat.add_sub_cancel' hle]
  have hkeep : (q.total - (q.total - q.bytes)).toNat = bound ch.ctrl.frames m - bound ch.ctrl.frames n := by
    rw [BitVec.toNat_sub_of_le (BitVec.le_def.2 (by omega)), hunlock, ht]
    omega
  obtain ⟨p', hs, hsw, hhw, hret⟩ := rxByteSync_synced hA.chan e hA.running
    { q.sync with swptr := (q.sync.swptr + (q.total - q.bytes)) &&& q.mask } (Function.update rels i (bound ch.ctrl.frames n))
    (fun j hj hji => by
      rw [Function.update_of_ne hji]
      exact hA.released j hj hji)
    (by rw [Function.update_self]; exact hptr) (by rw [Function.update_self]; omega) (by rw [Function.update_self]; omega)
  unfold ncNdpV1RxUnlock
  simp only
  -- `x` is the new pointer
  generalize (q.sync.swptr + (q.total - q.bytes)) &&& q.mask = x at hptr hs hsw hhw hret
  generalize ndpSubscriptionSync rxByteOps .rx e ch i { q.sync with swptr := x } = r at hs hsw hhw hret
  obtain ⟨ch', sync, ret⟩ := r
  simp only at hs hsw hhw hret ⊢
  obtain ⟨gs, hgs⟩ := hs.grown
  have hlow' := hs.low i hA.running
  have hlater := hs.later
  rw [Function.update_self] at hlow'
  refine ⟨p', ch', _, rfl, ⟨hs.chan, ⟨hA.queue.k63, hA.queue.size, hA.queue.buffer⟩, (hs.status i).trans hA.running, ?_, ?_⟩,
    ⟨gs, hgs⟩, hs.status⟩
  · have hbn : bound ch'.ctrl.frames n = bound ch.ctrl.frames n := by
      rw [hgs]
      exact bound_append gs (by omega)
    have hbm : bound ch'.ctrl.frames m = bound ch.ctrl.frames m := by
      rw [hgs]
      exact bound_append gs hmlen
    constructor
    case nm => exact hnm
    case mlen =>
      rw [hgs, List.length_append]
      omega
    all_goals simp only [hbn, hbm, Function.update_self]
    · exact hlow'
    · exact le_rfl
    · omega
    · rw [hs.self]; exact hptr
    · rw [hs.self]; exact hsw
    · simp
    · exact hb
    · exact hkeep
    · exact hS.data
  · intro j hji hj
    rw [Function.update_of_ne hji]
    exact hA.others.synced hs (fun j hj => Function.update_of_ne hj _ _) j hji hj

/-- The packet `pkt` that a subscription got is the frame `f` at position `pos`: header and data have their lengths and
lie where the frame is, inside the `2 * size` bytes from `buffer` on. -/
structure Delivered (k : Nat) (buffer : Int) (pos : Nat) (f : V1RxFrame) (pkt : NdpPacket) : Prop where
  headerLength : pkt.headerLength = f.headerSize
  dataLength : pkt.dataLength.toNat = f.packetSize.toNat - f.area
  located : ∃ o : Nat, o % 2 ^ k = pos % 2 ^ k ∧ o + f.image.length ≤ 2 * 2 ^ k ∧
    pkt.header = buffer + ((o + ndpPacketHeaderSize : Nat) : Int) ∧ pkt.data = buffer + ((o + f.area : Nat) : Int)

/-- The receiver's view of a well-formed frame that is there as a whole. -/
theorem v1RxPacket_frame (f : V1RxFrame) (data : Int) (bytes : U64) (hb : f.image.length ≤ bytes.toNat) :
    ∃ pkt size, v1RxPacket ⟨f.packetSize, f.headerSize⟩ data bytes = .ok (pkt, size) ∧ size.toNat = f.image.length ∧
      pkt.headerLength = f.headerSize ∧ pkt.dataLength.toNat = f.packetSize.toNat - f.area ∧
      pkt.header = data + ndpPacketHeaderSize ∧ pkt.data = data + f.area := by
  obtain ⟨h1, h2, h3, h4, h5⟩ := f.image_bounds
  have hps := f.packetSize.isLt
  have hne : ¬ (f.packetSize = 0 ∨ (f.headerSize.toNat : Int) > f.packetSize.toNat - ndpPacketHeaderSize) := by
    rintro (h0 | hlt)
    · have hzero : f.packetSize.toNat = 0 := congrArg BitVec.toNat h0
      omega
    · simp only [ndpPacketHeaderSize] at hlt
      omega
  have hin : ¬ f.packetSize.setWidth 64 > bytes := by
    rw [gt_iff_lt, BitVec.lt_def, BitVec.toNat_setWidth]
    omega
  have hhs := f.headerSize.isLt
  have harea : ((align8 (f.headerSize.setWidth 32 + 4)).setWidth 16 : U16).toNat = f.area := by
    have hsum : (f.headerSize.setWidth 32 + 4 : U32).toNat = f.headerSize.toNat + 4 := by
      rw [BitVec.toNat_add, BitVec.toNat_setWidth, show (4 : U32).toNat = 4 from rfl]
      omega
    rw [BitVec.toNat_setWidth, toNat_align8, hsum]
    unfold V1RxFrame.area at *
    omega
  have hpad : ((align8 (f.packetSize.setWidth 32)).setWidth 16 : U16).toNat = f.image.length := by
    rw [BitVec.toNat_setWidth, toNat_align8, BitVec.toNat_setWidth]
    rw [f.length_image] at h4 ⊢
    omega
  unfold v1RxPacket
  rw [if_neg hne, if_neg hin]
  generalize ((align8 (f.headerSize.setWidth 32 + 4)).setWidth 16 : U16) = area at harea
  refine ⟨_, _, rfl, hpad, rfl, ?_, rfl, by simp only [harea]⟩
  show (f.packetSize.setWidth 32 - area.setWidth 32 : U32).toNat = _
  rw [BitVec.toNat_sub, BitVec.toNat_setWidth, BitVec.toNat_setWidth, harea]
  omega

theorem RingInv.read (hc : RingInv k p c) (hq : V1RxQueue k buffer q) {f : V1RxFrame} (hf : c.frames[n]? = some f)
    (hp : p ≤ bound c.frames n) {o : Nat} (ho : o % 2 ^ k = bound c.frames n % 2 ^ k) {j : Nat} {b : U8} (hb : f.image[j]? = some b) :
    q.read c (buffer + (o : Int) + (j : Int)) = b := by
  have hlap := hc.lap
  have hlog := getElem?_image hf hb
  rw [← hc.log] at hlog
  have hmem := hc.mem _ b hlog (by omega)
  have hx : buffer + (o : Int) + (j : Int) - buffer = ((o + j : Nat) : Int) := by
    push_cast
    ring
  unfold QueueV1.read shadowSlot
  rw [hq.buffer, hx, hq.size, ← Int.natCast_emod, Int.toNat_natCast, ← hmem]
  congr 1
  exact Nat.ModEq.add_right j ho

/-- One round: while there are bytes, the next frame is there as a whole. -/
theorem RxAt.frame (hA : RxAt k p h buffer qs rels ns ms i ch q n m) {q₀ : QueueV1} (hq₀ : V1RxQueue k buffer q₀)
    (hne : q.bytes ≠ 0) :
    ∃ f pkt size, ch.ctrl.frames[n]? = some f ∧ v1RxPacket (v1HdrAt (q₀.read ch.ctrl) q.data) q.data q.bytes = .ok (pkt, size) ∧
      Delivered k buffer (bound ch.ctrl.frames n) f pkt ∧
      RxAt k p h buffer qs rels ns ms i ch (q.advance size) (n + 1) m := by
  have hS := hA.sub
  have hb := hS.bytes
  have hmlen := hS.mlen
  have hnm := hS.nm
  have hlow := hS.low
  have hle := hS.le
  have hb0 : q.bytes.toNat ≠ 0 := fun h0 => hne (BitVec.eq_of_toNat_eq h0)
  have hlt : n < m := by
    refine lt_of_le_of_ne hnm fun heq => hb0 ?_
    rw [hb, heq, Nat.sub_self]
  obtain ⟨f, hf⟩ : ∃ f, ch.ctrl.frames[n]? = some f := ⟨_, List.getElem?_eq_getElem (by omega)⟩
  have hnext := bound_next hf hlt
  have hsucc := bound_succ hf
  obtain ⟨h1, h2, h3, h4, h5⟩ := f.image_bounds
  obtain ⟨o, hdata, ho, hend⟩ := hS.data hne
  rw [hA.queue.buffer] at hdata
  obtain ⟨pkt, size, hpkt, hsize, hhl, hdl, hhdr, hdat⟩ := v1RxPacket_frame f q.data q.bytes (by omega)
  have hread : v1HdrAt (q₀.read ch.ctrl) q.data = ⟨f.packetSize, f.headerSize⟩ := by
    refine v1HdrAt_bytes fun j b hget => ?_
    rw [hdata]
    refine hA.chan.ring.read hq₀ hf (by omega) ho ?_
    unfold V1RxFrame.image
    rw [List.getElem?_append_left (List.getElem?_eq_some_iff.1 hget).1]
    exact hget
  have hsize64 : (size.setWidth 64 : U64).toNat = f.image.length := by
    rw [BitVec.toNat_setWidth, hsize]
    omega
  have hbytes : (q.advance size).bytes.toNat = bound ch.ctrl.frames m - bound ch.ctrl.frames (n + 1) := by
    show (q.bytes - size.setWidth 64).toNat = _
    rw [BitVec.toNat_sub_of_le (BitVec.le_def.2 (by omega)), hsize64, hb, hsucc]
    omega
  refine ⟨f, pkt, size, hf, by rw [hread]; exact hpkt, ⟨hhl, hdl, o, ho, by omega, ?_, ?_⟩,
    ⟨hA.chan, ⟨hA.queue.k63, hA.queue.size, hA.queue.buffer⟩, hA.running, ?_, hA.others⟩⟩
  · rw [hhdr, hdata]
    push_cast
    ring
  · rw [hdat, hdata]
    push_cast
    ring
  · have hlap := hA.chan.ring.lap
    have hseen := hA.chan.seen_le
    have hshown := hS.shown
    have hpow : 2 ^ k ≤ 2 ^ 63 := Nat.pow_le_pow_right (by norm_num) hA.queue.k63
    refine ⟨hlow, by omega, hlt, hmlen, hS.shown, hS.subSwptr, hS.sync, ?_, hbytes, hS.total, fun _ => ?_⟩
    · show (q.swptr + size.setWidth 64).toNat = _
      rw [BitVec.toNat_add, hsize64, hS.swptr]
      omega
    · refine ⟨o + f.image.length, ?_, ?_, by omega⟩
      · show q.data + (size.toNat : Int) = q.buffer + _
        rw [hdata, hsize, hA.queue.buffer]
        push_cast
        ring
      · rw [hsucc]
        exact Nat.ModEq.add_right _ ho

/-- What a get has done: it has handed out the frames from number `n` on, and it has stopped early only if these are all. -/
structure RxGotten (k : Nat) (buffer : Int) (qs : Nat → QueueV1) (rels ns ms : Nat → Nat) (i : Nat) (ch : Channel RxByteCtrl)
    (n count : Nat) (ch' : Channel RxByteCtrl) (q' : QueueV1) (pkts : List NdpPacket) : Prop where
  state : ∃ p' h' m', RxAt k p' h' buffer qs rels ns ms i ch' q' (n + pkts.length) m'
  later : Later ch ch'
  got : ∀ j pkt, pkts[j]? = some pkt →
    ∃ f, ch'.ctrl.frames[n + j]? = some f ∧ Delivered k buffer (bound ch'.ctrl.frames (n + j)) f pkt
  le : pkts.length ≤ count
  all : pkts.length < count → n + pkts.length = ch'.ctrl.frames.length

theorem RxGotten.nil (hA : RxAt k p h buffer qs rels ns ms i ch q n m) {count : Nat} (hall : 0 < count → n = ch.ctrl.frames.length) :
    RxGotten k buffer qs rels ns ms i ch n count ch q [] :=
  ⟨⟨p, h, m, hA⟩, .refl ch, fun _ _ h => absurd h (by simp), Nat.zero_le _, hall⟩

theorem RxGotten.cons {f : V1RxFrame} {pkt : NdpPacket} {count : Nat} {ch' : Channel RxByteCtrl} {q' : QueueV1}
    {pkts : List NdpPacket} (hf : ch.ctrl.frames[n]? = some f) (hd : Delivered k buffer (bound ch.ctrl.frames n) f pkt)
    (hg : RxGotten k buffer qs rels ns ms i ch (n + 1) count ch' q' pkts) :
    RxGotten k buffer qs rels ns ms i ch n (count + 1) ch' q' (pkt :: pkts) := by
  obtain ⟨hat, hlater, hpkts, hle, hall⟩ := hg
  obtain ⟨gs, hgs⟩ := hlater.grown
  have hn := (List.getElem?_eq_some_iff.1 hf).1
  have hlen : n + 1 + pkts.length = n + (pkt :: pkts).length := by
    rw [List.length_cons]
    omega
  rw [hlen] at hat hall
  refine ⟨hat, hlater, fun j pkt' hj => ?_, Nat.succ_le_succ hle, fun hlt => hall (Nat.lt_of_succ_lt_succ hlt)⟩
  cases j with
  | zero =>
    rw [List.getElem?_cons_zero, Option.some.injEq] at hj
    subst hj
    refine ⟨f, ?_, ?_⟩
    · rw [hgs, Nat.add_zero, List.getElem?_append_left hn]
      exact hf
    · rwa [hgs, Nat.add_zero, bound_append gs (Nat.le_of_lt hn)]
  | succ j =>
    rw [List.getElem?_cons_succ] at hj
    obtain ⟨f', hf', hd'⟩ := hpkts j pkt' hj
    rw [show n + 1 + j = n + (j + 1) by omega] at hf' hd'
    exact ⟨f', hf', hd'⟩

theorem RxGotten.after {ch₁ ch' : Channel RxByteCtrl} {count : Nat} {q' : QueueV1} {pkts : List NdpPacket} (hl : Later ch ch₁)
    (hg : RxGotten k buffer qs rels ns ms i ch₁ n count ch' q' pkts) :
    RxGotten k buffer qs rels ns ms i ch n count ch' q' pkts :=
  ⟨hg.state, hl.trans hg.later, hg.got, hg.le, hg.all⟩

theorem v1RxRounds_gotten {q₀ : QueueV1} (hq₀ : V1RxQueue k buffer q₀) (e : Nat → RxByteEnv) :
    ∀ (count r p h : Nat) (ch : Channel RxByteCtrl) (q : QueueV1) (n m : Nat), RxAt k p h buffer qs rels ns ms i ch q n m →
      ∃ ch' q' pkts, v1RxRounds rxByteOps q₀.read e i r count ch q = (ch', q', pkts, none) ∧
        RxGotten k buffer qs rels ns ms i ch n count ch' q' pkts := by
  intro count
  induction count with
  | zero =>
    intro r p h ch q n m hA
    exact ⟨ch, q, [], rfl, .nil hA fun h0 => absurd h0 (lt_irrefl 0)⟩
  | succ count ih =>
    intro r p h ch q n m hA
    -- the lock, if no bytes are left; after it the queue has been shown everything
    obtain ⟨p₁, h₁, ch₁, q₁, m₁, hlock, hA₁, hl, hm₁⟩ : ∃ p₁ h₁ ch₁ q₁ m₁,
        (if q.bytes = 0 then ncNdpV1RxLock rxByteOps (e r) i ch q else (ch, q, 0)) = (ch₁, q₁, 0) ∧
        RxAt k p₁ h₁ buffer qs rels ns ms i ch₁ q₁ n m₁ ∧ Later ch ch₁ ∧
        (q₁.bytes = 0 → m₁ = ch₁.ctrl.frames.length) := by
      split
      · obtain ⟨p', ch', q', hres, hA', hl⟩ := rxV1Lock_at hA (e r)
        exact ⟨p', _, ch', q', _, hres, hA', hl, fun _ => rfl⟩
      · rename_i hne
        exact ⟨p, h, ch, q, m, rfl, hA, .refl ch, fun h0 => absurd h0 hne⟩
    rw [v1RxRounds]
    simp only [hlock, ne_eq, not_true_eq_false, if_false]
    by_cases h0 : q₁.bytes = 0
    · rw [if_pos h0]
      refine ⟨ch₁, q₁, [], rfl, (RxGotten.nil hA₁ fun _ => ?_).after hl⟩
      have hS := hA₁.sub
      have hnm := hS.nm
      have hmono := bound_mono ch₁.ctrl.frames hnm
      have hb : bound ch₁.ctrl.frames m₁ - bound ch₁.ctrl.frames n = 0 := by
        rw [← hS.bytes, h0]
        rfl
      rw [(bound_eq_iff hS.mlen hnm).1 (by omega), hm₁ h0]
    · rw [if_neg h0]
      obtain ⟨f, pkt, size, hf, hpkt, hd, hA₂⟩ := hA₁.frame hq₀ h0
      obtain ⟨ch', q', pkts, hrun, hg⟩ := ih (r + 1) p₁ h₁ ch₁ (q₁.advance size) (n + 1) m₁ hA₂
      simp only [hpkt, hrun]
      exact ⟨ch', q', pkt :: pkts, rfl, (hg.cons hf hd).after hl⟩

end NdkSw.Ndp

/-
What the DMA controller reads from the ring of a protocol 1 TX channel. Any number of subscriptions get frames, copy their
packets into them and publish them, and the hardware reads what is published whenever it likes. The bytes it has read, those
that it still has to read and those that are handed out are, in this order, the frames of all successful gets.
-/
import NdkSw.Ndp.V1Format

namespace NdkSw.Ndp

open Ring

/-! ## The system -/

/-- A TX channel with the memory of its ring: what the hardware has read of it, and the packets of the successful gets with the
subscriptions that sent them. -/
structure TxV1Wire where
  tx : TxV1
  mem : Nat → U8
  wire : List U8
  sent : List (Nat × NdpPacket × V1Content)

/-- A call of one subscription, with the choices of the hardware; a send is a get and, if it succeeds, the copies into its frames. -/
inductive TxV1WireAct
  | start (i : Nat) (hw : Nat)
  | send (i : Nat) (hw : Nat → Nat) (packets : List NdpPacket) (contents : List V1Content)
  | put (i : Nat) (hw : Nat)
  | flush (i : Nat) (hw : Nat)

/-- What a sender has to see to: the contents have the lengths of their packets, and every packet fits a frame. -/
def TxV1WireAct.Fits : TxV1WireAct → Prop
  | .send _ _ packets contents => List.Forall₂ V1Content.Of packets contents ∧ ∀ x ∈ packets, v1PaddedSize x < 2 ^ 16
  | _ => True

namespace TxV1Wire

/-- A channel that is opened with a ring of `2 ^ k` bytes. -/
def opened (k : Nat) (mem : Nat → U8) (buffer : Nat → Int) : TxV1Wire := ⟨.opened k buffer, mem, [], []⟩

/-- The channel after a call that writes nothing; the hardware has read the bytes up to its new pointer. -/
def after (s : TxV1Wire) (tx : TxV1) : TxV1Wire :=
  { s with tx, wire := s.wire ++ (s.tx.ch.ctrl.between s.tx.ch.ctrl.hhp tx.ch.ctrl.hhp).map s.mem }

/-- A get of `i` with the copies, and what the get returns; a get that fails has written headers already. -/
def send (s : TxV1Wire) (i : Nat) (hw : Nat → Nat) (packets : List NdpPacket) (contents : List V1Content) : TxV1Wire × Nat :=
  if (s.tx.ch.sub i).status ≠ .running then (s, 0)
  else
    match ncNdpV1TxBurstGet hdrOps hw i s.tx.ch (s.tx.q i) packets with
    | (_, _, frames, ret) =>
      let s' := s.after (s.tx.step (.get i hw packets))
      if ret = 0 then ({ s' with mem := v1Written (s.tx.q i) s.mem frames [] }, 0)
      else
        ({ s' with
            mem := v1Written (s.tx.q i) s.mem frames contents
            sent := s.sent ++ (packets.zip contents).map (i, ·) }, ret)

def step (s : TxV1Wire) : TxV1WireAct → TxV1Wire
  | .start i hw => s.after (s.tx.step (.start i hw))
  | .send i hw packets contents => (s.send i hw packets contents).1
  | .put i hw => s.after (s.tx.step (.put i hw))
  | .flush i hw => s.after (s.tx.step (.flush i hw))

/-- The packets that were sent, as they lie one behind the other. -/
def laid (s : TxV1Wire) : Laid := s.sent.map (·.2)

/-- The places of what is handed out and not published; only the holder of the lock has any. -/
def heldPlaces (s : TxV1Wire) : List Nat :=
  match s.tx.ch.lockedSub with
  | some i => (s.tx.held i).flatten
  | none => []

end TxV1Wire

/-! ## Bytes that are frames -/

/-- The bytes are the frames of the packets, each padded to its size. -/
structure Spells (bs : List U8) (l : Laid) : Prop where
  length : bs.length = laidSize l
  reads : ReadsFrames (fun j => bs.getD j 0) 0 l

theorem laidSize_append (l m : Laid) : laidSize (l ++ m) = laidSize l + laidSize m := by
  rw [laidSize, List.map_append, List.sum_append]
  rfl

theorem FitsAll.append {l m : Laid} (hl : FitsAll l) (hm : FitsAll m) : FitsAll (l ++ m) := by
  intro xc hxc
  rcases List.mem_append.1 hxc with h | h
  · exact hl xc h
  · exact hm xc h

theorem Reads.congr {rd rd' : Nat → U8} {o n : Nat} {bs : List U8} (h : Reads rd o bs) (hn : bs.length ≤ n)
    (heq : ∀ j, j < n → rd' (o + j) = rd (o + j)) : Reads rd' o bs := by
  intro j b hb
  have hj := (List.getElem?_eq_some_iff.1 hb).1
  rw [heq j (by omega)]
  exact h j b hb

theorem ReadsFrames.congr {rd rd' : Nat → U8} : ∀ {l : Laid} {o o' : Nat}, FitsAll l → ReadsFrames rd o l →
    (∀ j, j < laidSize l → rd' (o' + j) = rd (o + j)) → ReadsFrames rd' o' l
  | [], _, _, _, _, _ => trivial
  | (x, c) :: l, o, o', hfit, ⟨hhdr, hheader, hdata, hrest⟩, heq => by
    obtain ⟨-, hc⟩ := hfit (x, c) List.mem_cons_self
    obtain ⟨h1, h2, h3⟩ := v1HeaderArea_bounds x
    have hhl : c.header.length = x.headerLength.toNat := hc.header
    have hdl : c.data.length = x.dataLength.toNat := hc.data
    have hb := length_hdr_bytes (v1TxHdr x)
    have hsum : laidSize ((x, c) :: l) = v1PaddedSize x + laidSize l := laidSize_cons (x, c) l
    rw [hsum] at heq
    have hat : ∀ (m : Nat) (bs : List U8), Reads rd (o + m) bs → m + bs.length ≤ v1PaddedSize x → Reads rd' (o' + m) bs := by
      intro m bs hbs hm j b hget
      have hj := (List.getElem?_eq_some_iff.1 hget).1
      rw [Nat.add_assoc, heq (m + j) (by omega), ← Nat.add_assoc]
      exact hbs j b hget
    refine ⟨?_, hat 4 _ hheader (by omega), hat _ _ hdata (by omega), ?_⟩
    · exact hat 0 _ hhdr (by omega)
    · refine ReadsFrames.congr (fun xc hxc => hfit xc (List.mem_cons_of_mem _ hxc)) hrest fun j hj => ?_
      rw [Nat.add_assoc, heq _ (by omega), Nat.add_assoc]

theorem readsFrames_append {rd : Nat → U8} : ∀ {l : Laid} {o : Nat} {m : Laid},
    ReadsFrames rd o l → ReadsFrames rd (o + laidSize l) m → ReadsFrames rd o (l ++ m)
  | [], _, _, _, hm => hm
  | (x, c) :: l, o, m, ⟨hhdr, hheader, hdata, hrest⟩, hm => by
    rw [laidSize_cons, ← Nat.add_assoc] at hm
    exact ⟨hhdr, hheader, hdata, readsFrames_append hrest hm⟩

theorem Spells.nil : Spells [] [] := ⟨rfl, trivial⟩

theorem Spells.append {bs bs' : List U8} {l m : Laid} {rd : Nat → U8} {o : Nat} (hl : FitsAll l) (hm : FitsAll m) (h : Spells bs l)
    (hlen : bs'.length = laidSize m) (hread : ReadsFrames rd o m) (heq : ∀ j b, bs'[j]? = some b → rd (o + j) = b) :
    Spells (bs ++ bs') (l ++ m) := by
  have hlast := h.length
  constructor
  case length => rw [List.length_append, laidSize_append, hlast, hlen]
  case reads =>
    refine readsFrames_append (ReadsFrames.congr hl h.reads fun j hj => ?_) (ReadsFrames.congr hm hread fun j hj => ?_)
    · rw [List.getD_eq_getElem?_getD, List.getElem?_append_left (by omega), List.getD_eq_getElem?_getD]
    · have hget : bs'[j]? = some bs'[j] := List.getElem?_eq_getElem (by omega)
      rw [Nat.zero_add, ← hlast, List.getD_eq_getElem?_getD, List.getElem?_append_right (Nat.le_add_right _ _), Nat.add_sub_cancel_left,
        hget, heq j _ hget]
      rfl

theorem Spells.received {bs : List U8} {l : Laid} (hl : FitsAll l) (h : Spells bs l) {C E : Type} (ops : ChannelOps C E)
    {rd : C → Int → U8} (e : Nat → E) (i : Nat) {ch : Channel C} {r : QueueV1}
    (hbs : ∀ (j : Nat) b, bs[j]? = some b → rd ch.ctrl (r.data + (j : Int)) = b) (hbytes : r.bytes.toNat = bs.length) :
    ∃ r' ys, ncNdpV1RxBurstGet ops rd e i ch r l.length = (ch, r', ys, none) ∧ List.Forall₂ (Received (rd ch.ctrl)) l ys := by
  have hlen := h.length
  have hread : ∀ j : Nat, j < laidSize l → rd ch.ctrl (r.data + (j : Int)) = bs.getD (0 + j) 0 := by
    intro j hj
    have hget : bs[j]? = some bs[j] := List.getElem?_eq_getElem (by omega)
    rw [hbs j _ hget, Nat.zero_add, List.getD_eq_getElem?_getD, hget]
    rfl
  obtain ⟨r', ys, hrun, hys, -⟩ := v1RxRounds_walk ops e i l 0 0 r hl h.reads hread (hbytes.trans hlen)
  exact ⟨r', ys, hrun, hys⟩

/-! ## The hardware goes on -/

variable {ch' : Channel HdrCtrl} {q' : QueueV1} {h' ret : Nat}

section Ahead

variable {k p h : Nat} {ch : Channel HdrCtrl} {i : Nat} {q : QueueV1} {held : List (List Nat)}

theorem ChanInv.unique (hI : ChanInv k p h ch) (hI' : ChanInv k p h' ch) : h = h' := by
  have hle := hI.le
  have hlap := hI.lap
  have hle' := hI'.le
  have hlap' := hI'.lap
  have hslot : slot k h = slot k h' := hI.hhp.symm.trans hI'.hhp
  exact slot_inj hslot (by omega) (by omega)

theorem v1Lock_ahead (hI : ChanInv k p h ch) (hq : V1Queue k p h ch i q held) (hr : (ch.sub i).status = .running) (e : Nat)
    (hI' : ChanInv k p h' (ncNdpV1TxLock hdrOps e i ch q).1) : h ≤ h' := by
  obtain ⟨h₁, -, hle, hs, -⟩ := txsync_synced (u := 0) hI e i { q.sync with swptr := (q.sync.hwptr - 1) &&& q.mask } rfl hI.lap
    (fun hl => by
      obtain ⟨len, u, hw⟩ := hq.locked hl
      rw [hw.hwptr]
      exact hI.swptr) fun _ => rfl
  have hch : (ncNdpV1TxLock hdrOps e i ch q).1 =
      (ndpChannelTxsync hdrOps e ch i { q.sync with swptr := (q.sync.hwptr - 1) &&& q.mask }).1 := by
    unfold ncNdpV1TxLock
    simp only [ndpSubscriptionSync_running hr, ne_eq, not_true_eq_false, if_false]
  rw [hch] at hI'
  rwa [hs.inv.unique hI'] at hle

theorem v1TxRounds_ahead (e : Nat → Nat) (packets : List NdpPacket) :
    ∀ (n h : Nat) (ch : Channel HdrCtrl) (q : QueueV1) (held : List (List Nat)), ChanInv k p h ch →
      V1Queue k p h ch i q held → (ch.sub i).status = .running →
      ∀ h', ChanInv k p h' (v1TxRounds hdrOps e i n packets ch q).1 → h ≤ h' := by
  induction packets with
  | nil => exact fun _ h _ _ _ hI _ _ h' hI' => (hI.unique hI').le
  | cons x packets ih =>
    intro n h ch q held hI hq hr h' hI'
    obtain ⟨h₁, hg₁, hle₁⟩ : ∃ h₁, V1Gotten k p h ch i q held h₁
        (if q.bytes < (v1PacketSize x).setWidth 64 then ncNdpV1TxLock hdrOps (e n) i ch q else (ch, q)).1
        (if q.bytes < (v1PacketSize x).setWidth 64 then ncNdpV1TxLock hdrOps (e n) i ch q else (ch, q)).2 [] ∧ h ≤ h₁ := by
      split
      · obtain ⟨h₁, hg₁⟩ := V1Gotten.lock hI hq hr (e n)
        exact ⟨h₁, hg₁, v1Lock_ahead hI hq hr (e n) hg₁.synced.inv⟩
      · exact ⟨h, .none hI hq, le_rfl⟩
    unfold v1TxRounds at hI'
    generalize (if q.bytes < (v1PacketSize x).setWidth 64 then ncNdpV1TxLock hdrOps (e n) i ch q else (ch, q)) = r at hg₁ hI'
    obtain ⟨ch₁, q₁⟩ := r
    have hI₁ := hg₁.synced.inv
    have hq₁ : V1Queue k p h₁ ch₁ i q₁ held := by simpa using hg₁.queue
    simp only at hg₁ hI'
    split at hI'
    · rwa [← hI₁.unique hI']
    · rename_i hav
      exact hle₁.trans (ih (n + 1) h₁ ch₁ (q₁.advance (v1PacketSize x)) _ hI₁ (hq₁.advance hI₁ hav).1
        ((hg₁.synced.status i).trans hr) h' hI')

theorem v1Flush_ahead (hI : ChanInv k p h ch) (hq : V1Queue k p h ch i q held) (hr : (ch.sub i).status = .running) (e : Nat) {u : Nat}
    (hrun : ncNdpV1TxBurstFlush hdrOps e i ch q = (ch', q')) (hf : V1Flushed k p h ch i q held ch' q' u h') :
    h ≤ h' ∧ ch'.lockedSub ≠ some i := by
  have hqm := hq.mask
  have hflat := hf.held
  have hlen : held.flatten.length = u := by rw [hflat, length_slots]
  unfold ncNdpV1TxBurstFlush ncNdpV1TxUnlock at hrun
  simp only [ndpSubscriptionSync_running hr, Prod.mk.injEq] at hrun
  obtain ⟨rfl, -⟩ := hrun
  obtain ⟨v, hv, hveq⟩ := hq.flatten hI
  have hvu : v = u := by rw [← hlen, hveq, length_slots]
  subst hvu
  obtain ⟨h₁, len, hle, hs, hwin, hlen⟩ := txsync_synced (n := 0) (u := v) hI e i
    { q.sync with hwptr := (q.sync.hwptr + q.swptr) &&& q.mask, swptr := (q.sync.hwptr + q.swptr) &&& q.mask } (by simp) hv
    (fun hl => by
      obtain ⟨len, u, hw⟩ := hq.locked hl
      have hused : u = v := by rw [← hlen, hw.held, length_slots]
      have h1 : At k q.sync.hwptr p := by rw [hw.hwptr]; exact at_of_mod hI.swptr
      have h2 : At k q.swptr v := by rw [← hused, ← hw.used]; exact at_toNat _
      exact (At.add hqm.le_width h1 h2).toNat_and hqm)
    fun hl => by rw [← hlen, (hq.free hl).2.2]; rfl
  rw [← hs.inv.unique hf.synced.inv]
  refine ⟨hle, fun hl => hwin.locked.1 hl ?_⟩
  rcases hlen with hlen | ⟨hlen, -⟩
  · simpa using hlen
  · exact hlen

end Ahead

/-! ## What a get writes -/

section Written

variable {k P u : Nat} {q : QueueV1} {packets : List NdpPacket} {frames : List V1Frame} {contents : List V1Content}

theorem v1TxRounds_prefix {C E : Type} (ops : ChannelOps C E) (e : Nat → E) (i : Nat) (packets : List NdpPacket) :
    ∀ (n : Nat) (ch : Channel C) (q : QueueV1),
      List.Forall₂ (fun x f => f = v1Frame f.addr x) (packets.take (v1TxRounds ops e i n packets ch q).2.2.1.length)
        (v1TxRounds ops e i n packets ch q).2.2.1 := by
  induction packets with
  | nil => exact fun _ _ _ => .nil
  | cons x packets ih =>
    intro n ch q
    unfold v1TxRounds
    generalize (if q.bytes < (v1PacketSize x).setWidth 64 then ncNdpV1TxLock ops (e n) i ch q else (ch, q)) = r
    obtain ⟨ch₁, q₁⟩ := r
    simp only
    split
    · exact .nil
    · exact .cons rfl (ih (n + 1) ch₁ (q₁.advance (v1PacketSize x)))

theorem v1Get_frames {C E : Type} (ops : ChannelOps C E) (e : Nat → E) (i : Nat) {ch ch' : Channel C}
    (hg : ncNdpV1TxBurstGet ops e i ch q packets = (ch', q', frames, ret)) :
    List.Forall₂ (fun x f => f = v1Frame f.addr x) (packets.take frames.length) frames ∧ (ret = 0 ∨ ret = packets.length) := by
  have hpre := v1TxRounds_prefix ops e i packets 0 ch q
  obtain ⟨-, hall, -⟩ := v1TxRounds_frames ops (i := i) e packets 0 ch q
  unfold ncNdpV1TxBurstGet at hg
  rcases hrounds : v1TxRounds ops e i 0 packets ch q with ⟨ch₁, q₁, written, ok⟩
  rw [hrounds] at hg hpre hall
  cases ok with
  | true =>
    simp only [Prod.mk.injEq] at hg
    obtain ⟨-, -, rfl, rfl⟩ := hg
    exact ⟨hpre, .inr (hall rfl).length_eq.symm⟩
  | false =>
    simp only [Prod.mk.injEq] at hg
    obtain ⟨-, -, rfl, rfl⟩ := hg
    exact ⟨hpre, .inl rfl⟩

theorem length_framePlaces (q : QueueV1) (frames : List V1Frame) :
    ((frames.map fun f => q.places f.addr f.size.toNat).flatten).length = v1Reserved frames := by
  rw [List.length_flatten, List.map_map]
  congr 1
  refine List.map_congr_left fun f _ => ?_
  simp [QueueV1.places]

theorem v1Written_window (hsize : q.size.toNat = 2 ^ k) (hframes : List.Forall₂ (fun x f => f = v1Frame f.addr x) packets frames)
    (hcontents : List.Forall₂ V1Content.Of packets contents) (hfit : ∀ x ∈ packets, v1PaddedSize x < 2 ^ 16)
    (hplaced : Placed k (q.buffer + (P : Int)) u frames) (mem : Nat → U8) :
    v1Written q mem frames contents =
        writeAll (2 ^ k) P mem (hdrWrites u (packets.zip contents) ++ bodyWrites u (packets.zip contents)) ∧
      v1Written q mem frames [] = writeAll (2 ^ k) P mem (hdrWrites u (packets.zip contents)) := by
  obtain ⟨hw1, hw2⟩ := v1Writes_eq (q := q) hframes hcontents hfit hplaced
  unfold v1Written v1Writes
  rw [List.zip_nil_right, List.flatMap_nil, List.append_nil, hw1, hw2, ← List.map_append, hsize]
  exact ⟨writeAll_shift .., writeAll_shift ..⟩

theorem exists_contents (packets : List NdpPacket) : ∃ contents, List.Forall₂ V1Content.Of packets contents := by
  induction packets with
  | nil => exact ⟨[], .nil⟩
  | cons x packets ih =>
    obtain ⟨contents, hcontents⟩ := ih
    exact ⟨⟨List.replicate x.headerLength.toNat 0, List.replicate x.dataLength.toNat 0⟩ :: contents,
      .cons ⟨List.length_replicate, List.length_replicate⟩ hcontents⟩

theorem v1Written_outside (hsize : q.size.toNat = 2 ^ k) (hframes : List.Forall₂ (fun x f => f = v1Frame f.addr x) packets frames)
    (hcontents : contents = [] ∨ List.Forall₂ V1Content.Of packets contents) (hfit : ∀ x ∈ packets, v1PaddedSize x < 2 ^ 16)
    (hplaced : Placed k (q.buffer + (P : Int)) u frames) (mem : Nat → U8) (hroom : u + v1Reserved frames ≤ 2 ^ k) {o : Nat}
    (ho : o < 2 ^ k) (hout : o < u ∨ u + v1Reserved frames ≤ o) :
    v1Written q mem frames contents ((P + o) % 2 ^ k) = mem ((P + o) % 2 ^ k) := by
  have hbounds {contents : List V1Content} (hc : List.Forall₂ V1Content.Of packets contents) :
      ∀ w ∈ hdrWrites u (packets.zip contents) ++ bodyWrites u (packets.zip contents), u ≤ w.1 ∧ w.1 + w.2.length ≤ u + v1Reserved frames := by
    intro w hw
    rw [v1Reserved_eq hframes hc hfit]
    exact ⟨writes_ge hw, writes_le (fitsAll_zip hc hfit) hw⟩
  rcases hcontents with rfl | hc
  · obtain ⟨contents, hc⟩ := exists_contents packets
    rw [(v1Written_window hsize hframes hc hfit hplaced mem).2]
    exact writeAll_outside (fun w hw => hbounds hc w (List.mem_append_left _ hw)) hroom ho hout mem
  · rw [(v1Written_window hsize hframes hc hfit hplaced mem).1]
    exact writeAll_outside (hbounds hc) hroom ho hout mem

theorem v1Written_reads (hsize : q.size.toNat = 2 ^ k) (hframes : List.Forall₂ (fun x f => f = v1Frame f.addr x) packets frames)
    (hcontents : List.Forall₂ V1Content.Of packets contents) (hfit : ∀ x ∈ packets, v1PaddedSize x < 2 ^ 16)
    (hplaced : Placed k (q.buffer + (P : Int)) u frames) (mem : Nat → U8) (hroom : u + v1Reserved frames ≤ 2 ^ k) :
    ReadsFrames (fun o => v1Written q mem frames contents ((P + o) % 2 ^ k)) u (packets.zip contents) := by
  have hlaid := fitsAll_zip hcontents hfit
  rw [(v1Written_window hsize hframes hcontents hfit hplaced mem).1]
  refine readsFrames_writeAll (fun w hw => ?_) _ u hlaid (fun w hw => hw) fun w hw _ _ _ _ => hw
  have hle := writes_le hlaid hw
  rw [← v1Reserved_eq hframes hcontents hfit] at hle
  omega

end Written

/-! ## Runs -/

namespace TxV1Wire

/-- The invariant of the system: `bs` are the frames sent so far, which reach to the end of what is handed out. -/
structure InvAt (k p h : Nat) (buffer : Nat → Int) (s : TxV1Wire) (bs : List U8) : Prop where
  tx : TxV1.InvAt k p h buffer s.tx
  front : ∀ i, (∀ j, j ≠ i → s.tx.ch.lockedSub ≠ some j) → bs.length = p + (s.tx.held i).flatten.length
  fits : FitsAll s.laid
  spells : Spells bs s.laid
  wire : s.wire = bs.take h
  mem : ∀ j b, h ≤ j → bs[j]? = some b → s.mem (slot k j) = b

def Inv (k : Nat) (buffer : Nat → Int) (s : TxV1Wire) : Prop := ∃ p h bs, InvAt k p h buffer s bs

variable {k p h i : Nat} {buffer : Nat → Int} {s : TxV1Wire} {bs : List U8} {packets : List NdpPacket} {frames : List V1Frame} {tx : TxV1}
  {contents : List V1Content} {held : List (List Nat)}

theorem opened_inv (hk : k ≤ 63) (mem : Nat → U8) (buffer : Nat → Int) : Inv k buffer (opened k mem buffer) := by
  obtain ⟨p, h, hI⟩ := TxV1.opened_inv hk buffer
  obtain ⟨rfl, rfl, -⟩ := hI.fresh rfl
  exact ⟨0, 0, [], hI, fun _ _ => rfl, fun _ hxc => absurd hxc List.not_mem_nil, .nil, rfl, fun _ _ _ hb => absurd hb (by simp)⟩

/-- If nobody but `i` has the lock, what `i` holds decides where the frames end. -/
theorem front_of {n : Nat} (hI : TxV1.InvAt k p h buffer tx) (hn : ∀ j, j ≠ i → tx.ch.lockedSub ≠ some j)
    (hlen : n = p + (tx.held i).flatten.length) : ∀ m, (∀ j, j ≠ m → tx.ch.lockedSub ≠ some j) → n = p + (tx.held m).flatten.length := by
  intro m hm
  by_cases hmi : m = i
  · rw [hmi]
    exact hlen
  · rw [((hI.queue m).free (hn m hmi)).2.2]
    rwa [((hI.queue i).free (hm i (Ne.symm hmi))).2.2] at hlen

theorem InvAt.bounds (hI : InvAt k p h buffer s bs) : p ≤ bs.length ∧ bs.length < h + 2 ^ k := by
  obtain ⟨i, hi⟩ : ∃ i, ∀ j, j ≠ i → s.tx.ch.lockedSub ≠ some j := by
    cases hl : s.tx.ch.lockedSub with
    | none => exact ⟨0, fun _ _ => by simp⟩
    | some i => exact ⟨i, fun j hj => by simpa using Ne.symm hj⟩
  have hfront := hI.front i hi
  obtain ⟨u, hu, hheld⟩ := (hI.tx.queue i).flatten hI.tx.chan
  rw [hheld, length_slots] at hfront
  omega

theorem InvAt.read (hI : InvAt k p h buffer s bs) {a n : Nat} (ha : h ≤ a) (hn : a + n ≤ bs.length) :
    (slots k a n).map s.mem = (bs.drop a).take n := by
  refine List.ext_getElem (by simp; omega) fun j h1 h2 => ?_
  have hj : j < n := by simpa using h1
  have hget : bs[a + j]? = some bs[a + j] := List.getElem?_eq_getElem (by omega)
  simp only [slots, List.getElem_map, List.getElem_range, List.getElem_take, List.getElem_drop]
  exact hI.mem (a + j) _ (by omega) hget

theorem InvAt.drained (hI : InvAt k p h buffer s bs) (hhp : tx.ch.ctrl.hhp.toNat = h' % 2 ^ k) (hle : h ≤ h') (hlen : h' ≤ bs.length) :
    (s.after tx).wire = bs.take h' := by
  have hbounds := hI.bounds
  show s.wire ++ (s.tx.ch.ctrl.between s.tx.ch.ctrl.hhp tx.ch.ctrl.hhp).map s.mem = bs.take h'
  have hm : IsMask s.tx.ch.ctrl.mhp k := by rw [hI.tx.chan.mhp]; exact hI.tx.chan.mask
  have hhp' : At k tx.ch.ctrl.hhp (h + (h' - h)) := by
    rw [Nat.add_sub_cancel' hle]
    exact at_of_mod hhp
  rw [between_slots hm (at_of_mod hI.tx.chan.hhp) hhp' (by omega), hI.read le_rfl (by omega), hI.wire, ← List.take_add,
    Nat.add_sub_cancel' hle]

theorem InvAt.after {p' : Nat} (hI : InvAt k p h buffer s bs) (htx : TxV1.InvAt k p' h' buffer tx)
    (hfront : ∀ i, (∀ j, j ≠ i → tx.ch.lockedSub ≠ some j) → bs.length = p' + (tx.held i).flatten.length) (hle : h ≤ h')
    (hp : p' ≤ bs.length) : InvAt k p' h' buffer (s.after tx) bs :=
  ⟨htx, hfront, hI.fits, hI.spells, hI.drained htx.chan.hhp hle (htx.chan.le.trans hp), fun j b hj hb => hI.mem j b (hle.trans hj) hb⟩

theorem start_frame (tx : TxV1) (i hw : Nat) :
    (tx.step (.start i hw)).held = tx.held ∧ (tx.step (.start i hw)).ch.lockedSub = tx.ch.lockedSub := by
  unfold TxV1.step ndpSubscriptionStart ndpChannelStart
  by_cases hst : (tx.ch.sub i).status ≠ .subscribed
  · simp only [if_pos hst, and_self]
  · simp only [if_neg hst]
    by_cases hc : tx.ch.startCount = 0
    · simp only [if_pos hc, hdrOps, ne_eq, not_true_eq_false, if_false, and_self]
    · simp only [if_neg hc, ne_eq, not_true_eq_false, if_false, and_self]

theorem InvAt.start (hI : InvAt k p h buffer s bs) (i hw : Nat) : InvAt k p h buffer (s.after (s.tx.step (.start i hw))) bs := by
  obtain ⟨hheld, hlocked⟩ := start_frame s.tx i hw
  refine hI.after (TxV1.start_inv hI.tx i hw) (fun j hj => ?_) le_rfl hI.bounds.1
  rw [hheld]
  rw [hlocked] at hj
  exact hI.front j hj

theorem InvAt.after_self (hI : InvAt k p h buffer s bs) : InvAt k p h buffer (s.after s.tx) bs :=
  hI.after hI.tx hI.front le_rfl hI.bounds.1

theorem InvAt.flushed (hI : InvAt k p h buffer s bs) (hr : (s.tx.ch.sub i).status = .running) (hw : Nat)
    (hrun : ncNdpV1TxBurstFlush hdrOps hw i s.tx.ch (s.tx.q i) = (ch', q')) :
    ∃ p' h', InvAt k p' h' buffer (s.after (s.tx.after i ch' q')) bs := by
  obtain ⟨u, h', hf⟩ := v1Flush_flushed hI.tx.chan (hI.tx.queue i) hr hw
  rw [hrun] at hf
  obtain ⟨hle, hunlocked⟩ := v1Flush_ahead hI.tx.chan (hI.tx.queue i) hr hw hrun hf
  have htx := TxV1.flushed_inv hI.tx hr hf
  have hch : (s.tx.after i ch' q').ch = ch' := by
    unfold TxV1.after
    split <;> rfl
  have hfront : ∀ j, (∀ m, m ≠ j → ch'.lockedSub ≠ some m) → bs.length = p + u + ((s.tx.after i ch' q').held j).flatten.length := by
    rcases hf.synced.other with ho | ⟨hpu, -, hsw, hl, -⟩
    · -- nobody has the lock now
      have hlen := hI.front i fun j hj => (ho j hj).1
      rw [hf.held, length_slots] at hlen
      have hnil : ((s.tx.after i ch' q').held i).flatten = [] := ((htx.queue i).free (by rw [hch]; exact hunlocked)).2.2
      have hall := front_of (n := bs.length) htx (fun j hj => by rw [hch]; exact (ho j hj).2) (by rw [hnil]; exact hlen)
      rwa [hch] at hall
    · -- another subscription has it
      intro j hj
      rw [hl] at hj
      have hheld : (s.tx.after i ch' q').held = s.tx.held := by
        unfold TxV1.after
        rw [if_neg (not_not.2 hsw)]
      rw [hpu, hheld]
      exact hI.front j hj
  refine ⟨p + u, h', hI.after htx (by rwa [hch]) hle ?_⟩
  cases hl : ch'.lockedSub with
  | none =>
    have := hfront 0 fun _ _ => by simp [hl]
    omega
  | some m =>
    have := hfront m fun j hj => by simpa [hl] using Ne.symm hj
    omega

theorem InvAt.flush (hI : InvAt k p h buffer s bs) (i hw : Nat) : Inv k buffer (s.after (s.tx.step (.flush i hw))) := by
  unfold TxV1.step
  by_cases hr : (s.tx.ch.sub i).status = .running
  · simp only [hr, ne_eq, not_true_eq_false, if_false]
    rcases hrun : ncNdpV1TxBurstFlush hdrOps hw i s.tx.ch (s.tx.q i) with ⟨ch', q'⟩
    obtain ⟨p', h', hflushed⟩ := hI.flushed hr hw hrun
    exact ⟨p', h', bs, hflushed⟩
  · simp only [ne_eq, hr, not_false_eq_true, if_true]
    exact ⟨p, h, bs, hI.after_self⟩

theorem InvAt.put (hI : InvAt k p h buffer s bs) (i hw : Nat) : Inv k buffer (s.after (s.tx.step (.put i hw))) := by
  unfold TxV1.step
  by_cases hr : (s.tx.ch.sub i).status = .running
  · simp only [hr, ne_eq, not_true_eq_false, if_false]
    unfold ncNdpV1TxBurstPut
    split
    · rcases hrun : ncNdpV1TxBurstFlush hdrOps hw i s.tx.ch (s.tx.q i) with ⟨ch', q'⟩
      obtain ⟨p', h', hflushed⟩ := hI.flushed hr hw hrun
      exact ⟨p', h', bs, hflushed⟩
    · refine ⟨p, h, bs, hI.after (hI.tx.after_self i) ?_ le_rfl hI.bounds.1⟩
      unfold TxV1.after
      rw [if_neg (not_not.2 rfl)]
      exact hI.front
  · simp only [ne_eq, hr, not_false_eq_true, if_true]
    exact ⟨p, h, bs, hI.after_self⟩

theorem step_get (hI : TxV1.InvAt k p h buffer tx) (hr : (tx.ch.sub i).status = .running) {hw : Nat → Nat}
    (hg : ncNdpV1TxBurstGet hdrOps hw i tx.ch (tx.q i) packets = (ch', q', frames, ret))
    (hd : V1GetDone k p h tx.ch i (tx.q i) (tx.held i) packets h' ch' q' frames ret) :
    (tx.step (.get i hw packets)).ch = ch' ∧
      (tx.step (.get i hw packets)).held = if ret = 0 then tx.held
        else Function.update tx.held i (tx.held i ++ frames.map fun f => (tx.q i).places f.addr f.size.toNat) := by
  have hsw : ch'.swptr = tx.ch.swptr := BitVec.eq_of_toNat_eq (by rw [hd.synced.inv.swptr, hI.chan.swptr])
  simp only [TxV1.step, hr, ne_eq, not_true_eq_false, if_false, hg, TxV1.after, hsw]
  split
  · exact ⟨rfl, rfl⟩
  · unfold TxV1.hand
    simp only [Function.update_self, places_congr hd.buffer hd.size, and_self]

/-! ## Send -/

/-- What `i` holds is what it has moved its pointer behind. -/
theorem swptr_held {ch : Channel HdrCtrl} {q : QueueV1} (hq : V1Queue k p h ch i q held) : q.swptr.toNat = held.flatten.length := by
  by_cases hl : ch.lockedSub = some i
  · obtain ⟨len, u, hw⟩ := hq.locked hl
    rw [hw.used, hw.held, length_slots]
  · obtain ⟨hsw, -, hnil⟩ := hq.free hl
    rw [hsw, hnil]
    rfl

theorem get_ahead {ch : Channel HdrCtrl} {q : QueueV1} (hI : ChanInv k p h ch) (hq : V1Queue k p h ch i q held)
    (hr : (ch.sub i).status = .running) {e : Nat → Nat} (hg : ncNdpV1TxBurstGet hdrOps e i ch q packets = (ch', q', frames, ret))
    (hI' : ChanInv k p h' ch') : h ≤ h' := by
  have hahead := v1TxRounds_ahead e packets 0 h ch q held hI hq hr h'
  unfold ncNdpV1TxBurstGet at hg
  rcases hrounds : v1TxRounds hdrOps e i 0 packets ch q with ⟨ch₁, q₁, written, ok⟩
  rw [hrounds] at hg hahead
  cases ok with
  | true =>
    simp only [Prod.mk.injEq] at hg
    obtain ⟨rfl, -⟩ := hg
    exact hahead hI'
  | false =>
    simp only [Prod.mk.injEq] at hg
    obtain ⟨rfl, -⟩ := hg
    exact hahead hI'

theorem InvAt.kept {u : Nat} (hI : InvAt k p h buffer s bs) (hframes : List.Forall₂ (fun x f => f = v1Frame f.addr x) packets frames)
    (hcontents : contents = [] ∨ List.Forall₂ V1Content.Of packets contents) (hfit : ∀ x ∈ packets, v1PaddedSize x < 2 ^ 16)
    (hplaced : Placed k ((s.tx.q i).buffer + ((p % 2 ^ k : Nat) : Int)) u frames) (hlen : bs.length = p + u)
    (hroom : p + u + v1Reserved frames < h' + 2 ^ k) (hle : h ≤ h') (hp : h' ≤ p) :
    ∀ j b, h' ≤ j → bs[j]? = some b → v1Written (s.tx.q i) s.mem frames contents (slot k j) = b := by
  intro j b hj hb
  have hjlt := (List.getElem?_eq_some_iff.1 hb).1
  rw [← hI.mem j b (hle.trans hj) hb]
  -- the place of the position in the lap that begins at `p`
  obtain ⟨o, ho, hout, hslot⟩ : ∃ o, o < 2 ^ k ∧ (o < u ∨ u + v1Reserved frames ≤ o) ∧ slot k j = (p % 2 ^ k + o) % 2 ^ k := by
    rcases Nat.lt_or_ge j p with hjp | hjp
    · refine ⟨j + 2 ^ k - p, by omega, by omega, ?_⟩
      rw [Nat.mod_add_mod, show p + (j + 2 ^ k - p) = j + 2 ^ k by omega, Nat.add_mod_right]
      rfl
    · refine ⟨j - p, by omega, by omega, ?_⟩
      rw [Nat.mod_add_mod, Nat.add_sub_cancel' hjp]
      rfl
  rw [hslot]
  exact v1Written_outside (hI.tx.queue i).size hframes hcontents hfit hplaced s.mem (by omega) ho hout

theorem InvAt.send (hI : InvAt k p h buffer s bs) (i : Nat) (hw : Nat → Nat) (hcontents : List.Forall₂ V1Content.Of packets contents)
    (hfit : ∀ x ∈ packets, v1PaddedSize x < 2 ^ 16) : Inv k buffer (s.send i hw packets contents).1 := by
  unfold TxV1Wire.send
  by_cases hr : (s.tx.ch.sub i).status = .running
  case neg =>
    rw [if_pos hr]
    exact ⟨p, h, bs, hI⟩
  rw [if_neg (not_not.2 hr)]
  rcases hg : ncNdpV1TxBurstGet hdrOps hw i s.tx.ch (s.tx.q i) packets with ⟨ch', q', frames, ret⟩
  obtain ⟨h', hd⟩ := v1Get_done hI.tx.chan (hI.tx.queue i) hr hw hg
  obtain ⟨hpre, hret⟩ := v1Get_frames hdrOps hw i hg
  obtain ⟨hch, hheld⟩ := step_get hI.tx hr hg hd
  have hle : h ≤ h' := get_ahead hI.tx.chan (hI.tx.queue i) hr hg hd.synced.inv
  have hp := hd.synced.inv.le
  have htx : TxV1.InvAt k p h' buffer (s.tx.step (.get i hw packets)) := by
    obtain ⟨h₁, hI₁⟩ := TxV1.get_inv hI.tx i hw packets
    have hchan := hI₁.chan
    rw [hch] at hchan
    rwa [← hchan.unique hd.synced.inv]
  generalize s.tx.step (.get i hw packets) = tx at hch hheld htx
  have hplaced := hd.placed
  rw [swptr_held (hI.tx.queue i)] at hplaced
  simp only
  rcases hd.synced.other with ho | ⟨-, -, -, hl, hne⟩
  case inr =>
    -- another subscription has the lock, so there are no frames
    have hnone : frames = [] := by
      have hreserved := length_framePlaces (s.tx.q i) frames
      rw [hd.locked (by rw [hl]; exact hne)] at hreserved
      cases hframes : frames with
      | nil => rfl
      | cons f rest =>
        obtain ⟨x, hx, hf⟩ := hd.mem f (by rw [hframes]; exact List.mem_cons_self)
        have hsize : f.size.toNat = v1PaddedSize x := by
          rw [hf]
          exact v1PacketSize_fits (hfit x hx)
        have hpos := v1PaddedSize_pos x
        rw [hframes, v1Reserved, List.map_cons, List.sum_cons, List.length_nil] at hreserved
        omega
    subst hnone
    have hzero : ret = 0 := by
      rcases hret with hret | hret
      · exact hret
      · have hlen := (hd.all hret).length_eq
        rw [List.length_nil] at hlen
        omega
    subst hzero
    rw [if_pos rfl] at hheld ⊢
    refine ⟨p, h', bs, hI.after htx (fun j hj => ?_) hle hI.bounds.1⟩
    have hlocked : tx.ch.lockedSub = s.tx.ch.lockedSub := by rw [hch, hl]
    show bs.length = p + (tx.held j).flatten.length
    rw [hheld]
    exact hI.front j fun m hm => hlocked ▸ hj m hm
  have hfront := hI.front i fun j hj => (ho j hj).1
  -- the frames are within a lap of the hardware
  have hroom : p + (s.tx.held i).flatten.length + v1Reserved frames < h' + 2 ^ k := by
    obtain ⟨u, hu, hflat⟩ := hd.written
    have hlen := congrArg List.length hflat
    rw [List.flatten_append, List.length_append, length_framePlaces, length_slots] at hlen
    omega
  have hfree : ∀ j, j ≠ i → tx.ch.lockedSub ≠ some j := fun j hj => by
    rw [hch]
    exact (ho j hj).2
  by_cases hzero : ret = 0
  · rw [if_pos hzero] at hheld ⊢
    have hkept := hI.kept hpre (.inl rfl) (fun x hx => hfit x (List.mem_of_mem_take hx)) hplaced hfront hroom hle hp
    have hend : bs.length = p + (tx.held i).flatten.length := by rw [hheld, hfront]
    refine ⟨p, h', bs, htx, front_of htx hfree hend, hI.fits, hI.spells, ?_, hkept⟩
    exact hI.drained htx.chan.hhp hle (hp.trans hI.bounds.1)
  · rw [if_neg hzero] at hheld ⊢
    have hframes := hd.all (hret.resolve_left hzero)
    have hkept := hI.kept hframes (.inr hcontents) hfit hplaced hfront hroom hle hp
    have hsize := v1Reserved_eq hframes hcontents hfit
    have hlaid := fitsAll_zip hcontents hfit
    have hreads := v1Written_reads (hI.tx.queue i).size hframes hcontents hfit hplaced s.mem (by omega)
    generalize v1Written (s.tx.q i) s.mem frames contents = mem' at hkept hreads ⊢
    have hnew : ((slots k (p + (s.tx.held i).flatten.length) (v1Reserved frames)).map mem').length = v1Reserved frames := by simp
    have hcell : ∀ j b, ((slots k (p + (s.tx.held i).flatten.length) (v1Reserved frames)).map mem')[j]? = some b →
        mem' (slot k (p + (s.tx.held i).flatten.length + j)) = b := by
      intro j b hb
      obtain ⟨hj, rfl⟩ := List.getElem?_eq_some_iff.1 hb
      simp [slots]
    generalize (slots k (p + (s.tx.held i).flatten.length) (v1Reserved frames)).map mem' = new at hnew hcell
    have hend : (bs ++ new).length = p + (tx.held i).flatten.length := by
      rw [hheld, Function.update_self, List.flatten_append, List.length_append, List.length_append, length_framePlaces, hfront, hnew,
        Nat.add_assoc]
    refine ⟨p, h', bs ++ new, htx, front_of htx hfree hend, ?_, ?_, ?_, ?_⟩
    · rw [laid, List.map_append, List.map_map]
      exact hI.fits.append (by simpa using hlaid)
    · rw [laid, List.map_append, List.map_map]
      refine Spells.append (o := (s.tx.held i).flatten.length) hI.fits (by simpa using hlaid) hI.spells ?_ (by simpa using hreads) ?_
      · simpa using hnew.trans hsize
      · intro j b hb
        rw [← hcell j b hb, slot, Nat.add_assoc]
    · rw [List.take_append_of_le_length (hp.trans hI.bounds.1)]
      exact hI.drained htx.chan.hhp hle (hp.trans hI.bounds.1)
    · intro j b hj hb
      rcases Nat.lt_or_ge j bs.length with hlt | hge
      · rw [List.getElem?_append_left hlt] at hb
        exact hkept j b hj hb
      · rw [List.getElem?_append_right hge] at hb
        rw [← hcell _ b hb, ← hfront, Nat.add_sub_cancel' hge]

theorem Inv.step (s : TxV1Wire) (a : TxV1WireAct) (hfits : a.Fits) (hI : Inv k buffer s) : Inv k buffer (s.step a) := by
  obtain ⟨p, h, bs, hI⟩ := hI
  cases a with
  | start i hw => exact ⟨p, h, bs, hI.start i hw⟩
  | send i hw packets contents => exact hI.send i hw hfits.1 hfits.2
  | put i hw => exact hI.put i hw
  | flush i hw => exact hI.flush i hw

/-! ## The theorem -/

/-- The bytes are the frames of the packets that were sent: the hardware has read the first of them, those that are published
come next in the ring, and those that are held are the last. A receiver with the bytes in front of it gets the packets. -/
structure OnTheWire (s : TxV1Wire) (bs : List U8) : Prop where
  spells : Spells bs s.laid
  bytes : s.wire ++ (s.tx.ch.ctrl.inFlight ++ s.heldPlaces).map s.mem = bs
  received : ∀ (C E : Type) (ops : ChannelOps C E) (rd : C → Int → U8) (e : Nat → E) (i : Nat) (ch : Channel C) (r : QueueV1),
    (∀ (j : Nat) b, bs[j]? = some b → rd ch.ctrl (r.data + (j : Int)) = b) → r.bytes.toNat = bs.length →
      ∃ r' ys, ncNdpV1RxBurstGet ops rd e i ch r s.sent.length = (ch, r', ys, none) ∧ List.Forall₂ (Received (rd ch.ctrl)) s.laid ys

theorem InvAt.heldPlaces (hI : InvAt k p h buffer s bs) : s.heldPlaces = slots k p (bs.length - p) := by
  unfold TxV1Wire.heldPlaces
  cases hl : s.tx.ch.lockedSub with
  | none =>
    have hlen := hI.front 0 fun _ _ => by simp [hl]
    rw [((hI.tx.queue 0).free (by simp [hl])).2.2] at hlen
    rw [hlen, List.length_nil, Nat.add_zero, Nat.sub_self]
    rfl
  | some i =>
    have hlen := hI.front i fun j hj => by simpa [hl] using Ne.symm hj
    obtain ⟨u, -, hheld⟩ := (hI.tx.queue i).flatten hI.tx.chan
    rw [hheld, length_slots] at hlen
    rw [hlen, Nat.add_sub_cancel_left]
    exact hheld

theorem InvAt.onTheWire (hI : InvAt k p h buffer s bs) : OnTheWire s bs := by
  have hle := hI.tx.chan.le
  have hbounds := hI.bounds
  constructor
  case spells => exact hI.spells
  case bytes =>
    have happ := slots_append k h (p - h) (bs.length - p)
    rw [Nat.add_sub_cancel' hle] at happ
    have hrest : (bs.drop h).take (p - h + (bs.length - p)) = bs.drop h := by
      rw [List.take_of_length_le]
      rw [List.length_drop]
      omega
    rw [hI.tx.chan.inFlight, hI.heldPlaces, happ, hI.read le_rfl (by omega), hI.wire, hrest]
    exact List.take_append_drop h bs
  case received =>
    intro C E ops rd e i ch r hbs hbytes
    have hrec := hI.spells.received hI.fits ops e i hbs hbytes
    rwa [laid, List.length_map] at hrec

/-- In every run of a channel with a ring of `2 ^ k` bytes whose senders see to what they have to, the frames of all successful
gets are on the wire. -/
theorem frames_on_the_wire (hk : k ≤ 63) (mem : Nat → U8) (buffer : Nat → Int) (acts : List TxV1WireAct) (hfits : ∀ a ∈ acts, a.Fits) :
    ∃ bs, OnTheWire (run TxV1Wire.step (opened k mem buffer) acts) bs := by
  obtain ⟨p, h, bs, hI⟩ := run_inv_of Inv.step acts _ (meets_of_forall hfits _) (opened_inv hk mem buffer)
  exact ⟨bs, hI.onTheWire⟩

/-- A packet of `n` bytes without header. -/
def plainPacket (n : Nat) : NdpPacket := ⟨0, 0, BitVec.ofNat 32 n, 0, 0⟩

def plainContent (n : Nat) (b : U8) : V1Content := ⟨[], List.replicate n b⟩

/-- Two senders on a ring of 256 bytes. The first has a get taken back that has written the headers of two frames, and publishes; the
hardware reads its frame while the second, whose frame goes around the end of the ring, publishes. -/
def twoSenders : List TxV1WireAct :=
  [.start 0 0, .start 1 0, .send 0 (fun _ => 0) [plainPacket 64] [plainContent 64 1],
    .send 0 (fun _ => 0) [plainPacket 80, plainPacket 80, plainPacket 80] [plainContent 80 2, plainContent 80 2, plainContent 80 2],
    .flush 0 100, .send 1 (fun _ => 72) [plainPacket 200] [plainContent 200 3], .flush 1 100]

theorem twoSenders_fit : ∀ a ∈ twoSenders, a.Fits := by
  simp only [twoSenders, List.forall_mem_cons]
  refine ⟨trivial, trivial, ⟨.cons ⟨rfl, rfl⟩ .nil, by decide⟩, ⟨.cons ⟨rfl, rfl⟩ (.cons ⟨rfl, rfl⟩ (.cons ⟨rfl, rfl⟩ .nil)), by decide⟩,
    trivial, ⟨.cons ⟨rfl, rfl⟩ .nil, by decide⟩, trivial, fun _ h => absurd h List.not_mem_nil⟩

theorem frames_on_the_wire_two_senders :
    (run TxV1Wire.step (opened 8 (fun _ => 0) fun _ => 4096) twoSenders).wire.length = 172 ∧
      (run TxV1Wire.step (opened 8 (fun _ => 0) fun _ => 4096) twoSenders).sent.map (·.1) = [0, 1] ∧
      ∃ bs, OnTheWire (run TxV1Wire.step (opened 8 (fun _ => 0) fun _ => 4096) twoSenders) bs :=
  ⟨by decide +kernel, by decide +kernel, frames_on_the_wire (by decide) (fun _ => 0) (fun _ => 4096) twoSenders twoSenders_fit⟩

end TxV1Wire

end NdkSw.Ndp

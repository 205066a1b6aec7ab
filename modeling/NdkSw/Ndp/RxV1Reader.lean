/-
One reader of a protocol 1 RX channel between its calls: the frame that it gets next, and the position that it has released. The
packets it got keep their bytes in the ring until it releases them, whatever arrives and whatever the other readers do.
-/
import NdkSw.Ndp.RxV1Deliver
import NdkSw.Ndp.V1Format

namespace NdkSw.Ndp

open Ring

/-- The data of a frame. -/
def V1RxFrame.payload (f : V1RxFrame) : List U8 := (f.image.drop f.area).take (f.packetSize.toNat - f.area)

theorem V1RxFrame.length_payload (f : V1RxFrame) : f.payload.length = f.packetSize.toNat - f.area := by
  obtain ⟨-, -, hle, -, -⟩ := f.image_bounds
  rw [payload, List.length_take, List.length_drop]
  omega

/-- An action of the hardware or of another subscription. -/
def RxV1Act.Other (i : Nat) : RxV1Act → Prop
  | .receive _ => True
  | .start j _ | .get j _ _ | .put j _ => j ≠ i

namespace RxV1

/-- What a get of `i` hands out. -/
def burst (s : RxV1) (i : Nat) (e : Nat → RxByteEnv) (count : Nat) : List NdpPacket :=
  ((s.step (.get i e count)).got i).drop (s.got i).length

/-- The running `i` gets frame `n` next and has released the bytes before position `r`. -/
structure ReaderAt (k : Nat) (buffer : Nat → Int) (s : RxV1) (i n r : Nat) : Prop where
  running : (s.ch.sub i).status = .running
  inv : ∃ p h rels ns ms, InvAt k p h buffer rels ns ms s ∧ ns i = n ∧ rels i = r

/-- What every action leaves of the channel and of the packets of `i`. -/
structure Goes (s s' : RxV1) (i : Nat) (pkts : List NdpPacket) : Prop where
  grown : ∃ gs, s'.ch.ctrl.frames = s.ch.ctrl.frames ++ gs
  got : s'.got i = s.got i ++ pkts

variable {k m : Nat} {buffer : Nat → Int} {s : RxV1} {i n r : Nat} {pkts : List NdpPacket}

theorem ReaderAt.released_le (hR : ReaderAt k buffer s i n r) : r ≤ bound s.ch.ctrl.frames n ∧ n ≤ s.ch.ctrl.frames.length := by
  obtain ⟨p, h, rels, ns, ms, hI, rfl, rfl⟩ := hR.inv
  have hS := hI.subs i hR.running
  exact ⟨hS.le, hS.nm.trans hS.mlen⟩

theorem ReaderAt.published (hR : ReaderAt k buffer s i n r) : s.ch.ctrl.pos (s.ch.sub i).swptr = r := by
  obtain ⟨p, h, rels, ns, ms, hI, rfl, rfl⟩ := hR.inv
  have hS := hI.subs i hR.running
  have hle := hS.le.trans ((bound_mono _ hS.nm).trans hS.shown)
  exact hI.chan.ring.pos (at_of_mod hS.subSwptr) hS.low (hle.trans hI.chan.seen_le)

/-! ## Calls -/

theorem InvAt.get {p h : Nat} {rels ns ms : Nat → Nat} (hI : InvAt k p h buffer rels ns ms s) {j : Nat}
    (hr : (s.ch.sub j).status = .running) (e : Nat → RxByteEnv) (count : Nat) :
    ∃ p' h' m' ch' q' pkts, InvAt k p' h' buffer rels (Function.update ns j (ns j + pkts.length)) (Function.update ms j m')
        (s.step (.get j e count)) ∧
      s.step (.get j e count) = { s with ch := ch', q := Function.update s.q j q', got := Function.update s.got j (s.got j ++ pkts) } ∧
      RxGotten k (buffer j) s.q rels ns ms j s.ch (ns j) count ch' q' pkts := by
  obtain ⟨ch', q', pkts, hrun, hg⟩ := v1RxRounds_gotten (hI.queue j) e count 0 p h s.ch (s.q j) (ns j) (ms j) (hI.rxAt hr)
  obtain ⟨p', h', m', hA⟩ := hg.state
  have hstep : s.step (.get j e count) =
      { s with ch := ch', q := Function.update s.q j q', got := Function.update s.got j (s.got j ++ pkts) } := by
    simp only [step, ncNdpV1RxBurstGet, hrun, hr, ne_eq, not_true_eq_false, if_false, Option.toList_none, List.append_nil,
      Function.update_eq_self]
  refine ⟨p', h', m', ch', q', pkts, ?_, hstep, hg⟩
  rw [hstep]
  exact hI.calledAt hr pkts hg.later hA hg.got

theorem InvAt.put {p h : Nat} {rels ns ms : Nat → Nat} (hI : InvAt k p h buffer rels ns ms s) {j : Nat}
    (hr : (s.ch.sub j).status = .running) (e : RxByteEnv) :
    ∃ p' h' r' ch' q', InvAt k p' h' buffer (Function.update rels j r') ns ms (s.step (.put j e)) ∧
      s.step (.put j e) = { s with ch := ch', q := Function.update s.q j q' } ∧ Later s.ch ch' := by
  simp only [step, ncNdpV1RxBurstPut, hr, ne_eq, not_true_eq_false, if_false]
  split
  · obtain ⟨p', ch', q', hun, hA, hl⟩ := rxV1Unlock_at (hI.rxAt hr) e
    rw [hun]
    have hc := hI.calledAt hr [] hl hA (fun _ _ h => absurd h (by simp))
    exact ⟨p', _, _, ch', q', by simpa using hc, rfl, hl⟩
  · rw [Function.update_eq_self]
    exact ⟨p, h, rels j, s.ch, s.q j, by simpa using hI, by simp, .refl s.ch⟩

theorem ReaderAt.get (hR : ReaderAt k buffer s i n r) (e : Nat → RxByteEnv) (count : Nat) :
    ∃ pkts, ReaderAt k buffer (s.step (.get i e count)) i (n + pkts.length) r ∧ Goes s (s.step (.get i e count)) i pkts ∧
      pkts.length ≤ count ∧
      ∀ j pkt, pkts[j]? = some pkt → ∃ f, (s.step (.get i e count)).ch.ctrl.frames[n + j]? = some f ∧
        Delivered k (buffer i) (bound (s.step (.get i e count)).ch.ctrl.frames (n + j)) f pkt := by
  obtain ⟨p, h, rels, ns, ms, hI, rfl, rfl⟩ := hR.inv
  obtain ⟨p', h', m', ch', q', pkts, hI', hstep, hg⟩ := hI.get hR.running e count
  rw [hstep] at hI' ⊢
  refine ⟨pkts, ⟨(hg.later.status i).trans hR.running, p', h', rels, _, _, hI', Function.update_self .., rfl⟩,
    ⟨hg.later.grown, Function.update_self ..⟩, hg.le, hg.got⟩

theorem ReaderAt.put (hR : ReaderAt k buffer s i n r) (e : RxByteEnv) :
    ∃ r', ReaderAt k buffer (s.step (.put i e)) i n r' ∧ Goes s (s.step (.put i e)) i [] := by
  obtain ⟨p, h, rels, ns, ms, hI, rfl, rfl⟩ := hR.inv
  obtain ⟨p', h', r', ch', q', hI', hstep, hl⟩ := hI.put hR.running e
  rw [hstep] at hI' ⊢
  exact ⟨r', ⟨(hl.status i).trans hR.running, p', h', _, ns, ms, hI', rfl, Function.update_self ..⟩, hl.grown,
    (List.append_nil _).symm⟩

/-- The others leave the reader where it is. -/
theorem ReaderAt.other (hR : ReaderAt k buffer s i n r) {a : RxV1Act} (ha : a.Other i) :
    ReaderAt k buffer (s.step a) i n r ∧ Goes s (s.step a) i [] := by
  have hrun := hR.running
  obtain ⟨p, h, rels, ns, ms, hI, rfl, rfl⟩ := hR.inv
  have hself : ReaderAt k buffer s i (ns i) (rels i) ∧ Goes s s i [] :=
    ⟨hR, ⟨[], (List.append_nil _).symm⟩, (List.append_nil _).symm⟩
  cases a with
  | receive f =>
    have hI' := hI.receive f
    have hgoes : Goes s (s.step (.receive f)) i [] := by
      simp only [step]
      split
      · exact hself.2
      · obtain ⟨-, gs, hgs⟩ := hI.chan.ring.receive f
        exact ⟨⟨gs, hgs⟩, (List.append_nil _).symm⟩
    refine ⟨⟨?_, p, h, rels, ns, ms, hI', rfl, rfl⟩, hgoes⟩
    simp only [step]
    split
    · exact hrun
    · exact hrun
  | start j e =>
    obtain ⟨p', h', rels', ns', ms', hI', hkeep⟩ := hI.start j e
    obtain ⟨hrel, hn, hctrl, hsub⟩ := hkeep i hrun
    have hgot : (s.step (.start j e)).got = s.got := by
      simp only [step]
      split
      · rfl
      · split <;> rfl
    refine ⟨⟨by rw [hsub]; exact hrun, p', h', rels', ns', ms', hI', hn, hrel⟩, ⟨[], by rw [hctrl, List.append_nil]⟩, ?_⟩
    rw [hgot, List.append_nil]
  | get j e count =>
    by_cases hj : (s.ch.sub j).status = .running
    · obtain ⟨p', h', m', ch', q', pkts, hI', hstep, hg⟩ := hI.get hj e count
      rw [hstep] at hI' ⊢
      refine ⟨⟨(hg.later.status i).trans hrun, p', h', rels, _, _, hI', Function.update_of_ne (Ne.symm ha) .., rfl⟩, hg.later.grown, ?_⟩
      rw [List.append_nil]
      exact Function.update_of_ne (Ne.symm ha) ..
    · simp only [step, ne_eq, hj, not_false_eq_true, if_true]
      exact hself
  | put j e =>
    by_cases hj : (s.ch.sub j).status = .running
    · obtain ⟨p', h', r', ch', q', hI', hstep, hl⟩ := hI.put hj e
      rw [hstep] at hI' ⊢
      exact ⟨⟨(hl.status i).trans hrun, p', h', _, ns, ms, hI', rfl, Function.update_of_ne (Ne.symm ha) ..⟩, hl.grown,
        (List.append_nil _).symm⟩
    · simp only [step, ne_eq, hj, not_false_eq_true, if_true]
      exact hself

/-! ## The packets in hand -/

/-- The packets are the frames from number `m` on, none of which is released. -/
structure InHand (k : Nat) (buffer : Nat → Int) (s : RxV1) (i m r : Nat) (pkts : List NdpPacket) : Prop where
  kept : r ≤ bound s.ch.ctrl.frames m
  delivered : ∀ j pkt, pkts[j]? = some pkt →
    ∃ f, s.ch.ctrl.frames[m + j]? = some f ∧ Delivered k (buffer i) (bound s.ch.ctrl.frames (m + j)) f pkt

theorem InHand.mono {s' : RxV1} (h : InHand k buffer s i m r pkts) (hm : m ≤ s.ch.ctrl.frames.length)
    (hgrown : ∃ gs, s'.ch.ctrl.frames = s.ch.ctrl.frames ++ gs) : InHand k buffer s' i m r pkts := by
  obtain ⟨gs, hgs⟩ := hgrown
  constructor
  case kept =>
    rw [hgs, bound_append gs hm]
    exact h.kept
  case delivered =>
    intro j pkt hj
    obtain ⟨f, hf, hd⟩ := h.delivered j pkt hj
    have hlt := (List.getElem?_eq_some_iff.1 hf).1
    refine ⟨f, ?_, ?_⟩
    · rw [hgs, List.getElem?_append_left hlt]
      exact hf
    · rwa [hgs, bound_append gs (Nat.le_of_lt hlt)]

theorem ReaderAt.read (hR : ReaderAt k buffer s i n r) {f : V1RxFrame} {pkt : NdpPacket} (hf : s.ch.ctrl.frames[m]? = some f)
    (hm : r ≤ bound s.ch.ctrl.frames m) (hd : Delivered k (buffer i) (bound s.ch.ctrl.frames m) f pkt) :
    readBytes ((s.q i).read s.ch.ctrl) pkt.data pkt.dataLength.toNat = f.payload := by
  obtain ⟨p, h, rels, ns, ms, hI, rfl, rfl⟩ := hR.inv
  have hlow := (hI.subs i hR.running).low
  obtain ⟨o, ho, -, -, hdata⟩ := hd.located
  refine readBytes_eq (by rw [f.length_payload, hd.dataLength]) fun j b hb => ?_
  have hb' : f.image[f.area + j]? = some b := by
    rw [V1RxFrame.payload, List.getElem?_take] at hb
    split at hb
    · rwa [List.getElem?_drop] at hb
    · cases hb
  rw [hdata, ← hI.chan.ring.read (hI.queue i) hf (hlow.trans hm) ho hb']
  congr 1
  push_cast
  ring

theorem ReaderAt.contents (hR : ReaderAt k buffer s i n r) (h : InHand k buffer s i m r pkts) :
    pkts.map (fun x => readBytes ((s.q i).read s.ch.ctrl) x.data x.dataLength.toNat) =
      ((s.ch.ctrl.frames.drop m).take pkts.length).map V1RxFrame.payload := by
  refine List.ext_getElem? fun j => ?_
  rw [List.getElem?_map, List.getElem?_map, List.getElem?_take, List.getElem?_drop]
  cases hj : pkts[j]? with
  | none =>
    rw [if_neg (Nat.not_lt.2 (List.getElem?_eq_none_iff.1 hj))]
    rfl
  | some pkt =>
    obtain ⟨f, hf, hd⟩ := h.delivered j pkt hj
    rw [if_pos (List.getElem?_eq_some_iff.1 hj).1, hf, Option.map_some, Option.map_some,
      hR.read hf (h.kept.trans (bound_mono _ (Nat.le_add_right m j))) hd]

theorem InHand.fits (h : InHand k buffer s i m r pkts) {x : NdpPacket} (hx : x ∈ pkts) :
    (x.dataLength.toNat + 7) / 8 * 8 + 8 < 2 ^ 16 := by
  obtain ⟨j, hj, rfl⟩ := List.mem_iff_getElem.1 hx
  obtain ⟨f, -, hd⟩ := h.delivered j _ (List.getElem?_eq_getElem hj)
  have hlt := f.padded_lt
  have harea : 8 ≤ f.area := by
    unfold V1RxFrame.area
    omega
  have hlen := hd.dataLength
  omega

end RxV1

end NdkSw.Ndp

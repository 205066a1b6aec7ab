/-
One sender of a protocol 1 TX channel between its calls: what it has sent, and that the calls of the others leave it what it has.
-/
import NdkSw.Ndp.TxV1Wire

namespace NdkSw.Ndp

open Ring

/-- A call of another subscription. -/
def TxV1WireAct.Other (i : Nat) : TxV1WireAct → Prop
  | .start j _ | .send j _ _ _ | .put j _ | .flush j _ => j ≠ i

/-! ## What a call leaves of the others -/

namespace TxV1

variable {k p h : Nat} {buffer : Nat → Int} {s : TxV1} {i j : Nat}

theorem after_held (hj : j ≠ i) (ch : Channel HdrCtrl) (q : QueueV1) : (s.after j ch q).held i = s.held i := by
  unfold after
  split
  · exact Function.update_of_ne (Ne.symm hj) ..
  · rfl

theorem hand_held (hj : j ≠ i) (frames : List V1Frame) : (s.hand j frames).held i = s.held i :=
  Function.update_of_ne (Ne.symm hj) ..

theorem after_ch (s : TxV1) (i : Nat) (ch : Channel HdrCtrl) (q : QueueV1) : (s.after i ch q).ch = ch := by
  unfold after
  split <;> rfl

theorem step_get_held (hj : j ≠ i) (hw : Nat → Nat) (packets : List NdpPacket) : (s.step (.get j hw packets)).held i = s.held i := by
  simp only [step]
  split
  · rfl
  · split
    · exact after_held hj ..
    · rw [hand_held hj, after_held hj]

theorem step_flush_held (hj : j ≠ i) (hw : Nat) : (s.step (.flush j hw)).held i = s.held i := by
  simp only [step]
  split
  · rfl
  · exact after_held hj ..

theorem step_put_held (hj : j ≠ i) (hw : Nat) : (s.step (.put j hw)).held i = s.held i := by
  simp only [step]
  split
  · rfl
  · exact after_held hj ..

theorem InvAt.flush_held (hI : InvAt k p h buffer s) (hr : (s.ch.sub i).status = .running) (hw : Nat) :
    ((s.step (.flush i hw)).held i).flatten = [] := by
  obtain ⟨u, h', hf⟩ := v1Flush_flushed hI.chan (hI.queue i) hr hw
  have hunlocked := (v1Flush_ahead hI.chan (hI.queue i) hr hw rfl hf).2
  have hI' := flushed_inv hI hr hf
  simp only [step, hr, ne_eq, not_true_eq_false, if_false]
  exact ((hI'.queue i).free (by rw [after_ch]; exact hunlocked)).2.2

/-- Who runs goes on running. -/
theorem InvAt.step_running (hI : InvAt k p h buffer s) (a : TxV1Act) (hi : (s.ch.sub i).status = .running) :
    ((s.step a).ch.sub i).status = .running := by
  cases a with
  | start j hw =>
    simp only [step, ndpSubscriptionStart, ndpChannelStart]
    by_cases hst : (s.ch.sub j).status ≠ .subscribed
    · simp only [if_pos hst]
      exact hi
    · have hij : i ≠ j := by
        rintro rfl
        rw [hi] at hst
        exact hst (by simp)
      simp only [if_neg hst]
      by_cases hc : s.ch.startCount = 0
      · simpa [hc, hdrOps, hij] using hi
      · simpa [hc, hij] using hi
  | get j hw packets =>
    by_cases hj : (s.ch.sub j).status = .running
    · rcases hg : ncNdpV1TxBurstGet hdrOps hw j s.ch (s.q j) packets with ⟨ch', q', frames, ret⟩
      obtain ⟨h', hd⟩ := v1Get_done hI.chan (hI.queue j) hj hw hg
      rw [(TxV1Wire.step_get hI hj hg hd).1, hd.synced.status]
      exact hi
    · simp only [step, ne_eq, hj, not_false_eq_true, if_true]
      exact hi
  | put j hw =>
    by_cases hj : (s.ch.sub j).status = .running
    · simp only [step, hj, ne_eq, not_true_eq_false, if_false, after_ch, ncNdpV1TxBurstPut]
      split
      · obtain ⟨u, h', hf⟩ := v1Flush_flushed hI.chan (hI.queue j) hj hw
        rw [hf.synced.status]
        exact hi
      · exact hi
    · simp only [step, ne_eq, hj, not_false_eq_true, if_true]
      exact hi
  | flush j hw =>
    by_cases hj : (s.ch.sub j).status = .running
    · obtain ⟨u, h', hf⟩ := v1Flush_flushed hI.chan (hI.queue j) hj hw
      simp only [step, hj, ne_eq, not_true_eq_false, if_false, after_ch]
      rw [hf.synced.status]
      exact hi
    · simp only [step, ne_eq, hj, not_false_eq_true, if_true]
      exact hi

end TxV1

/-! ## The sender -/

namespace TxV1Wire

/-- What `i` has sent. -/
def sentBy (s : TxV1Wire) (i : Nat) : Laid := (s.sent.filter (·.1 = i)).map (·.2)

/-- A running subscription on a channel in order. -/
structure SenderAt (k : Nat) (buffer : Nat → Int) (s : TxV1Wire) (i : Nat) : Prop where
  running : (s.tx.ch.sub i).status = .running
  inv : Inv k buffer s

variable {k : Nat} {buffer : Nat → Int} {s : TxV1Wire} {i : Nat}

theorem send_cases (s : TxV1Wire) (i : Nat) (hw : Nat → Nat) (packets : List NdpPacket) (contents : List V1Content) :
    ((s.send i hw packets contents).2 = 0 ∧ (s.send i hw packets contents).1.sent = s.sent) ∨
      ((s.send i hw packets contents).2 = packets.length ∧
        (s.send i hw packets contents).1.sent = s.sent ++ (packets.zip contents).map (i, ·)) := by
  unfold send
  split
  · exact .inl ⟨rfl, rfl⟩
  · rcases hg : ncNdpV1TxBurstGet hdrOps hw i s.tx.ch (s.tx.q i) packets with ⟨ch', q', frames, ret⟩
    simp only
    split
    · exact .inl ⟨rfl, rfl⟩
    · rename_i hret
      exact .inr ⟨(v1Get_frames hdrOps hw i hg).2.resolve_left hret, rfl⟩

theorem send_tx (s : TxV1Wire) (i : Nat) (hw : Nat → Nat) (packets : List NdpPacket) (contents : List V1Content) :
    (s.send i hw packets contents).1.tx = s.tx ∨ (s.send i hw packets contents).1.tx = s.tx.step (.get i hw packets) := by
  unfold send
  split
  · exact .inl rfl
  · simp only
    split
    · exact .inr rfl
    · exact .inr rfl

theorem step_running (hI : Inv k buffer s) (a : TxV1WireAct) (hi : (s.tx.ch.sub i).status = .running) :
    ((s.step a).tx.ch.sub i).status = .running := by
  obtain ⟨p, h, bs, hI⟩ := hI
  cases a with
  | start j hw => exact hI.tx.step_running (.start j hw) hi
  | send j hw packets contents =>
    show ((s.send j hw packets contents).1.tx.ch.sub i).status = .running
    rcases send_tx s j hw packets contents with htx | htx
    · rw [htx]
      exact hi
    · rw [htx]
      exact hI.tx.step_running _ hi
  | put j hw => exact hI.tx.step_running (.put j hw) hi
  | flush j hw => exact hI.tx.step_running (.flush j hw) hi

theorem SenderAt.step (hS : SenderAt k buffer s i) {a : TxV1WireAct} (ha : a.Fits) : SenderAt k buffer (s.step a) i :=
  ⟨step_running hS.inv a hS.running, Inv.step s a ha hS.inv⟩

theorem SenderAt.send (hS : SenderAt k buffer s i) (hw : Nat → Nat) {packets : List NdpPacket} {contents : List V1Content}
    (hcontents : List.Forall₂ V1Content.Of packets contents) (hfit : ∀ x ∈ packets, v1PaddedSize x < 2 ^ 16) :
    SenderAt k buffer (s.send i hw packets contents).1 i ∧
      (((s.send i hw packets contents).2 = 0 ∧ (s.send i hw packets contents).1.sentBy i = s.sentBy i) ∨
        ((s.send i hw packets contents).2 = packets.length ∧
          (s.send i hw packets contents).1.sentBy i = s.sentBy i ++ packets.zip contents)) := by
  have hstep : SenderAt k buffer (s.step (.send i hw packets contents)) i := hS.step ⟨hcontents, hfit⟩
  refine ⟨hstep, ?_⟩
  rcases send_cases s i hw packets contents with ⟨hret, hsent⟩ | ⟨hret, hsent⟩
  · exact .inl ⟨hret, by rw [sentBy, hsent]; rfl⟩
  · refine .inr ⟨hret, ?_⟩
    have hmine : ((packets.zip contents).map (i, ·)).filter (·.1 = i) = (packets.zip contents).map (i, ·) := by
      refine List.filter_eq_self.2 fun x hx => ?_
      obtain ⟨xc, -, rfl⟩ := List.mem_map.1 hx
      simp
    rw [sentBy, hsent, List.filter_append, hmine, List.map_append, List.map_map]
    congr 1
    exact List.map_id _

theorem SenderAt.put (hS : SenderAt k buffer s i) (hw : Nat) : SenderAt k buffer (s.step (.put i hw)) i ∧
    (s.step (.put i hw)).sentBy i = s.sentBy i := by
  have hstep : SenderAt k buffer (s.step (.put i hw)) i := hS.step trivial
  exact ⟨hstep, rfl⟩

theorem SenderAt.flush (hS : SenderAt k buffer s i) (hw : Nat) : SenderAt k buffer (s.step (.flush i hw)) i ∧
    (s.step (.flush i hw)).sentBy i = s.sentBy i ∧ ((s.step (.flush i hw)).tx.held i).flatten = [] := by
  have hstep : SenderAt k buffer (s.step (.flush i hw)) i := hS.step trivial
  obtain ⟨p, h, bs, hI⟩ := hS.inv
  exact ⟨hstep, rfl, hI.tx.flush_held hS.running hw⟩

theorem SenderAt.other (hS : SenderAt k buffer s i) {a : TxV1WireAct} (hother : a.Other i) (ha : a.Fits) :
    SenderAt k buffer (s.step a) i ∧ (s.step a).sentBy i = s.sentBy i ∧ (s.step a).tx.held i = s.tx.held i := by
  refine ⟨hS.step ha, ?_⟩
  cases a with
  | start j hw => exact ⟨rfl, congrFun (start_frame s.tx j hw).1 i⟩
  | send j hw packets contents =>
    constructor
    · show (s.send j hw packets contents).1.sentBy i = _
      rcases send_cases s j hw packets contents with ⟨-, hsent⟩ | ⟨-, hsent⟩
      · rw [sentBy, hsent]
        rfl
      · have hnone : ((packets.zip contents).map (j, ·)).filter (·.1 = i) = [] := by
          refine List.filter_eq_nil_iff.2 fun x hx => ?_
          obtain ⟨xc, -, rfl⟩ := List.mem_map.1 hx
          have hne : j ≠ i := hother
          simpa using hne
        rw [sentBy, hsent, List.filter_append, hnone, List.append_nil]
        rfl
    · show (s.send j hw packets contents).1.tx.held i = _
      rcases send_tx s j hw packets contents with htx | htx
      · rw [htx]
      · rw [htx]
        exact TxV1.step_get_held hother hw packets
  | put j hw => exact ⟨rfl, TxV1.step_put_held hother hw⟩
  | flush j hw => exact ⟨rfl, TxV1.step_flush_held hother hw⟩

end TxV1Wire

end NdkSw.Ndp

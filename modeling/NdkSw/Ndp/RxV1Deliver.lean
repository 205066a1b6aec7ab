/-
Runs of a protocol 1 RX channel: every running subscription gets the frames that arrive from its start on, each once and
in order, whatever the burst sizes and wherever the locks fall; and it never publishes a position behind a frame that it
has not been given.
-/
import NdkSw.Ndp.RxV1Inv

namespace NdkSw.Ndp

open Ring

variable {k : Nat}

namespace RxV1

/-- The packets that `i` got are the frames from number `a` on. -/
def GotFrom (k : Nat) (buffer : Nat → Int) (s : RxV1) (i a : Nat) : Prop :=
  ∀ j pkt, (s.got i)[j]? = some pkt →
    ∃ f, s.ch.ctrl.frames[a + j]? = some f ∧ Delivered k (buffer i) (bound s.ch.ctrl.frames (a + j)) f pkt

/-- The positions of a running subscription: it started in front of frame `a`, and has got those before frame `n`. -/
structure GotUpTo (k : Nat) (buffer : Nat → Int) (s : RxV1) (i a n : Nat) : Prop where
  start : s.start i = some (bound s.ch.ctrl.frames a)
  count : n = a + (s.got i).length
  got : GotFrom k buffer s i a

/-- The invariant of the system; the ring is mapped at `buffer i` for subscription `i`. -/
structure InvAt (k p h : Nat) (buffer : Nat → Int) (rels ns ms : Nat → Nat) (s : RxV1) : Prop where
  chan : RxByteChan k p h s.ch
  queue : ∀ j, V1RxQueue k (buffer j) (s.q j)
  subs : ∀ j, (s.ch.sub j).status = .running →
    V1RxSub k p h s.ch.ctrl.frames (s.ch.sub j) (s.q j) (rels j) (ns j) (ms j)
  got : ∀ j, (s.ch.sub j).status = .running → ∃ a, GotUpTo k buffer s j a (ns j)
  fresh : ∀ j, s.start j = none → (s.ch.sub j).status ≠ .running ∧ (s.q j).bytes = 0 ∧ (s.q j).swptr = 0 ∧ (s.q j).total = 0 ∧
    s.got j = []
  errors : ∀ j, s.errors j = []

def Inv (k : Nat) (buffer : Nat → Int) (s : RxV1) : Prop := ∃ p h rels ns ms, InvAt k p h buffer rels ns ms s

variable {p h i : Nat} {buffer : Nat → Int} {rels ns ms : Nat → Nat} {s : RxV1} {ch' : Channel RxByteCtrl}

theorem InvAt.rxAt (hI : InvAt k p h buffer rels ns ms s) (hr : (s.ch.sub i).status = .running) :
    RxAt k p h (buffer i) s.q rels ns ms i s.ch (s.q i) (ns i) (ms i) :=
  ⟨hI.chan, hI.queue i, hr, hI.subs i hr, fun j _ hj => hI.subs j hj⟩

theorem GotUpTo.mono {s' : RxV1} {a n n' : Nat} (hg : GotUpTo k buffer s i a n) (hn : n ≤ s.ch.ctrl.frames.length) {gs : List V1RxFrame}
    (hgs : s'.ch.ctrl.frames = s.ch.ctrl.frames ++ gs) (hstart : s'.start i = s.start i) (pkts : List NdpPacket)
    (hgot : s'.got i = s.got i ++ pkts) (hn' : n' = n + pkts.length)
    (hpkts : ∀ j pkt, pkts[j]? = some pkt → ∃ f, s'.ch.ctrl.frames[n + j]? = some f ∧ Delivered k (buffer i) (bound s'.ch.ctrl.frames (n + j)) f pkt) :
    GotUpTo k buffer s' i a n' := by
  obtain ⟨hs, hc, hf⟩ := hg
  constructor
  case start =>
    rw [hstart, hs, hgs, bound_append gs (by omega)]
  case count =>
    rw [hgot, List.length_append]
    omega
  case got =>
    intro j pkt hj
    rw [hgot] at hj
    rcases Nat.lt_or_ge j (s.got i).length with hlt | hge
    · rw [List.getElem?_append_left hlt] at hj
      obtain ⟨f, hfj, hd⟩ := hf j pkt hj
      have hlen := (List.getElem?_eq_some_iff.1 hfj).1
      refine ⟨f, ?_, ?_⟩
      · rw [hgs, List.getElem?_append_left hlen]
        exact hfj
      · rwa [hgs, bound_append gs (Nat.le_of_lt hlen)]
    · rw [List.getElem?_append_right hge] at hj
      obtain ⟨f, hfj, hd⟩ := hpkts _ pkt hj
      rw [show n + (j - (s.got i).length) = a + j by omega] at hfj hd
      exact ⟨f, hfj, hd⟩

/-! ## Steps -/

/-- After a call of the running `i` that has handed out `pkts`. -/
theorem InvAt.calledAt (hI : InvAt k p h buffer rels ns ms s) (hr : (s.ch.sub i).status = .running) {p' h' : Nat} {rels' : Nat → Nat}
    {q' : QueueV1} {m' : Nat} (pkts : List NdpPacket) (hl : Later s.ch ch')
    (hA : RxAt k p' h' (buffer i) s.q rels' ns ms i ch' q' (ns i + pkts.length) m')
    (hpkts : ∀ j pkt, pkts[j]? = some pkt → ∃ f, ch'.ctrl.frames[ns i + j]? = some f ∧ Delivered k (buffer i) (bound ch'.ctrl.frames (ns i + j)) f pkt) :
    InvAt k p' h' buffer rels' (Function.update ns i (ns i + pkts.length)) (Function.update ms i m') { s with
      ch := ch', q := Function.update s.q i q', got := Function.update s.got i (s.got i ++ pkts) } := by
  obtain ⟨gs, hgs⟩ := hl.grown
  refine ⟨hA.chan, fun j => ?_, fun j hj => ?_, fun j hj => ?_, fun j hj => ?_, hI.errors⟩
  · by_cases hji : j = i
    · subst hji
      simpa using hA.queue
    · simpa [hji] using hI.queue j
  · by_cases hji : j = i
    · subst hji
      simpa using hA.sub
    · simpa [hji] using hA.others j hji hj
  · have hj' : (s.ch.sub j).status = .running := by rwa [← hl.status]
    obtain ⟨a, ha⟩ := hI.got j hj'
    have hsub := hI.subs j hj'
    have hn : ns j ≤ s.ch.ctrl.frames.length := hsub.nm.trans hsub.mlen
    by_cases hji : j = i
    · subst hji
      exact ⟨a, ha.mono hn hgs rfl pkts (Function.update_self ..) (Function.update_self ..) hpkts⟩
    · refine ⟨a, ha.mono hn hgs rfl [] ?_ ?_ (fun _ _ h => absurd h (by simp))⟩
      · show Function.update s.got i _ j = _
        rw [Function.update_of_ne hji, List.append_nil]
      · rw [Function.update_of_ne hji]
        rfl
  · obtain ⟨h1, h2⟩ := hI.fresh j hj
    have hji : j ≠ i := fun hji => h1 (hji ▸ hr)
    simp only [Function.update_of_ne hji]
    exact ⟨by rw [hl.status]; exact h1, h2⟩

theorem InvAt.receive (hI : InvAt k p h buffer rels ns ms s) (f : V1RxFrame) :
    InvAt k p h buffer rels ns ms (s.step (.receive f)) := by
  simp only [step]
  split
  · exact hI
  obtain ⟨hring, gs, hgs⟩ := hI.chan.ring.receive f
  have hC := hI.chan
  have hkeep : (s.ch.ctrl.receive f).mhp = s.ch.ctrl.mhp ∧ (s.ch.ctrl.receive f).swptr = s.ch.ctrl.swptr := by
    unfold RxByteCtrl.receive
    split <;> exact ⟨rfl, rfl⟩
  obtain ⟨n, hn, hh⟩ := hC.seen
  have hseen : n ≤ (s.ch.ctrl.receive f).frames.length ∧ h = bound (s.ch.ctrl.receive f).frames n := by
    rw [hgs, bound_append gs hn, List.length_append]
    exact ⟨Nat.le_add_right_of_le hn, hh⟩
  refine ⟨⟨hring, hkeep.1.trans hC.mhp, hC.hwptr, hkeep.2.trans hC.swptr, hC.le, ⟨n, hseen⟩,
    hC.listed.congr rfl rfl fun _ => rfl⟩,
    hI.queue, fun j hj => ?_, fun j hj => ?_, hI.fresh, hI.errors⟩
  · show V1RxSub k p h (s.ch.ctrl.receive f).frames _ _ _ _ _
    rw [hgs]
    exact (hI.subs j hj).mono gs (hI.subs j hj).low le_rfl
  · obtain ⟨a, ha⟩ := hI.got j hj
    have hsub := hI.subs j hj
    exact ⟨a, ha.mono (hsub.nm.trans hsub.mlen) hgs rfl [] (List.append_nil _).symm rfl (fun _ _ h => absurd h (by simp))⟩

theorem Inv.receive (hI : Inv k buffer s) (f : V1RxFrame) : Inv k buffer (s.step (.receive f)) := by
  obtain ⟨p, h, rels, ns, ms, hI⟩ := hI
  exact ⟨p, h, rels, ns, ms, hI.receive f⟩

theorem Inv.get (hI : Inv k buffer s) (i : Nat) (e : Nat → RxByteEnv) (count : Nat) :
    Inv k buffer (s.step (.get i e count)) := by
  obtain ⟨p, h, rels, ns, ms, hI⟩ := hI
  by_cases hr : (s.ch.sub i).status = .running
  · obtain ⟨ch', q', pkts, hrun, hg⟩ := v1RxRounds_gotten (hI.queue i) e count 0 p h s.ch (s.q i) (ns i) (ms i) (hI.rxAt hr)
    obtain ⟨p', h', m', hA⟩ := hg.state
    simp only [step, ncNdpV1RxBurstGet, hrun, hr, ne_eq, not_true_eq_false, if_false, Option.toList_none, List.append_nil,
      Function.update_eq_self]
    exact ⟨p', h', _, _, _, hI.calledAt hr _ hg.later hA hg.got⟩
  · simp only [step, ne_eq, hr, not_false_eq_true, if_true]
    exact ⟨p, h, rels, ns, ms, hI⟩

theorem Inv.put (hI : Inv k buffer s) (i : Nat) (e : RxByteEnv) : Inv k buffer (s.step (.put i e)) := by
  obtain ⟨p, h, rels, ns, ms, hI⟩ := hI
  by_cases hr : (s.ch.sub i).status = .running
  · simp only [step, ncNdpV1RxBurstPut, hr, ne_eq, not_true_eq_false, if_false]
    split
    · obtain ⟨p', ch', q', hun, hA, hl⟩ := rxV1Unlock_at (hI.rxAt hr) e
      rw [hun]
      have hc : Inv k buffer _ := ⟨_, _, _, _, _, hI.calledAt hr [] hl hA (fun _ _ h => absurd h (by simp))⟩
      simpa [Function.update_eq_self] using hc
    · rw [Function.update_eq_self]
      exact ⟨p, h, rels, ns, ms, hI⟩
  · simp only [step, ne_eq, hr, not_false_eq_true, if_true]
    exact ⟨p, h, rels, ns, ms, hI⟩

theorem RxByteChan.reset {ch : Channel RxByteCtrl} (hC : RxByteChan k p h ch) :
    RxByteChan k 0 0 (ch.reset { ch.ctrl with swptr := 0, frames := [], log := [] } 0) :=
  ⟨⟨hC.ring.mask, by simp [Channel.reset], le_rfl, by simp [Channel.reset], HoldsLast.nil _ _, rfl⟩, hC.mhp,
    by simp [Channel.reset], rfl, le_rfl, ⟨0, le_rfl, (bound_zero _).symm⟩, hC.listed.congr rfl rfl fun _ => rfl⟩

/-- After the start of `i` on the channel `ch₀`, which is the old one or was reset while nobody ran. -/
theorem InvAt.join (hI : InvAt k p h buffer rels ns ms s) (hi : s.start i = none) {p₀ h₀ : Nat} {ch₀ : Channel RxByteCtrl}
    (hC : RxByteChan k p₀ h₀ ch₀) (hsub : ch₀.sub = s.ch.sub)
    (hsame : ∀ j, (s.ch.sub j).status = .running → p₀ = p ∧ h₀ = h ∧ ch₀.ctrl = s.ch.ctrl) :
    ∃ n, InvAt k p₀ h₀ buffer (Function.update rels i h₀) (Function.update ns i n) (Function.update ms i n) { s with
      ch := ch₀.join i
      q := Function.update s.q i { s.q i with sync := startSync .rx ch₀ (s.q i).sync }
      start := Function.update s.start i (some ((ch₀.join i).ctrl.pos (ch₀.join i).hwptr)) } := by
  obtain ⟨n, hn, hh⟩ := hC.seen
  obtain ⟨hidle, hb, hs, ht, hgot⟩ := hI.fresh i hi
  have hseen := hC.seen_le
  -- the queue starts at the packet that the channel has got to
  have hpos : (ch₀.join i).ctrl.pos (ch₀.join i).hwptr = bound ch₀.ctrl.frames n := by
    rw [← hh]
    exact hC.ring.pos (at_of_mod hC.hwptr) hC.le hseen
  have hother : ∀ j, j ≠ i → (ch₀.join i).sub j = s.ch.sub j := by
    intro j hj
    rw [← hsub]
    exact Function.update_of_ne hj ..
  have hidle₀ : (ch₀.sub i).status ≠ .running := by
    rw [hsub]
    exact hidle
  rw [hpos]
  refine ⟨n, ⟨hC.ring, hC.mhp, hC.hwptr, hC.swptr, hC.le, ⟨n, hn, hh⟩, hC.listed.join hidle₀⟩, fun j => ?_, fun j hj => ?_,
    fun j hj => ?_, fun j hj => ?_, hI.errors⟩
  · have hq := hI.queue j
    by_cases hji : j = i
    · subst hji
      simp only [Function.update_self]
      exact ⟨hq.k63, hq.size, hq.buffer⟩
    · simpa [hji] using hq
  · by_cases hji : j = i
    · subst hji
      simp only [Function.update_self, Channel.join, startSync]
      refine ⟨hC.le, hh.le, le_rfl, hn, hh.ge, hC.hwptr, rfl, ?_, ?_, ?_, fun hne => absurd hb hne⟩
      · rw [hs, ← hh, Nat.sub_self]
        rfl
      · rw [hb, Nat.sub_self]
        rfl
      · rw [ht, ← hh, Nat.sub_self]
        rfl
    · have hj' := hj
      rw [show (ch₀.join i).sub j = s.ch.sub j from hother j hji] at hj'
      obtain ⟨rfl, rfl, hctrl⟩ := hsame j hj'
      have hS := hI.subs j hj'
      simp only [Function.update_of_ne hji, hother j hji]
      show V1RxSub k _ _ ch₀.ctrl.frames _ _ _ _ _
      rw [hctrl]
      exact hS
  · by_cases hji : j = i
    · subst hji
      refine ⟨n, by simp [Channel.join], ?_, fun m pkt hm => ?_⟩
      · simp [hgot]
      · simp only [hgot] at hm
        cases hm
    · have hj' := hj
      rw [show (ch₀.join i).sub j = s.ch.sub j from hother j hji] at hj'
      obtain ⟨-, -, hctrl⟩ := hsame j hj'
      obtain ⟨a, hstart, hcount, hg⟩ := hI.got j hj'
      have hctrl' : (ch₀.join i).ctrl = s.ch.ctrl := hctrl
      refine ⟨a, ?_, ?_, ?_⟩
      · simp only [Function.update_of_ne hji, hctrl']
        exact hstart
      · simp only [Function.update_of_ne hji]
        exact hcount
      · unfold GotFrom
        simp only [hctrl']
        exact hg
  · have hji : j ≠ i := by
      rintro rfl
      simp at hj
    simp only [Function.update_of_ne hji] at hj ⊢
    rw [hother j hji]
    exact hI.fresh j hj

/-- A start leaves those that run where they are. -/
theorem InvAt.start (hI : InvAt k p h buffer rels ns ms s) (i : Nat) (e : RxByteEnv) :
    ∃ p' h' rels' ns' ms', InvAt k p' h' buffer rels' ns' ms' (s.step (.start i e)) ∧
      ∀ j, (s.ch.sub j).status = .running → rels' j = rels j ∧ ns' j = ns j ∧ (s.step (.start i e)).ch.ctrl = s.ch.ctrl ∧
        ((s.step (.start i e)).ch.sub j) = s.ch.sub j := by
  by_cases hi : s.start i = none
  · have hne : ∀ j, (s.ch.sub j).status = .running → j ≠ i := by
      rintro j hj rfl
      exact (hI.fresh j hi).1 hj
    simp only [step, hi, ne_eq, not_true_eq_false, if_false]
    obtain ⟨ctrl, err, herr, hres, hctrl⟩ | ⟨ch₀, hch, hst, hres⟩ :=
      ndpSubscriptionStart_cases rxByteOps .rx e s.ch i (s.q i).sync
    · -- a start that fails changes nothing
      have hsame : ctrl = s.ch.ctrl := by
        rcases hctrl with rfl | ⟨-, rfl, hret⟩
        · rfl
        · by_cases hret0 : e.ret = 0
          · exact absurd (by simp [rxByteOps, hret0]) hret
          · simp [rxByteOps, hret0]
      rw [hres, hsame]
      simp only [if_pos herr]
      rw [Function.update_eq_self]
      exact ⟨p, h, rels, ns, ms, hI, fun _ _ => ⟨rfl, rfl, trivial, trivial⟩⟩
    · rw [hres]
      simp only [not_true_eq_false, if_false]
      rcases hch with ⟨rfl, -⟩ | ⟨rfl, hzero, hret⟩
      · obtain ⟨n, hjoin⟩ := hI.join hi hI.chan rfl fun _ _ => ⟨rfl, rfl, rfl⟩
        refine ⟨_, _, _, _, _, hjoin, fun j hj => ⟨Function.update_of_ne (hne j hj) .., Function.update_of_ne (hne j hj) .., rfl, ?_⟩⟩
        exact Function.update_of_ne (hne j hj) ..
      · have hret0 : e.ret = 0 := by
          by_contra hne
          simp [rxByteOps, hne] at hret
        have hop : rxByteOps.start s.ch.ctrl e = ({ s.ch.ctrl with swptr := 0, frames := [], log := [] }, 0, 0) := by
          simp [rxByteOps, hret0]
        rw [hop]
        have hidle : ∀ j, ¬ (s.ch.sub j).status = .running := fun j hj => absurd hj (hI.chan.listed.idle hzero j)
        obtain ⟨n, hjoin⟩ := hI.join hi (RxByteChan.reset hI.chan) rfl fun j hj => absurd hj (hidle j)
        exact ⟨_, _, _, _, _, hjoin, fun j hj => absurd hj (hidle j)⟩
  · simp only [step, hi, ne_eq, not_false_eq_true, if_true]
    exact ⟨p, h, rels, ns, ms, hI, fun _ _ => ⟨rfl, rfl, trivial, trivial⟩⟩

theorem Inv.start (hI : Inv k buffer s) (i : Nat) (e : RxByteEnv) : Inv k buffer (s.step (.start i e)) := by
  obtain ⟨p, h, rels, ns, ms, hI⟩ := hI
  obtain ⟨p', h', rels', ns', ms', hI', -⟩ := hI.start i e
  exact ⟨p', h', rels', ns', ms', hI'⟩

theorem Inv.step (s : RxV1) (a : RxV1Act) (hI : Inv k buffer s) : Inv k buffer (s.step a) := by
  cases a with
  | start i e => exact hI.start i e
  | receive f => exact hI.receive f
  | get i e count => exact hI.get i e count
  | put i e => exact hI.put i e

theorem inv_opened (hk : k ≤ 63) (mem : Nat → U8) (buffer : Nat → Int) : Inv k buffer (opened k mem buffer) := by
  have hpow : 2 ^ k ≤ 2 ^ 63 := Nat.pow_le_pow_right (by norm_num) hk
  have hidle : ∀ j, ((opened k mem buffer).ch.sub j).status ≠ .running := fun j => by simp [opened]
  refine ⟨0, 0, fun _ => 0, fun _ => 0, fun _ => 0,
    ⟨⟨isMask_ofNat (by omega), by simp [opened], le_rfl, by simp [opened], HoldsLast.nil _ _, rfl⟩, rfl, by simp [opened], rfl,
      le_rfl, ⟨0, le_rfl, (bound_zero _).symm⟩, ⟨fun j => by simp [opened], List.nodup_nil, rfl⟩⟩,
    fun j => ⟨hk, ?_, rfl⟩, fun j hj => absurd hj (hidle j), fun j hj => absurd hj (hidle j),
    fun j _ => ⟨hidle j, rfl, rfl, rfl, rfl⟩, fun _ => rfl⟩
  show (BitVec.ofNat 64 (2 ^ k)).toNat = 2 ^ k
  rw [BitVec.toNat_ofNat, Nat.mod_eq_of_lt (by omega)]

/-! ## The theorem -/

/-- What a running subscription `i` can rely on. It started in front of frame `a` and got exactly the frames from there to
frame `n`, in order; the next get hands out the frames that follow, as many as have arrived or as it asks for; the pointer
that it has published is not behind frame `n`, and the one that the hardware was given is not behind that; and the ring
still has every byte behind the published pointer. -/
structure ServedFrom (k : Nat) (buffer : Nat → Int) (s : RxV1) (i a n : Nat) : Prop where
  got : GotUpTo k buffer s i a n
  errors : s.errors i = []
  gets : ∀ e count, ∃ ch' q' pkts, ncNdpV1RxBurstGet rxByteOps (s.q i).read e i s.ch (s.q i) count = (ch', q', pkts, none) ∧
    pkts.length = min count (ch'.ctrl.frames.length - n) ∧
    ∀ j pkt, pkts[j]? = some pkt →
      ∃ f, ch'.ctrl.frames[n + j]? = some f ∧ Delivered k (buffer i) (bound ch'.ctrl.frames (n + j)) f pkt
  published : s.ch.ctrl.pos (s.ch.sub i).swptr ≤ bound s.ch.ctrl.frames n
  released : s.ch.ctrl.pos s.ch.ctrl.swptr ≤ s.ch.ctrl.pos (s.ch.sub i).swptr
  kept : ∀ j b, s.ch.ctrl.pos (s.ch.sub i).swptr ≤ j → s.ch.ctrl.log[j]? = some b → s.ch.ctrl.mem (j % 2 ^ k) = b

/-- In every run of a channel with a ring of `2 ^ k` bytes every running subscription is served. -/
theorem stream_exactly_once (hk : k ≤ 63) (mem : Nat → U8) (buffer : Nat → Int) (acts : List RxV1Act) (i : Nat)
    (hi : ((run RxV1.step (opened k mem buffer) acts).ch.sub i).status = .running) :
    ∃ a n, ServedFrom k buffer (run RxV1.step (opened k mem buffer) acts) i a n := by
  obtain ⟨p, h, rels, ns, ms, hI⟩ := run_inv Inv.step acts _ (inv_opened hk mem buffer)
  generalize run RxV1.step (opened k mem buffer) acts = s at hi hI
  obtain ⟨a, hgot⟩ := hI.got i hi
  have hS := hI.subs i hi
  have hC := hI.chan
  have hlow := hS.low
  have hle := hS.le
  have hseen := hC.seen_le
  have hmono := bound_mono s.ch.ctrl.frames hS.nm
  have hshown := hS.shown
  have hrel : s.ch.ctrl.pos (s.ch.sub i).swptr = rels i := hC.ring.pos (at_of_mod hS.subSwptr) hlow (by omega)
  refine ⟨a, ns i, hgot, hI.errors i, fun e count => ?_, ?_, ?_, fun j b hj hb => ?_⟩
  · obtain ⟨ch', q', pkts, hrun, hg⟩ := v1RxRounds_gotten (hI.queue i) e count 0 p h s.ch (s.q i) (ns i) (ms i) (hI.rxAt hi)
    refine ⟨ch', q', pkts, hrun, ?_, hg.got⟩
    obtain ⟨_, _, _, hA⟩ := hg.state
    have hn := hA.sub.nm.trans hA.sub.mlen
    have hcount := hg.le
    rcases Nat.lt_or_ge pkts.length count with hlt | hge
    · have hall := hg.all hlt
      omega
    · omega
  · rwa [hrel]
  · rwa [hrel, hC.ring.pos (at_of_mod hC.ring.swptr) le_rfl hC.ring.le]
  · have hlap := hC.ring.lap
    rw [hrel] at hj
    exact hC.ring.mem j b hb (by omega)

/-- A frame of 14 bytes with 2 bytes of header. -/
def shortFrame : V1RxFrame := ⟨14, 2, List.replicate 12 0, by decide, by decide, by decide⟩

/-- Nothing happens while the pointer is read. -/
def quiet : RxByteEnv := ⟨0, []⟩

/-- A ring of 64 bytes. The second reader starts behind the first frame; a frame arrives at a lock in the middle of a get,
and the put of the first reader releases more than half of the ring. -/
def twoReaders : List RxV1Act :=
  [.start 0 quiet, .receive shortFrame, .get 0 (fun _ => quiet) 1, .start 1 quiet, .receive shortFrame,
    .get 0 (fun r => if r = 1 then ⟨0, [shortFrame]⟩ else quiet) 2, .get 1 (fun _ => quiet) 1, .put 0 quiet, .receive shortFrame,
    .get 0 (fun _ => quiet) 5]

theorem stream_exactly_once_two_readers :
    ((run RxV1.step (opened 6 (fun _ => 0) fun _ => 4096) twoReaders).got 0).length = 4 ∧
      ∃ a n, ServedFrom 6 (fun _ => 4096) (run RxV1.step (opened 6 (fun _ => 0) fun _ => 4096) twoReaders) 1 a n :=
  ⟨by decide +kernel, stream_exactly_once (by decide) (fun _ => 0) (fun _ => 4096) twoReaders 1 (by decide +kernel)⟩

end RxV1

end NdkSw.Ndp

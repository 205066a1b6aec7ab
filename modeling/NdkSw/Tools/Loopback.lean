/-
The loopback mode of ndptool (`tools/ndptool/loopback.c`) over a protocol 1 RX queue and a protocol 1 TX queue. The loop takes bursts
of packets, waits for as much space, copies them and releases them; between any two of its calls frames arrive, and other readers and
senders use the same channels. What it sends are the frames that it gets, each once, in order and with their data, until it is stopped.
-/
import NdkSw.Tools.PacketLimit
import NdkSw.Ndp.RxV1Reader
import NdkSw.Ndp.TxV1Sender

namespace NdkSw.Tools

open Ndp Ring

/-! ## The loop -/

/-- The parameters of the loop, with the numbers of its subscriptions of the two channels. -/
structure LoopbackConf where
  params : LoopParams
  update : UpdateStats
  rx : Nat
  tx : Nat

/-- Where the loop is: at its head, behind a get of packets that it waits to send, or behind the copies. -/
inductive LoopbackPhase
  | head
  | waiting (packets : List NdpPacket)
  | copied
  | ended (e : LoopEnd)

/-- The two channels and the variables of the loop; `lost` are packets that it got and released without sending them. -/
structure Loopback where
  rx : RxV1
  tx : TxV1Wire
  si : StatsInfo
  burstSize : U32
  phase : LoopbackPhase
  stop : Bool
  lost : List NdpPacket

/-- What a step of the loop meets: requests for statistics, and what the hardware does during its calls. -/
structure LoopbackEnv where
  requests : LimitRound
  rxGet : Nat → RxByteEnv
  rxPut : RxByteEnv
  txGet : Nat → Nat
  txPut : Nat

/-- A step of the loop, the signal to stop, or a call of somebody else on one of the channels. -/
inductive LoopbackAct
  | loop (e : LoopbackEnv)
  | stop
  | rx (a : RxV1Act)
  | tx (a : TxV1WireAct)

/-- The calls of the others are not those of the loop, and other senders see to what they have to. -/
def LoopbackAct.Outside (c : LoopbackConf) : LoopbackAct → Prop
  | .rx a => a.Other c.rx
  | .tx a => a.Other c.tx ∧ a.Fits
  | _ => True

/-- What the TX queue is asked for; it sets the pointers. -/
def txPacket (x : NdpPacket) : NdpPacket := { header := 0, headerLength := 0, data := 0, dataLength := x.dataLength, flags := 0 }

namespace Loopback

variable (c : LoopbackConf)

/-- The data of packets in the ring of the RX queue. -/
def contents (s : Loopback) (packets : List NdpPacket) : List V1Content :=
  packets.map fun x => ⟨[], readBytes ((s.rx.q c.rx).read s.rx.ch.ctrl) x.data x.dataLength.toNat⟩

/-- The head of a round, down to the test for an empty burst; behind the loop follows a flush. -/
def headStep (s : Loopback) (e : LoopbackEnv) : Loopback :=
  if s.stop then { s with tx := s.tx.step (.flush c.tx e.txPut), phase := .ended .stop }
  else
    match checkLimits c.params c.update e.requests s.si s.burstSize with
    | (si, .inl last) => { s with si, tx := s.tx.step (.flush c.tx e.txPut), phase := .ended last }
    | (si, .inr burstSize) =>
      let packets := s.rx.burst c.rx e.rxGet burstSize.toNat
      let si := c.update.update e.requests.stats (packets.map (·.dataLength)) (c.update.visit e.requests.atUpdate si)
      let s := { s with rx := s.rx.step (.get c.rx e.rxGet burstSize.toNat), si, burstSize }
      if packets = [] then { s with tx := s.tx.step (.flush c.tx e.txPut) } else { s with phase := .waiting packets }

/-- One attempt to get the space; without it another one follows unless the loop is stopped, and then nothing is copied. -/
def waitStep (s : Loopback) (e : LoopbackEnv) (packets : List NdpPacket) : Loopback :=
  match s.tx.send c.tx e.txGet (packets.map txPacket) (s.contents c packets) with
  | (tx, cnt) =>
    if cnt = packets.length then { s with tx, phase := .copied }
    else if s.stop then { s with tx, phase := .copied, lost := packets }
    else { s with tx }

/-- One step of `ndp_mode_loopback_loop`. -/
def loopStep (s : Loopback) (e : LoopbackEnv) : Loopback :=
  match s.phase with
  | .head => s.headStep c e
  | .waiting packets => s.waitStep c e packets
  | .copied => { s with rx := s.rx.step (.put c.rx e.rxPut), tx := s.tx.step (.put c.tx e.txPut), phase := .head }
  | .ended _ => s

def step (s : Loopback) : LoopbackAct → Loopback
  | .loop e => s.loopStep c e
  | .stop => { s with stop := true }
  | .rx a => { s with rx := s.rx.step a }
  | .tx a => { s with tx := s.tx.step a }

/-- The loop at its start, on channels in any state. -/
def init (rx : RxV1) (tx : TxV1Wire) (incremental : Bool) : Loopback where
  rx := rx
  tx := tx
  si := .init incremental
  burstSize := c.params.burstSize
  phase := .head
  stop := false
  lost := []

/-- The packets that the loop waits to send. -/
def pending (s : Loopback) : List NdpPacket :=
  match s.phase with
  | .waiting packets => packets
  | _ => []

end Loopback

/-! ## The invariant -/

/-- What is copied: a packet without header that has the data of the frame. -/
def Copies (l : Laid) (fs : List V1RxFrame) : Prop := l.map (fun xc => (xc.2.header, xc.2.data)) = fs.map fun f => ([], f.payload)

theorem Copies.append {l l' : Laid} {fs fs' : List V1RxFrame} (h : Copies l fs) (h' : Copies l' fs') : Copies (l ++ l') (fs ++ fs') := by
  unfold Copies at h h' ⊢
  rw [List.map_append, List.map_append, h, h']

variable {kr kt : Nat} {br bt : Nat → Int} {c : LoopbackConf} {acts : List LoopbackAct} {s₀ : Loopback}

/-- The loop has got `m` packets, the frames from number `n` on, and has sent `l`. -/
structure LoopbackInv (kr kt : Nat) (br bt : Nat → Int) (c : LoopbackConf) (s₀ s : Loopback) (n m r : Nat) (l : Laid) : Prop where
  reader : RxV1.ReaderAt kr br s.rx c.rx (n + m) r
  got : (s.rx.got c.rx).length = (s₀.rx.got c.rx).length + m
  sender : TxV1Wire.SenderAt kt bt s.tx c.tx
  sent : s.tx.sentBy c.tx = s₀.tx.sentBy c.tx ++ l
  copies : Copies l ((s.rx.ch.ctrl.frames.drop n).take l.length)
  count : m = l.length + s.pending.length + s.lost.length
  hand : s.pending ≠ [] → RxV1.InHand kr br s.rx c.rx (n + l.length) r s.pending
  stopped : s.lost ≠ [] → s.stop = true ∧ s.pending = []
  ended : ∀ e, s.phase = .ended e → (s.tx.tx.held c.tx).flatten = []
  waits : ∀ packets, s.phase = .waiting packets → packets ≠ []

namespace LoopbackInv

variable {s₀ s : Loopback} {n m r : Nat} {l : Laid}

theorem sent_le (h : LoopbackInv kr kt br bt c s₀ s n m r l) : n + l.length ≤ s.rx.ch.ctrl.frames.length := by
  have hle := h.reader.released_le.2
  have hcount := h.count
  omega

theorem grow (h : LoopbackInv kr kt br bt c s₀ s n m r l) {fs : List V1RxFrame} (hgrown : ∃ gs, fs = s.rx.ch.ctrl.frames ++ gs) :
    Copies l ((fs.drop n).take l.length) := by
  obtain ⟨gs, rfl⟩ := hgrown
  have hle := h.sent_le
  rw [List.drop_append_of_le_length (by omega), List.take_append_of_le_length (by rw [List.length_drop]; omega)]
  exact h.copies

theorem withRx (h : LoopbackInv kr kt br bt c s₀ s n m r l) {rx : RxV1} (hreader : RxV1.ReaderAt kr br rx c.rx (n + m) r)
    (hgoes : RxV1.Goes s.rx rx c.rx []) : LoopbackInv kr kt br bt c s₀ { s with rx } n m r l where
  reader := hreader
  got := by
    show (rx.got c.rx).length = _
    rw [hgoes.got, List.append_nil]
    exact h.got
  sender := h.sender
  sent := h.sent
  copies := h.grow hgoes.grown
  count := h.count
  hand hne := (h.hand hne).mono h.sent_le hgoes.grown
  stopped := h.stopped
  ended := h.ended
  waits := h.waits

theorem withTx (h : LoopbackInv kr kt br bt c s₀ s n m r l) {tx : TxV1Wire} (hsender : TxV1Wire.SenderAt kt bt tx c.tx)
    (hsent : tx.sentBy c.tx = s.tx.sentBy c.tx) (hheld : ∀ e, s.phase = .ended e → (tx.tx.held c.tx).flatten = []) :
    LoopbackInv kr kt br bt c s₀ { s with tx } n m r l where
  reader := h.reader
  got := h.got
  sender := hsender
  sent := hsent.trans h.sent
  copies := h.copies
  count := h.count
  hand := h.hand
  stopped := h.stopped
  ended := hheld
  waits := h.waits

theorem withStats (h : LoopbackInv kr kt br bt c s₀ s n m r l) (si : StatsInfo) (burstSize : U32) :
    LoopbackInv kr kt br bt c s₀ { s with si, burstSize } n m r l :=
  ⟨h.reader, h.got, h.sender, h.sent, h.copies, h.count, h.hand, h.stopped, h.ended, h.waits⟩

theorem withPhase (h : LoopbackInv kr kt br bt c s₀ s n m r l) (hnone : s.pending = []) {phase : LoopbackPhase}
    (hphase : ∀ packets, phase ≠ .waiting packets) (hheld : ∀ e, phase = .ended e → (s.tx.tx.held c.tx).flatten = []) :
    LoopbackInv kr kt br bt c s₀ { s with phase } n m r l := by
  have hpending : ({ s with phase } : Loopback).pending = [] := by
    cases phase with
    | waiting packets => exact absurd rfl (hphase packets)
    | head => rfl
    | copied => rfl
    | ended e => rfl
  refine ⟨h.reader, h.got, h.sender, h.sent, h.copies, ?_, fun hne => absurd hpending hne, fun hl => ⟨(h.stopped hl).1, hpending⟩, hheld,
    fun packets hp => absurd hp (hphase packets)⟩
  rw [hpending, ← hnone]
  exact h.count

/-! ## Steps -/

theorem ends (h : LoopbackInv kr kt br bt c s₀ s n m r l) (hphase : s.phase = .head) (e : LoopEnd) (hw : Nat) :
    LoopbackInv kr kt br bt c s₀ { s with tx := s.tx.step (.flush c.tx hw), phase := .ended e } n m r l := by
  have hnone : s.pending = [] := by rw [Loopback.pending, hphase]
  obtain ⟨hsender, hsent, hheld⟩ := h.sender.flush hw
  have htx := h.withTx hsender hsent fun _ he => absurd (hphase.symm.trans he) (by simp)
  exact htx.withPhase hnone (fun _ => by simp) fun _ _ => hheld

theorem head (h : LoopbackInv kr kt br bt c s₀ s n m r l) (hphase : s.phase = .head) (e : LoopbackEnv) :
    ∃ m', LoopbackInv kr kt br bt c s₀ (s.headStep c e) n m' r l := by
  have hnone : s.pending = [] := by rw [Loopback.pending, hphase]
  unfold Loopback.headStep
  by_cases hstop : s.stop = true
  · rw [if_pos hstop]
    exact ⟨m, h.ends hphase .stop e.txPut⟩
  rw [if_neg hstop]
  rcases checkLimits c.params c.update e.requests s.si s.burstSize with ⟨si, last | burstSize⟩
  · exact ⟨m, (h.withStats si s.burstSize).ends hphase last e.txPut⟩
  simp only
  obtain ⟨pkts, hreader, hgoes, -, hdelivered⟩ := h.reader.get e.rxGet burstSize.toNat
  have hburst : s.rx.burst c.rx e.rxGet burstSize.toNat = pkts := by
    rw [RxV1.burst, hgoes.got, List.drop_left]
  rw [hburst]
  generalize c.update.update e.requests.stats (pkts.map (·.dataLength)) (c.update.visit e.requests.atUpdate si) = si'
  generalize hrx : s.rx.step (.get c.rx e.rxGet burstSize.toNat) = rx at hreader hgoes hdelivered
  by_cases hpkts : pkts = []
  · -- nothing is there: the packets so far are flushed
    subst hpkts
    rw [if_pos rfl]
    obtain ⟨hsender, hsent, -⟩ := h.sender.flush e.txPut
    refine ⟨m, ((h.withRx hreader hgoes).withStats si' burstSize).withTx hsender hsent fun _ he => ?_⟩
    exact absurd (hphase.symm.trans he) (by simp)
  · rw [if_neg hpkts]
    have hlost : s.lost = [] := by
      by_contra hl
      exact hstop (h.stopped hl).1
    have hcount := h.count
    rw [hnone, hlost, List.length_nil] at hcount
    have hkept := h.reader.released_le
    refine ⟨m + pkts.length, ⟨?_, ?_, h.sender, h.sent, h.grow hgoes.grown, ?_, fun _ => ?_, fun hl => absurd hlost hl,
      fun _ he => absurd he (by simp), fun _ hp => LoopbackPhase.waiting.inj hp ▸ hpkts⟩⟩
    · rw [← Nat.add_assoc]
      exact hreader
    · show (rx.got c.rx).length = _
      rw [hgoes.got, List.length_append, h.got, Nat.add_assoc]
    · show m + pkts.length = l.length + pkts.length + s.lost.length
      rw [hlost, List.length_nil]
      omega
    · obtain rfl : m = l.length := by omega
      obtain ⟨gs, hgs⟩ := hgoes.grown
      refine ⟨?_, hdelivered⟩
      show r ≤ bound rx.ch.ctrl.frames _
      rw [hgs, bound_append gs hkept.2]
      exact hkept.1

theorem wait (h : LoopbackInv kr kt br bt c s₀ s n m r l) {packets : List NdpPacket} (hphase : s.phase = .waiting packets)
    (e : LoopbackEnv) : ∃ l', LoopbackInv kr kt br bt c s₀ (s.waitStep c e packets) n m r l' := by
  have hne := h.waits packets hphase
  have hpending : s.pending = packets := by rw [Loopback.pending, hphase]
  have hhand := h.hand (by rw [hpending]; exact hne)
  rw [hpending] at hhand
  have hlost : s.lost = [] := by
    by_contra hl
    exact hne (hpending.symm.trans (h.stopped hl).2)
  have hdata := h.reader.contents hhand
  have hof : List.Forall₂ V1Content.Of (packets.map txPacket) (s.contents c packets) := by
    rw [Loopback.contents, List.forall₂_map_left_iff, List.forall₂_map_right_iff, List.forall₂_same]
    intro x _
    exact ⟨rfl, by simp [readBytes, txPacket]⟩
  have hfit : ∀ x ∈ packets.map txPacket, v1PaddedSize x < 2 ^ 16 := by
    intro y hy
    obtain ⟨x, hx, rfl⟩ := List.mem_map.1 hy
    have hsmall := hhand.fits hx
    show (0 + 11) / 8 * 8 + (x.dataLength.toNat + 7) / 8 * 8 < 2 ^ 16
    omega
  obtain ⟨hsender, hsent⟩ := h.sender.send e.txGet hof hfit
  have hcount := h.count
  rw [hpending] at hcount
  unfold Loopback.waitStep
  rcases hrun : s.tx.send c.tx e.txGet (packets.map txPacket) (s.contents c packets) with ⟨tx, cnt⟩
  rw [hrun, List.length_map] at hsent
  rw [hrun] at hsender
  simp only at hsender hsent ⊢
  have hpos : 0 < packets.length := List.length_pos_iff.2 hne
  rcases hsent with ⟨rfl, hsent⟩ | ⟨rfl, hsent⟩
  · -- no space
    rw [if_neg (by omega)]
    have htx := h.withTx hsender hsent fun _ he => absurd (hphase.symm.trans he) (by simp)
    by_cases hstop : s.stop = true
    · rw [if_pos hstop]
      refine ⟨l, htx.reader, htx.got, hsender, htx.sent, htx.copies, ?_, fun hp => absurd rfl hp, fun _ => ⟨hstop, rfl⟩,
        fun _ he => absurd he (by simp), fun _ hp => absurd hp (by simp)⟩
      show m = l.length + 0 + packets.length
      rw [hlost, List.length_nil] at hcount
      omega
    · rw [if_neg hstop]
      exact ⟨l, htx⟩
  · -- the copies
    rw [if_pos rfl]
    have hlen : ((packets.map txPacket).zip (s.contents c packets)).length = packets.length := by
      rw [List.length_zip, Loopback.contents, List.length_map, List.length_map, Nat.min_self]
    refine ⟨l ++ (packets.map txPacket).zip (s.contents c packets), h.reader, h.got, hsender, ?_, ?_, ?_, fun hp => absurd rfl hp,
      fun hl => absurd hlost hl, fun _ he => absurd he (by simp), fun _ hp => absurd hp (by simp)⟩
    · rw [← List.append_assoc, ← h.sent]
      exact hsent
    · rw [List.length_append, hlen, List.take_add, List.drop_drop]
      refine h.copies.append ?_
      show List.map _ _ = _
      rw [show (fun xc : NdpPacket × V1Content => (xc.2.header, xc.2.data)) = (fun v : V1Content => (v.header, v.data)) ∘ Prod.snd from rfl,
        ← List.map_map, List.map_snd_zip (by rw [Loopback.contents, List.length_map, List.length_map]), Loopback.contents, List.map_map]
      have hpair := congrArg (List.map fun bs : List U8 => (([] : List U8), bs)) hdata
      rw [List.map_map, List.map_map] at hpair
      exact hpair
    · show m = (l ++ _).length + 0 + s.lost.length
      rw [List.length_append, hlen, hcount]
      omega

theorem loop (h : LoopbackInv kr kt br bt c s₀ s n m r l) (e : LoopbackEnv) :
    ∃ m' r' l', LoopbackInv kr kt br bt c s₀ (s.loopStep c e) n m' r' l' := by
  unfold Loopback.loopStep
  split
  case h_1 hphase =>
    obtain ⟨m', hhead⟩ := h.head hphase e
    exact ⟨m', r, l, hhead⟩
  case h_2 packets hphase =>
    obtain ⟨l', hwait⟩ := h.wait hphase e
    exact ⟨m, r, l', hwait⟩
  case h_3 hphase =>
    have hnone : s.pending = [] := by rw [Loopback.pending, hphase]
    have hended : ∀ e, s.phase = .ended e → (s.tx.tx.held c.tx).flatten = [] := fun _ he => absurd (hphase.symm.trans he) (by simp)
    obtain ⟨r', hreader, hgoes⟩ := h.reader.put e.rxPut
    obtain ⟨hsender, hsent⟩ := h.sender.put e.txPut
    have htx := (h.withPhase hnone (fun _ => by simp) fun _ he => absurd he (by simp)).withTx (s := { s with phase := .head }) hsender hsent
      fun _ he => absurd he (by simp)
    exact ⟨m, r', l, ⟨hreader, (congrArg List.length (hgoes.got.trans (List.append_nil _))).trans h.got, hsender, htx.sent,
      h.grow hgoes.grown, htx.count, fun hne => absurd rfl hne, htx.stopped, htx.ended, htx.waits⟩⟩
  case h_4 => exact ⟨m, r, l, h⟩

theorem step (h : LoopbackInv kr kt br bt c s₀ s n m r l) {a : LoopbackAct} (ha : a.Outside c) :
    ∃ m' r' l', LoopbackInv kr kt br bt c s₀ (s.step c a) n m' r' l' := by
  cases a with
  | loop e => exact h.loop e
  | stop =>
    exact ⟨m, r, l, h.reader, h.got, h.sender, h.sent, h.copies, h.count, h.hand, fun hl => ⟨rfl, (h.stopped hl).2⟩, h.ended, h.waits⟩
  | rx a =>
    obtain ⟨hreader, hgoes⟩ := h.reader.other ha
    exact ⟨m, r, l, h.withRx hreader hgoes⟩
  | tx a =>
    obtain ⟨hsender, hsent, hheld⟩ := h.sender.other ha.1 ha.2
    exact ⟨m, r, l, h.withTx hsender hsent fun e he => by rw [hheld]; exact h.ended e he⟩

end LoopbackInv

/-! ## The stop during the wait -/

/-- The burst was lost by a stop that came while the loop waited to send it, at an attempt without the space. -/
def LostInWait (c : LoopbackConf) (s₀ : Loopback) (acts : List LoopbackAct) (packets : List NdpPacket) : Prop :=
  ∃ before between e after, acts = before ++ .stop :: between ++ .loop e :: after ∧
    (run (Loopback.step c) s₀ before).phase = .waiting packets ∧
    (run (Loopback.step c) s₀ (before ++ .stop :: between)).phase = .waiting packets ∧
    let s := run (Loopback.step c) s₀ (before ++ .stop :: between)
    (s.tx.send c.tx e.txGet (packets.map txPacket) (s.contents c packets)).2 ≠ packets.length

/-- The stops and the losses of a run so far. -/
structure StopInv (c : LoopbackConf) (s₀ : Loopback) (acts : List LoopbackAct) : Prop where
  stopped : ∀ packets, (run (Loopback.step c) s₀ acts).phase = .waiting packets → (run (Loopback.step c) s₀ acts).stop = true →
    ∃ before between, acts = before ++ .stop :: between ∧ (run (Loopback.step c) s₀ before).phase = .waiting packets
  lost : (run (Loopback.step c) s₀ acts).lost ≠ [] → LostInWait c s₀ acts (run (Loopback.step c) s₀ acts).lost

theorem LostInWait.more {s₀ : Loopback} {acts : List LoopbackAct} {packets : List NdpPacket} (h : LostInWait c s₀ acts packets)
    (a : LoopbackAct) : LostInWait c s₀ (acts ++ [a]) packets := by
  obtain ⟨before, between, e, after, rfl, hbefore, hbetween, hspace⟩ := h
  exact ⟨before, between, e, after ++ [a], by simp, hbefore, hbetween, hspace⟩

theorem StopInv.same (h : StopInv c s₀ acts) {a : LoopbackAct} {s : Loopback} (hrun : run (Loopback.step c) s₀ (acts ++ [a]) = s)
    (hphase : ∀ packets, s.phase = .waiting packets → s.stop = true → (run (Loopback.step c) s₀ acts).phase = .waiting packets ∧ (run (Loopback.step c) s₀ acts).stop = true)
    (hlost : s.lost = (run (Loopback.step c) s₀ acts).lost) : StopInv c s₀ (acts ++ [a]) := by
  constructor
  case stopped =>
    rw [hrun]
    intro packets hp hs
    obtain ⟨hp, hs⟩ := hphase packets hp hs
    obtain ⟨before, between, rfl, hbefore⟩ := h.stopped packets hp hs
    exact ⟨before, between ++ [a], by simp, hbefore⟩
  case lost =>
    rw [hrun, hlost]
    exact fun hne => (h.lost hne).more a

theorem headStep_stop (s : Loopback) (e : LoopbackEnv) : (s.headStep c e).lost = s.lost ∧
    ∀ packets, (s.headStep c e).phase = .waiting packets → (s.headStep c e).stop = true → s.phase = .waiting packets ∧ s.stop = true := by
  unfold Loopback.headStep
  split
  next => exact ⟨rfl, nofun⟩
  next hstop =>
    split
    next => exact ⟨rfl, nofun⟩
    next =>
      dsimp only
      split
      · exact ⟨rfl, fun _ _ hs => absurd hs hstop⟩
      · exact ⟨rfl, fun _ _ hs => absurd hs hstop⟩

theorem StopInv.loop (h : StopInv c s₀ acts) (e : LoopbackEnv) : StopInv c s₀ (acts ++ [.loop e]) := by
  have hrun : run (Loopback.step c) s₀ (acts ++ [.loop e]) = (run (Loopback.step c) s₀ acts).loopStep c e := by
    rw [run_append]
    rfl
  cases hphase : (run (Loopback.step c) s₀ acts).phase with
  | head =>
    rw [Loopback.loopStep, hphase] at hrun
    exact h.same hrun (headStep_stop _ e).2 (headStep_stop _ e).1
  | copied =>
    rw [Loopback.loopStep, hphase] at hrun
    exact h.same hrun nofun rfl
  | ended last =>
    rw [Loopback.loopStep, hphase] at hrun
    exact h.same hrun (fun _ hp hs => ⟨hp, hs⟩) rfl
  | waiting packets =>
    rw [Loopback.loopStep, hphase] at hrun
    simp only [Loopback.waitStep] at hrun
    by_cases hspace : ((run (Loopback.step c) s₀ acts).tx.send c.tx e.txGet (packets.map txPacket)
        ((run (Loopback.step c) s₀ acts).contents c packets)).2 = packets.length
    · rw [if_pos hspace] at hrun
      exact h.same hrun nofun rfl
    rw [if_neg hspace] at hrun
    by_cases hstop : (run (Loopback.step c) s₀ acts).stop = true
    · -- the burst is given up
      rw [if_pos hstop] at hrun
      obtain ⟨before, between, rfl, hbefore⟩ := h.stopped packets hphase hstop
      constructor
      case stopped =>
        rw [hrun]
        exact nofun
      case lost =>
        rw [hrun]
        exact fun _ => ⟨before, between, e, [], rfl, hbefore, hphase, hspace⟩
    · rw [if_neg hstop] at hrun
      exact h.same hrun (fun _ hp hs => ⟨hp, hs⟩) rfl

theorem stopInv_run (hphase : s₀.phase = .head) (hlost : s₀.lost = []) (acts : List LoopbackAct) : StopInv c s₀ acts := by
  induction acts using List.reverseRecOn with
  | nil => exact ⟨fun _ hp => absurd (hphase.symm.trans hp) (by simp), fun hne => absurd hlost hne⟩
  | append_singleton acts a ih =>
    have hrun : run (Loopback.step c) s₀ (acts ++ [a]) = (run (Loopback.step c) s₀ acts).step c a := by
      rw [run_append]
      rfl
    cases a with
    | loop e => exact ih.loop e
    | stop =>
      constructor
      case stopped =>
        rw [hrun]
        exact fun packets hp _ => ⟨acts, [], rfl, hp⟩
      case lost =>
        rw [hrun]
        exact fun hne => (ih.lost hne).more .stop
    | rx a => exact ih.same hrun (fun _ hp hs => ⟨hp, hs⟩) rfl
    | tx a => exact ih.same hrun (fun _ hp hs => ⟨hp, hs⟩) rfl

/-! ## The theorem -/

/-- What the loop has done in a run: it has sent the packets `l`, which are the frames from number `n` on, and got those that it waits to
send and those that are lost as well. Those that it waits to send are the frames that follow, still in the ring and behind the position
that the loop has released. None is lost but by a stop during the wait; where the loop has ended all that it has sent is published; and what
is on the wire are the frames of all that was sent. -/
structure Forwards (c : LoopbackConf) (s₀ s : Loopback) (acts : List LoopbackAct) (n : Nat) (l : Laid) : Prop where
  sent : s.tx.sentBy c.tx = s₀.tx.sentBy c.tx ++ l
  copies : Copies l ((s.rx.ch.ctrl.frames.drop n).take l.length)
  got : (s.rx.got c.rx).length = (s₀.rx.got c.rx).length + (l.length + s.pending.length + s.lost.length)
  pending : s.pending ≠ [] → s.rx.ch.ctrl.pos (s.rx.ch.sub c.rx).swptr ≤ bound s.rx.ch.ctrl.frames (n + l.length) ∧
    s.contents c s.pending = ((s.rx.ch.ctrl.frames.drop (n + l.length)).take s.pending.length).map fun f => ⟨[], f.payload⟩
  lost : s.lost ≠ [] → LostInWait c s₀ acts s.lost
  ended : ∀ e, s.phase = .ended e → (s.tx.tx.held c.tx).flatten = []
  wire : ∃ bs, s.tx.OnTheWire bs

/-- In every run of the loop, from any state that runs of the two channels reach, it forwards the frames behind those that its RX
subscription had got before. -/
theorem loopback_forwards (hkr : kr ≤ 63) (hkt : kt ≤ 63) (memr memt : Nat → U8) (rxBefore : List RxV1Act)
    (txBefore : List TxV1WireAct) (hfits : ∀ a ∈ txBefore, a.Fits) (c : LoopbackConf) (incremental : Bool) (acts : List LoopbackAct)
    (houtside : ∀ a ∈ acts, a.Outside c) (s₀ : Loopback)
    (hs₀ : s₀ = .init c (run RxV1.step (.opened kr memr br) rxBefore) (run TxV1Wire.step (.opened kt memt bt) txBefore) incremental)
    (hrx : (s₀.rx.ch.sub c.rx).status = .running) (htx : (s₀.tx.tx.ch.sub c.tx).status = .running) :
    ∃ a l, s₀.rx.start c.rx = some (bound s₀.rx.ch.ctrl.frames a) ∧
      Forwards c s₀ (run (Loopback.step c) s₀ acts) acts (a + (s₀.rx.got c.rx).length) l := by
  have hrxInv : RxV1.Inv kr br s₀.rx := by
    rw [hs₀]
    exact run_inv RxV1.Inv.step rxBefore _ (RxV1.inv_opened hkr memr br)
  have htxInv : TxV1Wire.Inv kt bt s₀.tx := by
    rw [hs₀]
    exact run_inv_of TxV1Wire.Inv.step txBefore _ (meets_of_forall hfits _) (TxV1Wire.opened_inv hkt memt bt)
  have hphase : s₀.phase = .head ∧ s₀.lost = [] := by
    rw [hs₀]
    exact ⟨rfl, rfl⟩
  have hnone : s₀.pending = [] := by rw [Loopback.pending, hphase.1]
  obtain ⟨p, h, rels, ns, ms, hI⟩ := hrxInv
  obtain ⟨a, hstart, hcount, -⟩ := hI.got c.rx hrx
  have hzero : LoopbackInv kr kt br bt c s₀ s₀ (a + (s₀.rx.got c.rx).length) 0 (rels c.rx) [] := by
    refine ⟨⟨hrx, p, h, rels, ns, ms, hI, hcount, rfl⟩, rfl, ⟨htx, htxInv⟩, (List.append_nil _).symm, rfl, ?_,
      fun hp => absurd hnone hp, fun hl => absurd hphase.2 hl, fun _ he => absurd (hphase.1.symm.trans he) (by simp),
      fun _ hp => absurd (hphase.1.symm.trans hp) (by simp)⟩
    rw [hnone, hphase.2]
    rfl
  obtain ⟨m, r, l, hinv⟩ := run_inv_of (C := fun _ a => a.Outside c)
    (I := fun s => ∃ m r l, LoopbackInv kr kt br bt c s₀ s (a + (s₀.rx.got c.rx).length) m r l)
    (fun _ _ ha ⟨_, _, _, hinv⟩ => hinv.step ha) acts s₀ (meets_of_forall houtside s₀) ⟨0, rels c.rx, [], hzero⟩
  obtain ⟨p', h', bs, hwire⟩ := hinv.sender.inv
  refine ⟨a, l, hstart, hinv.sent, hinv.copies, ?_, fun hne => ⟨?_, ?_⟩, (stopInv_run hphase.1 hphase.2 acts).lost, hinv.ended, bs,
    hwire.onTheWire⟩
  · rw [hinv.got, hinv.count]
  · rw [hinv.reader.published]
    exact (hinv.hand hne).kept
  · have hdata := congrArg (List.map (V1Content.mk [])) (hinv.reader.contents (hinv.hand hne))
    rw [List.map_map, List.map_map] at hdata
    exact hdata

/-- A ring of 64 bytes is looped back into one of 32 bytes, which has no room for a second packet of 6 bytes as long as the hardware
has not read the first one. -/
def smallLoopback : LoopbackConf where
  params := ⟨0, 0, 0, 64, by decide, by decide⟩
  update := .single
  rx := 0
  tx := 0

def quietLoop : LoopbackEnv where
  requests := ⟨false, false, false, false, false, false, false, [], 0, 0, false⟩
  rxGet := fun _ => RxV1.quiet
  rxPut := RxV1.quiet
  txGet := fun _ => 0
  txPut := 0

/-- The first packet is sent, the second one waits. -/
def waitingLoop : List LoopbackAct :=
  [.rx (.receive RxV1.shortFrame), .loop quietLoop, .loop quietLoop, .rx (.receive RxV1.shortFrame), .loop quietLoop, .loop quietLoop,
    .loop quietLoop]

/-- The second packet is lost by the stop. -/
def stoppedLoop : List LoopbackAct := waitingLoop ++ [.stop, .loop quietLoop, .loop quietLoop, .loop quietLoop]

def startedLoopback : Loopback :=
  .init smallLoopback (run RxV1.step (.opened 6 (fun _ => 0) fun _ => 4096) [.start 0 RxV1.quiet])
    (run TxV1Wire.step (.opened 5 (fun _ => 0) fun _ => 4096) [.start 0 0]) false

theorem loopback_forwards_stopped :
    ((run (Loopback.step smallLoopback) startedLoopback waitingLoop).pending.length = 1 ∧
      ∃ a l, startedLoopback.rx.start 0 = some (bound startedLoopback.rx.ch.ctrl.frames a) ∧
        Forwards smallLoopback startedLoopback (run (Loopback.step smallLoopback) startedLoopback waitingLoop) waitingLoop
          (a + (startedLoopback.rx.got 0).length) l) ∧
      ((run (Loopback.step smallLoopback) startedLoopback stoppedLoop).tx.sentBy 0).length = 1 ∧
        (run (Loopback.step smallLoopback) startedLoopback stoppedLoop).lost.length = 1 ∧
        ∃ a l, startedLoopback.rx.start 0 = some (bound startedLoopback.rx.ch.ctrl.frames a) ∧
          Forwards smallLoopback startedLoopback (run (Loopback.step smallLoopback) startedLoopback stoppedLoop) stoppedLoop
            (a + (startedLoopback.rx.got 0).length) l := by
  refine ⟨⟨by decide +kernel, ?_⟩, by decide +kernel, by decide +kernel, ?_⟩
  · exact loopback_forwards (by decide) (by decide) (fun _ => 0) (fun _ => 0) [.start 0 RxV1.quiet] [.start 0 0]
      (by simp [TxV1WireAct.Fits]) smallLoopback false waitingLoop (by simp [waitingLoop, LoopbackAct.Outside, RxV1Act.Other])
      startedLoopback rfl (by decide +kernel) (by decide +kernel)
  · exact loopback_forwards (by decide) (by decide) (fun _ => 0) (fun _ => 0) [.start 0 RxV1.quiet] [.start 0 0]
      (by simp [TxV1WireAct.Fits]) smallLoopback false stoppedLoop
      (by simp [stoppedLoop, waitingLoop, LoopbackAct.Outside, RxV1Act.Other]) startedLoopback rfl (by decide +kernel) (by decide +kernel)

end NdkSw.Tools

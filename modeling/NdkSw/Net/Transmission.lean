/-
The start of a network interface (`nfb_net_transmission_on` and `nfb_net_transmission_off` of `net/device.c`): which queues it opens for
the channels there are, and what a failing step leaves behind.
-/
import NdkSw.Net.QueueConfig

namespace NdkSw.Net

open Ndp Ring

/-! ## Data model -/

inductive Dir where
  | rx
  | tx
  deriving DecidableEq

/-- A `struct ndp_channel`: its type, if that is RX or TX, its index and its flags. -/
structure NetChannel where
  dir : Option Dir
  index : U32
  flags : U64

/-- An open `struct ndp_queue`. -/
structure OpenQueue where
  dir : Dir
  index : U32
  started : Bool
  deriving DecidableEq

/-- A pointer to a thread: NULL, the error that `kthread_create_on_node` returned, or a thread that runs. -/
inductive Task where
  | null
  | err
  | live
  deriving DecidableEq

/-- `struct nfb_net_queue`. -/
structure NetQueue where
  ndpq : Option OpenQueue
  task : Task
  deriving DecidableEq

/-- An entry in zeroed memory. -/
def NetQueue.zero : NetQueue := { ndpq := none, task := .null }

/-- The interface: its range of queues, the queues of the module (never none), its index and its DISCARD setting. -/
structure NetIface where
  range : QueueRange
  module : NetModule
  index : U32
  discard : Bool

/-- `priv->rxqs` and `priv->txqs`, and the calls of `set_flags` so far. -/
structure NetState where
  queues : Dir → List NetQueue
  flagged : List (OpenQueue × U64)

/-- What the steps meet: the opening of each queue in turn, the results of the starts and of the creation of each thread. -/
structure OnEnv where
  opens : Nat → Bool
  start : Nat → Int
  thread : Nat → Int

/-- `NDP_CHANNEL_FLAG_DISCARD`. -/
def flagDiscard : U64 := 1

section

variable (p : NetIface) (e : OnEnv)

def NetIface.count : Dir → U32
  | .rx => p.range.rxqsCount
  | .tx => p.range.txqsCount

def NetIface.offset : Dir → U32
  | .rx => p.range.rxqsOffset
  | .tx => p.range.txqsOffset

/-- How many entries the arrays have. -/
def NetIface.mcount : Dir → U32
  | .rx => p.module.rxqc
  | .tx => p.module.txqc

/-- `chid`. -/
def NetIface.chid (d : Dir) (c : NetChannel) : U32 := (c.index + p.mcount d - p.offset d) % p.mcount d

/-- What the index of a queue is moved by against that of its channel. -/
def NetIface.shift (d : Dir) : U32 := (p.count d + p.offset d) * p.index

/-- The flags that a channel gets. -/
def NetIface.newFlags (d : Dir) (flags : U64) : U64 :=
  if d = .rx ∧ p.discard then flags ||| flagDiscard else flags &&& ~~~flagDiscard

/-! ## The loop over the channels -/

/-- How many entries are taken, by `rxqs_index` and `txqs_index`. -/
structure OnState where
  s : NetState
  taken : Dir → Nat
  ret : Int

def NetState.put (s : NetState) (d : Dir) (i : Nat) (q : NetQueue) : NetState :=
  { s with queues := Function.update s.queues d ((s.queues d).set i q) }

/-- How a pass over a channel ends: on to the next one, or out with an error. -/
inductive Pass where
  | next (st : OnState)
  | fail (st : OnState)

/-- A pass over a channel that is taken; none if it leaves the array. -/
def onChannel (d : Dir) (c : NetChannel) (st : OnState) : Option Pass :=
  let i := st.taken d
  let k := st.taken .rx + st.taken .tx
  match (st.s.queues d)[i]? with
  | none => none
  | some netq =>
    if e.opens k = false then some (.fail { st with s := st.s.put d i { netq with ndpq := none } })
    else
      let queue := { dir := d, index := c.index + p.shift d, started := false }
      if e.start k ≠ 0 then some (.fail { st with s := st.s.put d i { netq with ndpq := some queue }, ret := e.start k })
      else
        let s := st.s.put d i { netq with ndpq := some { queue with started := true } }
        let flagged := ({ dir := d, index := c.index, started := true }, p.newFlags d c.flags)
        some (.next {
          s := { s with flagged := s.flagged ++ [flagged] }
          taken := Function.update st.taken d (i + 1)
          ret := e.start k })

/-- The loop over the channels. -/
def onLoop : List NetChannel → OnState → Option Pass
  | [], st => some (.next st)
  | c :: l, st =>
    match c.dir with
    | none => onLoop l st
    | some d =>
      if p.count d ≤ p.chid d c then onLoop l st
      else
        match onChannel p e d c st with
        | some (.next st) => onLoop l st
        | r => r

/-! ## Off -/

/-- An entry is stopped; only RX has threads, and `kthread_stop` must not get an error for one. -/
def stopQueue : Dir → NetQueue → Option NetQueue
  | .rx, q => if q.task = .err then none else some { ndpq := none, task := .null }
  | .tx, q => some { q with ndpq := none }

/-- The loop over the entries of one direction; none if it leaves the array. -/
def offQueues (d : Dir) (count : Nat) (l : List NetQueue) : Option (List NetQueue) :=
  if l.length < count then none else ((l.take count).mapM (stopQueue d)).map fun q => q ++ l.drop count

/-- `nfb_net_transmission_off`. -/
def nfbNetTransmissionOff (s : NetState) : Option NetState :=
  (offQueues .rx (p.count .rx).toNat (s.queues .rx)).bind fun rx =>
  (offQueues .tx (p.count .tx).toNat (s.queues .tx)).map fun tx =>
  { s with queues := fun d => match d with | .rx => rx | .tx => tx }

/-! ## On -/

/-- The threads of entries, from number `i` on. -/
def createThreads : Nat → List NetQueue → List NetQueue × Int
  | _, [] => ([], 0)
  | i, q :: l =>
    if e.thread i ≠ 0 then ({ q with task := .err } :: l, e.thread i)
    else ({ q with task := .live } :: (createThreads (i + 1) l).1, (createThreads (i + 1) l).2)

/-- The part of `nfb_net_transmission_on` behind the loop. -/
def onFinish : Pass → Option (NetState × Int)
  | .fail st => (nfbNetTransmissionOff p st.s).map fun s => (s, st.ret)
  | .next st =>
    if (p.count .rx).toNat ≠ st.taken .rx ∨ (p.count .tx).toNat ≠ st.taken .tx then
      (nfbNetTransmissionOff p st.s).map fun s => (s, eInval)
    else
      let n := (p.count .rx).toNat
      if (st.s.queues .rx).length < n then none
      else
        let r := createThreads e 0 ((st.s.queues .rx).take n)
        let s := { st.s with queues := Function.update st.s.queues .rx (r.1 ++ (st.s.queues .rx).drop n) }
        if r.2 ≠ 0 then (nfbNetTransmissionOff p s).map fun s => (s, r.2) else some (s, st.ret)

/-- The arrays in zeroed memory. -/
def NetState.init : NetState where
  queues d := List.replicate (p.mcount d).toNat .zero
  flagged := []

/-- `nfb_net_transmission_on` of an interface that is down; none if it leaves an array or stops an invalid thread. -/
def nfbNetTransmissionOn (channels : List NetChannel) : Option (NetState × Int) :=
  (onLoop p e channels { s := .init p, taken := fun _ => 0, ret := 0 }).bind (onFinish p e)

end

/-! ## All or nothing -/

/-- An entry with a queue that is open and started, and for RX with a thread. -/
def NetQueue.Runs (d : Dir) (q : NetQueue) : Prop :=
  (∃ o, q.ndpq = some o ∧ o.dir = d ∧ o.started = true) ∧ (d = .rx → q.task = .live)

/-- The queues that are open. -/
def NetState.opened (s : NetState) : List OpenQueue := (s.queues .rx ++ s.queues .tx).filterMap (·.ndpq)

/-- The interface runs: the first entries run, as many as were requested, and the others are empty; no two queues are the same; and
DISCARD was set for exactly the channels of the open queues, as the interface has it. -/
structure Complete (p : NetIface) (s : NetState) : Prop where
  run : ∀ d, ∀ q ∈ (s.queues d).take (p.count d).toNat, q.Runs d
  enough : ∀ d, (p.count d).toNat ≤ (s.queues d).length
  rest : ∀ d, ∀ q ∈ (s.queues d).drop (p.count d).toNat, q = .zero
  distinct : s.opened.Nodup
  flagged : ∀ o, o ∈ s.opened ↔ o ∈ s.flagged.map Prod.fst
  discard : ∀ f ∈ s.flagged, (f.2 &&& flagDiscard ≠ 0) ↔ f.1.dir = .rx ∧ p.discard = true

/-- Nothing is left: no queue, no thread and no invalid pointer. -/
def Nothing (s : NetState) : Prop := ∀ d, ∀ q ∈ s.queues d, q = .zero

/-- The start is all or nothing. -/
def AllOrNothing (p : NetIface) (r : Option (NetState × Int)) : Prop :=
  ∃ s ret, r = some (s, ret) ∧ (ret = 0 → Complete p s) ∧ (ret ≠ 0 → Nothing s)

/-- The channels that the loop takes. -/
def taken (p : NetIface) (channels : List NetChannel) : List (Dir × NetChannel) :=
  channels.filterMap fun c => c.dir.bind fun d => if p.count d ≤ p.chid d c then none else some (d, c)

/-- How many of a direction. -/
def number (d : Dir) (l : List (Dir × NetChannel)) : Nat := (l.filter (·.1 = d)).length

/-- A channel, as the queue of it. -/
def channelId (c : Dir × NetChannel) : OpenQueue := { dir := c.1, index := c.2.index, started := true }

/-- The queue that is opened for it. -/
def queueId (p : NetIface) (c : Dir × NetChannel) : OpenQueue := { dir := c.1, index := c.2.index + p.shift c.1, started := true }

/-- When a start is all or nothing, behind the channels `done`: each channel has an entry among those that were requested and its queue can
be opened, up to one whose start fails; and if none does and there are as many as were requested, all threads are created, no channel is
there twice, and moving the indexes leads from the channels to the same channels. -/
def Fits (p : NetIface) (e : OnEnv) : List (Dir × NetChannel) → List (Dir × NetChannel) → Prop
  | done, [] =>
    (∀ d, number d done = (p.count d).toNat) →
      (∀ i < (p.count .rx).toNat, e.thread i = 0) ∧ (done.map channelId).Nodup ∧
        ∀ o, o ∈ done.map (queueId p) ↔ o ∈ done.map channelId
  | done, c :: l =>
    number c.1 done < (p.count c.1).toNat ∧ e.opens done.length = true ∧ (e.start done.length = 0 → Fits p e (done ++ [c]) l)

/-! ## Switching off -/

section

variable {p : NetIface} {e : OnEnv} {s : NetState} {d : Dir} {l : List NetQueue} {count : Nat} {ret : Int}

theorem mapM_stopQueue (h : ∀ q ∈ l, q.task = .null) : l.mapM (stopQueue d) = some (l.map fun _ => NetQueue.zero) := by
  induction l with
  | nil => rfl
  | cons q l ih =>
    have hq := h q (List.mem_cons_self ..)
    have hstop : stopQueue d q = some NetQueue.zero := by
      cases d with
      | rx =>
        have hno : ¬ q.task = .err := by
          rw [hq]
          exact fun h => nomatch h
        exact if_neg hno
      | tx =>
        show some ({ ndpq := none, task := q.task } : NetQueue) = _
        rw [hq]
        rfl
    rw [List.mapM_cons, hstop, ih fun r hr => h r (List.mem_cons_of_mem q hr)]
    rfl

theorem offQueues_eq (hlen : count ≤ l.length) (h : ∀ q ∈ l, q.task = .null) :
    offQueues d count l = some ((l.take count).map (fun _ => NetQueue.zero) ++ l.drop count) := by
  unfold offQueues
  rw [if_neg (Nat.not_lt.2 hlen), mapM_stopQueue fun q hq => h q (List.mem_of_mem_take hq)]
  rfl

/-- What was requested is emptied, whatever it was. -/
theorem offQueues_some {l' : List NetQueue} (h : offQueues d count l = some l') :
    count ≤ l.length ∧ l'.length = l.length ∧ ∀ q ∈ l'.take count, q.ndpq = none := by
  unfold offQueues at h
  split at h
  · cases h
  · rename_i hlen
    obtain ⟨m, hm, rfl⟩ := Option.map_eq_some_iff.1 h
    have hcount := Nat.le_of_not_lt hlen
    have hspec : ∀ {l m : List NetQueue}, l.mapM (stopQueue d) = some m → m.length = l.length ∧ ∀ q ∈ m, q.ndpq = none := by
      intro l
      induction l with
      | nil =>
        intro m hm
        cases hm
        exact ⟨rfl, fun q hq => absurd hq List.not_mem_nil⟩
      | cons q l ih =>
        intro m hm
        rw [List.mapM_cons] at hm
        obtain ⟨q', hq', hm⟩ := Option.bind_eq_some_iff.1 hm
        obtain ⟨m', hm', hm⟩ := Option.bind_eq_some_iff.1 hm
        cases hm
        obtain ⟨hl, hall⟩ := ih hm'
        refine ⟨congrArg Nat.succ hl, ?_⟩
        have hnone : q'.ndpq = none := by
          cases d with
          | rx =>
            rw [stopQueue] at hq'
            split at hq'
            · cases hq'
            · cases hq'
              rfl
          | tx =>
            cases hq'
            rfl
        intro r hr
        rcases List.mem_cons.1 hr with rfl | hr
        · exact hnone
        · exact hall r hr
    obtain ⟨hl, hall⟩ := hspec hm
    have htake : m.length = count := by rw [hl, List.length_take, Nat.min_eq_left hcount]
    refine ⟨hcount, ?_, ?_⟩
    · rw [List.length_append, List.length_drop, htake]
      omega
    · rw [List.take_append_of_le_length (Nat.le_of_eq htake.symm), List.take_of_length_le (Nat.le_of_eq htake)]
      exact hall

theorem off_iff (h : ∀ d, ∀ q ∈ s.queues d, q.task = .null) :
    (∃ s', nfbNetTransmissionOff p s = some s' ∧ Nothing s') ↔
      ∀ d, (p.count d).toNat ≤ (s.queues d).length ∧ ∀ q ∈ (s.queues d).drop (p.count d).toNat, q = NetQueue.zero := by
  unfold nfbNetTransmissionOff
  constructor
  · rintro ⟨s', hs', hnone⟩
    obtain ⟨rx, hrx, hs'⟩ := Option.bind_eq_some_iff.1 hs'
    obtain ⟨tx, htx, rfl⟩ := Option.map_eq_some_iff.1 hs'
    have hone : ∀ {d l}, offQueues d (p.count d).toNat (s.queues d) = some l → (∀ q ∈ l, q = NetQueue.zero) →
        (p.count d).toNat ≤ (s.queues d).length ∧ ∀ q ∈ (s.queues d).drop (p.count d).toNat, q = NetQueue.zero := by
      intro d l hl hzero
      have hlen := (offQueues_some hl).1
      rw [offQueues_eq hlen (h d)] at hl
      cases hl
      exact ⟨hlen, fun q hq => hzero q (List.mem_append_right _ hq)⟩
    intro d
    cases d with
    | rx => exact hone hrx (hnone .rx)
    | tx => exact hone htx (hnone .tx)
  · intro hd
    rw [offQueues_eq (hd .rx).1 (h .rx), offQueues_eq (hd .tx).1 (h .tx)]
    refine ⟨_, rfl, ?_⟩
    have hone : ∀ d, ∀ q ∈ ((s.queues d).take (p.count d).toNat).map (fun _ => NetQueue.zero) ++ (s.queues d).drop (p.count d).toNat,
        q = NetQueue.zero := by
      intro d q hq
      rcases List.mem_append.1 hq with hq | hq
      · obtain ⟨r, -, rfl⟩ := List.mem_map.1 hq
        rfl
      · exact (hd d).2 q hq
    intro d
    cases d with
    | rx => exact hone .rx
    | tx => exact hone .tx

theorem fail_iff (hret : ret ≠ 0) (h : ∀ d, ∀ q ∈ s.queues d, q.task = .null) :
    AllOrNothing p ((nfbNetTransmissionOff p s).map fun s => (s, ret)) ↔
      ∀ d, (p.count d).toNat ≤ (s.queues d).length ∧ ∀ q ∈ (s.queues d).drop (p.count d).toNat, q = NetQueue.zero := by
  rw [← off_iff h]
  constructor
  · rintro ⟨s', r, heq, -, hnone⟩
    obtain ⟨s₁, hs₁, hpair⟩ := Option.map_eq_some_iff.1 heq
    obtain ⟨rfl, rfl⟩ := Prod.mk.inj hpair
    exact ⟨_, hs₁, hnone hret⟩
  · rintro ⟨s', hs', hnone⟩
    exact ⟨s', ret, by rw [hs']; rfl, fun h0 => absurd h0 hret, fun _ => hnone⟩

theorem fail_zero (hd : 0 < (p.count d).toNat) : ¬ AllOrNothing p ((nfbNetTransmissionOff p s).map fun s => (s, 0)) := by
  rintro ⟨s', r, heq, hcomplete, -⟩
  obtain ⟨s₁, hs₁, hpair⟩ := Option.map_eq_some_iff.1 heq
  obtain ⟨rfl, rfl⟩ := Prod.mk.inj hpair
  have hc := hcomplete rfl
  obtain ⟨rx, hrx, hs₁⟩ := Option.bind_eq_some_iff.1 hs₁
  obtain ⟨tx, htx, rfl⟩ := Option.map_eq_some_iff.1 hs₁
  have hone : ∀ {l}, offQueues d (p.count d).toNat (s.queues d) = some l → ¬ ∀ q ∈ l.take (p.count d).toNat, q.Runs d := by
    intro l hl hruns
    obtain ⟨hlen, hlen', hnone⟩ := offQueues_some hl
    have hpos : 0 < (l.take (p.count d).toNat).length := by
      rw [List.length_take]
      omega
    obtain ⟨q, t, hq⟩ := List.exists_cons_of_length_pos hpos
    have hmem : q ∈ l.take (p.count d).toNat := by
      rw [hq]
      exact List.mem_cons_self ..
    obtain ⟨⟨o, ho, -⟩, -⟩ := hruns q hmem
    rw [hnone q hmem] at ho
    cases ho
  cases d with
  | rx => exact hone hrx (hc.run .rx)
  | tx => exact hone htx (hc.run .tx)

end

/-! ## The loop -/

section

variable (p : NetIface)

/-- The entry of a channel. -/
def entry (c : Dir × NetChannel) : NetQueue := { ndpq := some (queueId p c), task := .null }

/-- The arrays behind the channels `done`: their entries from the start on. -/
def slots (done : List (Dir × NetChannel)) (d : Dir) : List NetQueue :=
  (done.filter (·.1 = d)).map (entry p) ++ List.replicate ((p.mcount d).toNat - number d done) .zero

def stateAt (done : List (Dir × NetChannel)) : NetState where
  queues := slots p done
  flagged := done.map fun c => (channelId c, p.newFlags c.1 c.2.flags)

def onStateAt (done : List (Dir × NetChannel)) : OnState where
  s := stateAt p done
  taken d := number d done
  ret := 0

variable {p} {e : OnEnv} {done : List (Dir × NetChannel)} {d d' : Dir} {c : NetChannel}

theorem filter_same (c : Dir × NetChannel) (h : c.1 = d) : [c].filter (·.1 = d) = [c] :=
  List.filter_cons_of_pos (decide_eq_true h)

theorem filter_other (c : Dir × NetChannel) (h : c.1 ≠ d) : [c].filter (·.1 = d) = [] :=
  List.filter_cons_of_neg (by rw [decide_eq_true_eq]; exact h)

theorem number_append (d' : Dir) (c : Dir × NetChannel) :
    number d' (done ++ [c]) = if d' = c.1 then number d' done + 1 else number d' done := by
  unfold number
  rw [List.filter_append, List.length_append]
  by_cases h : d' = c.1
  · rw [if_pos h, filter_same c h.symm]
    rfl
  · rw [if_neg h, filter_other c fun h' => h h'.symm]
    rfl

theorem number_sum (l : List (Dir × NetChannel)) : number .rx l + number .tx l = l.length := by
  induction l with
  | nil => rfl
  | cons c l ih =>
    obtain ⟨d, c⟩ := c
    unfold number at ih ⊢
    cases d with
    | rx => simp; omega
    | tx => simp; omega

theorem length_slots (h : number d done ≤ (p.mcount d).toNat) : (slots p done d).length = (p.mcount d).toNat := by
  have hnum : ((done.filter (·.1 = d)).map (entry p)).length = number d done := List.length_map ..
  unfold slots
  rw [List.length_append, hnum, List.length_replicate]
  omega

theorem slots_task {q : NetQueue} (hq : q ∈ slots p done d) : q.task = .null := by
  rcases List.mem_append.1 hq with hq | hq
  · obtain ⟨c, -, rfl⟩ := List.mem_map.1 hq
    rfl
  · rw [(List.mem_replicate.1 hq).2]
    rfl

theorem slots_next : (slots p done d)[number d done]? = if number d done < (p.mcount d).toNat then some NetQueue.zero else none := by
  have hnum : ((done.filter (·.1 = d)).map (entry p)).length = number d done := List.length_map ..
  unfold slots
  rw [List.getElem?_append_right (Nat.le_of_eq hnum), hnum, Nat.sub_self, List.getElem?_replicate]
  by_cases h : number d done < (p.mcount d).toNat
  · rw [if_pos h, if_pos (by omega)]
  · rw [if_neg h, if_neg (by omega)]

theorem set_slots (h : number d done < (p.mcount d).toNat) (q : NetQueue) :
    (slots p done d).set (number d done) q =
      (done.filter (·.1 = d)).map (entry p) ++ q :: List.replicate ((p.mcount d).toNat - number d done - 1) .zero := by
  have hnum : ((done.filter (·.1 = d)).map (entry p)).length = number d done := List.length_map ..
  obtain ⟨m, hm⟩ : ∃ m, (p.mcount d).toNat - number d done = m + 1 := ⟨(p.mcount d).toNat - number d done - 1, by omega⟩
  unfold slots
  rw [hm, List.set_append_right _ _ (Nat.le_of_eq hnum), hnum, Nat.sub_self]
  rfl

theorem slots_append (h : number d done < (p.mcount d).toNat) :
    slots p (done ++ [(d, c)]) d = (slots p done d).set (number d done) (entry p (d, c)) := by
  rw [set_slots h]
  unfold slots
  rw [number_append, if_pos rfl, List.filter_append, filter_same (d := d) (d, c) rfl, List.map_append, List.append_assoc, Nat.sub_add_eq]
  rfl

theorem slots_append_ne (hd : d' ≠ d) : slots p (done ++ [(d, c)]) d' = slots p done d' := by
  unfold slots
  rw [number_append, if_neg hd, List.filter_append, filter_other _ (Ne.symm hd), List.append_nil]

theorem onChannel_none (h : ¬ number d done < (p.mcount d).toNat) : onChannel p e d c (onStateAt p done) = none := by
  unfold onChannel onStateAt stateAt
  dsimp only
  rw [slots_next, if_neg h]

/-- The queue of a channel that is not started. -/
def unstarted (p : NetIface) (c : Dir × NetChannel) : NetQueue := { ndpq := some { queueId p c with started := false }, task := .null }

/-- One pass: out with nothing changed, out with a queue that is open but not started, or on with one more channel. -/
theorem onChannel_eq (h : number d done < (p.mcount d).toNat) :
    onChannel p e d c (onStateAt p done) =
      if e.opens done.length = false then some (.fail (onStateAt p done))
      else if e.start done.length ≠ 0 then
        some (.fail { onStateAt p done with s := (stateAt p done).put d (number d done) (unstarted p (d, c)), ret := e.start done.length })
      else some (.next (onStateAt p (done ++ [(d, c)]))) := by
  have hk : number .rx done + number .tx done = done.length := number_sum done
  have hget : (slots p done d)[number d done]? = some NetQueue.zero := by rw [slots_next, if_pos h]
  have hset : (slots p done d).set (number d done) NetQueue.zero = slots p done d := by
    obtain ⟨hlt, heq⟩ := List.getElem?_eq_some_iff.1 hget
    rw [← heq]
    exact List.set_getElem_self hlt
  have hsame : (stateAt p done).put d (number d done) NetQueue.zero = stateAt p done := by
    unfold NetState.put stateAt
    dsimp only
    rw [hset, Function.update_eq_self]
  have hnext : Function.update (slots p done) d ((slots p done d).set (number d done) (entry p (d, c))) = slots p (done ++ [(d, c)]) := by
    funext d'
    by_cases hd : d' = d
    · subst hd
      rw [Function.update_self, slots_append h]
    · rw [Function.update_of_ne hd, slots_append_ne hd]
  have htaken : Function.update (fun d => number d done) d (number d done + 1) = fun d' => number d' (done ++ [(d, c)]) := by
    funext d'
    rw [number_append]
    by_cases hd : d' = d
    · subst hd
      rw [Function.update_self, if_pos rfl]
    · rw [Function.update_of_ne hd, if_neg hd]
  have hflag : (stateAt p done).flagged ++ [(channelId (d, c), p.newFlags d c.flags)] = (stateAt p (done ++ [(d, c)])).flagged := by
    unfold stateAt
    rw [List.map_append]
    rfl
  unfold onChannel onStateAt
  dsimp only
  rw [hk, show (stateAt p done).queues d = slots p done d from rfl, hget]
  dsimp only
  by_cases hopen : e.opens done.length = false
  · rw [if_pos hopen, if_pos hopen]
    exact congrArg (fun s => some (Pass.fail { s := s, taken := fun d => number d done, ret := 0 })) hsame
  · rw [if_neg hopen, if_neg hopen]
    by_cases hstart : e.start done.length = 0
    · rw [if_neg (not_not_intro hstart), if_neg (not_not_intro hstart), htaken, hstart]
      have hs : stateAt p (done ++ [(d, c)]) =
          { queues := slots p (done ++ [(d, c)]), flagged := (stateAt p (done ++ [(d, c)])).flagged } := rfl
      rw [hs, ← hnext, ← hflag]
      rfl
    · rw [if_pos hstart, if_pos hstart]
      rfl

theorem drop_slots_iff {k : Nat} : (∀ q ∈ (slots p done d).drop k, q = NetQueue.zero) ↔ number d done ≤ k := by
  have hnum : ((done.filter (·.1 = d)).map (entry p)).length = number d done := List.length_map ..
  unfold slots
  rw [List.drop_append, hnum]
  constructor
  · intro h
    by_contra hlt
    have hpos : 0 < (((done.filter (·.1 = d)).map (entry p)).drop k).length := by
      rw [List.length_drop, hnum]
      omega
    obtain ⟨q, t, hq⟩ := List.exists_cons_of_length_pos hpos
    have hmem : q ∈ ((done.filter (·.1 = d)).map (entry p)).drop k := by
      rw [hq]
      exact List.mem_cons_self ..
    obtain ⟨c, -, rfl⟩ := List.mem_map.1 (List.mem_of_mem_drop hmem)
    cases h _ (List.mem_append_left _ hmem)
  · intro hle q hq
    rw [List.drop_eq_nil_of_le (by rw [hnum]; exact hle), List.nil_append] at hq
    exact (List.mem_replicate.1 (List.mem_of_mem_drop hq)).2

theorem take_slots (h : number d done = k) : (slots p done d).take k = (done.filter (·.1 = d)).map (entry p) := by
  have hnum : ((done.filter (·.1 = d)).map (entry p)).length = number d done := List.length_map ..
  unfold slots
  rw [← h, ← hnum, List.take_left]

/-! ### Threads -/

theorem createThreads_ok : ∀ {i : Nat} {l : List NetQueue}, (∀ j < l.length, e.thread (i + j) = 0) →
    createThreads e i l = (l.map fun q => { q with task := .live }, 0)
  | _, [], _ => rfl
  | i, q :: l, h => by
    have h0 : e.thread i = 0 := h 0 (Nat.zero_lt_succ _)
    have ih := @createThreads_ok (i + 1) l fun j hj => by
      have := h (j + 1) (Nat.succ_lt_succ hj)
      rwa [Nat.add_comm j 1, ← Nat.add_assoc] at this
    rw [createThreads, if_neg (not_not_intro h0), ih]
    rfl

theorem createThreads_err : ∀ {i : Nat} {l : List NetQueue}, (¬ ∀ j < l.length, e.thread (i + j) = 0) →
    (createThreads e i l).2 ≠ 0 ∧ (createThreads e i l).1.length = l.length ∧ ∃ q ∈ (createThreads e i l).1, q.task = .err
  | _, [], h => absurd (fun j hj => absurd hj (Nat.not_lt_zero j)) h
  | i, q :: l, h => by
    rw [createThreads]
    by_cases h0 : e.thread i = 0
    · have htail : ¬ ∀ j < l.length, e.thread (i + 1 + j) = 0 := by
        intro hall
        apply h
        intro j hj
        cases j with
        | zero => exact h0
        | succ j =>
          have := hall j (Nat.lt_of_succ_lt_succ hj)
          rwa [Nat.add_assoc, Nat.add_comm 1 j] at this
      obtain ⟨hret, hlen, r, hr, herr⟩ := createThreads_err htail
      rw [if_neg (not_not_intro h0)]
      exact ⟨hret, congrArg Nat.succ hlen, r, List.mem_cons_of_mem _ hr, herr⟩
    · rw [if_pos h0]
      exact ⟨h0, rfl, _, List.mem_cons_self .., rfl⟩

theorem mapM_stopQueue_err {l : List NetQueue} (herr : ∃ q ∈ l, q.task = .err) : l.mapM (stopQueue .rx) = none := by
  obtain ⟨q, hq, ht⟩ := herr
  induction l with
  | nil => cases hq
  | cons r l ih =>
    rw [List.mapM_cons]
    rcases List.mem_cons.1 hq with rfl | hq
    · have hstop : stopQueue .rx q = none := if_pos ht
      rw [hstop]
      rfl
    · rw [ih hq]
      cases stopQueue .rx r <;> rfl

theorem off_err {s : NetState} {l l' : List NetQueue} (hq : s.queues .rx = l ++ l') (hlen : l.length = (p.count .rx).toNat)
    (herr : ∃ q ∈ l, q.task = .err) : nfbNetTransmissionOff p s = none := by
  have hoff : offQueues .rx (p.count .rx).toNat (s.queues .rx) = none := by
    unfold offQueues
    rw [hq, ← hlen, List.take_left, mapM_stopQueue_err herr]
    split <;> rfl
  unfold nfbNetTransmissionOff
  rw [hoff]
  rfl

/-! ### A whole start -/

theorem newFlags_discard (p : NetIface) (d : Dir) (flags : U64) :
    (p.newFlags d flags &&& flagDiscard ≠ 0) ↔ d = .rx ∧ p.discard = true := by
  have hset : (flags ||| flagDiscard) &&& flagDiscard ≠ 0 := by
    unfold flagDiscard
    intro h
    have := congrArg (fun x : U64 => x.getLsbD 0) h
    simp at this
  have hclear : (flags &&& ~~~flagDiscard) &&& flagDiscard = 0 := by
    rw [BitVec.and_assoc]
    unfold flagDiscard
    simp
  unfold NetIface.newFlags
  by_cases h : d = .rx ∧ p.discard = true
  · rw [if_pos h]
    exact iff_of_true hset h
  · rw [if_neg h]
    exact iff_of_false (not_not_intro hclear) h

theorem perm_ofDir (f : Dir × NetChannel → OpenQueue) (l : List (Dir × NetChannel)) :
    ((l.filter (·.1 = .rx)).map f ++ (l.filter (·.1 = .tx)).map f).Perm (l.map f) := by
  have hne : l.filter (fun c => !decide (c.1 = .rx)) = l.filter (·.1 = .tx) := by
    apply List.filter_congr
    intro c _
    obtain ⟨d, c⟩ := c
    cases d <;> rfl
  rw [← List.map_append, ← hne]
  exact (List.filter_append_perm _ l).map f

theorem queueId_nodup : (done.map (queueId p)).Nodup ↔ (done.map channelId).Nodup := by
  have hmap : done.map (queueId p) = (done.map channelId).map fun o => { o with index := o.index + p.shift o.dir } := by
    rw [List.map_map]
    rfl
  have hinj : Function.Injective fun o : OpenQueue => { o with index := o.index + p.shift o.dir } := by
    rintro ⟨d₁, i₁, s₁⟩ ⟨d₂, i₂, s₂⟩ h
    injection h with hd hi hs
    subst hd
    have hi' : i₁ = i₂ := (BitVec.add_left_inj _).1 hi
    have hs' : s₁ = s₂ := hs
    rw [hi', hs']
  rw [hmap]
  exact List.nodup_map_iff hinj

/-- The state with all threads. -/
def threaded (p : NetIface) (done : List (Dir × NetChannel)) : NetState :=
  { stateAt p done with
    queues := Function.update (slots p done) .rx
      (((done.filter (·.1 = .rx)).map (entry p)).map (fun q => { q with task := .live }) ++ (slots p done .rx).drop (p.count .rx).toNat) }

theorem threaded_tx : (threaded p done).queues .tx = slots p done .tx := by
  simp [threaded]

theorem threaded_rx : (threaded p done).queues .rx =
    ((done.filter (·.1 = .rx)).map (entry p)).map (fun q => { q with task := .live }) ++ (slots p done .rx).drop (p.count .rx).toNat := by
  simp [threaded]

/-- With as many channels as requested and all threads, what is left is that the queues differ and DISCARD is on their channels. -/
theorem complete_iff (hn : ∀ d, number d done ≤ (p.mcount d).toNat) (h : ∀ d, number d done = (p.count d).toNat) :
    Complete p (threaded p done) ↔
      (done.map channelId).Nodup ∧ ∀ o, o ∈ done.map (queueId p) ↔ o ∈ done.map channelId := by
  have hlen : (((done.filter (·.1 = .rx)).map (entry p)).map fun q => ({ q with task := .live } : NetQueue)).length =
      (p.count .rx).toNat := by
    rw [List.length_map, List.length_map]
    exact h .rx
  have hzero : ∀ d, ∀ q ∈ (slots p done d).drop (p.count d).toNat, q = NetQueue.zero := fun d => drop_slots_iff.2 (Nat.le_of_eq (h d))
  -- The open queues, in the order of the arrays.
  have hrest : ∀ {l : List NetQueue}, (∀ q ∈ l, q = NetQueue.zero) → l.filterMap (·.ndpq) = [] := by
    intro l hl
    rw [List.filterMap_eq_nil_iff]
    intro q hq
    rw [hl q hq]
    rfl
  have hopened : (threaded p done).opened =
      (done.filter (·.1 = .rx)).map (queueId p) ++ (done.filter (·.1 = .tx)).map (queueId p) := by
    have htx : (slots p done .tx).filterMap (·.ndpq) = (done.filter (·.1 = .tx)).map (queueId p) := by
      rw [← List.take_append_drop (p.count .tx).toNat (slots p done .tx), List.filterMap_append, hrest (hzero .tx), List.append_nil,
        take_slots (h .tx), List.filterMap_map, show (fun q : NetQueue => q.ndpq) ∘ entry p = some ∘ queueId p from rfl,
        List.filterMap_eq_map]
    unfold NetState.opened
    rw [threaded_rx, threaded_tx, List.filterMap_append, List.filterMap_append, hrest (hzero .rx), List.append_nil, htx,
      List.filterMap_map, List.filterMap_map,
      show ((fun q : NetQueue => q.ndpq) ∘ fun q => { q with task := .live }) ∘ entry p = some ∘ queueId p from rfl, List.filterMap_eq_map]
  have hperm := perm_ofDir (queueId p) done
  have hflagged : (threaded p done).flagged.map Prod.fst = done.map channelId := by
    show (done.map fun c => (channelId c, p.newFlags c.1 c.2.flags)).map Prod.fst = _
    rw [List.map_map]
    rfl
  have hmem : ∀ o, o ∈ (threaded p done).opened ↔ o ∈ done.map (queueId p) := by
    intro o
    rw [hopened]
    exact hperm.mem_iff
  constructor
  · intro hc
    refine ⟨?_, fun o => ?_⟩
    · rw [← queueId_nodup, ← hperm.nodup_iff, ← hopened]
      exact hc.distinct
    · rw [← hmem, hc.flagged, hflagged]
  · rintro ⟨hnodup, hset⟩
    constructor
    case run =>
      intro d q hq
      cases d with
      | rx =>
        rw [threaded_rx, ← hlen, List.take_left] at hq
        obtain ⟨r, hr, rfl⟩ := List.mem_map.1 hq
        obtain ⟨c, hc, rfl⟩ := List.mem_map.1 hr
        exact ⟨⟨queueId p c, rfl, of_decide_eq_true (List.mem_filter.1 hc).2, rfl⟩, fun _ => rfl⟩
      | tx =>
        rw [threaded_tx, take_slots (h .tx)] at hq
        obtain ⟨c, hc, rfl⟩ := List.mem_map.1 hq
        exact ⟨⟨queueId p c, rfl, of_decide_eq_true (List.mem_filter.1 hc).2, rfl⟩, fun hno => nomatch hno⟩
    case enough =>
      intro d
      cases d with
      | rx =>
        rw [threaded_rx, List.length_append, hlen]
        exact Nat.le_add_right _ _
      | tx =>
        rw [threaded_tx, length_slots (hn .tx), ← h .tx]
        exact hn .tx
    case rest =>
      intro d q hq
      cases d with
      | rx =>
        rw [threaded_rx, ← hlen, List.drop_left, hlen] at hq
        exact hzero .rx q hq
      | tx =>
        rw [threaded_tx] at hq
        exact hzero .tx q hq
    case distinct =>
      rw [hopened, hperm.nodup_iff, queueId_nodup]
      exact hnodup
    case flagged =>
      intro o
      rw [hmem, hflagged]
      exact hset o
    case discard =>
      intro f hf
      obtain ⟨c, -, rfl⟩ := List.mem_map.1 hf
      exact newFlags_discard p c.1 c.2.flags

/-- Behind the loop. -/
theorem finish_iff (hn : ∀ d, number d done ≤ (p.mcount d).toNat) :
    AllOrNothing p (onFinish p e (.next (onStateAt p done))) ↔
      (∀ d, (p.count d).toNat ≤ (p.mcount d).toNat) ∧ (∀ d, number d done ≤ (p.count d).toNat) ∧ Fits p e done [] := by
  have hlen : ∀ d, ((stateAt p done).queues d).length = (p.mcount d).toNat := fun d => length_slots (hn d)
  by_cases h : ∀ d, number d done = (p.count d).toNat
  · have hno : ¬ ((p.count .rx).toNat ≠ number .rx done ∨ (p.count .tx).toNat ≠ number .tx done) := by
      rintro (h' | h')
      · exact h' (h .rx).symm
      · exact h' (h .tx).symm
    have hcount : ∀ d, (p.count d).toNat ≤ (p.mcount d).toNat := fun d => h d ▸ hn d
    have hl : ((done.filter (·.1 = .rx)).map (entry p)).length = (p.count .rx).toNat := (List.length_map ..).trans (h .rx)
    have hfinish : onFinish p e (.next (onStateAt p done)) =
        if (createThreads e 0 ((done.filter (·.1 = .rx)).map (entry p))).2 ≠ 0 then
          (nfbNetTransmissionOff p { stateAt p done with
            queues := Function.update (slots p done) .rx
              ((createThreads e 0 ((done.filter (·.1 = .rx)).map (entry p))).1 ++ (slots p done .rx).drop (p.count .rx).toNat) }).map
            fun s => (s, (createThreads e 0 ((done.filter (·.1 = .rx)).map (entry p))).2)
        else some ({ stateAt p done with
            queues := Function.update (slots p done) .rx
              ((createThreads e 0 ((done.filter (·.1 = .rx)).map (entry p))).1 ++ (slots p done .rx).drop (p.count .rx).toNat) }, 0) := by
      have henough : ¬ ((stateAt p done).queues .rx).length < (p.count .rx).toNat := by
        rw [hlen]
        exact Nat.not_lt.2 (hcount .rx)
      refine (if_neg hno).trans ((if_neg henough).trans ?_)
      rw [← take_slots (h .rx)]
      rfl
    rw [hfinish]
    -- all requested queues are open: what can still fail are the RX threads
    by_cases ht : ∀ i < (p.count .rx).toNat, e.thread i = 0
    · have hthreads := @createThreads_ok e 0 ((done.filter (·.1 = .rx)).map (entry p)) fun j hj => by
        rw [Nat.zero_add]
        exact ht j (hl ▸ hj)
      rw [hthreads, if_neg (not_not_intro rfl)]
      show AllOrNothing p (some (threaded p done, 0)) ↔ _
      have hall : AllOrNothing p (some (threaded p done, 0)) ↔ Complete p (threaded p done) := by
        constructor
        · rintro ⟨s, r, heq, hc, -⟩
          obtain ⟨rfl, rfl⟩ := Prod.mk.inj (Option.some.inj heq)
          exact hc rfl
        · intro hc
          exact ⟨_, 0, rfl, fun _ => hc, fun h0 => absurd rfl h0⟩
      rw [hall, complete_iff hn h]
      exact ⟨fun hr => ⟨hcount, fun d => Nat.le_of_eq (h d), fun _ => ⟨ht, hr⟩⟩, fun hr => (hr.2.2 h).2⟩
    · -- a thread that was not created leaves an error where the stop looks for a thread
      have hno' : ¬ ∀ j < ((done.filter (·.1 = .rx)).map (entry p)).length, e.thread (0 + j) = 0 := by
        rw [hl]
        intro hall
        apply ht
        intro i hi
        have := hall i hi
        rwa [Nat.zero_add] at this
      obtain ⟨hret, hlen', herr⟩ := createThreads_err hno'
      rw [if_pos hret, @off_err p _ _ ((slots p done .rx).drop (p.count .rx).toNat) (by simp) (hlen'.trans hl) herr]
      refine iff_of_false ?_ fun hr => ht (hr.2.2 h).1
      rintro ⟨s, r, heq, -⟩
      cases heq
  · -- a queue is missing: all that was opened is closed again
    have hor : (p.count .rx).toNat ≠ number .rx done ∨ (p.count .tx).toNat ≠ number .tx done := by
      by_contra hno
      rw [not_or, not_not, not_not] at hno
      exact h fun d => by cases d; exacts [hno.1.symm, hno.2.symm]
    have hfinish : onFinish p e (.next (onStateAt p done)) =
        (nfbNetTransmissionOff p (stateAt p done)).map fun s => (s, eInval) := if_pos hor
    rw [hfinish, fail_iff (by decide) fun d q hq => slots_task hq]
    constructor
    · intro hd
      exact ⟨fun d => hlen d ▸ (hd d).1, fun d => drop_slots_iff.1 (hd d).2, fun hall => absurd hall h⟩
    · rintro ⟨hcount, hle, -⟩ d
      exact ⟨(hlen d).symm ▸ hcount d, drop_slots_iff.2 (hle d)⟩

/-- A start that fails: its queue is open in the next entry. -/
theorem fail_start_iff (hn : ∀ d, number d done ≤ (p.mcount d).toNat) (hlt : number d done < (p.mcount d).toNat) {ret : Int} (hret : ret ≠ 0) :
    AllOrNothing p (onFinish p e
        (.fail { onStateAt p done with s := (stateAt p done).put d (number d done) (unstarted p (d, c)), ret := ret })) ↔
      (∀ d, (p.count d).toNat ≤ (p.mcount d).toNat) ∧ (∀ d, number d done ≤ (p.count d).toNat) ∧ number d done < (p.count d).toNat := by
  have hqueues : ∀ d', ((stateAt p done).put d (number d done) (unstarted p (d, c))).queues d' =
      if d' = d then (slots p done d).set (number d done) (unstarted p (d, c)) else slots p done d' := by
    intro d'
    show Function.update (slots p done) d ((slots p done d).set (number d done) (unstarted p (d, c))) d' = _
    rw [Function.update_apply]
  have htask : ∀ d', ∀ q ∈ ((stateAt p done).put d (number d done) (unstarted p (d, c))).queues d', q.task = .null := by
    intro d' q hq
    rw [hqueues] at hq
    by_cases hd : d' = d
    · rw [if_pos hd] at hq
      rcases List.mem_or_eq_of_mem_set hq with hq | rfl
      · exact slots_task hq
      · rfl
    · rw [if_neg hd] at hq
      exact slots_task hq
  show AllOrNothing p ((nfbNetTransmissionOff p _).map fun s => (s, ret)) ↔ _
  rw [fail_iff hret htask]
  -- The next entry is behind the requested ones exactly if all those are taken.
  have hset : (∀ q ∈ ((slots p done d).set (number d done) (unstarted p (d, c))).drop (p.count d).toNat, q = NetQueue.zero) ↔
      number d done < (p.count d).toNat := by
    have hnum : ((done.filter (·.1 = d)).map (entry p)).length = number d done := List.length_map ..
    rw [set_slots hlt, List.drop_append, hnum]
    constructor
    · intro hall
      by_contra hle
      have hsub : (p.count d).toNat - number d done = 0 := by omega
      rw [hsub, List.drop_zero] at hall
      cases hall (unstarted p (d, c)) (List.mem_append_right _ (List.mem_cons_self ..))
    · intro hlt' q hq
      obtain ⟨k, hk⟩ : ∃ k, (p.count d).toNat - number d done = k + 1 := ⟨(p.count d).toNat - number d done - 1, by omega⟩
      rw [List.drop_eq_nil_of_le (by rw [hnum]; omega), List.nil_append, hk, List.drop_succ_cons] at hq
      exact (List.mem_replicate.1 (List.mem_of_mem_drop hq)).2
  constructor
  · intro hall
    have hone : ∀ d', (p.count d').toNat ≤ (p.mcount d').toNat ∧ number d' done ≤ (p.count d').toNat := by
      intro d'
      obtain ⟨hlen, hzero⟩ := hall d'
      rw [hqueues] at hlen hzero
      by_cases hd : d' = d
      · subst hd
        rw [if_pos rfl, List.length_set, length_slots (hn d')] at hlen
        rw [if_pos rfl] at hzero
        exact ⟨hlen, Nat.le_of_lt (hset.1 hzero)⟩
      · rw [if_neg hd, length_slots (hn d')] at hlen
        rw [if_neg hd] at hzero
        exact ⟨hlen, drop_slots_iff.1 hzero⟩
    have hd := (hall d).2
    rw [hqueues, if_pos rfl] at hd
    exact ⟨fun d' => (hone d').1, fun d' => (hone d').2, hset.1 hd⟩
  · rintro ⟨hcount, hle, hlt'⟩ d'
    rw [hqueues]
    by_cases hd : d' = d
    · subst hd
      rw [if_pos rfl, List.length_set, length_slots (hn d')]
      exact ⟨hcount d', hset.2 hlt'⟩
    · rw [if_neg hd, length_slots (hn d')]
      exact ⟨hcount d', drop_slots_iff.2 (hle d')⟩

/-- From any channel on: by induction on the channels that are left. -/
theorem onLoop_iff (l : List NetChannel) (done : List (Dir × NetChannel)) (hn : ∀ d, number d done ≤ (p.mcount d).toNat) :
    AllOrNothing p ((onLoop p e l (onStateAt p done)).bind (onFinish p e)) ↔
      (∀ d, (p.count d).toNat ≤ (p.mcount d).toNat) ∧ (∀ d, number d done ≤ (p.count d).toNat) ∧ Fits p e done (taken p l) := by
  induction l generalizing done with
  | nil => exact finish_iff hn
  | cons c l ih =>
    cases hdir : c.dir with
    | none =>
      have htaken : taken p (c :: l) = taken p l := List.filterMap_cons_none (by rw [hdir]; rfl)
      have hloop : onLoop p e (c :: l) (onStateAt p done) = onLoop p e l (onStateAt p done) := by
        rw [onLoop, hdir]
      rw [htaken, hloop]
      exact ih done hn
    | some d =>
      -- a channel from the requested count on is passed over
      by_cases hskip : p.count d ≤ p.chid d c
      · have htaken : taken p (c :: l) = taken p l :=
          List.filterMap_cons_none (by rw [hdir]; exact if_pos hskip)
        have hloop : onLoop p e (c :: l) (onStateAt p done) = onLoop p e l (onStateAt p done) := by
          rw [onLoop, hdir]
          exact if_pos hskip
        rw [htaken, hloop]
        exact ih done hn
      · have htaken : taken p (c :: l) = (d, c) :: taken p l :=
          List.filterMap_cons_some (by rw [hdir]; exact if_neg hskip)
        have hpos : 0 < (p.count d).toNat := by
          have hlt : p.chid d c < p.count d := BitVec.not_le.1 hskip
          exact Nat.lt_of_le_of_lt (Nat.zero_le _) hlt
        have hloop : onLoop p e (c :: l) (onStateAt p done) =
            match onChannel p e d c (onStateAt p done) with
            | some (.next st) => onLoop p e l st
            | r => r := by
          rw [onLoop, hdir]
          exact if_neg hskip
        rw [htaken, hloop, Fits]
        by_cases hlt : number d done < (p.mcount d).toNat
        · rw [onChannel_eq hlt]
          by_cases hopen : e.opens done.length = false
          · rw [if_pos hopen]
            refine iff_of_false (fail_zero hpos) ?_
            rintro ⟨-, -, -, hyes, -⟩
            rw [hopen] at hyes
            cases hyes
          · rw [if_neg hopen]
            have hyes : e.opens done.length = true := by simpa using hopen
            by_cases hstart : e.start done.length = 0
            · rw [if_neg (not_not_intro hstart)]
              have hn' : ∀ d', number d' (done ++ [(d, c)]) ≤ (p.mcount d').toNat := by
                intro d'
                rw [number_append]
                split
                · rename_i hd
                  rw [hd]
                  exact hlt
                · exact hn d'
              refine (ih _ hn').trans ?_
              constructor
              · rintro ⟨hcount, hle, hfits⟩
                have hd := hle d
                rw [number_append, if_pos rfl] at hd
                refine ⟨hcount, fun d' => ?_, hd, hyes, fun _ => hfits⟩
                have := hle d'
                rw [number_append] at this
                split at this <;> omega
              · rintro ⟨hcount, hle, hd, -, hfits⟩
                refine ⟨hcount, fun d' => ?_, hfits hstart⟩
                rw [number_append]
                split
                · rename_i hd'
                  rw [hd']
                  exact hd
                · exact hle d'
            · rw [if_pos hstart]
              refine (@fail_start_iff p e done d c hn hlt _ hstart).trans ?_
              constructor
              · rintro ⟨hcount, hle, hd⟩
                exact ⟨hcount, hle, hd, hyes, fun h0 => absurd h0 hstart⟩
              · rintro ⟨hcount, hle, hd, -⟩
                exact ⟨hcount, hle, hd⟩
        · -- there is no entry left to store the queue in
          rw [onChannel_none hlt]
          refine iff_of_false ?_ ?_
          · rintro ⟨s, r, heq, -⟩
            cases heq
          · rintro ⟨hcount, -, hd, -⟩
            exact hlt (Nat.lt_of_lt_of_le hd (hcount d))

end

/-! ## All starts -/

/-- The start of an interface is all or nothing exactly if the counts do not exceed the queues of the module and the channels fit. -/
theorem transmission_on_iff (p : NetIface) (e : OnEnv) (channels : List NetChannel) :
    AllOrNothing p (nfbNetTransmissionOn p e channels) ↔
      (∀ d, (p.count d).toNat ≤ (p.mcount d).toNat) ∧ Fits p e [] (taken p channels) := by
  have hinit : ({ s := .init p, taken := fun _ => 0, ret := 0 } : OnState) = onStateAt p [] := rfl
  unfold nfbNetTransmissionOn
  rw [hinit, onLoop_iff channels [] fun d => Nat.zero_le _]
  exact ⟨fun h => ⟨h.1, h.2.2⟩, fun h => ⟨h.1, fun d => Nat.zero_le _, h.2⟩⟩

/-- An interface with one RX queue of two. -/
def oneQueue : NetIface where
  range := { rxqsCount := 1, rxqsOffset := 0, txqsCount := 0, txqsOffset := 0 }
  module := { rxqc := 2, txqc := 2 }
  index := 0
  discard := false

def oneChannel : List NetChannel := [{ dir := some .rx, index := 0, flags := 0 }]

/-- The queue cannot be opened: the start returns zero without any. And a thread that cannot be created is stopped. -/
theorem start_without_queue :
    (¬ AllOrNothing oneQueue (nfbNetTransmissionOn oneQueue { opens := fun _ => false, start := fun _ => 0, thread := fun _ => 0 } oneChannel) ∧
        ∃ s, nfbNetTransmissionOn oneQueue { opens := fun _ => false, start := fun _ => 0, thread := fun _ => 0 } oneChannel = some (s, 0)) ∧
      nfbNetTransmissionOn oneQueue { opens := fun _ => true, start := fun _ => 0, thread := fun _ => -12 } oneChannel = none := by
  refine ⟨⟨?_, _, rfl⟩, rfl⟩
  rintro ⟨s, ret, heq, hcomplete, -⟩
  cases heq
  obtain ⟨⟨o, ho, -⟩, -⟩ := (hcomplete rfl).run .rx NetQueue.zero (by decide)
  cases ho

end NdkSw.Net

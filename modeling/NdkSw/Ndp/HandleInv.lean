/-
Handles are balanced: in the in-kernel build a queue and its subscription come and go together, in the userspace build
they come together and only the queue goes. Every call on a channel is one of the calls whose books are kept.
-/
import NdkSw.Ndp.Handle

namespace NdkSw.Ndp

open Ring

/-! ## A channel -/

/-- The books of a channel are kept, and its controller has flags of its type. -/
structure ChanOk (type : DmaType) (b : SubChannel (Recorded FlagCtrl)) : Prop where
  books : Book.Inv b
  known : Flags.Known type b.ch.ctrl.ctrl

variable {type : DmaType} {b : SubChannel (Recorded FlagCtrl)} {i protocol : Nat} {flags : U32}

theorem ChanOk.step (h : ChanOk type b) (dir : ChannelType) (a : BookAct FlagShown) : ChanOk type (Flags.step dir b a) :=
  ⟨Book.Inv.step Flags.flagCtrlOps_stop_forced b a h.books,
    Book.step_keeps flagCtrlOps ctrlFlags dir (Flags.known_keeps type) Flags.flagCtrlOps_stop_forced b a h.known⟩

/-- A new subscription, as the books see it. -/
def subCreate (env : CreateEnv) (b : SubChannel (Recorded FlagCtrl)) (i : Nat) (flags : U32) :
    SubChannel (Recorded FlagCtrl) × U32 × Int := ndpSubscriptionCreate (recordFlags ctrlFlags) env b i flags

theorem ChanOk.create (h : ChanOk type b) (hi : i ∉ b.subscriptions) (env : CreateEnv) (flags : U32) :
    ChanOk type (subCreate env b i flags).1 := by
  have hs := h.step .rx (.create i env flags)
  rw [Flags.step, Book.step, if_neg hi] at hs
  exact hs

theorem ChanOk.destroy (h : ChanOk type b) (hi : i ∈ b.subscriptions) (e₁ e₂ : FlagShown) :
    ChanOk type (ndpSubscriptionDestroy (recordOps flagCtrlOps) e₁ e₂ b i) := by
  have hs := h.step .rx (.destroy i e₁ e₂)
  rw [Flags.step, Book.step, if_pos hi] at hs
  exact hs

theorem ChanOk.empty_iff (h : ChanOk type b) : b.subscriptionsCount = 0 ↔ b.subscriptions = [] := by
  rw [h.books.count, List.length_eq_zero_iff]

theorem subCreate_cases (env : CreateEnv) (b : SubChannel (Recorded FlagCtrl)) (i : Nat) (flags : U32) :
    ((subCreate env b i flags).2.2 ≠ 0 ∧ (subCreate env b i flags).1.subscriptions = b.subscriptions ∧
        (subCreate env b i flags).1.flags = b.flags) ∨
      ((subCreate env b i flags).2.2 = 0 ∧ (subCreate env b i flags).1.subscriptions = i :: b.subscriptions ∧
        ∃ out, ndpChannelSubscribe (recordFlags ctrlFlags) (b.setSub i { status := .subscribed, hwptr := 0, swptr := 0 }) flags =
            (out, (subCreate env b i flags).2.1, 0) ∧ (subCreate env b i flags).1.flags = out.flags) := by
  unfold subCreate ndpSubscriptionCreate
  split
  · exact Or.inl ⟨show eBadfd ≠ 0 by decide, rfl, rfl⟩
  split
  · exact Or.inl ⟨show eNomem ≠ 0 by decide, rfl, rfl⟩
  obtain ⟨ctrl, out, -, ⟨ret, hret, hs⟩ | ⟨f, -, hs⟩⟩ := ndpChannelSubscribe_cases (recordFlags ctrlFlags)
    (b.setSub i { status := .subscribed, hwptr := 0, swptr := 0 }) flags
  · rw [hs]
    simp only [ne_eq, hret, not_false_eq_true, if_true]
    exact Or.inl ⟨trivial, rfl, rfl⟩
  · rw [hs]
    simp only [ne_eq, not_true_eq_false, if_false]
    exact Or.inr ⟨trivial, rfl, _, rfl, rfl⟩

theorem subCreate_beside {env : CreateEnv} (hne : b.subscriptionsCount ≠ 0) (hexcl : (flags ||| b.flags) &&& flagExclusive ≠ 0) :
    (subCreate env b i flags).2.2 ≠ 0 := by
  rcases subCreate_cases env b i flags with ⟨hret, -⟩ | ⟨-, -, out, hs, -⟩
  · exact hret
  · have hperm : ePerm ≠ 0 := by decide
    have hret := congrArg (fun r => r.2.2) hs
    have hcount : ¬ (b.setSub i { status := .subscribed, hwptr := 0, swptr := 0 }).subscriptionsCount = 0 := hne
    unfold ndpChannelSubscribe at hret
    simp only [if_neg hcount, subscribeNext] at hret
    have hboth : (if flags ^^^ (b.flags ||| ((recordFlags ctrlFlags).getFlags b.ch.ctrl).setWidth 32) ≠ 0 then ePerm
        else if (flags ||| b.flags) &&& flagExclusive ≠ 0 then ePerm else 0) = 0 := hret
    rw [if_pos hexcl, ite_self] at hboth
    exact absurd hboth hperm

theorem openFlags_exclusive (protocol : Nat) : channelFlags protocol (openFlags true) &&& flagExclusive ≠ 0 := by
  unfold channelFlags
  split
  · decide
  · decide

theorem openFlags_shared (protocol : Nat) : channelFlags protocol (openFlags false) &&& flagExclusive = 0 := by
  unfold channelFlags
  split
  · decide
  · decide

/-- An exclusive subscription is alone on a Calypte channel. -/
theorem ChanOk.create_exclusive (h : ChanOk type b) {env : CreateEnv}
    (hret : (subCreate env b i (channelFlags protocol (openFlags true))).2.2 = 0) :
    b.subscriptions = [] ∧ (subCreate env b i (channelFlags protocol (openFlags true))).1.flags &&& flagExclusive ≠ 0 ∧
      type = .calypte ∧ protocol ≠ 2 := by
  have hexcl := openFlags_exclusive protocol
  have h0 : b.subscriptionsCount = 0 := by
    by_contra hne
    refine subCreate_beside hne (fun hc => hexcl ?_) hret
    rw [BitVec.or_comm] at hc
    exact or_and_eq_zero_right hc
  rcases subCreate_cases env b i (channelFlags protocol (openFlags true)) with ⟨hne, -⟩ | ⟨-, -, out, hs, hflags⟩
  · exact absurd hret hne
  rw [hflags]
  refine ⟨h.empty_iff.1 h0, ?_⟩
  have hperm : ePerm ≠ 0 := by decide
  cases type with
  | medusa =>
    have hm := Flags.subscribe_medusa (b := b.setSub i { status := .subscribed, hwptr := 0, swptr := 0 }) h.known h0
      (channelFlags protocol (openFlags true))
    have hne : ¬ 0xC = channelFlags protocol (openFlags true) &&& ~~~flagExclusive := by
      unfold channelFlags
      split
      · decide
      · decide
    rw [if_neg hne, Flags.subscribe, hs] at hm
    exact absurd (congrArg (fun r => r.2.2) hm).symm hperm
  | calypte =>
    obtain ⟨f, set, hcase, hc⟩ := Flags.subscribe_calypte (b := b.setSub i { status := .subscribed, hwptr := 0, swptr := 0 })
      h.known h0 (channelFlags protocol (openFlags true))
    rw [Flags.subscribe, hs] at hc
    split at hc
    · rename_i hset
      refine ⟨?_, rfl, ?_⟩
      · rw [(Prod.mk.inj hc).1]
        show channelFlags protocol (openFlags true) &&& flagExclusive &&& flagExclusive ≠ 0
        rw [BitVec.and_assoc, BitVec.and_self]
        exact hexcl
      · rintro rfl
        rcases hcase with ⟨-, -, rfl⟩ | ⟨hu, -, -⟩
        · revert hset
          decide
        · revert hu
          decide
    · exact absurd (congrArg (fun r => r.2.2) hc).symm hperm

theorem ChanOk.create_again (h : ChanOk .calypte b) (hempty : b.subscriptions = []) {env : CreateEnv} (hring : env.ring)
    (halloc : env.alloc) (hp : protocol ≠ 2) : (subCreate env b i (channelFlags protocol (openFlags true))).2.2 = 0 := by
  have h0 : b.subscriptionsCount = 0 := h.empty_iff.2 hempty
  have hflags : channelFlags protocol (openFlags true) = flagExclusive ||| flagUserspace := by
    unfold channelFlags
    rw [if_neg hp]
    rfl
  obtain ⟨f, set, hcase, hc⟩ := Flags.subscribe_calypte (b := b.setSub i { status := .subscribed, hwptr := 0, swptr := 0 })
    h.known h0 (channelFlags protocol (openFlags true))
  rw [hflags] at hcase hc ⊢
  have hset : set = (flagExclusive ||| flagUserspace) &&& ~~~flagExclusive := by
    rcases hcase with ⟨-, -, rfl⟩ | ⟨hu, -, -⟩
    · decide
    · exact absurd hu (by decide)
  rw [if_pos hset, Flags.subscribe] at hc
  unfold subCreate ndpSubscriptionCreate
  simp only [hring, halloc, not_true_eq_false, if_false]
  rw [hc]
  rfl

/-! ## The handle -/

/-- An exclusive queue has its channel, of a Calypte controller, for itself. -/
structure Alone (types : ChannelId → DmaType) (w : Handle) (q : NcNdpQueue) : Prop where
  only : ∃ i, q.sub = some i ∧ (w.chan q.channel).subscriptions = [i]
  flags : (w.chan q.channel).flags &&& flagExclusive ≠ 0
  type : types q.channel = .calypte
  protocol : q.protocol ≠ 2

/-- The subscriptions of the handle are those of its open queues. -/
structure HandleInv (types : ChannelId → DmaType) (w : Handle) : Prop where
  alive : w.crashed = false
  chans : ∀ c, ChanOk (types c) (w.chan c)
  pairs : (w.held.map fun h => (h.1, some h.2)).Perm (w.queues.map NcNdpQueue.key)
  nodup : w.held.Nodup
  exist : ∀ h ∈ w.held, h.2 ∈ (w.chan h.1).subscriptions
  alone : ∀ q ∈ w.queues, q.flags &&& flagExclusive ≠ 0 → Alone types w q

variable {types : ChannelId → DmaType} {w w₁ w' : Handle} {c : ChannelId} {q : NcNdpQueue} {build : Build} {env : OpenEnv}
  {userspace : Bool} {a : HandleAction}

theorem HandleInv.balanced (h : HandleInv types w) : Balanced w := by
  refine ⟨h.alive, fun c => ?_⟩
  have hcount := h.pairs.countP_eq fun k => k.1 = c
  rw [List.countP_map, List.countP_map, List.countP_eq_length_filter, List.countP_eq_length_filter] at hcount
  exact hcount

theorem held_injective : Function.Injective fun h : ChannelId × Nat => (h.1, some h.2) := by
  rintro ⟨c, i⟩ ⟨d, j⟩ heq
  cases heq
  rfl

theorem HandleInv.held_iff (h : HandleInv types w) : (c, i) ∈ w.held ↔ ∃ q ∈ w.queues, q.key = (c, some i) := by
  have hmem : (c, some i) ∈ (w.held.map fun h => (h.1, some h.2)) ↔ (c, i) ∈ w.held :=
    List.mem_map_of_injective held_injective (a := (c, i))
  rw [← hmem, h.pairs.mem_iff, List.mem_map]

theorem HandleInv.queue_held (h : HandleInv types w) (hq : w.queue c i = some q) :
    q ∈ w.queues ∧ q.key = (c, some i) ∧ (c, i) ∈ w.held := by
  have hmem := List.mem_of_find?_eq_some hq
  have hkey : q.key = (c, some i) := by
    have hfound := List.find?_some hq
    exact of_decide_eq_true hfound
  exact ⟨hmem, hkey, h.held_iff.2 ⟨q, hmem, hkey⟩⟩

@[simp] theorem setChan_self (w : Handle) (c : ChannelId) (b : SubChannel (Recorded FlagCtrl)) : (w.setChan c b).chan c = b :=
  Function.update_self ..

theorem setChan_of_ne (w : Handle) (b : SubChannel (Recorded FlagCtrl)) {d : ChannelId} (hd : d ≠ c) :
    (w.setChan c b).chan d = w.chan d := Function.update_of_ne hd ..

theorem setCh_subscriptions (w : Handle) (c : ChannelId) (ch : Channel (Recorded FlagCtrl)) :
    ((w.setCh c ch).chan c).subscriptions = (w.chan c).subscriptions := by
  unfold Handle.setCh
  rw [setChan_self]

theorem HandleInv.setChan (h : HandleInv types w) (hok : ChanOk (types c) b) (hheld : ∀ i, (c, i) ∈ w.held → i ∈ b.subscriptions)
    (halone : ∀ q ∈ w.queues, q.channel = c → q.flags &&& flagExclusive ≠ 0 → b.subscriptions = (w.chan c).subscriptions ∧ b.flags = (w.chan c).flags) :
    HandleInv types (w.setChan c b) := by
  have hself := setChan_self w c b
  have hother : ∀ {d}, d ≠ c → (w.setChan c b).chan d = w.chan d := fun hd => setChan_of_ne w b hd
  constructor
  case alive => exact h.alive
  case chans =>
    intro d
    by_cases hd : d = c
    · subst hd
      rw [hself]
      exact hok
    · rw [hother hd]
      exact h.chans d
  case pairs => exact h.pairs
  case nodup => exact h.nodup
  case exist =>
    intro p hp
    obtain ⟨d, j⟩ := p
    by_cases hd : d = c
    · subst hd
      rw [hself]
      exact hheld j hp
    · rw [hother hd]
      exact h.exist _ hp
  case alone =>
    intro q hq hexcl
    obtain ⟨honly, hflags, htype, hproto⟩ := h.alone q hq hexcl
    by_cases hd : q.channel = c
    · obtain ⟨hsubs, hfl⟩ := halone q hq hd hexcl
      have hchan : (w.setChan c b).chan q.channel = b := hd ▸ hself
      refine ⟨?_, ?_, htype, hproto⟩
      · rw [hchan, hsubs, ← hd]
        exact honly
      · rw [hchan, hfl, ← hd]
        exact hflags
    · exact ⟨by rw [hother hd]; exact honly, by rw [hother hd]; exact hflags, htype, hproto⟩

theorem HandleInv.setCh (h : HandleInv types w) {ch : Channel (Recorded FlagCtrl)}
    (hok : ChanOk (types c) { w.chan c with ch }) : HandleInv types (w.setCh c ch) :=
  h.setChan hok (fun i hi => h.exist (c, i) hi) fun _ _ _ _ => ⟨rfl, rfl⟩

theorem setRunning_keys (w : Handle) (q : NcNdpQueue) (running : Bool) :
    (w.setRunning q running).queues.map NcNdpQueue.key = w.queues.map NcNdpQueue.key := by
  rw [Handle.setRunning, List.map_map]
  refine List.map_congr_left fun p _ => ?_
  simp only [Function.comp]
  split
  · rfl
  · rfl

theorem HandleInv.setRunning (h : HandleInv types w) (q : NcNdpQueue) (running : Bool) :
    HandleInv types (w.setRunning q running) := by
  refine ⟨h.alive, h.chans, ?_, h.nodup, h.exist, fun p hp hexcl => ?_⟩
  · rw [setRunning_keys]
    exact h.pairs
  · obtain ⟨p₀, hp₀, rfl⟩ := List.mem_map.1 hp
    by_cases hk : p₀.key = q.key
    · rw [if_pos hk] at hexcl ⊢
      obtain ⟨honly, hflags, htype, hproto⟩ := h.alone p₀ hp₀ hexcl
      exact ⟨honly, hflags, htype, hproto⟩
    · rw [if_neg hk] at hexcl ⊢
      obtain ⟨honly, hflags, htype, hproto⟩ := h.alone p₀ hp₀ hexcl
      exact ⟨honly, hflags, htype, hproto⟩

/-! ## Start and stop -/

theorem ChanOk.start (h : ChanOk type b) (hi : i ∈ b.subscriptions) (dir : ChannelType) (e : FlagShown) (sync : SubscriptionSync) :
    ChanOk type { b with ch := (ndpSubscriptionStart (recordOps flagCtrlOps) dir e b.ch i sync).1 } := by
  have hs := h.step dir (.start i e sync)
  rw [Flags.step, Book.step, if_pos hi] at hs
  exact hs

theorem ChanOk.sync (h : ChanOk type b) (hi : i ∈ b.subscriptions) (dir : ChannelType) (e : FlagShown) (sync : SubscriptionSync) :
    ChanOk type { b with ch := (ndpSubscriptionSync (recordOps flagCtrlOps) dir e b.ch i sync).1 } := by
  have hs := h.step dir (.sync i e sync)
  rw [Flags.step, Book.step, if_pos hi] at hs
  exact hs

theorem ChanOk.stop (h : ChanOk type b) (hi : i ∈ b.subscriptions) (e₁ e₂ : FlagShown) (force : Bool) :
    ChanOk type { b with ch := (ndpSubscriptionStop (recordOps flagCtrlOps) e₁ e₂ b.ch i force).1 } := by
  have hs := h.step .rx (.stop i e₁ e₂ force)
  rw [Flags.step, Book.step, if_pos hi] at hs
  exact hs

theorem ChanOk.stopTries (last : FlagShown) : ∀ (l : List FlagShown) {b : SubChannel (Recorded FlagCtrl)}, ChanOk type b →
    i ∈ b.subscriptions → ChanOk type { b with ch := (stopTries i last l b.ch).1 }
  | [], _, h, hi => h.stop hi last last false
  | e :: l, b, h, hi => by
    have hs := h.stop hi e e false
    rw [Ndp.stopTries]
    simp only
    split
    · exact hs.stopTries last l hi
    · exact hs

theorem ChanOk.queueStop (h : ChanOk type b) (hi : i ∈ b.subscriptions) (build : Build) (env : QueueStopEnv) :
    ChanOk type { b with ch := (ndpQueueStopSub build i env b.ch).1 } := by
  cases build with
  | userspace => exact h.stopTries env.last.first env.tries hi
  | kernel => exact h.stop hi env.last.first env.last.second true

theorem ChanOk.flush (h : ChanOk type b) (hi : i ∈ b.subscriptions) (dir : ChannelType)
    (flush : Option (FlagShown × SubscriptionSync)) : ChanOk type { b with ch := flushSub dir i flush b.ch } := by
  cases dir with
  | rx => exact h
  | tx =>
    cases flush with
    | none => exact h
    | some p => exact h.sync hi .tx p.1 p.2

theorem HandleInv.start (h : HandleInv types w) (hq : w.queue c i = some q) (e : FlagShown) :
    HandleInv types (ndpQueueStart w q i e) := by
  obtain ⟨-, hkey, hheld⟩ := h.queue_held hq
  obtain ⟨rfl, -⟩ := Prod.mk.inj hkey
  unfold ndpQueueStart
  split
  · exact h
  · have hset := h.setCh ((h.chans q.channel).start (h.exist _ hheld) q.channel.type e ⟨0, 0, 0⟩)
    simp only
    split
    · exact hset
    · exact hset.setRunning q true

theorem HandleInv.stop (h : HandleInv types w) (hq : w.queue c i = some q) (build : Build) (env : QueueStopEnv) :
    HandleInv types (ndpQueueStop build w q i env) := by
  obtain ⟨-, hkey, hheld⟩ := h.queue_held hq
  obtain ⟨rfl, -⟩ := Prod.mk.inj hkey
  unfold ndpQueueStop
  split
  · exact h
  · have hflush := (h.chans q.channel).flush (h.exist _ hheld) q.channel.type env.flush
    have hset := h.setCh (hflush.queueStop (h.exist _ hheld) build env)
    simp only
    split
    · exact hset
    · exact hset.setRunning q false

/-! ## Subscribe -/

theorem HandleInv.refused (h : HandleInv types w) (env : CreateEnv) (hret : (subCreate env (w.chan c) i flags).2.2 ≠ 0)
    (hi : i ∉ (w.chan c).subscriptions) : HandleInv types (w.setChan c (subCreate env (w.chan c) i flags).1) := by
  rcases subCreate_cases env (w.chan c) i flags with ⟨-, hsubs, hflags⟩ | ⟨h0, -⟩
  · refine h.setChan ((h.chans c).create hi env flags) (fun j hj => ?_) (fun _ _ _ _ => ⟨hsubs, hflags⟩)
    rw [hsubs]
    exact h.exist (c, j) hj
  · exact absurd h0 hret

theorem HandleInv.not_exclusive (h : HandleInv types w) {env : CreateEnv} (hret : (subCreate env (w.chan c) i flags).2.2 = 0)
    (hq : q ∈ w.queues) (hc : q.channel = c) : q.flags &&& flagExclusive = 0 := by
  by_contra hexcl
  obtain ⟨⟨j, -, hsubs⟩, hflags, -, -⟩ := h.alone q hq hexcl
  rw [hc] at hsubs hflags
  refine subCreate_beside ?_ (fun hz => hflags (or_and_eq_zero_right hz)) hret
  rw [(h.chans c).books.count, hsubs]
  exact Nat.one_ne_zero

/-- The handle with one more subscription, before it has a queue. -/
structure Subscribed (types : ChannelId → DmaType) (w w' : Handle) (c : ChannelId) (i : Nat) : Prop where
  eq : ∃ b, w' = { w.setChan c b with held := (c, i) :: w.held }
  chans : ∀ d, ChanOk (types d) (w'.chan d)
  fresh : i ∉ (w.chan c).subscriptions
  subs : (w'.chan c).subscriptions = i :: (w.chan c).subscriptions
  shared : ∀ q ∈ w.queues, q.channel = c → q.flags &&& flagExclusive = 0

/-- `ndp_subscription_create` through the books of the channel. -/
theorem subscribe_eq (w : Handle) (c : ChannelId) (flags : U32) (hfound : env.found) :
    w.subscribe c flags env =
      if (subCreate env.create (w.chan c) (freshSub (w.chan c)) flags).2.2 ≠ 0 then
        (w.setChan c (subCreate env.create (w.chan c) (freshSub (w.chan c)) flags).1, none,
          (subCreate env.create (w.chan c) (freshSub (w.chan c)) flags).2.2)
      else
        ({ w.setChan c (subCreate env.create (w.chan c) (freshSub (w.chan c)) flags).1 with
            held := (c, freshSub (w.chan c)) :: w.held }, some (freshSub (w.chan c)), 0) := by
  unfold Handle.subscribe
  rw [if_neg (not_not.2 hfound)]
  rfl

/-- A subscribe fails and leaves the handle as it was, or it gives one more subscription. -/
theorem HandleInv.subscribe (h : HandleInv types w) (c : ChannelId) (flags : U32) (env : OpenEnv) :
    ((w.subscribe c flags env).2.2 ≠ 0 ∧ (w.subscribe c flags env).2.1 = none ∧ HandleInv types (w.subscribe c flags env).1) ∨
      ∃ i, (w.subscribe c flags env).2 = (some i, 0) ∧ Subscribed types w (w.subscribe c flags env).1 c i ∧
        (w.subscribe c flags env).1.chan c = (subCreate env.create (w.chan c) i flags).1 ∧
        (subCreate env.create (w.chan c) i flags).2.2 = 0 := by
  have hfresh := freshSub_not_mem (w.chan c)
  by_cases hfound : env.found
  · rw [subscribe_eq w c flags hfound]
    by_cases hret : (subCreate env.create (w.chan c) (freshSub (w.chan c)) flags).2.2 = 0
    · refine Or.inr ⟨freshSub (w.chan c), ?_⟩
      rw [if_neg (not_not.2 hret)]
      have hself := setChan_self w c (subCreate env.create (w.chan c) (freshSub (w.chan c)) flags).1
      refine ⟨rfl, ⟨⟨_, rfl⟩, fun d => ?_, hfresh, ?_, fun q hq hc => h.not_exclusive hret hq hc⟩, hself, hret⟩
      · by_cases hd : d = c
        · subst hd
          show ChanOk _ ((w.setChan d _).chan d)
          rw [hself]
          exact (h.chans d).create hfresh env.create flags
        · show ChanOk _ ((w.setChan c _).chan d)
          rw [setChan_of_ne _ _ hd]
          exact h.chans d
      · show ((w.setChan c (subCreate env.create (w.chan c) (freshSub (w.chan c)) flags).1).chan c).subscriptions = _
        rw [hself]
        rcases subCreate_cases env.create (w.chan c) (freshSub (w.chan c)) flags with ⟨hne, -⟩ | ⟨-, hsubs, -⟩
        · exact absurd hret hne
        · exact hsubs
    · rw [if_pos hret]
      exact Or.inl ⟨hret, rfl, h.refused env.create hret hfresh⟩
  · unfold Handle.subscribe
    rw [if_pos hfound]
    exact Or.inl ⟨show eNodev ≠ 0 by decide, rfl, h⟩

theorem setChan_setChan (w : Handle) (c : ChannelId) (b b' : SubChannel (Recorded FlagCtrl)) :
    (w.setChan c b).setChan c b' = w.setChan c b' := by
  unfold Handle.setChan
  simp only [Function.update_idem]

theorem Subscribed.unsubscribe (h : HandleInv types w) (hs : Subscribed types w w' c i) (env : StopEnv) :
    HandleInv types (w'.unsubscribe c i env) := by
  have hok := hs.chans c
  have hsubs := hs.subs
  obtain ⟨b, rfl⟩ := hs.eq
  have hb : ({ w.setChan c b with held := (c, i) :: w.held } : Handle).chan c = b := setChan_self w c b
  rw [hb] at hok hsubs
  have heq : ({ w.setChan c b with held := (c, i) :: w.held } : Handle).unsubscribe c i env =
      w.setChan c (ndpSubscriptionDestroy (recordOps flagCtrlOps) env.first env.second b i) := by
    unfold Handle.unsubscribe
    rw [hb, List.erase_cons_head]
    exact setChan_setChan w c b _
  rw [heq]
  refine h.setChan (hok.destroy (hsubs ▸ List.mem_cons_self) _ _) (fun j hj => ?_) (fun q hq hc hexcl => ?_)
  · show j ∈ b.subscriptions.erase i
    rw [hsubs, List.erase_cons_head]
    exact h.exist (c, j) hj
  · exact absurd (hs.shared q hq hc) hexcl

/-- A subscription gets its queue. -/
theorem Subscribed.withQueue (h : HandleInv types w) (hs : Subscribed types w w' c i) (hkey : q.key = (c, some i))
    (halone : q.flags &&& flagExclusive ≠ 0 → Alone types w' q) : HandleInv types { w' with queues := q :: w'.queues } := by
  have hother : ∀ p ∈ w.queues, p.flags &&& flagExclusive ≠ 0 → Alone types w' p := by
    intro p hp hexcl
    have hd : p.channel ≠ c := fun hc => hexcl (hs.shared p hp hc)
    obtain ⟨honly, hflags, htype, hproto⟩ := h.alone p hp hexcl
    obtain ⟨b, rfl⟩ := hs.eq
    have hchan : ({ w.setChan c b with held := (c, i) :: w.held } : Handle).chan p.channel = w.chan p.channel :=
      setChan_of_ne w b hd
    exact ⟨by rw [hchan]; exact honly, by rw [hchan]; exact hflags, htype, hproto⟩
  have hexist : ∀ p ∈ (c, i) :: w.held, p.2 ∈ (w'.chan p.1).subscriptions := by
    rintro ⟨d, j⟩ hp
    by_cases hd : d = c
    · subst hd
      show j ∈ (w'.chan d).subscriptions
      rw [hs.subs]
      rcases List.mem_cons.1 hp with heq | hp
      · cases heq
        exact List.mem_cons_self
      · exact List.mem_cons_of_mem _ (h.exist _ hp)
    · have hp' : (d, j) ∈ w.held := by
        rcases List.mem_cons.1 hp with heq | hp
        · cases heq
          exact absurd rfl hd
        · exact hp
      obtain ⟨b, rfl⟩ := hs.eq
      have hchan : ({ w.setChan c b with held := (c, i) :: w.held } : Handle).chan d = w.chan d := setChan_of_ne w b hd
      show j ∈ (Handle.chan _ d).subscriptions
      rw [hchan]
      exact h.exist _ hp'
  have hchans := hs.chans
  have hnew : (c, i) ∉ w.held := fun hmem => hs.fresh (h.exist _ hmem)
  obtain ⟨b, rfl⟩ := hs.eq
  refine ⟨h.alive, hchans, ?_, List.nodup_cons.2 ⟨hnew, h.nodup⟩, hexist, fun p hp hexcl => ?_⟩
  · show ((c, some i) :: w.held.map fun h => (h.1, some h.2)).Perm (q.key :: w.queues.map NcNdpQueue.key)
    rw [hkey]
    exact h.pairs.cons _
  · rcases List.mem_cons.1 hp with rfl | hp
    · obtain ⟨honly, hflags, htype, hproto⟩ := halone hexcl
      exact ⟨honly, hflags, htype, hproto⟩
    · obtain ⟨honly, hflags, htype, hproto⟩ := hother p hp hexcl
      exact ⟨honly, hflags, htype, hproto⟩

theorem Subscribed.not_balanced (h : HandleInv types w) (hs : Subscribed types w w' c i) : ¬ Balanced w' := by
  intro hb
  have hold := h.balanced.count c
  have hnew := hb.count c
  obtain ⟨b, rfl⟩ := hs.eq
  have hfilter : ((c, i) :: w.held).filter (fun h => decide (h.1 = c)) = (c, i) :: w.held.filter fun h => decide (h.1 = c) :=
    List.filter_cons_of_pos (by simp)
  have hlen : (((c, i) :: w.held).filter fun h => decide (h.1 = c)).length = (w.queues.filter fun q => q.channel = c).length :=
    hnew
  rw [hfilter, List.length_cons] at hlen
  omega

/-! ## Open -/

/-- `NDP_IOC_SUBSCRIBE` and the call of the in-kernel build. -/
theorem HandleInv.request (h : HandleInv types w) (build : Build) (c : ChannelId) (flags : U32) (env : OpenEnv) :
    ((w.request build c flags env).2.2 ≠ 0 ∧ (w.request build c flags env).2.1 = none ∧
        HandleInv types (w.request build c flags env).1) ∨
      ∃ i, (w.request build c flags env).2 = (some i, 0) ∧ Subscribed types w (w.request build c flags env).1 c i ∧
        (w.request build c flags env).1.chan c = (subCreate env.create (w.chan c) i flags).1 ∧
        (subCreate env.create (w.chan c) i flags).2.2 = 0 := by
  have hs := h.subscribe c flags env
  cases build with
  | kernel =>
    rcases hs with hs | hs
    · exact Or.inl hs
    · exact Or.inr hs
  | userspace =>
    unfold Handle.request
    simp only
    by_cases hfrom : env.copyFrom
    · rw [if_neg (not_not.2 hfrom)]
      rcases hs with ⟨hret, hnone, hinv⟩ | ⟨i, hsome, hsub, hchan, hcreate⟩
      · rcases hr : w.subscribe c flags env with ⟨w', sub, ret⟩
        rw [hr] at hret hnone hinv
        cases hnone
        exact Or.inl ⟨hret, rfl, hinv⟩
      · rcases hr : w.subscribe c flags env with ⟨w', sub, ret⟩
        rw [hr] at hsome hsub hchan
        cases hsome
        simp only
        by_cases hto : env.copyTo
        · rw [if_neg (not_not.2 hto)]
          exact Or.inr ⟨i, rfl, hsub, hchan, hcreate⟩
        · rw [if_pos hto]
          exact Or.inl ⟨show eFault ≠ 0 by decide, rfl, hsub.unsubscribe h _⟩
    · rw [if_pos hfrom]
      exact Or.inl ⟨show eFault ≠ 0 by decide, rfl, h⟩

/-- The mappings and the protocol of an open do not fail. -/
def OpenEnv.Mapped (build : Build) (c : ChannelId) (userspace : Bool) (env : OpenEnv) : Prop :=
  (env.protocol = 1 ∨ env.protocol = 2 ∨ env.protocol = 3) ∧
    (build = .userspace → env.mmap ∧ (env.protocol = 2 ∨ env.protocol = 3 → env.hdrProps ∧ env.hdrMmap) ∧
      (env.protocol = 2 → env.offMmap) ∧
      (env.protocol = 3 → (c.type = .tx → env.updMmap) ∧ (userspace → env.comp)))

/-- The buffers of a Calypte TX queue are there. -/
def OpenEnv.Buffered (c : ChannelId) (env : OpenEnv) : Prop :=
  env.protocol = 3 ∧ c.type = .tx → env.dataBuff ∧ env.hdrBuff ∧ env.txPkts

theorem OpenEnv.complete_iff (build : Build) (c : ChannelId) (userspace : Bool) (env : OpenEnv) :
    env.Complete build c userspace ↔
      env.Mapped build c userspace ∧ env.Buffered c ∧ (build = .userspace → env.realloc) := by
  unfold OpenEnv.Complete OpenEnv.Mapped OpenEnv.Buffered
  constructor
  · rintro ⟨hp, hb, hu⟩
    exact ⟨⟨hp, fun h => ⟨(hu h).1, (hu h).2.2⟩⟩, hb, fun h => (hu h).2.1⟩
  · rintro ⟨⟨hp, hu⟩, hb, hr⟩
    exact ⟨hp, hb, fun h => ⟨(hu h).1, hr h, (hu h).2⟩⟩

/-- A queue that is open. -/
def openedQueue (build : Build) (c : ChannelId) (userspace : Bool) (protocol i : Nat) : NcNdpQueue :=
  { channel := c, protocol, flags := channelFlags protocol (openFlags userspace), sub := some i, mapped := true
    comp := decide (build = .userspace ∧ protocol = 3 ∧ userspace = true), control := true, burst := true, running := false }

/-- The queue before the protocol is opened. -/
def mappedQueue (c : ChannelId) (userspace : Bool) (protocol i : Nat) : NcNdpQueue :=
  { NcNdpQueue.zero c with
    protocol, flags := channelFlags protocol (openFlags userspace), sub := some i, mapped := true }

theorem flags_exclusive_iff (protocol : Nat) (userspace : Bool) :
    channelFlags protocol (openFlags userspace) &&& flagExclusive ≠ 0 ↔ userspace = true := by
  cases userspace with
  | false => exact ⟨fun h => absurd (openFlags_shared protocol) h, fun h => by cases h⟩
  | true => exact ⟨fun _ => rfl, fun _ => openFlags_exclusive protocol⟩

/-- What opening the protocol does: it gives the open queue, or leaves the queue without its `burst` calls. -/
def VxOutcome (build : Build) (c : ChannelId) (userspace : Bool) (protocol i : Nat) (mapped : Prop) (r : NcNdpQueue × Int) :
    Prop :=
  (mapped ∧ r = ({ openedQueue build c userspace protocol i with control := false }, 0)) ∨
    (¬ mapped ∧ r.1 = mappedQueue c userspace protocol i)

theorem vxOpen_two (c : ChannelId) (userspace : Bool) (env : OpenEnv) (i : Nat) :
    VxOutcome .userspace c userspace 2 i (env.hdrProps ∧ env.hdrMmap ∧ env.offMmap)
      (ncNdpVxOpenQueue .userspace env (mappedQueue c userspace 2 i)) := by
  show VxOutcome _ _ _ _ _ _ (if ¬ env.hdrProps then (mappedQueue c userspace 2 i, -eBadfd)
    else if ¬ env.hdrMmap ∨ ¬ env.offMmap then (mappedQueue c userspace 2 i, 0)
    else ({ mappedQueue c userspace 2 i with burst := true }, 0))
  by_cases hprops : env.hdrProps
  · rw [if_neg (not_not.2 hprops)]
    by_cases hmaps : ¬ env.hdrMmap ∨ ¬ env.offMmap
    · rw [if_pos hmaps]
      exact Or.inr ⟨fun h => hmaps.elim (fun hn => hn h.2.1) fun hn => hn h.2.2, rfl⟩
    · rw [if_neg hmaps]
      rw [not_or, not_not, not_not] at hmaps
      exact Or.inl ⟨⟨hprops, hmaps⟩, rfl⟩
  · rw [if_pos hprops]
    exact Or.inr ⟨fun h => hprops h.1, rfl⟩

/-- Protocol 3 in userspace. -/
theorem vxOpen_three (c : ChannelId) (userspace : Bool) (env : OpenEnv) (i : Nat) :
    VxOutcome .userspace c userspace 3 i
      (env.hdrProps ∧ env.hdrMmap ∧ (c.type = .tx → env.updMmap) ∧ (userspace → env.comp))
      (ncNdpVxOpenQueue .userspace env (mappedQueue c userspace 3 i)) := by
  have hexcl := flags_exclusive_iff 3 userspace
  show VxOutcome _ _ _ _ _ _ (if ¬ env.hdrProps ∨ ¬ env.hdrMmap ∨ (c.type = .tx ∧ ¬ env.updMmap)
    then (mappedQueue c userspace 3 i, eBadfd)
    else if channelFlags 3 (openFlags userspace) &&& flagExclusive ≠ 0 then
      if ¬ env.comp then (mappedQueue c userspace 3 i, eNodev)
      else ({ mappedQueue c userspace 3 i with comp := true, burst := true }, 0)
    else ({ mappedQueue c userspace 3 i with burst := true }, 0))
  by_cases hmaps : ¬ env.hdrProps ∨ ¬ env.hdrMmap ∨ (c.type = .tx ∧ ¬ env.updMmap)
  · rw [if_pos hmaps]
    refine Or.inr ⟨?_, rfl⟩
    rintro ⟨hp, hh, ht, -⟩
    rcases hmaps with h | h | ⟨h, hn⟩
    · exact h hp
    · exact h hh
    · exact hn (ht h)
  · rw [if_neg hmaps]
    rw [not_or, not_or, not_and, not_not, not_not] at hmaps
    have hupd : c.type = .tx → env.updMmap := fun h => not_not.1 (hmaps.2.2 h)
    cases userspace with
    | true =>
      rw [if_pos (hexcl.2 rfl)]
      by_cases hcomp : env.comp
      · rw [if_neg (not_not.2 hcomp)]
        exact Or.inl ⟨⟨hmaps.1, hmaps.2.1, hupd, fun _ => hcomp⟩, rfl⟩
      · rw [if_pos hcomp]
        exact Or.inr ⟨fun h => hcomp (h.2.2.2 rfl), rfl⟩
    | false =>
      rw [if_neg fun h => Bool.noConfusion (hexcl.1 h)]
      exact Or.inl ⟨⟨hmaps.1, hmaps.2.1, hupd, fun h => Bool.noConfusion h⟩, rfl⟩

theorem VxOutcome.congr {m m' : Prop} {r : NcNdpQueue × Int} (h : VxOutcome build c userspace protocol i m r) (hm : m ↔ m') :
    VxOutcome build c userspace protocol i m' r := by
  unfold VxOutcome at *
  rwa [← hm]

theorem vxOpen_cases (build : Build) (c : ChannelId) (userspace : Bool) (hmmap : build = .userspace → env.mmap) (i : Nat) :
    VxOutcome build c userspace env.protocol i (env.Mapped build c userspace)
      (ncNdpVxOpenQueue build env (mappedQueue c userspace env.protocol i)) := by
  by_cases hp : env.protocol = 1 ∨ env.protocol = 2 ∨ env.protocol = 3
  · unfold OpenEnv.Mapped
    cases build with
    | kernel =>
      refine Or.inl ⟨⟨hp, fun h => by cases h⟩, ?_⟩
      rcases hp with hp | hp | hp
      · rw [hp]; rfl
      · rw [hp]; rfl
      · rw [hp]; rfl
    | userspace =>
      have hm := hmmap rfl
      rcases hp with hp | hp | hp
      · rw [hp]
        exact Or.inl ⟨by simp [hm], rfl⟩
      · rw [hp]
        refine (vxOpen_two c userspace env i).congr ?_
        simp [hm, and_assoc]
      · rw [hp]
        refine (vxOpen_three c userspace env i).congr ?_
        simp [hm, and_assoc]
  · refine Or.inr ⟨fun h => hp h.1, ?_⟩
    rw [not_or, not_or] at hp
    unfold ncNdpVxOpenQueue mappedQueue
    obtain ⟨h1, h2, h3⟩ := hp
    split
    · exact absurd ‹env.protocol = 1› h1
    · exact absurd ‹env.protocol = 2› h2
    · exact absurd ‹env.protocol = 3› h3
    · exact absurd ‹env.protocol = 1› h1
    · exact absurd ‹env.protocol = 2› h2
    · exact absurd ‹env.protocol = 3› h3
    · rfl

/-- What an open does behind a subscribe that succeeds, on the way to the queue. -/
theorem openInit_cases (build : Build) (hready : env.Ready build)
    (hreq : w.request build c (channelFlags env.protocol (openFlags userspace)) env = (w₁, some i, 0)) :
    ∃ q ret, ncNdpQueueOpenInitExt build w c (openFlags userspace) env = (w₁, q, ret) ∧ q.key = (c, some i) ∧
      q.protocol = env.protocol ∧
      ((env.Mapped build c userspace ∧ q = openedQueue build c userspace env.protocol i ∧ ret = 0) ∨
        (¬ env.Mapped build c userspace ∧ (ret ≠ 0 ∨ ¬ q.control ∨ ¬ q.burst))) := by
  obtain ⟨-, -, -, hprops, hsize⟩ := hready
  unfold ncNdpQueueOpenInitExt
  simp only [hprops, not_true_eq_false, if_false, if_neg hsize, hreq, ne_eq]
  by_cases hmmap : build = .userspace ∧ ¬ env.mmap
  · rw [if_pos hmmap]
    refine ⟨_, _, rfl, rfl, rfl, Or.inr ⟨fun h => hmmap.2 (h.2 hmmap.1).1, Or.inr (Or.inl ?_)⟩⟩
    exact Bool.false_ne_true
  · rw [if_neg hmmap]
    rw [not_and, not_not] at hmmap
    have hvx := vxOpen_cases build c userspace hmmap i
    generalize hr : ncNdpVxOpenQueue build env _ = opened
    obtain ⟨q, ret⟩ := opened
    have hr' : ncNdpVxOpenQueue build env (mappedQueue c userspace env.protocol i) = (q, ret) := hr
    rw [hr'] at hvx
    simp only
    rcases hvx with ⟨hm, heq⟩ | ⟨hm, heq⟩
    · cases heq
      rw [if_neg (not_not.2 rfl)]
      exact ⟨_, _, rfl, rfl, rfl, Or.inl ⟨hm, rfl, rfl⟩⟩
    · cases heq
      by_cases hret : ret = 0
      · rw [if_neg (not_not.2 hret)]
        exact ⟨_, _, rfl, rfl, rfl, Or.inr ⟨hm, Or.inr (Or.inr Bool.false_ne_true)⟩⟩
      · rw [if_pos hret]
        exact ⟨_, _, rfl, rfl, rfl, Or.inr ⟨hm, Or.inl hret⟩⟩

theorem buffers_ok_iff (env : OpenEnv) (hp : q.protocol = env.protocol) (hc : q.channel = c) :
    ndpQueueCalypteOpenBuffers env q = 0 ↔ env.Buffered c := by
  have h1 : eBadfd ≠ 0 := by decide
  have h2 : eNomem ≠ 0 := by decide
  unfold ndpQueueCalypteOpenBuffers OpenEnv.Buffered
  rw [hp, hc]
  by_cases h3 : env.protocol = 3 ∧ c.type = .tx
  · rw [if_neg (not_not.2 h3)]
    simp only [h3, and_self, forall_const]
    cases env.dataBuff <;> cases env.hdrBuff <;> cases env.txPkts <;> simp [h1, h2]
  · rw [if_pos h3]
    exact ⟨fun _ h => absurd h h3, fun _ => rfl⟩

theorem HandleInv.openInit_fails (h : HandleInv types w) (build : Build) (c : ChannelId) (userspace : Bool) (env : OpenEnv)
    (hs : ¬ (env.props ∧ env.mmapSize ≠ 0 ∧
      (w.request build c (channelFlags env.protocol (openFlags userspace)) env).2.2 = 0)) :
    ∃ w' q ret, ncNdpQueueOpenInitExt build w c (openFlags userspace) env = (w', q, ret) ∧ ret ≠ 0 ∧ q.sub = none ∧
      HandleInv types w' := by
  unfold ncNdpQueueOpenInitExt
  by_cases hprops : env.props
  · by_cases hsize : env.mmapSize = 0
    · simp only [hprops, hsize, not_true_eq_false, if_false, if_true]
      exact ⟨_, _, _, rfl, by decide, rfl, h⟩
    · have hret : (w.request build c (channelFlags env.protocol (openFlags userspace)) env).2.2 ≠ 0 :=
        fun h0 => hs ⟨hprops, hsize, h0⟩
      rcases h.request build c (channelFlags env.protocol (openFlags userspace)) env with ⟨-, hnone, hinv⟩ | ⟨i, hi, -⟩
      · rcases hr : w.request build c (channelFlags env.protocol (openFlags userspace)) env with ⟨w', sub, ret⟩
        rw [hr] at hnone hinv hret
        cases hnone
        simp only [hprops, hsize, hr, not_true_eq_false, if_false]
        rw [if_pos hret]
        exact ⟨_, _, _, rfl, hret, rfl, hinv⟩
      · rw [hi] at hret
        exact absurd rfl hret
  · simp only [hprops]
    exact ⟨_, _, _, rfl, by decide, rfl, h⟩

theorem HandleInv.not_subscribes (h : HandleInv types w) (hs : ¬ w.Subscribes build c userspace env) :
    (ndpOpenQueue build w c userspace env).2 = none ∧ HandleInv types (ndpOpenQueue build w c userspace env).1 := by
  unfold ndpOpenQueue ndpBaseQueueOpen
  by_cases halloc : ¬ env.queue ∨ ¬ env.ncQueue
  · rw [if_pos halloc]
    exact ⟨rfl, h⟩
  by_cases hsub : build = .kernel ∧ ¬ env.subscriber
  · rw [if_neg halloc, if_pos hsub]
    exact ⟨rfl, h⟩
  rw [if_neg halloc, if_neg hsub]
  rw [not_or, not_not, not_not] at halloc
  rw [not_and, not_not] at hsub
  obtain ⟨w', q, ret, hinit, hret, hnone, hinv⟩ := h.openInit_fails build c userspace env fun hc =>
    hs ⟨⟨halloc.1, halloc.2, hsub, hc.1, hc.2.1⟩, hc.2.2⟩
  rw [hinit]
  simp only [ne_eq, hret, not_false_eq_true, if_true]
  have hsame : w'.subscriberDestroy build q .unused = w' := by
    unfold Handle.subscriberDestroy
    rw [hnone]
    cases build <;> rfl
  rw [hsame]
  exact ⟨trivial, hinv⟩

/-- What is left when an open fails behind the subscribe. -/
structure Fails (build : Build) (w₁ : Handle) (c : ChannelId) (i : Nat) (r : Handle × Option NcNdpQueue) : Prop where
  none : r.2 = none
  kernel : build = .kernel → r.1 = w₁.unsubscribe c i .unused
  userspace : build = .userspace → r.1.held = w₁.held ∧ r.1.queues = w₁.queues

theorem fails_destroy (build : Build) (hkey : q.key = (c, some i)) : Fails build w₁ c i (w₁.subscriberDestroy build q .unused, none) := by
  obtain ⟨rfl, hsub⟩ := Prod.mk.inj hkey
  refine ⟨rfl, fun hb => ?_, fun hb => ?_⟩
  · subst hb
    unfold Handle.subscriberDestroy
    rw [hsub]
  · subst hb
    exact ⟨rfl, rfl⟩

theorem baseClose_userspace (w : Handle) (q : NcNdpQueue) (env : StopEnv) :
    (ndpBaseQueueClose .userspace w q env).held = w.held ∧ (ndpBaseQueueClose .userspace w q env).queues = w.queues := by
  unfold ndpBaseQueueClose
  simp only
  split
  · exact ⟨rfl, rfl⟩
  · exact ⟨rfl, rfl⟩

theorem fails_close (build : Build) (hkey : q.key = (c, some i)) : Fails build w₁ c i (ndpBaseQueueClose build w₁ q .unused, none) := by
  cases build with
  | kernel => exact fails_destroy .kernel hkey
  | userspace =>
    refine ⟨rfl, (fun hb => by cases hb), fun _ => ?_⟩
    exact baseClose_userspace w₁ q .unused

/-- An open whose subscribe succeeds: it gives the queue, or it fails behind the subscribe. -/
theorem HandleInv.subscribes (h : HandleInv types w) (hs : w.Subscribes build c userspace env) :
    ∃ i w₁, Subscribed types w w₁ c i ∧
      w₁.chan c = (subCreate env.create (w.chan c) i (channelFlags env.protocol (openFlags userspace))).1 ∧
      (subCreate env.create (w.chan c) i (channelFlags env.protocol (openFlags userspace))).2.2 = 0 ∧
      ((env.Complete build c userspace ∧ ndpOpenQueue build w c userspace env =
          ({ w₁ with queues := openedQueue build c userspace env.protocol i :: w₁.queues },
            some (openedQueue build c userspace env.protocol i))) ∨
        (¬ env.Complete build c userspace ∧ Fails build w₁ c i (ndpOpenQueue build w c userspace env))) := by
  obtain ⟨hready, hret⟩ := hs
  rcases h.request build c (channelFlags env.protocol (openFlags userspace)) env with ⟨hne, -⟩ | ⟨i, hi, hsub, hchan, hcreate⟩
  · exact absurd hret hne
  rcases hr : w.request build c (channelFlags env.protocol (openFlags userspace)) env with ⟨w₁, sub, ret⟩
  rw [hr] at hi hsub hchan
  cases hi
  refine ⟨i, w₁, hsub, hchan, hcreate, ?_⟩
  obtain ⟨q, ret, hinit, hkey, hproto, hcase⟩ := openInit_cases build hready hr
  have hbuf := buffers_ok_iff env hproto (Prod.mk.inj hkey).1
  have halloc : ¬ (¬ env.queue ∨ ¬ env.ncQueue) := by
    rw [not_or, not_not, not_not]
    exact ⟨hready.1, hready.2.1⟩
  have hsubscriber : ¬ (build = .kernel ∧ ¬ env.subscriber) := by
    rw [not_and, not_not]
    exact hready.2.2.1
  unfold ndpOpenQueue ndpBaseQueueOpen
  rw [if_neg halloc, if_neg hsubscriber, hinit, OpenEnv.complete_iff]
  simp only
  -- from here on each failure goes through `fails_destroy`, and past the buffers through `fails_close`
  by_cases hret0 : ret = 0
  swap
  · rw [if_pos hret0]
    rcases hcase with ⟨-, -, h0⟩ | ⟨hm, -⟩
    · exact absurd h0 hret0
    · exact Or.inr ⟨fun hc => hm hc.1, fails_destroy build hkey⟩
  rw [if_neg (not_not.2 hret0)]
  by_cases hb : env.Buffered c
  swap
  · rw [if_pos (fun h0 => hb (hbuf.1 h0))]
    exact Or.inr ⟨fun hc => hb hc.2.1, fails_destroy build hkey⟩
  rw [if_neg (not_not.2 (hbuf.2 hb))]
  simp only
  rcases hcase with ⟨hm, rfl, -⟩ | ⟨hm, hops⟩
  · have hops : ¬ (¬ (openedQueue build c userspace env.protocol i).control ∨
        ¬ (openedQueue build c userspace env.protocol i).burst) := by
      rintro (hc | hb)
      · exact hc rfl
      · exact hb rfl
    rw [if_neg hops]
    by_cases hre : build = .userspace ∧ ¬ env.realloc
    · rw [if_pos hre]
      exact Or.inr ⟨fun hc => hre.2 (hc.2.2 hre.1), fails_close build hkey⟩
    · rw [if_neg hre]
      rw [not_and, not_not] at hre
      exact Or.inl ⟨⟨hm, hb, hre⟩, rfl⟩
  · rw [if_pos (hops.resolve_left (not_not.2 hret0))]
    exact Or.inr ⟨fun hc => hm hc.1, fails_close build hkey⟩

/-! ## The steps -/

theorem HandleInv.alone_opened (h : HandleInv types w) (hs : Subscribed types w w₁ c i)
    (hchan : w₁.chan c = (subCreate env.create (w.chan c) i (channelFlags env.protocol (openFlags userspace))).1)
    (hcreate : (subCreate env.create (w.chan c) i (channelFlags env.protocol (openFlags userspace))).2.2 = 0)
    (hexcl : (openedQueue build c userspace env.protocol i).flags &&& flagExclusive ≠ 0) :
    Alone types w₁ (openedQueue build c userspace env.protocol i) := by
  obtain rfl := (flags_exclusive_iff env.protocol userspace).1 hexcl
  obtain ⟨hempty, hflags, htype, hproto⟩ := (h.chans c).create_exclusive hcreate
  refine ⟨⟨i, rfl, ?_⟩, ?_, htype, hproto⟩
  · show (w₁.chan c).subscriptions = [i]
    rw [hs.subs, hempty]
  · show (w₁.chan c).flags &&& flagExclusive ≠ 0
    rw [hchan]
    exact hflags

theorem HandleInv.open (h : HandleInv types w) (hk : Keeps build w (.open c userspace env)) :
    HandleInv types (ndpOpenQueue build w c userspace env).1 ∧
      ∀ q, (ndpOpenQueue build w c userspace env).2 = some q → q.mapped = true ∧ env.Complete build c userspace := by
  by_cases hs : w.Subscribes build c userspace env
  · obtain ⟨i, w₁, hsub, hchan, hcreate, ⟨hc, heq⟩ | ⟨hc, hf⟩⟩ := h.subscribes hs
    · rw [heq]
      refine ⟨hsub.withQueue h rfl (h.alone_opened hsub hchan hcreate), ?_⟩
      rintro q ⟨⟩
      exact ⟨rfl, hc⟩
    · cases build with
      | kernel =>
        rw [hf.kernel rfl, hf.none]
        exact ⟨hsub.unsubscribe h _, fun q hq => by cases hq⟩
      | userspace => exact absurd (hk hs) hc
  · obtain ⟨hnone, hinv⟩ := h.not_subscribes hs
    rw [hnone]
    exact ⟨hinv, fun q hq => by cases hq⟩

theorem HandleInv.open_unbalanced (h : HandleInv types w) (hk : ¬ Keeps .userspace w (.open c userspace env)) :
    ¬ Balanced (ndpOpenQueue .userspace w c userspace env).1 := by
  have hk' : ¬ (w.Subscribes .userspace c userspace env → env.Complete .userspace c userspace) := hk
  rw [Classical.not_imp] at hk'
  obtain ⟨i, w₁, hsub, -, -, ⟨hc, -⟩ | ⟨-, hf⟩⟩ := h.subscribes hk'.1
  · exact absurd hc hk'.2
  · intro hb
    obtain ⟨hheld, hqueues⟩ := hf.userspace rfl
    have hold := h.balanced.alive
    refine hsub.not_balanced h ⟨?_, fun d => ?_⟩
    · obtain ⟨b, rfl⟩ := hsub.eq
      exact hold
    · rw [← hheld, ← hqueues]
      exact hb.count d

theorem step_subscriptions (dir : ChannelType) (b : SubChannel (Recorded FlagCtrl)) (a : BookAct FlagShown) (hne : i ≠ a.sub)
    (hi : i ∈ b.subscriptions) : i ∈ (Flags.step dir b a).subscriptions := by
  unfold Flags.step
  cases a with
  | create j env flags =>
    simp only [Book.step]
    split
    · exact hi
    · rcases subCreate_cases env b j flags with ⟨-, hsubs, -⟩ | ⟨-, hsubs, -⟩
      · exact hsubs ▸ hi
      · exact hsubs ▸ List.mem_cons_of_mem _ hi
  | start j e sync => simp only [Book.step]; split <;> exact hi
  | sync j e sync => simp only [Book.step]; split <;> exact hi
  | stop j e₁ e₂ force => simp only [Book.step]; split <;> exact hi
  | destroy j e₁ e₂ =>
    simp only [Book.step]
    split
    · exact (List.mem_erase_of_ne hne).2 hi
    · exact hi

theorem ChanOk.step_exclusive (h : ChanOk type b) (hsubs : b.subscriptions = [i]) (hflags : b.flags &&& flagExclusive ≠ 0)
    (dir : ChannelType) {a : BookAct FlagShown} (hne : i ≠ a.sub) :
    (Flags.step dir b a).subscriptions = b.subscriptions ∧ (Flags.step dir b a).flags = b.flags := by
  unfold Flags.step
  cases a with
  | create j env flags =>
    simp only [Book.step]
    split
    · exact ⟨rfl, rfl⟩
    · rcases subCreate_cases env b j flags with ⟨-, hsame⟩ | ⟨h0, -⟩
      · exact hsame
      · refine absurd h0 (subCreate_beside ?_ fun hz => hflags (or_and_eq_zero_right hz))
        rw [h.books.count, hsubs]
        exact Nat.one_ne_zero
  | start j e sync => simp only [Book.step]; split <;> exact ⟨rfl, rfl⟩
  | sync j e sync => simp only [Book.step]; split <;> exact ⟨rfl, rfl⟩
  | stop j e₁ e₂ force => simp only [Book.step]; split <;> exact ⟨rfl, rfl⟩
  | destroy j e₁ e₂ =>
    simp only [Book.step]
    split
    · rename_i hj
      rw [hsubs, List.mem_singleton] at hj
      exact absurd hj.symm hne
    · exact ⟨rfl, rfl⟩

theorem HandleInv.other (h : HandleInv types w) (c : ChannelId) {act : BookAct FlagShown} (hnot : (c, act.sub) ∉ w.held) :
    HandleInv types (w.setChan c (Flags.step c.type (w.chan c) act)) := by
  have hne : ∀ i, (c, i) ∈ w.held → i ≠ act.sub := by
    rintro i hi rfl
    exact hnot hi
  refine h.setChan ((h.chans c).step c.type act) (fun i hi => ?_) (fun q hq hc hexcl => ?_)
  · exact step_subscriptions c.type (w.chan c) act (hne i hi) (h.exist (c, i) hi)
  · obtain ⟨⟨i, hsub, honly⟩, hflags, -, -⟩ := h.alone q hq hexcl
    rw [hc] at honly hflags
    have hheld : (c, i) ∈ w.held := h.held_iff.2 ⟨q, hq, Prod.ext hc hsub⟩
    exact (h.chans c).step_exclusive honly hflags c.type (hne i hheld)

theorem HandleInv.keys_nodup (h : HandleInv types w) : (w.queues.map NcNdpQueue.key).Nodup :=
  h.pairs.nodup_iff.1 (h.nodup.map held_injective)

/-- A queue and its subscription go together. -/
theorem HandleInv.removed (h : HandleInv types w) (hheld : (c, i) ∈ w.held) (env : StopEnv) :
    HandleInv types
      (({ w with queues := w.queues.filter fun p => p.key ≠ (c, some i) } : Handle).unsubscribe c i env) := by
  have hdestroy := (h.chans c).destroy (h.exist _ hheld) env.first env.second
  constructor
  case alive => exact h.alive
  case chans =>
    intro d
    by_cases hd : d = c
    · subst hd
      show ChanOk _ ((Handle.setChan _ d _).chan d)
      rw [setChan_self]
      exact hdestroy
    · show ChanOk _ ((Handle.setChan _ c _).chan d)
      rw [setChan_of_ne _ _ hd]
      exact h.chans d
  case pairs =>
    show ((w.held.erase (c, i)).map fun h => (h.1, some h.2)).Perm
      ((w.queues.filter fun p => p.key ≠ (c, some i)).map NcNdpQueue.key)
    have hleft : (w.held.erase (c, i)).map (fun h => (h.1, some h.2)) =
        (w.held.map fun h => (h.1, some h.2)).erase (c, some i) := List.map_erase held_injective _
    have hright : (w.queues.filter fun p => p.key ≠ (c, some i)).map NcNdpQueue.key =
        (w.queues.map NcNdpQueue.key).erase (c, some i) := by
      rw [h.keys_nodup.erase_eq_filter, List.filter_map]
      congr 1
      refine List.filter_congr fun p _ => ?_
      rw [Function.comp_apply, Bool.eq_iff_iff, decide_eq_true_iff, bne_iff_ne]
    rw [hleft, hright]
    exact h.pairs.erase _
  case nodup => exact h.nodup.erase _
  case exist =>
    rintro ⟨d, j⟩ hp
    have hmem := List.mem_of_mem_erase hp
    by_cases hd : d = c
    · subst hd
      show j ∈ ((Handle.setChan _ d _).chan d).subscriptions
      rw [setChan_self]
      refine (List.mem_erase_of_ne ?_).2 (h.exist _ hmem)
      rintro rfl
      exact h.nodup.not_mem_erase hp
    · show j ∈ ((Handle.setChan _ c _).chan d).subscriptions
      rw [setChan_of_ne _ _ hd]
      exact h.exist _ hmem
  case alone =>
    intro q hq hexcl
    obtain ⟨hq, hkey⟩ := List.mem_filter.1 hq
    obtain ⟨⟨j, hsub, honly⟩, hflags, htype, hproto⟩ := h.alone q hq hexcl
    by_cases hd : q.channel = c
    · -- the channel of an exclusive queue has no other subscription to destroy
      have hi : i ∈ (w.chan c).subscriptions := h.exist _ hheld
      rw [hd] at honly
      rw [honly, List.mem_singleton] at hi
      subst hi
      exact absurd (Prod.ext hd hsub) (of_decide_eq_true hkey)
    · have hchan : (({ w with queues := w.queues.filter fun p => p.key ≠ (c, some i) } : Handle).unsubscribe c i env).chan
          q.channel = w.chan q.channel := setChan_of_ne _ _ hd
      exact ⟨⟨j, hsub, by rw [hchan]; exact honly⟩, by rw [hchan]; exact hflags, htype, hproto⟩

/-! ## Close -/

theorem stop_held (build : Build) (w : Handle) (q : NcNdpQueue) (i : Nat) (env : QueueStopEnv) :
    (ndpQueueStop build w q i env).held = w.held ∧
      (ndpQueueStop build w q i env).queues.map NcNdpQueue.key = w.queues.map NcNdpQueue.key := by
  unfold ndpQueueStop
  split
  · exact ⟨rfl, rfl⟩
  · simp only
    split
    · exact ⟨rfl, rfl⟩
    · exact ⟨rfl, setRunning_keys _ q false⟩

theorem HandleInv.close (h : HandleInv types w) (hq : w.queue c i = some q) (env : QueueStopEnv) (destroy : StopEnv) :
    HandleInv types (ndpCloseQueue .kernel w q i env destroy) := by
  obtain ⟨-, hkey, hheld⟩ := h.queue_held hq
  have hstop := h.stop hq .kernel env
  have hheld' : (c, i) ∈ (ndpQueueStop .kernel w q i env).held := by
    rw [(stop_held .kernel w q i env).1]
    exact hheld
  have hrem := hstop.removed hheld' destroy
  unfold ndpCloseQueue ndpBaseQueueClose Handle.subscriberDestroy
  obtain ⟨rfl, hsub⟩ := Prod.mk.inj hkey
  simp only [hsub, hkey]
  exact hrem

theorem HandleInv.close_unbalanced (h : HandleInv types w) (hq : w.queue c i = some q) (env : QueueStopEnv)
    (destroy : StopEnv) : ¬ Balanced (ndpCloseQueue .userspace w q i env destroy) := by
  obtain ⟨-, hkey, hheld⟩ := h.queue_held hq
  obtain ⟨hsame, hkeys⟩ := stop_held .userspace w q i env
  have hstop := (h.stop hq .userspace env).balanced.count c
  intro hb
  have hcount := hb.count c
  unfold ndpCloseQueue at hcount
  obtain ⟨hh, hqs⟩ := baseClose_userspace
    { ndpQueueStop .userspace w q i env with
      queues := (ndpQueueStop .userspace w q i env).queues.filter fun p => p.key ≠ q.key } q destroy
  rw [hh, hqs] at hcount
  simp only at hcount
  rw [hstop, List.filter_comm] at hcount
  have hmem : (c, some i) ∈ (ndpQueueStop .userspace w q i env).queues.map NcNdpQueue.key := by
    rw [hkeys]
    exact List.mem_map.2 ⟨q, List.mem_of_find?_eq_some hq, hkey⟩
  obtain ⟨p, hp, hpk⟩ := List.mem_map.1 hmem
  have hpc : p ∈ (ndpQueueStop .userspace w q i env).queues.filter fun p => p.channel = c :=
    List.mem_filter.2 ⟨hp, decide_eq_true (Prod.mk.inj hpk).1⟩
  have hlt : (((ndpQueueStop .userspace w q i env).queues.filter fun p => p.channel = c).filter
      fun p => p.key ≠ q.key).length < ((ndpQueueStop .userspace w q i env).queues.filter fun p => p.channel = c).length := by
    refine List.length_filter_lt_length_iff_exists.2 ⟨p, hpc, ?_⟩
    rw [decide_eq_true_iff, not_not]
    exact hpk.trans hkey.symm
  exact absurd hcount hlt.ne'

theorem HandleInv.close_empty (h : HandleInv types w) (hq : w.queue c i = some q) (hexcl : q.flags &&& flagExclusive ≠ 0)
    (env : QueueStopEnv) (destroy : StopEnv) :
    ((ndpCloseQueue .kernel w q i env destroy).chan c).subscriptions = [] ∧ types c = .calypte ∧ q.protocol ≠ 2 := by
  obtain ⟨hmem, hkey, -⟩ := h.queue_held hq
  obtain ⟨rfl, hsub⟩ := Prod.mk.inj hkey
  obtain ⟨⟨j, hj, honly⟩, -, htype, hproto⟩ := h.alone q hmem hexcl
  cases hsub.symm.trans hj
  have hsame : ((ndpQueueStop .kernel w q i env).chan q.channel).subscriptions = (w.chan q.channel).subscriptions := by
    unfold ndpQueueStop
    split
    · rfl
    · simp only
      split
      · exact setCh_subscriptions w q.channel _
      · exact setCh_subscriptions w q.channel _
  refine ⟨?_, htype, hproto⟩
  unfold ndpCloseQueue ndpBaseQueueClose Handle.subscriberDestroy
  simp only [hsub]
  show ((Handle.setChan _ q.channel _).chan q.channel).subscriptions = []
  rw [setChan_self]
  show ((ndpQueueStop .kernel w q i env).chan q.channel).subscriptions.erase i = []
  rw [hsame, honly, List.erase_cons_head]

theorem HandleInv.open_empty (h : HandleInv types w) (hempty : (w.chan c).subscriptions = []) (htype : types c = .calypte)
    (hproto : env.protocol ≠ 2) (hfine : env.Fine build c true) : (ndpOpenQueue build w c true env).2.isSome = true := by
  obtain ⟨hready, hcomplete, hfrom, hfound, hring, halloc, hto⟩ := hfine
  have hok := h.chans c
  rw [htype] at hok
  have hcreate : ∀ i, (subCreate env.create (w.chan c) i (channelFlags env.protocol (openFlags true))).2.2 = 0 := fun i =>
    hok.create_again hempty hring halloc hproto
  have hsub : w.Subscribes build c true env := by
    refine ⟨hready, ?_⟩
    have hret := subscribe_eq w c (channelFlags env.protocol (openFlags true)) hfound
    rw [if_neg (not_not.2 (hcreate _))] at hret
    cases build with
    | kernel => exact congrArg (fun r => r.2.2) hret
    | userspace =>
      unfold Handle.request
      simp only [hfrom, not_true_eq_false, if_false, hret, hto]
  obtain ⟨i, w₁, -, -, -, ⟨-, heq⟩ | ⟨hc, -⟩⟩ := h.subscribes hsub
  · rw [heq]
    rfl
  · exact absurd hcomplete hc

/-! ## Runs -/

/-- A handle that the device was just opened with, over channels that others have used in any way. -/
structure Opened (types : ChannelId → DmaType) (w : Handle) : Prop where
  held : w.held = []
  queues : w.queues = []
  alive : w.crashed = false
  chans : ∀ c, ∃ ptrmask acts, w.chan c = Ring.run (Flags.step c.type) (Flags.opened (types c) ptrmask) acts

theorem Opened.inv (h : Opened types w) : HandleInv types w := by
  constructor
  case alive => exact h.alive
  case chans =>
    intro c
    obtain ⟨ptrmask, acts, hc⟩ := h.chans c
    have hok : ChanOk (types c) (Flags.opened (types c) ptrmask) := by
      refine ⟨Book.inv_opened ptrmask _, ?_⟩
      exact ⟨rfl, Or.inl rfl⟩
    rw [hc]
    exact Ring.run_inv (I := ChanOk (types c)) (fun b a hb => hb.step c.type a) acts _ hok
  case pairs =>
    rw [h.held, h.queues]
    exact List.Perm.nil
  case nodup =>
    rw [h.held]
    exact List.nodup_nil
  case exist =>
    rw [h.held]
    exact fun p hp => absurd hp List.not_mem_nil
  case alone =>
    rw [h.queues]
    exact fun p hp => absurd hp List.not_mem_nil

theorem handleStep_start (build : Build) (w : Handle) (c : ChannelId) (i : Nat) (e : FlagShown) (h : HandleInv types w) :
    HandleInv types (handleStep build w (.start c i e)) := by
  unfold handleStep
  simp only
  split
  · exact h.start ‹_› e
  · exact h

theorem handleStep_stop (build : Build) (w : Handle) (c : ChannelId) (i : Nat) (env : QueueStopEnv) (h : HandleInv types w) :
    HandleInv types (handleStep build w (.stop c i env)) := by
  unfold handleStep
  simp only
  split
  · exact h.stop ‹_› build env
  · exact h

theorem handleStep_other (build : Build) (w : Handle) (c : ChannelId) (act : BookAct FlagShown) (h : HandleInv types w) :
    HandleInv types (handleStep build w (.other c act)) := by
  unfold handleStep
  simp only
  split
  · exact h
  · exact h.other c ‹_›

theorem handleStep_close (w : Handle) (c : ChannelId) (i : Nat) (env : QueueStopEnv) (destroy : StopEnv)
    (h : HandleInv types w) : HandleInv types (handleStep .kernel w (.close c i env destroy)) := by
  unfold handleStep
  simp only
  split
  · exact h.close ‹_› env destroy
  · exact h

theorem handleStep_close_none (hnone : w.queue c i = none) (env : QueueStopEnv) (destroy : StopEnv) :
    handleStep build w (.close c i env destroy) = w := by
  unfold handleStep
  simp only [hnone]

theorem handleStep_close_some (hq : w.queue c i = some q) (env : QueueStopEnv) (destroy : StopEnv) :
    handleStep build w (.close c i env destroy) = ndpCloseQueue build w q i env destroy := by
  unfold handleStep
  simp only [hq]

theorem HandleInv.step (h : HandleInv types w) (hk : Keeps build w a) : HandleInv types (handleStep build w a) := by
  cases a with
  | «open» c userspace env => exact (h.open hk).1
  | start c i e => exact handleStep_start build w c i e h
  | stop c i env => exact handleStep_stop build w c i env h
  | close c i env destroy =>
    cases build with
    | kernel => exact handleStep_close w c i env destroy h
    | userspace =>
      have hnone : w.queue c i = none := hk
      rw [handleStep_close_none hnone]
      exact h
  | other c act => exact handleStep_other build w c act h

theorem HandleInv.right_of_keeps (h : HandleInv types w) (hk : Keeps build w a) : Right build w a := by
  have hstep := h.step hk
  refine ⟨hstep.balanced, ?_⟩
  cases a with
  | «open» c userspace env => exact (h.open hk).2
  | close c i env destroy =>
    intro q hq hexcl oenv hproto hfine
    cases build with
    | kernel =>
      obtain ⟨hempty, htype, hp⟩ := h.close_empty hq hexcl env destroy
      rw [handleStep_close_some hq] at hstep ⊢
      exact hstep.open_empty hempty htype (hproto ▸ hp) hfine
    | userspace =>
      have hnone : w.queue c i = none := hk
      rw [hnone] at hq
      cases hq
  | start c i e => trivial
  | stop c i env => trivial
  | other c act => trivial

theorem HandleInv.keeps_of_right (h : HandleInv types w) (hr : Right build w a) : Keeps build w a := by
  by_contra hk
  obtain ⟨hb, -⟩ := hr
  cases build with
  | kernel =>
    apply hk
    cases a <;> trivial
  | userspace =>
    cases a with
    | «open» c userspace env => exact h.open_unbalanced hk hb
    | close c i env destroy =>
      obtain ⟨q, hq⟩ := Option.ne_none_iff_exists'.1 hk
      rw [handleStep_close_some hq] at hb
      exact h.close_unbalanced hq env destroy hb
    | start c i e => exact hk trivial
    | stop c i env => exact hk trivial
    | other c act => exact hk trivial

/-- Every step of a run is right exactly when every step of it meets the condition. -/
theorem handles_right_iff (build : Build) (types : ChannelId → DmaType) (w : Handle) (h : Opened types w)
    (l : List HandleAction) :
    Meets (handleStep build) (Right build) w l ↔ Meets (handleStep build) (Keeps build) w l := by
  refine meets_iff (I := HandleInv types) (fun w a hI => ?_) (fun w a hr hI => ?_) l w h.inv
  · exact ⟨hI.keeps_of_right, hI.right_of_keeps⟩
  · exact hI.step (hI.keeps_of_right hr)

/-- An idle device with Calypte controllers. -/
def idleHandle : Handle :=
  { chan := fun _ => Flags.opened .calypte 0xF, held := [], queues := [], crashed := false }

theorem idleHandle_opened : Opened (fun _ => .calypte) idleHandle := ⟨rfl, rfl, rfl, fun _ => ⟨0xF, [], rfl⟩⟩

def rx0 : ChannelId := ⟨0, .rx⟩
def tx0 : ChannelId := ⟨0, .tx⟩

/-- An open on which nothing fails. -/
def fineOpen : OpenEnv :=
  { queue := true, ncQueue := true, subscriber := true, props := true, mmapSize := 4096, protocol := 3, copyFrom := true
    found := true, create := ⟨true, true⟩, copyTo := true, mmap := true, hdrProps := true, hdrMmap := true
    offMmap := true, updMmap := true, comp := true, dataBuff := true, hdrBuff := true, txPkts := true, realloc := true }

def quietStop : QueueStopEnv := ⟨none, [], .unused⟩

/-- Two queues, of which the driver refuses a third, are opened, and one is started and stopped. -/
theorem handles_right_two_queues :
    (Ring.run (handleStep .userspace) idleHandle
      [.open rx0 true fineOpen, .open tx0 false fineOpen, .open rx0 false fineOpen, .start rx0 1 ⟨0, 0⟩, .stop rx0 1 quietStop]
      ).queues.length = 2 ∧
    Meets (handleStep .userspace) (Right .userspace) idleHandle
      [.open rx0 true fineOpen, .open tx0 false fineOpen, .open rx0 false fineOpen, .start rx0 1 ⟨0, 0⟩,
        .stop rx0 1 quietStop] := by
  refine ⟨by decide +kernel, ?_⟩
  rw [handles_right_iff .userspace _ idleHandle idleHandle_opened]
  decide +kernel

/-- An exclusive queue that was opened and closed keeps its subscription and cannot be opened again; an open whose
mapping fails uses the component that is not there. -/
theorem handle_keeps_subscription :
    ¬ Meets (handleStep .userspace) (Right .userspace) idleHandle
        [.open rx0 true fineOpen, .close rx0 1 quietStop .unused] ∧
      (ndpOpenQueue .userspace (Ring.run (handleStep .userspace) idleHandle
        [.open rx0 true fineOpen, .close rx0 1 quietStop .unused]) rx0 true fineOpen).2 = none ∧
      (ndpOpenQueue .userspace idleHandle rx0 true { fineOpen with mmap := false }).1.crashed = true := by
  refine ⟨fun hm => ?_, by decide +kernel, by decide +kernel⟩
  obtain ⟨-, ⟨hb, -⟩, -⟩ := hm
  have hcount := hb.count rx0
  revert hcount
  decide +kernel

end NdkSw.Ndp

/-
Creating and destroying the subscriptions of a channel (`channel.c`, `subscription.c`): the flags a
channel is subscribed with, the count of its subscriptions, and the system of all calls that subscribers
make on one channel. The controller is a parameter; its calls for start and stop are recorded.
-/
import NdkSw.Ndp.TxBounds
import NdkSw.Shared.Words

namespace NdkSw.Ndp

/-! ## Flags -/

/-- `NDP_CHANNEL_FLAG_*`. -/
def flagDiscard : U32 := 0x01
def flagExclusive : U32 := 0x02
def flagUseHeader : U32 := 0x04
def flagUseOffset : U32 := 0x08
def flagUserspace : U32 := 0x10

/-- The calls of `struct ndp_channel_ops` for the flags of the controller. -/
structure FlagOps (C : Type) where
  getFlags : C → U64
  setFlags : C → U64 → C × U64

/-- `struct ndp_channel` with the members that subscribing uses, and the subscriptions that exist. One that
does not exist has the status `init`. -/
structure SubChannel (C : Type) where
  ch : Channel C
  subscriptionsCount : Nat
  flags : U32
  subscriptions : List Nat

/-! ## Subscribing -/

section Subscribe

variable {C E : Type} (ops : ChannelOps C E) (fops : FlagOps C)

/-- The first subscription of `ndp_channel_subscribe` sets the flags; `flags` becomes those the controller
has taken. -/
def subscribeFirst (b : SubChannel C) (flags : U32) : SubChannel C × U32 × Int :=
  let reqFlags : U64 := flags.setWidth 64
  let mask := flagExclusive
  match fops.setFlags b.ch.ctrl (reqFlags &&& (~~~mask).setWidth 64) with
  | (ctrl, set) =>
    let b := { b with ch := { b.ch with ctrl } }
    let flags : U32 := set.setWidth 32
    if flags.setWidth 64 ≠ reqFlags &&& (~~~mask).setWidth 64 then (b, flags, ePerm)
    else ({ b with flags := (reqFlags &&& mask.setWidth 64).setWidth 32 }, flags, 0)

/-- Every other one has to ask for the flags that are set. -/
def subscribeNext (b : SubChannel C) (flags : U32) : SubChannel C × U32 × Int :=
  let mask : U32 := (fops.getFlags b.ch.ctrl).setWidth 32
  let ret := if (flags ||| b.flags) &&& flagExclusive ≠ 0 then ePerm else 0
  let ret := if flags ^^^ (b.flags ||| mask) ≠ 0 then ePerm else ret
  (b, flags, ret)

/-- `ndp_channel_subscribe`, with the flags it passes back and its return value. -/
def ndpChannelSubscribe (b : SubChannel C) (flags : U32) : SubChannel C × U32 × Int :=
  let first := b.subscriptionsCount = 0
  let b := { b with subscriptionsCount := b.subscriptionsCount + 1 }
  match (if first then subscribeFirst fops b flags else subscribeNext fops b flags) with
  | (b, flags, ret) =>
    (if ret ≠ 0 then { b with subscriptionsCount := b.subscriptionsCount - 1 } else b, flags, ret)

theorem or_and_eq_zero_right {a b m : U32} (h : (a ||| b) &&& m = 0) : b &&& m = 0 := by
  ext i hi
  have hbit := congrArg (fun x : U32 => x[i]) h
  simp only [BitVec.ofNat_eq_ofNat, BitVec.getElem_and, BitVec.getElem_or, BitVec.getElem_zero] at hbit ⊢
  revert hbit
  cases a[i] <;> cases b[i] <;> cases m[i] <;> decide

theorem ndpChannelSubscribe_first {b : SubChannel C} (h0 : b.subscriptionsCount = 0) {flags : U32} {ctrl : C} {set : U64}
    (hset : fops.setFlags b.ch.ctrl ((flags &&& ~~~flagExclusive).setWidth 64) = (ctrl, set)) :
    ndpChannelSubscribe fops b flags =
      if set.setWidth 32 = flags &&& ~~~flagExclusive then
        ({ b with ch := { b.ch with ctrl }, subscriptionsCount := 1, flags := flags &&& flagExclusive }, set.setWidth 32, 0)
      else ({ b with ch := { b.ch with ctrl } }, set.setWidth 32, ePerm) := by
  have hreq : flags.setWidth 64 &&& (~~~flagExclusive).setWidth 64 = (flags &&& ~~~flagExclusive).setWidth 64 :=
    BitVec.setWidth_and.symm
  have hexcl : (flags.setWidth 64 &&& flagExclusive.setWidth 64 : U64).setWidth 32 = flags &&& flagExclusive := by
    rw [BitVec.setWidth_and, BitVec.setWidth_setWidth_of_le _ (by decide), BitVec.setWidth_setWidth_of_le _ (by decide),
      BitVec.setWidth_eq, BitVec.setWidth_eq]
  have hinj : (set.setWidth 32 : U32).setWidth 64 = ((flags &&& ~~~flagExclusive).setWidth 64 : U64) ↔
      set.setWidth 32 = flags &&& ~~~flagExclusive := by
    rw [← BitVec.toNat_inj, ← BitVec.toNat_inj, toNat_setWidth64, toNat_setWidth64]
  simp only [ndpChannelSubscribe, if_pos h0, subscribeFirst, hreq, hset, hexcl, ne_eq, hinj, ite_not]
  split
  · simp [h0]
  · simp [h0, ePerm]

/-- Subscribing fails, perhaps with a changed controller, or it counts one more subscription. The flags of
the channel change only with the first one; beside others none may be exclusive. -/
theorem ndpChannelSubscribe_cases (b : SubChannel C) (flags : U32) : ∃ ctrl out,
    (ctrl = b.ch.ctrl ∨ ∃ f, ctrl = (fops.setFlags b.ch.ctrl f).1) ∧
    ((∃ ret, ret ≠ 0 ∧ ndpChannelSubscribe fops b flags = ({ b with ch := { b.ch with ctrl } }, out, ret)) ∨
      ∃ f, (b.subscriptionsCount = 0 ∨ f &&& flagExclusive = 0) ∧ ndpChannelSubscribe fops b flags =
        ({ b with ch := { b.ch with ctrl }, subscriptionsCount := b.subscriptionsCount + 1, flags := f }, out, 0)) := by
  have hperm : ePerm ≠ 0 := by decide
  by_cases h0 : b.subscriptionsCount = 0
  · rcases hop : fops.setFlags b.ch.ctrl ((flags &&& ~~~flagExclusive).setWidth 64) with ⟨ctrl, set⟩
    refine ⟨ctrl, set.setWidth 32, Or.inr ⟨_, by rw [hop]⟩, ?_⟩
    rw [ndpChannelSubscribe_first fops h0 hop]
    split
    · exact Or.inr ⟨_, Or.inl h0, by rw [h0]⟩
    · exact Or.inl ⟨ePerm, hperm, rfl⟩
  · unfold ndpChannelSubscribe
    simp only [if_neg h0, subscribeNext]
    by_cases hx : flags ^^^ (b.flags ||| (fops.getFlags b.ch.ctrl).setWidth 32) = 0
    · by_cases hexcl : (flags ||| b.flags) &&& flagExclusive = 0
      · refine ⟨_, flags, Or.inl rfl, Or.inr ⟨b.flags, Or.inr (or_and_eq_zero_right hexcl), ?_⟩⟩
        simp only [ne_eq, hx, hexcl, not_true_eq_false, if_false]
      · refine ⟨_, flags, Or.inl rfl, Or.inl ⟨ePerm, hperm, ?_⟩⟩
        simp only [ne_eq, hx, hexcl, not_true_eq_false, if_false, not_false_eq_true, if_true, hperm, Nat.add_sub_cancel]
    · refine ⟨_, flags, Or.inl rfl, Or.inl ⟨ePerm, hperm, ?_⟩⟩
      simp only [ne_eq, hx, not_false_eq_true, if_true, hperm, Nat.add_sub_cancel]

/-- `ndp_channel_unsubscribe`. -/
def ndpChannelUnsubscribe (b : SubChannel C) : SubChannel C :=
  { b with subscriptionsCount := b.subscriptionsCount - 1 }

/-- A subscription that does not exist. -/
def Subscription.freed : Subscription := { status := .init, hwptr := 0, swptr := 0 }

def SubChannel.setSub (b : SubChannel C) (i : Nat) (s : Subscription) : SubChannel C :=
  { b with ch := { b.ch with sub := Function.update b.ch.sub i s } }

/-- What `ndp_subscription_create` finds: a ring of the channel, and memory. -/
structure CreateEnv where
  ring : Bool
  alloc : Bool

/-- `ndp_subscription_create` on this channel. -/
def ndpSubscriptionCreate (env : CreateEnv) (b : SubChannel C) (i : Nat) (flags : U32) : SubChannel C × U32 × Int :=
  if ¬ env.ring then (b, flags, eBadfd)
  else if ¬ env.alloc then (b, flags, eNomem)
  else
    match ndpChannelSubscribe fops (b.setSub i { status := .subscribed, hwptr := 0, swptr := 0 }) flags with
    | (b, flags, ret) =>
      if ret ≠ 0 then (b.setSub i .freed, flags, ret)
      else ({ b with subscriptions := i :: b.subscriptions }, flags, 0)

/-- `ndp_subscription_destroy`. -/
def ndpSubscriptionDestroy (e₁ e₂ : E) (b : SubChannel C) (i : Nat) : SubChannel C :=
  let ch := if (b.ch.sub i).status = .running then (ndpSubscriptionStop ops e₁ e₂ b.ch i true).1 else b.ch
  let b := ndpChannelUnsubscribe { b with ch }
  { b with subscriptions := b.subscriptions.erase i }.setSub i .freed

end Subscribe

/-- A controller with fixed flags, whatever is asked for. -/
def fixedFlags {C : Type} (flags : U64) : FlagOps C where
  getFlags _ := flags
  setFlags c _ := (c, flags)

/-! ## The system -/

/-- A recorded call of `ops->start` or `ops->stop`, with its return value. -/
inductive OpsCall
  | start (ret : Int)
  | stop (force : Bool) (ret : Int)
  deriving DecidableEq, Repr

/-- A controller that is started only while it is stopped and stopped only while it is started: whether it
is started after one more call. A start that fails and a stop that has to be tried again change nothing. -/
def OpsCall.next : Option Bool → OpsCall → Option Bool
  | some false, .start ret => some (decide (ret = 0))
  | some true, .stop _ ret => some (decide (ret = eAgain))
  | _, _ => none

def OpsCall.isStart : OpsCall → Bool
  | .start _ => true
  | .stop .. => false

/-- Whether the calls leave the controller started, if they come in turn. -/
def started (calls : List OpsCall) : Option Bool := calls.foldl OpsCall.next (some false)

theorem started_append (calls : List OpsCall) (c : OpsCall) : started (calls ++ [c]) = OpsCall.next (started calls) c :=
  List.foldl_append ..

/-- A controller and the calls made to it so far. -/
structure Recorded (C : Type) where
  ctrl : C
  calls : List OpsCall

def recordOps {C E : Type} (ops : ChannelOps C E) : ChannelOps (Recorded C) E where
  start c e :=
    match ops.start c.ctrl e with
    | (ctrl, ret, hwptr) => ({ ctrl, calls := c.calls ++ [.start ret] }, ret, hwptr)
  stop c e force :=
    match ops.stop c.ctrl e force with
    | (ctrl, ret) => ({ ctrl, calls := c.calls ++ [.stop force ret] }, ret)
  getHwptr c e :=
    match ops.getHwptr c.ctrl e with
    | (ctrl, hwptr) => ({ c with ctrl }, hwptr)
  setSwptr c e ptr := { c with ctrl := ops.setSwptr c.ctrl e ptr }
  getFreeSpace := ops.getFreeSpace.map fun free c => free c.ctrl

def recordFlags {C : Type} (fops : FlagOps C) : FlagOps (Recorded C) where
  getFlags c := fops.getFlags c.ctrl
  setFlags c flags :=
    match fops.setFlags c.ctrl flags with
    | (ctrl, ret) => ({ c with ctrl }, ret)

theorem recordFlags_setFlags {C : Type} {fops : FlagOps C} {c : Recorded C} {flags ret : U64} {ctrl : C}
    (h : fops.setFlags c.ctrl flags = (ctrl, ret)) : (recordFlags fops).setFlags c flags = ({ c with ctrl }, ret) := by
  simp only [recordFlags, h]

/-- A call of a subscriber, with what the hardware shows meanwhile. -/
inductive BookAct (E : Type)
  | create (i : Nat) (env : CreateEnv) (flags : U32)
  | start (i : Nat) (e : E) (sync : SubscriptionSync)
  | sync (i : Nat) (e : E) (sync : SubscriptionSync)
  | stop (i : Nat) (e₁ e₂ : E) (force : Bool)
  | destroy (i : Nat) (e₁ e₂ : E)

namespace Book

variable {C E : Type} (ops : ChannelOps C E) (fops : FlagOps C) (type : ChannelType) {b : SubChannel (Recorded C)}
  {ch : Channel (Recorded C)}

/-- A channel after `ndp_channel_init`, with nothing subscribed. -/
def opened (ptrmask : U64) (c : C) : SubChannel (Recorded C) where
  ch :=
    { lockedSub := none, hwptr := 0, swptr := 0, ptrmask, startCount := 0, listSubscriptions := []
      sub := fun _ => .freed
      ctrl := { ctrl := c, calls := [] } }
  subscriptionsCount := 0
  flags := 0
  subscriptions := []

/-- One call. A new subscription is at an address that is not in use; all other calls find theirs by its
address (`ndp_subscription_by_id`). -/
def step (b : SubChannel (Recorded C)) : BookAct E → SubChannel (Recorded C)
  | .create i env flags =>
    if i ∈ b.subscriptions then b else (ndpSubscriptionCreate (recordFlags fops) env b i flags).1
  | .start i e sync =>
    if i ∈ b.subscriptions then { b with ch := (ndpSubscriptionStart (recordOps ops) type e b.ch i sync).1 } else b
  | .sync i e sync =>
    if i ∈ b.subscriptions then { b with ch := (ndpSubscriptionSync (recordOps ops) type e b.ch i sync).1 } else b
  | .stop i e₁ e₂ force =>
    if i ∈ b.subscriptions then { b with ch := (ndpSubscriptionStop (recordOps ops) e₁ e₂ b.ch i force).1 } else b
  | .destroy i e₁ e₂ => if i ∈ b.subscriptions then ndpSubscriptionDestroy (recordOps ops) e₁ e₂ b i else b

/-! ## The controller -/

/-- What every call of the controller keeps. -/
structure CtrlKeeps (ops : ChannelOps C E) (fops : FlagOps C) (P : C → Prop) : Prop where
  start : ∀ c e, P c → P (ops.start c e).1
  stop : ∀ c e f, P c → P (ops.stop c e f).1
  getHwptr : ∀ c e, P c → P (ops.getHwptr c e).1
  setSwptr : ∀ c e p, P c → P (ops.setSwptr c e p)
  setFlags : ∀ c f, P c → P (fops.setFlags c f).1

theorem stop_keeps {P : C → Prop} (hP : CtrlKeeps ops fops P) (hforce : ∀ c e, (ops.stop c e true).2 ≠ eAgain) (e₁ e₂ : E)
    (hc : P ch.ctrl.ctrl) (i : Nat) (force : Bool) : P (ndpSubscriptionStop (recordOps ops) e₁ e₂ ch i force).1.ctrl.ctrl := by
  by_cases hr : (ch.sub i).status = .running
  · have hforce' : ∀ c e, ((recordOps ops).stop c e true).2 ≠ eAgain := fun c e => hforce c.ctrl e
    obtain ⟨-, -, -, hs⟩ | ⟨ctrl, hctrl, hs⟩ := ndpSubscriptionStop_cases hforce' e₁ e₂ ch i force hr
    · rw [hs]
      exact hP.stop _ _ _ hc
    · rw [hs]
      exact hctrl.keep (P := fun c => P c.ctrl) (fun c e f h => hP.stop _ _ _ h) hc
  · rw [ndpSubscriptionStop_stopped _ _ _ _ _ _ hr]
    exact hc

theorem step_keeps {P : C → Prop} (hP : CtrlKeeps ops fops P) (hforce : ∀ c e, (ops.stop c e true).2 ≠ eAgain)
    (b : SubChannel (Recorded C)) (a : BookAct E) (hb : P b.ch.ctrl.ctrl) : P (step ops fops type b a).ch.ctrl.ctrl := by
  cases a with
  | create i env flags =>
    simp only [step]
    split
    · exact hb
    unfold ndpSubscriptionCreate
    split
    · exact hb
    split
    · exact hb
    obtain ⟨ctrl, out, hctrl, ⟨ret, hret, hs⟩ | ⟨f, hf, hs⟩⟩ := ndpChannelSubscribe_cases (recordFlags fops)
      (b.setSub i { status := .subscribed, hwptr := 0, swptr := 0 }) flags
    all_goals
      have hkeep : P ctrl.ctrl := by
        rcases hctrl with rfl | ⟨f, rfl⟩
        · exact hb
        · exact hP.setFlags _ _ hb
      rw [hs]
    · simp only [ne_eq, hret, not_false_eq_true, if_true]
      exact hkeep
    · exact hkeep
  | start i e sync =>
    simp only [step]
    split
    · obtain ⟨ctrl, err, -, hs, hctrl⟩ | ⟨ch₀, hch₀, -, hs⟩ := ndpSubscriptionStart_cases (recordOps ops) type e b.ch i sync
      · rw [hs]
        rcases hctrl with rfl | ⟨-, rfl, -⟩
        · exact hb
        · exact hP.start _ _ hb
      · rw [hs]
        rcases hch₀ with ⟨rfl, -⟩ | ⟨rfl, -, -⟩
        · exact hb
        · exact hP.start _ _ hb
    · exact hb
  | sync i e sync =>
    simp only [step]
    split
    · exact (ndpSubscriptionSync_frame (recordOps ops) (P := fun c => P c.ctrl) (fun c e h => hP.getHwptr _ _ h)
        (fun c e p h => hP.setSwptr _ _ _ h) type e b.ch i sync).ctrl hb
    · exact hb
  | stop i e₁ e₂ force =>
    simp only [step]
    split
    · exact stop_keeps ops fops hP hforce e₁ e₂ hb i force
    · exact hb
  | destroy i e₁ e₂ =>
    simp only [step]
    split
    · unfold ndpSubscriptionDestroy
      by_cases hr : (b.ch.sub i).status = .running
      · rw [if_pos hr]
        exact stop_keeps ops fops hP hforce e₁ e₂ hb i true
      · rw [if_neg hr]
        exact hb
    · exact hb

/-! ## What is kept -/

/-- The books of a channel: its running subscriptions are counted and each is listed once, all subscriptions
are counted, an exclusive channel has at most one, the lock is held by a running one, and the controller is
started and stopped in turn. -/
structure Kept (b : SubChannel (Recorded C)) : Prop where
  running : b.ch.startCount = (b.subscriptions.filter fun j => (b.ch.sub j).status = .running).length
  length : b.ch.startCount = b.ch.listSubscriptions.length
  once : b.ch.listSubscriptions.Nodup
  listed : ∀ j, j ∈ b.ch.listSubscriptions ↔ j ∈ b.subscriptions ∧ (b.ch.sub j).status = .running
  count : b.subscriptionsCount = b.subscriptions.length
  nodup : b.subscriptions.Nodup
  exclusive : b.flags &&& flagExclusive ≠ 0 → b.subscriptionsCount ≤ 1
  locked : ∀ j, b.ch.lockedSub = some j → j ∈ b.subscriptions ∧ (b.ch.sub j).status = .running
  calls : started b.ch.ctrl.calls = some (decide (b.ch.startCount ≠ 0))

structure Inv (b : SubChannel (Recorded C)) : Prop where
  listed : Listed b.ch
  exist : ∀ j, j ∈ b.subscriptions ↔ (b.ch.sub j).status ≠ .init
  nodup : b.subscriptions.Nodup
  count : b.subscriptionsCount = b.subscriptions.length
  exclusive : b.flags &&& flagExclusive ≠ 0 → b.subscriptionsCount ≤ 1
  locked : ∀ j, b.ch.lockedSub = some j → (b.ch.sub j).status = .running
  calls : started b.ch.ctrl.calls = some (decide (b.ch.startCount ≠ 0))

theorem Inv.kept (hI : Inv b) : Kept b := by
  have hrun : ∀ j, (b.ch.sub j).status = .running → j ∈ b.subscriptions := by
    intro j hj
    rw [hI.exist, hj]
    decide
  have hmem : ∀ j, j ∈ b.ch.listSubscriptions ↔ j ∈ b.subscriptions ∧ (b.ch.sub j).status = .running := by
    intro j
    rw [hI.listed.list]
    exact ⟨fun h => ⟨hrun j h, h⟩, fun h => h.2⟩
  refine ⟨?_, hI.listed.startCount, hI.listed.nodup, hmem, hI.count, hI.nodup, hI.exclusive,
    fun j hj => ⟨hrun j (hI.locked j hj), hI.locked j hj⟩, hI.calls⟩
  rw [hI.listed.startCount]
  have hperm : b.ch.listSubscriptions.Perm (b.subscriptions.filter fun j => (b.ch.sub j).status = .running) := by
    refine (List.perm_ext_iff_of_nodup hI.listed.nodup (hI.nodup.filter _)).2 fun j => ?_
    rw [hmem, List.mem_filter, decide_eq_true_iff]
  exact hperm.length_eq

/-! ## Steps -/

section Steps

variable {ops fops type} {i : Nat} {ctrl : Recorded C}

theorem Inv.sync {b : SubChannel (Recorded C)} (hI : Inv b) (i : Nat) (e : E) (sync : SubscriptionSync) :
    Inv { b with ch := (ndpSubscriptionSync (recordOps ops) type e b.ch i sync).1 } := by
  have hF := ndpSubscriptionSync_frame (recordOps ops) (P := fun c => c.calls = b.ch.ctrl.calls) (fun _ _ h => h)
    (fun _ _ _ h => h) type e b.ch i sync
  refine ⟨hI.listed.congr hF.list hF.startCount hF.status, fun j => ?_, hI.nodup, hI.count, hI.exclusive, fun j hj => ?_, ?_⟩
  · rw [hF.status]
    exact hI.exist j
  · rw [hF.status]
    rcases hF.locked j hj with h | ⟨rfl, h⟩
    · exact hI.locked j h
    · exact h
  · rw [hF.ctrl rfl, hF.startCount]
    exact hI.calls

theorem Inv.join (hI : Inv b) (hi : (b.ch.sub i).status = .subscribed) (hsub : ch.sub = b.ch.sub)
    (hlist : ch.listSubscriptions = b.ch.listSubscriptions) (hcount : ch.startCount = b.ch.startCount)
    (hlock : ch.lockedSub = b.ch.lockedSub) (hcalls : started ch.ctrl.calls = some true) : Inv { b with ch := ch.join i } := by
  have hL : Listed ch := hI.listed.congr hlist hcount fun j => by rw [hsub]
  have hne : (ch.sub i).status ≠ .running := by
    rw [hsub, hi]
    decide
  refine ⟨hL.join hne, fun j => ?_, hI.nodup, hI.count, hI.exclusive, fun j hj => ?_, ?_⟩
  · rw [join_status, hsub]
    split
    · rename_i hji
      rw [hji, hI.exist, hi]
      decide
    · exact hI.exist j
  · rw [join_status, hsub]
    split
    · rfl
    · exact hI.locked j (hlock ▸ hj)
  · exact hcalls.trans (by simp [Channel.join])

theorem Inv.start (hI : Inv b) (i : Nat) (e : E) (sync : SubscriptionSync) :
    Inv { b with ch := (ndpSubscriptionStart (recordOps ops) type e b.ch i sync).1 } := by
  have hcalls := hI.calls
  obtain ⟨ctrl, err, -, hs, hctrl⟩ | ⟨ch₀, hch₀, hst, hs⟩ := ndpSubscriptionStart_cases (recordOps ops) type e b.ch i sync
  · rw [hs]
    refine ⟨hI.listed.congr rfl rfl fun _ => rfl, hI.exist, hI.nodup, hI.count, hI.exclusive, hI.locked, ?_⟩
    rcases hctrl with rfl | ⟨h0, rfl, hret⟩
    · exact hcalls
    · have hret' : (ops.start b.ch.ctrl.ctrl e).2.1 ≠ 0 := hret
      simp only [recordOps, started_append, hcalls, h0, ne_eq, not_true_eq_false, decide_false, OpsCall.next, hret']
  · rw [hs]
    rcases hch₀ with ⟨rfl, h0⟩ | ⟨rfl, h0, hret⟩
    · refine hI.join hst rfl rfl rfl rfl ?_
      rw [hcalls, decide_eq_true h0]
    · refine hI.join hst rfl rfl rfl rfl ?_
      have hret' : (ops.start b.ch.ctrl.ctrl e).2.1 = 0 := hret
      simp only [Channel.reset, recordOps, started_append, hcalls, h0, ne_eq, not_true_eq_false, decide_false, OpsCall.next, hret',
        decide_true]

theorem started_stopCtrl {e₁ e₂ : E} (hforce : ∀ c e, (ops.stop c e true).2 ≠ eAgain) (h : StopCtrl (recordOps ops) e₁ e₂ ch ctrl)
    (h0 : ch.startCount ≠ 0) (hcalls : started ch.ctrl.calls = some (decide (ch.startCount ≠ 0))) :
    started ctrl.calls = some (decide (ch.startCount - 1 ≠ 0)) := by
  cases h with
  | shared hc =>
    rw [hcalls, decide_eq_true h0, decide_eq_true (by omega : ch.startCount - 1 ≠ 0)]
  | last hc hret =>
    have hret' : (ops.stop ch.ctrl.ctrl e₁ false).2 ≠ eAgain := hret
    simp only [recordOps, started_append, hcalls, hc, ne_eq, one_ne_zero, not_false_eq_true, decide_true, OpsCall.next, hret',
      decide_false, Nat.sub_self, not_true_eq_false]
  | forced hc hret =>
    have hret' : (ops.stop ch.ctrl.ctrl e₁ false).2 = eAgain := hret
    have hret₂ := hforce (ops.stop ch.ctrl.ctrl e₁ false).1 e₂
    simp only [recordOps, started_append, hcalls, hc, ne_eq, one_ne_zero, not_false_eq_true, decide_true, OpsCall.next, hret',
      hret₂, decide_false, Nat.sub_self, not_true_eq_false]

theorem Inv.leave (hI : Inv b) (hr : (b.ch.sub i).status = .running)
    (hcalls : started ctrl.calls = some (decide (b.ch.startCount - 1 ≠ 0))) :
    Inv { b with ch := Channel.leave { b.ch with lockedSub := b.ch.unlocked i, ctrl } i } := by
  have hL : Listed { b.ch with lockedSub := b.ch.unlocked i, ctrl } := hI.listed.congr rfl rfl fun _ => rfl
  refine ⟨hL.leave hr, fun j => ?_, hI.nodup, hI.count, hI.exclusive, fun j hj => ?_, hcalls⟩
  · rw [leave_status]
    split
    · rename_i hji
      rw [hji, hI.exist, hr]
      decide
    · exact hI.exist j
  · obtain ⟨hj, hji⟩ := Channel.unlocked_eq_some.1 hj
    rw [leave_status, if_neg hji]
    exact hI.locked j hj

theorem Inv.stop (hforce : ∀ c e, (ops.stop c e true).2 ≠ eAgain) (hI : Inv b) (i : Nat) (e₁ e₂ : E) (force : Bool) :
    Inv { b with ch := (ndpSubscriptionStop (recordOps ops) e₁ e₂ b.ch i force).1 } ∧
      (force = true → ((ndpSubscriptionStop (recordOps ops) e₁ e₂ b.ch i force).1.sub i).status ≠ .running) := by
  by_cases hr : (b.ch.sub i).status = .running
  · have h0 := hI.listed.startCount_ne hr
    obtain ⟨hf, hc, hret, hs⟩ | ⟨ctrl, hctrl, hs⟩ :=
      ndpSubscriptionStop_cases (show ∀ c e, ((recordOps ops).stop c e true).2 ≠ eAgain from fun c e => hforce c.ctrl e)
        e₁ e₂ b.ch i force hr
    · rw [hs]
      refine ⟨⟨hI.listed.congr rfl rfl fun _ => rfl, hI.exist, hI.nodup, hI.count, hI.exclusive, fun j hj => ?_, ?_⟩, ?_⟩
      · exact hI.locked j (Channel.unlocked_eq_some.1 hj).1
      · have hret' : (ops.stop b.ch.ctrl.ctrl e₁ false).2 = eAgain := hret
        simp only [recordOps, started_append, hI.calls, hc, ne_eq, one_ne_zero, not_false_eq_true, decide_true, OpsCall.next, hret']
      · intro htrue
        rw [hf] at htrue
        cases htrue
    · rw [hs]
      refine ⟨hI.leave hr (started_stopCtrl hforce hctrl h0 hI.calls), fun _ => ?_⟩
      rw [leave_status, if_pos rfl]
      decide
  · rw [ndpSubscriptionStop_stopped _ _ _ _ _ _ hr]
    exact ⟨hI, fun _ => hr⟩

theorem setSub_status (b : SubChannel C) (i : Nat) (s : Subscription) (j : Nat) :
    ((b.setSub i s).ch.sub j).status = if j = i then s.status else (b.ch.sub j).status := by
  by_cases hji : j = i <;> simp [SubChannel.setSub, hji]

theorem Inv.listed_setSub (hI : Inv b) {s : Subscription} (hi : (b.ch.sub i).status ≠ .running) (hs : s.status ≠ .running) :
    Listed { b.ch with ctrl, sub := Function.update b.ch.sub i s } := by
  refine ⟨fun j => ?_, hI.listed.nodup, hI.listed.startCount⟩
  rw [hI.listed.list j]
  by_cases hji : j = i
  · subst hji
    simp [hi, hs]
  · simp [hji]

theorem Inv.locked_setSub (hI : Inv b) (s : Subscription) (hi : (b.ch.sub i).status ≠ .running) (j : Nat) (hj : b.ch.lockedSub = some j) :
    (Function.update b.ch.sub i s j).status = .running := by
  have hji : j ≠ i := by
    rintro rfl
    exact hi (hI.locked j hj)
  rw [Function.update_of_ne hji]
  exact hI.locked j hj

theorem Inv.create (hI : Inv b) (hi : i ∉ b.subscriptions) (env : CreateEnv) (flags : U32) :
    Inv (ndpSubscriptionCreate (recordFlags fops) env b i flags).1 := by
  have hinit : (b.ch.sub i).status = .init := by
    by_contra hne
    exact hi ((hI.exist i).2 hne)
  have hne : (b.ch.sub i).status ≠ .running := by rw [hinit]; decide
  unfold ndpSubscriptionCreate
  split
  · exact hI
  split
  · exact hI
  obtain ⟨ctrl, out, hctrl, ⟨ret, hret, hs⟩ | ⟨f, hf, hs⟩⟩ := ndpChannelSubscribe_cases (recordFlags fops)
    (b.setSub i { status := .subscribed, hwptr := 0, swptr := 0 }) flags
  all_goals
    have hcalls : ctrl.calls = b.ch.ctrl.calls := by
      rcases hctrl with rfl | ⟨f, rfl⟩
      · rfl
      · rfl
  · rw [hs]
    simp only [ne_eq, hret, not_false_eq_true, if_true, SubChannel.setSub, Function.update_idem]
    refine ⟨hI.listed_setSub hne (by decide), fun j => ?_, hI.nodup, hI.count, hI.exclusive, hI.locked_setSub _ hne, ?_⟩
    · by_cases hji : j = i
      · subst hji
        simp [hi, Subscription.freed]
      · simpa [hji] using hI.exist j
    · rw [hcalls]
      exact hI.calls
  · rw [hs]
    simp only [ne_eq, not_true_eq_false, if_false, SubChannel.setSub]
    refine ⟨hI.listed_setSub hne (by decide), fun j => ?_, List.nodup_cons.2 ⟨hi, hI.nodup⟩, ?_, fun hx => ?_,
      hI.locked_setSub _ hne, ?_⟩
    · by_cases hji : j = i
      · subst hji
        simp
      · simpa [hji] using hI.exist j
    · rw [List.length_cons, hI.count]
    · rcases hf with hf | hf
      · have hzero : b.subscriptionsCount = 0 := hf
        simp only [hzero]
        decide
      · exact absurd hf hx
    · rw [hcalls]
      exact hI.calls

theorem Inv.free (hI : Inv b) (hi : i ∈ b.subscriptions) (hr : (b.ch.sub i).status ≠ .running) :
    Inv ({ ndpChannelUnsubscribe b with subscriptions := b.subscriptions.erase i }.setSub i .freed) := by
  refine ⟨hI.listed_setSub hr (by decide), fun j => ?_, hI.nodup.erase i, ?_, fun hx => ?_, hI.locked_setSub _ hr, hI.calls⟩
  · show j ∈ b.subscriptions.erase i ↔ _
    rw [hI.nodup.mem_erase_iff, setSub_status]
    by_cases hji : j = i
    · simp [hji, Subscription.freed]
    · simpa [hji, ndpChannelUnsubscribe] using hI.exist j
  · show b.subscriptionsCount - 1 = (b.subscriptions.erase i).length
    rw [List.length_erase_of_mem hi, hI.count]
  · exact le_trans (Nat.sub_le _ _) (hI.exclusive hx)

theorem Inv.destroy (hforce : ∀ c e, (ops.stop c e true).2 ≠ eAgain) (hI : Inv b) (hi : i ∈ b.subscriptions) (e₁ e₂ : E) :
    Inv (ndpSubscriptionDestroy (recordOps ops) e₁ e₂ b i) := by
  unfold ndpSubscriptionDestroy
  by_cases hr : (b.ch.sub i).status = .running
  · obtain ⟨hI', hne⟩ := hI.stop hforce i e₁ e₂ true
    rw [if_pos hr]
    exact hI'.free hi (hne rfl)
  · rw [if_neg hr]
    exact hI.free hi hr

theorem Inv.step (hforce : ∀ c e, (ops.stop c e true).2 ≠ eAgain) (b : SubChannel (Recorded C)) (a : BookAct E) (hI : Inv b) :
    Inv (step ops fops type b a) := by
  cases a with
  | create i env flags =>
    simp only [Book.step]
    split
    · exact hI
    · rename_i hi
      exact hI.create hi env flags
  | start i e sync =>
    simp only [Book.step]
    split
    · exact hI.start i e sync
    · exact hI
  | sync i e sync =>
    simp only [Book.step]
    split
    · exact hI.sync i e sync
    · exact hI
  | stop i e₁ e₂ force =>
    simp only [Book.step]
    split
    · exact (hI.stop hforce i e₁ e₂ force).1
    · exact hI
  | destroy i e₁ e₂ =>
    simp only [Book.step]
    split
    · rename_i hi
      exact hI.destroy hforce hi e₁ e₂
    · exact hI

theorem inv_opened (ptrmask : U64) (c : C) : Inv (opened ptrmask c) where
  listed := ⟨fun j => by simp [opened, Subscription.freed], List.nodup_nil, rfl⟩
  exist j := by simp [opened, Subscription.freed]
  nodup := List.nodup_nil
  count := rfl
  exclusive _ := Nat.zero_le _
  locked := by rintro j ⟨⟩
  calls := rfl

end Steps

/-- The books are kept by every sequence of calls, on a channel of any controller that does not refuse a
forced stop. -/
theorem books_kept (hforce : ∀ c e, (ops.stop c e true).2 ≠ eAgain) (ptrmask : U64) (c : C) (acts : List (BookAct E)) :
    Kept (Ring.run (step ops fops type) (opened ptrmask c) acts) :=
  (Ring.run_inv (I := Inv) (Inv.step hforce) acts _ (inv_opened ptrmask c)).kept

/-- A subscription whose first stop is refused: the header it has published is not sent yet. -/
def refusedStop : List (BookAct TxShown) :=
  [.create 0 { ring := true, alloc := true } (flagUseHeader ||| flagUseOffset),
    .start 0 { ret := 0, start := 0, done := 0 } { size := 0, hwptr := 0, swptr := 0 },
    .sync 0 { ret := 0, start := 0, done := 0 } { size := 0, hwptr := 0, swptr := 1023 },
    .sync 0 { ret := 0, start := 0, done := 0 } { size := 0, hwptr := 1, swptr := 1 },
    .stop 0 { ret := eAgain, start := 0, done := 0 } { ret := 0, start := 0, done := 0 } false,
    .stop 0 { ret := 0, start := 0, done := 0 } { ret := 0, start := 0, done := 0 } false,
    .destroy 0 { ret := 0, start := 0, done := 0 } { ret := 0, start := 0, done := 0 }]

theorem refusedStop_kept : (∀ c e, (countOps.stop c e true).2 ≠ eAgain) ∧
    Kept (Ring.run (step countOps (fixedFlags 0xC) .tx) (opened 1023 (TxSync.opened 10).ctrl) refusedStop) :=
  have hforce : ∀ c e, (countOps.stop c e true).2 ≠ eAgain := by
    intro c e
    simp [countOps, eAgain]
  ⟨hforce, books_kept countOps (fixedFlags 0xC) .tx hforce 1023 _ refusedStop⟩

/-- The refused stop is called again, so that not every call of a stop follows one of a start. -/
theorem calls_not_alternating : ¬ ∀ acts : List (BookAct TxShown),
    (Ring.run (step countOps (fixedFlags 0xC) .tx) (opened 1023 (TxSync.opened 10).ctrl) acts).ch.ctrl.calls.IsChain
      fun a b => a.isStart ≠ b.isStart := by
  intro h
  exact absurd (h refusedStop) (by decide +kernel)

end Book

end NdkSw.Ndp

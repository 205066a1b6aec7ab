/-
Queues of one open device (`ndp_core.h`, `ndp_base.h`, `ndp.h`, `ndp_calypte.h`, `ndp/char.c`): how the library opens,
starts, stops and closes them, in the userspace and in the in-kernel build, over the subscriptions of the driver.
What can fail on the way of an open comes with the call.
-/
import NdkSw.Ndp.Flags
import NdkSw.Shared.Words

namespace NdkSw.Ndp

/-! ## Data model -/

/-- `struct ndp_channel_id`. -/
structure ChannelId where
  index : Nat
  type : ChannelType
  deriving DecidableEq, Repr

/-- With or without `__KERNEL__`. -/
inductive Build
  | userspace
  | kernel
  deriving DecidableEq, Repr

/-- `struct ndp_queue` with its `struct nc_ndp_queue`. `mapped` says that `buffer` is not `MAP_FAILED`, `comp` that
`u.v3.comp` is not `NULL`, `control` and `burst` that these `ops` are set. -/
structure NcNdpQueue where
  channel : ChannelId
  protocol : Nat
  flags : U32
  sub : Option Nat
  mapped : Bool
  comp : Bool
  control : Bool
  burst : Bool
  running : Bool
  deriving DecidableEq, Repr

/-- The driver's channels and what the device handle has: the subscriptions of its subscribers and its open queues.
A handle in whose process a null pointer was used is `crashed`. -/
structure Handle where
  chan : ChannelId → SubChannel (Recorded FlagCtrl)
  held : List (ChannelId × Nat)
  queues : List NcNdpQueue
  crashed : Bool

/-- What the steps of an open meet, in their order: the allocations of the queue and of the subscriber, the properties
in the device tree, the copies of the request, the channel and its subscription, the mapping of the buffer, the
properties and mappings of the protocol, the component of an exclusive queue, the buffers of a Calypte TX queue, and
the list of queues. -/
structure OpenEnv where
  queue : Bool
  ncQueue : Bool
  subscriber : Bool
  props : Bool
  mmapSize : Nat
  protocol : Nat
  copyFrom : Bool
  found : Bool
  create : CreateEnv
  copyTo : Bool
  mmap : Bool
  hdrProps : Bool
  hdrMmap : Bool
  offMmap : Bool
  updMmap : Bool
  comp : Bool
  dataBuff : Bool
  hdrBuff : Bool
  txPkts : Bool
  realloc : Bool

/-! ## The driver -/

/-- An address that no subscription of the channel has. -/
def freshSub (b : SubChannel (Recorded FlagCtrl)) : Nat := b.subscriptions.foldr max 0 + 1

theorem freshSub_not_mem (b : SubChannel (Recorded FlagCtrl)) : freshSub b ∉ b.subscriptions := by
  have hle : ∀ (l : List Nat) (i : Nat), i ∈ l → i ≤ l.foldr max 0 := by
    intro l
    induction l with
    | nil => exact fun i hi => absurd hi List.not_mem_nil
    | cons a l ih =>
      intro i hi
      rw [List.foldr_cons]
      rcases List.mem_cons.1 hi with rfl | hi
      · exact le_max_left _ _
      · exact (ih i hi).trans (le_max_right _ _)
  intro h
  have := hle _ _ h
  unfold freshSub at this
  omega

def Handle.setChan (w : Handle) (c : ChannelId) (b : SubChannel (Recorded FlagCtrl)) : Handle :=
  { w with chan := Function.update w.chan c b }

/-- `ndp_subscription_create` for a subscriber of the handle. -/
def Handle.subscribe (w : Handle) (c : ChannelId) (flags : U32) (env : OpenEnv) : Handle × Option Nat × Int :=
  if ¬ env.found then (w, none, eNodev)
  else
    match ndpSubscriptionCreate (recordFlags ctrlFlags) env.create (w.chan c) (freshSub (w.chan c)) flags with
    | (b, _, ret) =>
      if ret ≠ 0 then (w.setChan c b, none, ret)
      else ({ w.setChan c b with held := (c, freshSub (w.chan c)) :: w.held }, some (freshSub (w.chan c)), 0)

/-- What the hardware shows at the two attempts of a stop. -/
structure StopEnv where
  first : FlagShown
  second : FlagShown

/-- `ndp_subscription_destroy`. -/
def Handle.unsubscribe (w : Handle) (c : ChannelId) (i : Nat) (env : StopEnv) : Handle :=
  { w.setChan c (ndpSubscriptionDestroy (recordOps flagCtrlOps) env.first env.second (w.chan c) i) with
    held := w.held.erase (c, i) }

/-- What the hardware shows to a destroy of a subscription that does not run. -/
def StopEnv.unused : StopEnv := ⟨⟨0, 0⟩, ⟨0, 0⟩⟩

/-- The subscription as the build gets it: by `NDP_IOC_SUBSCRIBE`, which copies the request both ways, or by a call. -/
def Handle.request (build : Build) (w : Handle) (c : ChannelId) (flags : U32) (env : OpenEnv) : Handle × Option Nat × Int :=
  match build with
  | .kernel => w.subscribe c flags env
  | .userspace =>
    if ¬ env.copyFrom then (w, none, eFault)
    else
      match w.subscribe c flags env with
      | (w, none, ret) => (w, none, ret)
      | (w, some i, ret) => if ¬ env.copyTo then (w.unsubscribe c i .unused, none, eFault) else (w, some i, ret)

/-! ## Open -/

/-- `nc_ndp_v1_open_queue`, `nc_ndp_v2_open_queue` and `nc_ndp_v3_open_queue`. A mapping that fails in the second one
leaves its result at 0. -/
def ncNdpVxOpenQueue (build : Build) (env : OpenEnv) (q : NcNdpQueue) : NcNdpQueue × Int :=
  match build, q.protocol with
  | .kernel, 1 | .kernel, 2 | .kernel, 3 | .userspace, 1 => ({ q with burst := true }, 0)
  | .userspace, 2 =>
    if ¬ env.hdrProps then (q, -eBadfd)
    else if ¬ env.hdrMmap ∨ ¬ env.offMmap then (q, 0)
    else ({ q with burst := true }, 0)
  | .userspace, 3 =>
    if ¬ env.hdrProps ∨ ¬ env.hdrMmap ∨ (q.channel.type = .tx ∧ ¬ env.updMmap) then (q, eBadfd)
    else if q.flags &&& flagExclusive ≠ 0 then
      if ¬ env.comp then (q, eNodev) else ({ q with comp := true, burst := true }, 0)
    else ({ q with burst := true }, 0)
  | _, _ => (q, 0)

/-- A queue in zeroed memory. -/
def NcNdpQueue.zero (c : ChannelId) : NcNdpQueue :=
  { channel := c, protocol := 0, flags := 0, sub := none, mapped := false, comp := false, control := false
    burst := false, running := false }

/-- The flags that an open asks the driver for. -/
def channelFlags (protocol : Nat) (flags : U32) : U32 :=
  if protocol = 2 then flags ||| (flagUseHeader ||| flagUseOffset) else flags

/-- `nc_ndp_queue_open_init_ext`. Behind a mapping that fails the result is that of the subscribe. -/
def ncNdpQueueOpenInitExt (build : Build) (w : Handle) (c : ChannelId) (flags : U32) (env : OpenEnv) :
    Handle × NcNdpQueue × Int :=
  let q := { NcNdpQueue.zero c with protocol := env.protocol }
  if ¬ env.props then (w, q, -eBadfd)
  else if env.mmapSize = 0 then (w, q, -eNomem)
  else
    let q := { q with flags := channelFlags env.protocol flags }
    match w.request build c q.flags env with
    | (w, sub, ret) =>
      let q := { q with sub }
      if ret ≠ 0 then (w, q, ret)
      else if build = .userspace ∧ ¬ env.mmap then (w, q, ret)
      else
        match ncNdpVxOpenQueue build env { q with mapped := true } with
        | (q, ret) =>
          let q := { q with control := true }
          if ret ≠ 0 then (w, { q with mapped := false }, ret) else (w, q, 0)

/-- `ndp_queue_calypte_open_buffers`. -/
def ndpQueueCalypteOpenBuffers (env : OpenEnv) (q : NcNdpQueue) : Int :=
  if ¬ (q.protocol = 3 ∧ q.channel.type = .tx) then 0
  else if ¬ env.dataBuff then eBadfd
  else if ¬ env.hdrBuff then eBadfd
  else if ¬ env.txPkts then eNomem
  else 0

/-- `ndp_subscriber_destroy` of the subscriber that the in-kernel build has for each queue. -/
def Handle.subscriberDestroy (build : Build) (w : Handle) (q : NcNdpQueue) (env : StopEnv) : Handle :=
  match build, q.sub with
  | .kernel, some i => w.unsubscribe q.channel i env
  | _, _ => w

/-- `ndp_base_queue_open`. -/
def ndpBaseQueueOpen (build : Build) (w : Handle) (c : ChannelId) (flags : U32) (env : OpenEnv) :
    Handle × Option NcNdpQueue :=
  if ¬ env.queue ∨ ¬ env.ncQueue then (w, none)
  else if build = .kernel ∧ ¬ env.subscriber then (w, none)
  else
    match ncNdpQueueOpenInitExt build w c flags env with
    | (w, q, ret) =>
      if ret ≠ 0 then (w.subscriberDestroy build q .unused, none)
      else if ndpQueueCalypteOpenBuffers env q ≠ 0 then (w.subscriberDestroy build q .unused, none)
      else (w, some q)

/-- `ndp_base_queue_close`. In the userspace build `nc_ndp_v3_close_queue` closes the component of an exclusive queue
whether it is there or not, and the subscription stays; in the in-kernel build it is destroyed. -/
def ndpBaseQueueClose (build : Build) (w : Handle) (q : NcNdpQueue) (env : StopEnv) : Handle :=
  match build with
  | .userspace => if q.protocol = 3 ∧ q.flags &&& flagExclusive ≠ 0 ∧ ¬ q.comp then { w with crashed := true } else w
  | .kernel => w.subscriberDestroy .kernel q env

/-- The flags of the channel for those of an open, of which `userspace` is `NDP_OPEN_FLAG_USERSPACE`. -/
def openFlags (userspace : Bool) : U32 := if userspace then flagExclusive ||| flagUserspace else 0

/-- `ndp_open_queue`. -/
def ndpOpenQueue (build : Build) (w : Handle) (c : ChannelId) (userspace : Bool) (env : OpenEnv) :
    Handle × Option NcNdpQueue :=
  match ndpBaseQueueOpen build w c (openFlags userspace) env with
  | (w, none) => (w, none)
  | (w, some q) =>
    if ¬ q.control ∨ ¬ q.burst then (ndpBaseQueueClose build w q .unused, none)
    else if build = .userspace ∧ ¬ env.realloc then (ndpBaseQueueClose build w q .unused, none)
    else ({ w with queues := q :: w.queues }, some q)

/-! ## Start, stop and close -/

/-- What the library finds a queue by. -/
def NcNdpQueue.key (q : NcNdpQueue) : ChannelId × Option Nat := (q.channel, q.sub)

def Handle.setRunning (w : Handle) (q : NcNdpQueue) (running : Bool) : Handle :=
  { w with queues := w.queues.map fun p => if p.key = q.key then { p with running } else p }

def Handle.setCh (w : Handle) (c : ChannelId) (ch : Channel (Recorded FlagCtrl)) : Handle :=
  w.setChan c { w.chan c with ch }

/-- `ndp_queue_start`. -/
def ndpQueueStart (w : Handle) (q : NcNdpQueue) (i : Nat) (e : FlagShown) : Handle :=
  if q.running then w
  else
    match ndpSubscriptionStart (recordOps flagCtrlOps) q.channel.type e (w.chan q.channel).ch i ⟨0, 0, 0⟩ with
    | (ch, _, ret) => if ret ≠ 0 then w.setCh q.channel ch else (w.setCh q.channel ch).setRunning q true

/-- What a stop of a queue meets: the sync of the flush, if it makes one, and the attempts to stop. -/
structure QueueStopEnv where
  flush : Option (FlagShown × SubscriptionSync)
  tries : List FlagShown
  last : StopEnv

/-- The loop of `_ndp_queue_stop` in the userspace build. -/
def stopTries (i : Nat) (last : FlagShown) : List FlagShown → Channel (Recorded FlagCtrl) → Channel (Recorded FlagCtrl) × Int
  | [], ch => ndpSubscriptionStop (recordOps flagCtrlOps) last last ch i false
  | e :: l, ch =>
    match ndpSubscriptionStop (recordOps flagCtrlOps) e e ch i false with
    | (ch, ret) => if ret = eAgain then stopTries i last l ch else (ch, ret)

/-- `_ndp_queue_stop`. -/
def ndpQueueStopSub (build : Build) (i : Nat) (env : QueueStopEnv) (ch : Channel (Recorded FlagCtrl)) :
    Channel (Recorded FlagCtrl) × Int :=
  match build with
  | .userspace => stopTries i env.last.first env.tries ch
  | .kernel => ((ndpSubscriptionStop (recordOps flagCtrlOps) env.last.first env.last.second ch i true).1, 0)

/-- The flush of a TX queue. -/
def flushSub (type : ChannelType) (i : Nat) (flush : Option (FlagShown × SubscriptionSync)) (ch : Channel (Recorded FlagCtrl)) :
    Channel (Recorded FlagCtrl) :=
  match type, flush with
  | .tx, some (e, sync) => (ndpSubscriptionSync (recordOps flagCtrlOps) type e ch i sync).1
  | _, _ => ch

/-- `ndp_queue_stop`. -/
def ndpQueueStop (build : Build) (w : Handle) (q : NcNdpQueue) (i : Nat) (env : QueueStopEnv) : Handle :=
  if ¬ q.running then w
  else
    match ndpQueueStopSub build i env (flushSub q.channel.type i env.flush (w.chan q.channel).ch) with
    | (ch, ret) => if ret ≠ 0 then w.setCh q.channel ch else (w.setCh q.channel ch).setRunning q false

/-- `ndp_close_queue`. -/
def ndpCloseQueue (build : Build) (w : Handle) (q : NcNdpQueue) (i : Nat) (env : QueueStopEnv) (destroy : StopEnv) : Handle :=
  let w := ndpQueueStop build w q i env
  let w := { w with queues := w.queues.filter fun p => p.key ≠ q.key }
  ndpBaseQueueClose build w q destroy

/-! ## The system -/

/-- The subscription that a call is about. -/
def BookAct.sub {E : Type} : BookAct E → Nat
  | .create i _ _ | .start i _ _ | .sync i _ _ | .stop i _ _ _ | .destroy i _ _ => i

/-- A call on the handle, or a call of any other subscriber on a channel. -/
inductive HandleAction
  | open (c : ChannelId) (userspace : Bool) (env : OpenEnv)
  | start (c : ChannelId) (i : Nat) (e : FlagShown)
  | stop (c : ChannelId) (i : Nat) (env : QueueStopEnv)
  | close (c : ChannelId) (i : Nat) (env : QueueStopEnv) (destroy : StopEnv)
  | other (c : ChannelId) (act : BookAct FlagShown)

/-- The open queue with the subscription `i` on the channel. -/
def Handle.queue (w : Handle) (c : ChannelId) (i : Nat) : Option NcNdpQueue := w.queues.find? fun q => q.key = (c, some i)

def handleStep (build : Build) (w : Handle) : HandleAction → Handle
  | .open c userspace env => (ndpOpenQueue build w c userspace env).1
  | .start c i e => match w.queue c i with
    | some q => ndpQueueStart w q i e
    | none => w
  | .stop c i env => match w.queue c i with
    | some q => ndpQueueStop build w q i env
    | none => w
  | .close c i env destroy => match w.queue c i with
    | some q => ndpCloseQueue build w q i env destroy
    | none => w
  | .other c act => if (c, act.sub) ∈ w.held then w else w.setChan c (Flags.step c.type (w.chan c) act)

/-! ## What is right -/

/-- Every open queue has one subscription of the handle. -/
structure Balanced (w : Handle) : Prop where
  alive : w.crashed = false
  count : ∀ c, (w.held.filter fun h => h.1 = c).length = (w.queues.filter fun q => q.channel = c).length

/-- The steps in front of the subscribe do not fail. -/
def OpenEnv.Ready (build : Build) (env : OpenEnv) : Prop :=
  env.queue ∧ env.ncQueue ∧ (build = .kernel → env.subscriber) ∧ env.props ∧ env.mmapSize ≠ 0

/-- The steps behind the subscribe do not fail. -/
def OpenEnv.Complete (build : Build) (c : ChannelId) (userspace : Bool) (env : OpenEnv) : Prop :=
  (env.protocol = 1 ∨ env.protocol = 2 ∨ env.protocol = 3) ∧
    (env.protocol = 3 ∧ c.type = .tx → env.dataBuff ∧ env.hdrBuff ∧ env.txPkts) ∧
    (build = .userspace → env.mmap ∧ env.realloc ∧ (env.protocol = 2 ∨ env.protocol = 3 → env.hdrProps ∧ env.hdrMmap) ∧
      (env.protocol = 2 → env.offMmap) ∧
      (env.protocol = 3 → (c.type = .tx → env.updMmap) ∧ (userspace → env.comp)))

instance (build : Build) (env : OpenEnv) : Decidable (env.Ready build) := inferInstanceAs (Decidable (_ ∧ _))

instance (build : Build) (c : ChannelId) (userspace : Bool) (env : OpenEnv) : Decidable (env.Complete build c userspace) :=
  inferInstanceAs (Decidable (_ ∧ _))

/-- The driver accepts the subscription of an open. -/
def Handle.Subscribes (build : Build) (w : Handle) (c : ChannelId) (userspace : Bool) (env : OpenEnv) : Prop :=
  env.Ready build ∧ (w.request build c (channelFlags env.protocol (openFlags userspace)) env).2.2 = 0

instance (build : Build) (w : Handle) (c : ChannelId) (userspace : Bool) (env : OpenEnv) :
    Decidable (w.Subscribes build c userspace env) := inferInstanceAs (Decidable (_ ∧ _))

/-- Nothing fails, but for what the driver says to the flags. -/
def OpenEnv.Fine (build : Build) (c : ChannelId) (userspace : Bool) (env : OpenEnv) : Prop :=
  env.Ready build ∧ env.Complete build c userspace ∧ env.copyFrom ∧ env.found ∧ env.create.ring ∧ env.create.alloc ∧
    env.copyTo

/-- After the step the handle is balanced. A queue that an open returns is whole, and behind the close of an exclusive
queue the same queue can be opened again. -/
def Right (build : Build) (w : Handle) (a : HandleAction) : Prop :=
  Balanced (handleStep build w a) ∧
    match a with
    | .open c userspace env => ∀ q, (ndpOpenQueue build w c userspace env).2 = some q →
      q.mapped = true ∧ env.Complete build c userspace
    | .close c i _ _ => ∀ q, w.queue c i = some q → q.flags &&& flagExclusive ≠ 0 → ∀ env : OpenEnv,
      env.protocol = q.protocol → env.Fine build c true →
        (ndpOpenQueue build (handleStep build w a) c true env).2.isSome = true
    | _ => True

/-- The condition. The in-kernel build needs none; in the userspace build no open fails behind the subscribe and no
queue is closed. -/
def Keeps (build : Build) (w : Handle) (a : HandleAction) : Prop :=
  match build, a with
  | .userspace, .open c userspace env => w.Subscribes .userspace c userspace env → env.Complete .userspace c userspace
  | .userspace, .close c i _ _ => w.queue c i = none
  | _, _ => True

instance (build : Build) (w : Handle) : DecidablePred (Keeps build w)
  | .open _ _ _ =>
    match build with
    | .userspace => inferInstanceAs (Decidable (_ → _))
    | .kernel => inferInstanceAs (Decidable True)
  | .close _ _ _ _ =>
    match build with
    | .userspace => inferInstanceAs (Decidable (_ = _))
    | .kernel => inferInstanceAs (Decidable True)
  | .start .. | .stop .. | .other .. =>
    match build with
    | .userspace => inferInstanceAs (Decidable True)
    | .kernel => inferInstanceAs (Decidable True)

end NdkSw.Ndp

/-
The transmission channel of the NDP driver (`channel.c`, `subscription.c`): the pointers one
ring shares between its subscriptions, the TX lock, and the two sync calls. The controller behind
a channel is a parameter: `ChannelOps` are the calls a sync makes into it. What the hardware shows
during such a call is its argument `e`, so that a run of the channel fixes all of it in its actions.
-/
import NdkSw.Ring.Ptr
import NdkSw.Ring.Run
import NdkSw.Shared.Words

namespace NdkSw.Ndp

/-! ## Data model -/

/-- The pointers of `struct ndp_subscription_sync`, as the library passes them to the driver. -/
structure SubscriptionSync where
  size : U64
  hwptr : U64
  swptr : U64
  deriving DecidableEq, Repr

/-- `NDP_SUB_STATUS_*`. -/
inductive SubStatus
  | init
  | subscribed
  | running
  deriving DecidableEq, Repr

/-- The driver's side of a subscription (`struct ndp_subscription`). -/
structure Subscription where
  status : SubStatus
  hwptr : U64
  swptr : U64
  deriving DecidableEq, Repr

/-- The calls of `struct ndp_channel_ops` that starting, stopping and syncing make, over the
controller state `C`; `E` is what the hardware shows during the call. `start` and `stop` return
the C return value. -/
structure ChannelOps (C E : Type) where
  start : C → E → C × Int × U64
  stop : C → E → Bool → C × Int
  getHwptr : C → E → C × U64
  setSwptr : C → E → U64 → C
  getFreeSpace : Option (C → U64)

/-- `struct ndp_channel`, with its controller. Subscriptions are numbered; `sub` holds them all. -/
structure Channel (C : Type) where
  lockedSub : Option Nat
  hwptr : U64
  swptr : U64
  ptrmask : U64
  startCount : Nat
  listSubscriptions : List Nat
  sub : Nat → Subscription
  ctrl : C

section Ops

variable {C E : Type} (ops : ChannelOps C E)

/-! ## Start and stop -/

/-- `ndp_channel_start`: the first running subscription starts the controller; every one begins
at the channel's `hwptr`. -/
def ndpChannelStart (e : E) (ch : Channel C) (i : Nat) : Channel C × Int :=
  let join (ch : Channel C) : Channel C :=
    { ch with
      startCount := ch.startCount + 1
      sub := Function.update ch.sub i { ch.sub i with swptr := ch.hwptr, hwptr := ch.hwptr }
      listSubscriptions := ch.listSubscriptions ++ [i] }
  if ch.startCount = 0 then
    match ops.start ch.ctrl e with
    | (ctrl, ret, hwptr) =>
      if ret ≠ 0 then ({ ch with ctrl }, ret)
      else (join { ch with ctrl, hwptr, swptr := hwptr }, 0)
  else (join ch, 0)

/-- `ndp_channel_stop`: the last running subscription stops the controller, which may refuse. -/
def ndpChannelStop (e : E) (ch : Channel C) (i : Nat) (force : Bool) : Channel C × Int :=
  let ch := if ch.lockedSub = some i then { ch with lockedSub := none } else ch
  let leave (ch : Channel C) : Channel C :=
    { ch with startCount := ch.startCount - 1, listSubscriptions := ch.listSubscriptions.erase i }
  if ch.startCount = 1 then
    match ops.stop ch.ctrl e force with
    | (ctrl, ret) => if ret = eAgain then ({ ch with ctrl }, ret) else (leave { ch with ctrl }, 0)
  else (leave ch, 0)

/-- The direction of a channel (`channel->id.type`). -/
inductive ChannelType
  | rx
  | tx
  deriving DecidableEq, Repr

/-- `ndp_subscription_start`. Only an RX start reports pointers back. -/
def ndpSubscriptionStart (type : ChannelType) (e : E) (ch : Channel C) (i : Nat) (sync : SubscriptionSync) :
    Channel C × SubscriptionSync × Int :=
  if (ch.sub i).status ≠ .subscribed then (ch, sync, eBadf)
  else
    match ndpChannelStart ops e ch i with
    | (ch, ret) =>
      if ret ≠ 0 then (ch, sync, ret)
      else
        let sync := match type with
          | .rx => { sync with hwptr := (ch.sub i).hwptr, swptr := (ch.sub i).swptr }
          | .tx => sync
        ({ ch with sub := Function.update ch.sub i { ch.sub i with status := .running } }, sync, 0)

/-- `ndp_subscription_stop`, with what the hardware shows at its two attempts. -/
def ndpSubscriptionStop (e₁ e₂ : E) (ch : Channel C) (i : Nat) (force : Bool) : Channel C × Int :=
  let subscribed (ch : Channel C) : Channel C :=
    { ch with sub := Function.update ch.sub i { ch.sub i with status := .subscribed } }
  if (ch.sub i).status ≠ .running then (ch, 0)
  else
    match ndpChannelStop ops e₁ ch i false with
    | (ch, ret) =>
      if ret = eAgain then
        if force then (subscribed (ndpChannelStop ops e₂ ch i true).1, 0) else (ch, ret)
      else (subscribed ch, 0)

/-! ## Sync -/

/-- The scan of `ndp_channel_rxsync` for the farthest `swptr` behind the channel's `hwptr`, as a
pair of the distance found so far and its pointer. -/
def farthestSwptr (ch : Channel C) (acc : U64 × U64) (l : List Nat) : U64 × U64 :=
  l.foldl (fun acc j =>
    let subSwptr := (ch.sub j).swptr
    let subLock := (ch.hwptr - subSwptr) &&& ch.ptrmask
    if subLock > acc.1 then (subLock, subSwptr) else acc) acc

/-- `ndp_channel_rxsync`: release up to the slowest subscription, then read the hardware pointer. -/
def ndpChannelRxsync (e : E) (ch : Channel C) (i : Nat) (sync : SubscriptionSync) :
    Channel C × SubscriptionSync :=
  let ch := { ch with sub := Function.update ch.sub i { ch.sub i with swptr := sync.swptr } }
  let swptr := (farthestSwptr ch (0, (ch.sub i).swptr) ch.listSubscriptions).2
  let ch := if swptr ≠ ch.swptr then { ch with swptr, ctrl := ops.setSwptr ch.ctrl e swptr } else ch
  match ops.getHwptr ch.ctrl e with
  | (ctrl, hwptr) =>
    ({ ch with ctrl, hwptr, sub := Function.update ch.sub i { ch.sub i with hwptr } }, { sync with hwptr })

/-- The tail `ndp_channel_txsync` shares between the holder of the lock and a free lock: read the
hardware pointer and the free space, clamp the requested length, and grant `[swptr, swptr + len)`. -/
def txsyncGrant (e : E) (ch : Channel C) (i : Nat) (sync : SubscriptionSync) : Channel C × SubscriptionSync :=
  match ops.getHwptr ch.ctrl e with
  | (ctrl, hwptr) =>
    let size := match ops.getFreeSpace with
      | some free => free ctrl
      | none => sync.size
    let chlen := (hwptr - ch.swptr - 1) &&& ch.ptrmask
    let len := Ring.umin ((sync.swptr - sync.hwptr) &&& ch.ptrmask) chlen
    let granted : SubscriptionSync := { size, hwptr := ch.swptr, swptr := (ch.swptr + len) &&& ch.ptrmask }
    ({ ch with
        ctrl, hwptr
        lockedSub := if len = 0 then none else some i
        sub := Function.update ch.sub i
          { ch.sub i with hwptr := granted.hwptr, swptr := granted.swptr } }, granted)

/-- `ndp_channel_txsync`. -/
def ndpChannelTxsync (e : E) (ch : Channel C) (i : Nat) (sync : SubscriptionSync) :
    Channel C × SubscriptionSync :=
  if ch.lockedSub = some i then
    -- the holder may have put some data: publish up to its `hwptr`
    let ch := if sync.hwptr ≠ ch.swptr then
        { ch with swptr := sync.hwptr, ctrl := ops.setSwptr ch.ctrl e sync.hwptr }
      else ch
    txsyncGrant ops e ch i sync
  else if ch.lockedSub = none then txsyncGrant ops e ch i sync
  else
    -- another subscription has the lock
    ({ ch with sub := Function.update ch.sub i { ch.sub i with hwptr := ch.swptr, swptr := ch.swptr } },
      { sync with hwptr := ch.swptr, swptr := ch.swptr })

/-- `ndp_subscription_sync`, the kernel's end of `_ndp_queue_sync`. -/
def ndpSubscriptionSync (type : ChannelType) (e : E) (ch : Channel C) (i : Nat) (sync : SubscriptionSync) :
    Channel C × SubscriptionSync × Int :=
  if (ch.sub i).status ≠ .running then (ch, sync, eBadf)
  else
    match (match type with
      | .rx => ndpChannelRxsync ops e ch i sync
      | .tx => ndpChannelTxsync ops e ch i sync) with
    | (ch, sync) => (ch, sync, 0)

end Ops

/-! ## What a TX sync grants -/

section Grant

open Ring

variable {C E : Type} {ops : ChannelOps C E} {k : Nat}

/-- What `txsyncGrant` leaves behind when `p` positions are published and `len` positions are
granted to `i`: the window `[p, p + len)`, held by `i` unless it is empty. -/
structure Granted (ops : ChannelOps C E) (k : Nat) (e : E) (ch : Channel C) (i p len : Nat) (ch' : Channel C)
    (sync' : SubscriptionSync) : Prop where
  hwptr : sync'.hwptr = ch.swptr
  swptr : sync'.swptr.toNat = (p + len) % 2 ^ k
  locked : ch'.lockedSub = if len = 0 then none else some i
  chSwptr : ch'.swptr = ch.swptr
  ptrmask : ch'.ptrmask = ch.ptrmask
  ctrl : ch'.ctrl = (ops.getHwptr ch.ctrl e).1
  chHwptr : ch'.hwptr = (ops.getHwptr ch.ctrl e).2
  startCount : ch'.startCount = ch.startCount
  list : ch'.listSubscriptions = ch.listSubscriptions
  status : ∀ j, (ch'.sub j).status = (ch.sub j).status
  size : ∀ free, ops.getFreeSpace = some free → sync'.size = free ch'.ctrl

theorem toNat_chlen {m x y : U64} {p h : Nat} (hm : IsMask m k) (hx : At k x h) (hy : At k y p) (hhp : h ≤ p)
    (hlap : p < h + 2 ^ k) : ((x - y - 1) &&& m).toNat = h + 2 ^ k - 1 - p := by
  have hx' : At k x (h + 2 ^ k) := hx.congr (by simp [Nat.ModEq])
  have h1 : At k (1 : U64) 1 := Nat.ModEq.refl _
  have hs := At.sub hm.le_width (At.sub hm.le_width hx' hy (by omega)) h1 (by omega)
  rw [hs.toNat_and hm, Nat.mod_eq_of_lt (by omega)]
  omega

/-- The grant to a request of `n` positions: as many as are free, at most `n`. -/
theorem txsyncGrant_spec (e : E) (ch : Channel C) (i : Nat) (sync : SubscriptionSync) {p h n : Nat}
    (hm : IsMask ch.ptrmask k) (hp : At k ch.swptr p) (hh : At k (ops.getHwptr ch.ctrl e).2 h) (hhp : h ≤ p)
    (hlap : p < h + 2 ^ k) (hn : ((sync.swptr - sync.hwptr) &&& ch.ptrmask).toNat = n) :
    Granted ops k e ch i p (min n (h + 2 ^ k - 1 - p)) (txsyncGrant ops e ch i sync).1
      (txsyncGrant ops e ch i sync).2 := by
  have hlen : (umin ((sync.swptr - sync.hwptr) &&& ch.ptrmask)
      (((ops.getHwptr ch.ctrl e).2 - ch.swptr - 1) &&& ch.ptrmask)).toNat = min n (h + 2 ^ k - 1 - p) := by
    rw [toNat_umin, hn, toNat_chlen hm hh hp hhp hlap]
  have hzero : ∀ x : U64, x = 0 ↔ x.toNat = 0 := fun x => by rw [← BitVec.toNat_inj]; rfl
  refine ⟨rfl, ?_, ?_, rfl, rfl, rfl, rfl, rfl, rfl, ?_, ?_⟩
  · have hl : At k (umin ((sync.swptr - sync.hwptr) &&& ch.ptrmask)
        (((ops.getHwptr ch.ctrl e).2 - ch.swptr - 1) &&& ch.ptrmask)) (min n (h + 2 ^ k - 1 - p)) := by
      rw [← hlen]; exact at_toNat _
    exact (At.add hm.le_width hp hl).toNat_and hm
  · show (if _ = (0 : U64) then none else some i) = _
    simp only [hzero, hlen]
  · intro j
    by_cases hj : j = i
    · subst hj; simp [txsyncGrant]
    · simp [txsyncGrant, hj]
  · intro free hf
    simp [txsyncGrant, hf]

end Grant

end NdkSw.Ndp

/-
The life of an XDP channel (`channel.c`) and of the AF_XDP pools it gets (`ctrl_xdp_common.c`): a start in one of two
modes, the stop that infers the mode, and the hand-over of a pool. What must not happen at all (a NULL pointer is
followed, a NAPI context is enabled twice or disabled when it is not enabled) has no result. The channel itself always
keeps the books; the pool does not survive a teardown or a failed start.
-/
import NdkSw.Xdp.Tx
import NdkSw.Ring.Run
import NdkSw.Shared.Words

namespace NdkSw.Xdp.Channel

open Ndp Ring

/-! ## Data model -/

/-- `queue->thread`: NULL, the error that `kthread_create_on_node` returned, or a thread. -/
inductive Thread
  | null
  | err
  | live
  deriving DecidableEq, Repr

/-- `struct napi_struct`: in zeroed memory, added to the network device, enabled as well. -/
inductive Napi
  | zero
  | added
  | enabled
  deriving DecidableEq, Repr

/-- `struct nfb_xdp_queue`; `ctrl` is the mode of the controller, if there is one. -/
structure NfbXdpQueue where
  ctrl : Option XdpMode
  thread : Thread
  napi : Napi
  deriving DecidableEq, Repr

/-- `struct nfb_xdp_channel` with the two bits of its status. -/
structure NfbXdpChannel where
  rxq : NfbXdpQueue
  txq : NfbXdpQueue
  isXsk : Bool
  isRunning : Bool
  pool : Option Nat
  deriving DecidableEq, Repr

/-- How the allocation of a controller ends: before the pool is looked at, after that, or well. -/
inductive AllocEnv
  | early
  | late
  | ok
  deriving DecidableEq, Repr

/-- What the steps of a start meet, with the return values of those that have one. -/
structure StartEnv where
  allocRx : AllocEnv
  allocTx : AllocEnv
  startRx : Int
  startTx : Int
  threadRx : Int
  threadTx : Int
  deriving DecidableEq, Repr

/-- Nothing fails. -/
def StartEnv.Fine (e : StartEnv) : Prop :=
  e.allocRx = .ok ∧ e.allocTx = .ok ∧ e.startRx = 0 ∧ e.startTx = 0 ∧ e.threadRx = 0 ∧ e.threadTx = 0

instance (e : StartEnv) : Decidable e.Fine := inferInstanceAs (Decidable (_ ∧ _))

/-! ## Kernel services -/

/-- `netif_napi_add`, which leaves a context that is added alone. -/
def napiAdd : Napi → Napi
  | .zero => .added
  | n => n

def napiEnable : Napi → Option Napi
  | .added => some .enabled
  | _ => none

def napiDisable : Napi → Option Napi
  | .enabled => some .added
  | _ => none

/-- `kthread_stop` of a thread that is not NULL. -/
def kthreadCollect : Thread → Option Thread
  | .err => none
  | _ => some .null

/-! ## Calls on a channel -/

/-- `nfb_xctrl_alloc_pp` and `nfb_xctrl_alloc_xsk`; the latter reads `pool->heads_cnt`. -/
def nfbXctrlAlloc (mode : XdpMode) (e : AllocEnv) (pool : Option Nat) : Option (Option XdpMode) :=
  if e = .early then some none
  else if mode = .xsk ∧ pool = none then none
  else some (if e = .ok then some mode else none)

/-- `nfb_xctrl_destroy_pp` and `nfb_xctrl_destroy_xsk`. -/
def nfbXctrlDestroy (mode : XdpMode) (ctrl : Option XdpMode) : Option (Option XdpMode) :=
  if ctrl = some mode then some none else none

/-- `channel_create_threads`. -/
def channelCreateThreads (e : StartEnv) (ch : NfbXdpChannel) : Option (NfbXdpChannel × Int) :=
  if e.threadRx ≠ 0 then some ({ ch with rxq.thread := .err }, e.threadRx)
  else
    (napiEnable ch.rxq.napi).bind fun napi =>
    let ch := { ch with rxq := { ch.rxq with thread := .live, napi } }
    if e.threadTx ≠ 0 then
      (napiDisable ch.rxq.napi).map fun napi =>
      ({ ch with rxq := { ch.rxq with thread := .null, napi }, txq.thread := .err }, e.threadTx)
    else
      -- the page pool does not use the context of the TX queue
      (if ch.isXsk then napiEnable ch.txq.napi else some ch.txq.napi).map fun napi =>
      ({ ch with txq := { ch.txq with thread := .live, napi } }, 0)

/-- The failure labels of a start, from `err_alloc_rx` on. -/
def delNapi (mode : XdpMode) (ch : NfbXdpChannel) : NfbXdpChannel :=
  match mode with
  | .pp => { ch with rxq.napi := .zero }
  | .xsk => { ch with rxq.napi := .zero, txq.napi := .zero }

/-- From `err_alloc_tx` on. -/
def destroyRx (mode : XdpMode) (ch : NfbXdpChannel) : Option NfbXdpChannel :=
  (nfbXctrlDestroy mode ch.rxq.ctrl).map fun ctrl => delNapi mode { ch with rxq.ctrl := ctrl }

/-- From `err_threads` on. -/
def destroyBoth (mode : XdpMode) (ch : NfbXdpChannel) : Option NfbXdpChannel :=
  (nfbXctrlDestroy mode ch.txq.ctrl).bind fun ctrl => destroyRx mode { ch with txq.ctrl := ctrl }

/-- A start from the allocated controllers on. -/
def startAllocated (mode : XdpMode) (e : StartEnv) (ch : NfbXdpChannel) : Option (NfbXdpChannel × Int) :=
  if e.startRx ≠ 0 then (destroyBoth mode ch).map fun ch => (ch, e.startRx)
  else if e.startTx ≠ 0 then (destroyBoth mode ch).map fun ch => (ch, e.startTx)
  else
    (channelCreateThreads e { ch with isXsk := mode = .xsk }).bind fun r =>
    if r.2 ≠ 0 then (destroyBoth mode r.1).map fun ch => (ch, r.2)
    else some ({ r.1 with isRunning := true }, r.2)

/-- The context of the TX queue, which the page pool does not use. -/
def addTxNapi : XdpMode → Napi → Napi
  | .pp, _ => .zero
  | .xsk, napi => napiAdd napi

/-- The body of both starts. -/
def channelStart (mode : XdpMode) (e : StartEnv) (ch : NfbXdpChannel) : Option (NfbXdpChannel × Int) :=
  if ch.isRunning then some (ch, eBusy)
  else
    let ch := { ch with
      rxq.napi := napiAdd ch.rxq.napi
      txq.napi := addTxNapi mode ch.txq.napi }
    (nfbXctrlAlloc mode e.allocRx ch.pool).bind fun rx =>
    let ch := { ch with rxq.ctrl := rx }
    if rx = none then some (delNapi mode ch, eNomem)
    else
      (nfbXctrlAlloc mode e.allocTx ch.pool).bind fun tx =>
      let ch := { ch with txq.ctrl := tx }
      if tx = none then (destroyRx mode ch).map fun ch => (ch, eNomem)
      else startAllocated mode e ch

/-- `channel_start_pp`. -/
def channelStartPp := channelStart .pp

/-- `channel_start_xsk`. -/
def channelStartXsk := channelStart .xsk

/-- `channel_stop`. -/
def channelStop (ch : NfbXdpChannel) : Option (NfbXdpChannel × Int) :=
  if ch.isRunning then
    (kthreadCollect ch.rxq.thread).bind fun rxThread =>
    (napiDisable ch.rxq.napi).bind fun _ =>
    (kthreadCollect ch.txq.thread).bind fun txThread =>
    (if ch.isXsk then (napiDisable ch.txq.napi).map fun _ => Napi.zero else some ch.txq.napi).bind fun txNapi =>
    let mode := if ch.isXsk then XdpMode.xsk else .pp
    (nfbXctrlDestroy mode ch.rxq.ctrl).bind fun rx =>
    (nfbXctrlDestroy mode ch.txq.ctrl).map fun tx =>
    ({ ch with rxq := ⟨rx, rxThread, .zero⟩, txq := ⟨tx, txThread, txNapi⟩, isRunning := false }, 0)
  else some (ch, eInval)

/-! ## Pools -/

/-- A channel with the number of times each pool is mapped, and the pools that setups have mapped since the last teardown,
unless the setup failed. -/
structure Sys where
  ch : NfbXdpChannel
  mapped : Nat → Nat
  owed : List Nat

def xskPoolDmaMap (pool : Nat) (s : Sys) : Sys := { s with mapped := Function.update s.mapped pool (s.mapped pool + 1) }

/-- Nothing happens to a pool without a mapping. -/
def xskPoolDmaUnmap (pool : Nat) (s : Sys) : Sys := { s with mapped := Function.update s.mapped pool (s.mapped pool - 1) }

/-- `nfb_setup_xsk_pool`; `map` is the return value of `xsk_pool_dma_map`. -/
def nfbSetupXskPool (pool : Nat) (map : Int) (e : StartEnv) (s : Sys) : Option (Sys × Int) :=
  if map ≠ 0 then some (s, map)
  else
    let s := xskPoolDmaMap pool s
    (channelStop s.ch).bind fun r =>
    (channelStartXsk e { r.1 with pool := some pool }).map fun r =>
    if r.2 ≠ 0 then (xskPoolDmaUnmap pool { s with ch := r.1 }, r.2)
    else ({ s with ch := r.1, owed := pool :: s.owed }, r.2)

/-- `nfb_teardown_xsk_pool`. -/
def nfbTeardownXskPool (e : StartEnv) (s : Sys) : Option (Sys × Int) :=
  (channelStop s.ch).bind fun r =>
  (channelStartPp e r.1).bind fun r =>
  match r.1.pool with
  -- `if (!old_pool)`: the one pool that gets unmapped here is NULL
  | none => none
  | some _ => some ({ s with ch := { r.1 with pool := none }, owed := [] }, r.2)

inductive Act
  | startPp (e : StartEnv)
  | startXsk (e : StartEnv)
  | stop
  | setup (pool : Nat) (map : Int) (e : StartEnv)
  | teardown (e : StartEnv)

def step (s : Sys) : Act → Option Sys
  | .startPp e => (channelStartPp e s.ch).map fun r => { s with ch := r.1 }
  | .startXsk e => (channelStartXsk e s.ch).map fun r => { s with ch := r.1 }
  | .stop => (channelStop s.ch).map fun r => { s with ch := r.1 }
  | .setup pool map e => (nfbSetupXskPool pool map e s).map Prod.fst
  | .teardown e => (nfbTeardownXskPool e s).map Prod.fst

/-- A channel in zeroed memory. -/
def Sys.init : Sys where
  ch := { rxq := ⟨none, .null, .zero⟩, txq := ⟨none, .null, .zero⟩, isXsk := false, isRunning := false, pool := none }
  mapped _ := 0
  owed := []

/-! ## The channel keeps its books -/

/-- Both controllers are allocated, both threads exist, and the NAPI contexts that the mode needs are enabled. -/
structure Complete (ch : NfbXdpChannel) : Prop where
  ctrls : ch.rxq.ctrl.isSome = true ∧ ch.txq.ctrl.isSome = true
  threads : ch.rxq.thread = .live ∧ ch.txq.thread = .live
  napiRx : ch.rxq.napi = .enabled
  napiTx : ch.isXsk = true → ch.txq.napi = .enabled

/-- No controller, no thread and no NAPI context is left. -/
structure Idle (ch : NfbXdpChannel) : Prop where
  ctrls : ch.rxq.ctrl = none ∧ ch.txq.ctrl = none
  threads : ch.rxq.thread ≠ .live ∧ ch.txq.thread ≠ .live
  napis : ch.rxq.napi = .zero ∧ ch.txq.napi = .zero

def modeOf (ch : NfbXdpChannel) : XdpMode := if ch.isXsk then .xsk else .pp

/-- A channel that runs, with controllers of its mode. -/
structure Up (ch : NfbXdpChannel) : Prop where
  ctrls : ch.rxq.ctrl = some (modeOf ch) ∧ ch.txq.ctrl = some (modeOf ch)
  threads : ch.rxq.thread = .live ∧ ch.txq.thread = .live
  napis : ch.rxq.napi = .enabled ∧ ch.txq.napi = if ch.isXsk then .enabled else .zero

def Booked (ch : NfbXdpChannel) : Prop := (ch.isRunning = true → Up ch) ∧ (ch.isRunning = false → Idle ch)

variable {ch : NfbXdpChannel} {mode : XdpMode} {e : StartEnv} {r : NfbXdpChannel × Int}

theorem Up.complete (h : Up ch) : Complete ch := by
  refine ⟨⟨?_, ?_⟩, h.threads, h.napis.1, fun hx => ?_⟩
  · rw [h.ctrls.1]
    rfl
  · rw [h.ctrls.2]
    rfl
  · rw [h.napis.2, if_pos hx]

theorem Idle.not_complete (h : Idle ch) : ¬Complete ch := fun hc => h.threads.1 hc.threads.1

theorem Booked.running_iff (h : Booked ch) : ch.isRunning = true ↔ Complete ch := by
  constructor
  · intro hr
    exact (h.1 hr).complete
  · intro hc
    by_contra hr
    exact (h.2 (by simpa using hr)).not_complete hc

theorem channelStop_spec (h : Booked ch) :
    ∃ ch' ret, channelStop ch = some (ch', ret) ∧ Idle ch' ∧ ch'.isRunning = false ∧ ch'.pool = ch.pool := by
  cases hr : ch.isRunning with
  | false =>
    refine ⟨ch, eInval, ?_, h.2 hr, hr, rfl⟩
    unfold channelStop
    rw [hr]
    rfl
  | true =>
    obtain ⟨⟨h1, h2⟩, ⟨h3, h4⟩, h5, h6⟩ := h.1 hr
    unfold channelStop
    rw [if_pos hr, h1, h2, h3, h4, h5, h6]
    unfold modeOf
    cases hx : ch.isXsk with
    | false => exact ⟨_, _, rfl, ⟨⟨rfl, rfl⟩, ⟨nofun, nofun⟩, rfl, rfl⟩, rfl, rfl⟩
    | true => exact ⟨_, _, rfl, ⟨⟨rfl, rfl⟩, ⟨nofun, nofun⟩, rfl, rfl⟩, rfl, rfl⟩

/-- The start of an AF_XDP channel follows the NULL pointer of a channel without a pool. -/
def NoPool (mode : XdpMode) (e : StartEnv) (ch : NfbXdpChannel) : Prop :=
  mode = .xsk ∧ ch.pool = none ∧ e.allocRx ≠ .early

/-- The results of a start: a channel that runs, or an error and nothing left behind. -/
structure Started (mode : XdpMode) (e : StartEnv) (ch ch' : NfbXdpChannel) (ret : Int) : Prop where
  pool : ch'.pool = ch.pool
  fine : e.Fine → ret = 0 ∧ ch'.isRunning = true ∧ modeOf ch' = mode ∧ Up ch'
  failed : ¬e.Fine → ret ≠ 0 ∧ ch'.isRunning = false ∧ Idle ch'

@[simp] theorem delNapi_pool (mode : XdpMode) (ch : NfbXdpChannel) : (delNapi mode ch).pool = ch.pool := by
  cases mode <;> rfl

@[simp] theorem delNapi_isRunning (mode : XdpMode) (ch : NfbXdpChannel) : (delNapi mode ch).isRunning = ch.isRunning := by
  cases mode <;> rfl

theorem destroyBoth_eq (mode : XdpMode) (hrx : ch.rxq.ctrl = some mode) (htx : ch.txq.ctrl = some mode) :
    destroyBoth mode ch = some (delNapi mode { ch with rxq.ctrl := none, txq.ctrl := none }) := by
  unfold destroyBoth destroyRx nfbXctrlDestroy
  rw [if_pos htx]
  show (Option.map _ (if ch.rxq.ctrl = some mode then _ else _)) = _
  rw [if_pos hrx]
  rfl

theorem delNapi_idle (hc : ch.rxq.ctrl = none ∧ ch.txq.ctrl = none) (ht : ch.rxq.thread ≠ .live ∧ ch.txq.thread ≠ .live)
    (hn : mode = .pp → ch.txq.napi = .zero) : Idle (delNapi mode ch) := by
  cases mode with
  | pp => exact ⟨hc, ht, rfl, hn rfl⟩
  | xsk => exact ⟨hc, ht, rfl, rfl⟩

/-- Threads get created over two controllers, or nothing is left of them. -/
theorem channelCreateThreads_spec (e : StartEnv) (ch : NfbXdpChannel) (ht : ch.rxq.thread ≠ .live ∧ ch.txq.thread ≠ .live)
    (hn : ch.rxq.napi = .added ∧ ch.txq.napi = if ch.isXsk then .added else .zero) :
    ∃ ch' ret, channelCreateThreads e ch = some (ch', ret) ∧ ch'.rxq.ctrl = ch.rxq.ctrl ∧ ch'.txq.ctrl = ch.txq.ctrl ∧
      ch'.isXsk = ch.isXsk ∧ ch'.isRunning = ch.isRunning ∧ ch'.pool = ch.pool ∧
      (e.threadRx = 0 ∧ e.threadTx = 0 → ret = 0 ∧ (ch'.rxq.thread = .live ∧ ch'.txq.thread = .live) ∧
        ch'.rxq.napi = .enabled ∧ ch'.txq.napi = if ch.isXsk then .enabled else .zero) ∧
      (¬(e.threadRx = 0 ∧ e.threadTx = 0) → ret ≠ 0 ∧ (ch'.rxq.thread ≠ .live ∧ ch'.txq.thread ≠ .live) ∧
        ch'.txq.napi = ch.txq.napi) := by
  obtain ⟨⟨rc, rt, rn⟩, ⟨tc, tt, tn⟩, x, running, pool⟩ := ch
  obtain ⟨hn, hn'⟩ := hn
  dsimp only at hn
  subst hn
  unfold channelCreateThreads
  by_cases hrx : e.threadRx = 0
  · rw [if_neg (not_not.2 hrx)]
    by_cases htx : e.threadTx = 0
    · simp only [napiEnable, Option.bind_some, htx, ne_eq, not_true_eq_false, if_false]
      cases x with
      | false => exact ⟨_, _, rfl, rfl, rfl, rfl, rfl, rfl, fun _ => ⟨rfl, ⟨rfl, rfl⟩, rfl, hn'⟩, fun h => absurd ⟨hrx, trivial⟩ h⟩
      | true =>
        rw [show tn = .added from hn']
        exact ⟨_, _, rfl, rfl, rfl, rfl, rfl, rfl, fun _ => ⟨rfl, ⟨rfl, rfl⟩, rfl, rfl⟩, fun h => absurd ⟨hrx, trivial⟩ h⟩
    · simp only [napiEnable, Option.bind_some, htx, ne_eq, not_false_eq_true, if_true]
      exact ⟨_, _, rfl, rfl, rfl, rfl, rfl, rfl, fun h => h.2.elim, fun _ => ⟨htx, ⟨by simp, by simp⟩, rfl⟩⟩
  · rw [if_pos hrx]
    exact ⟨_, _, rfl, rfl, rfl, rfl, rfl, rfl, fun h => absurd h.1 hrx, fun _ => ⟨hrx, ⟨by simp, ht.2⟩, rfl⟩⟩

theorem nfbXctrlAlloc_eq {e : AllocEnv} {pool : Option Nat} (h : e ≠ .early → ¬(mode = .xsk ∧ pool = none)) :
    nfbXctrlAlloc mode e pool = some (if e = .ok then some mode else none) := by
  unfold nfbXctrlAlloc
  cases e with
  | early => rfl
  | late => exact if_neg (h nofun)
  | ok => exact if_neg (h nofun)

theorem startAllocated_spec (ch : NfbXdpChannel) (he : e.allocRx = .ok ∧ e.allocTx = .ok)
    (hc : ch.rxq.ctrl = some mode ∧ ch.txq.ctrl = some mode) (ht : ch.rxq.thread ≠ .live ∧ ch.txq.thread ≠ .live)
    (hn : ch.rxq.napi = .added ∧ ch.txq.napi = addTxNapi mode .zero) (hr : ch.isRunning = false) :
    ∃ ch' ret, startAllocated mode e ch = some (ch', ret) ∧ Started mode e ch ch' ret := by
  have hzero : mode = .pp → ch.txq.napi = .zero := by
    rintro rfl
    exact hn.2
  unfold startAllocated
  by_cases hsrx : e.startRx = 0
  · rw [if_neg (not_not.2 hsrx)]
    by_cases hstx : e.startTx = 0
    · rw [if_neg (not_not.2 hstx)]
      have hadd : ch.txq.napi = if decide (mode = .xsk) = true then .added else .zero := by
        rw [hn.2]
        cases mode <;> rfl
      obtain ⟨ch', ret, heq, hrc, htc, hx, hrun, hpool, hfine, hfail⟩ :=
        channelCreateThreads_spec e { ch with isXsk := mode = .xsk } ht ⟨hn.1, hadd⟩
      rw [heq, Option.bind_some]
      dsimp only at hrc htc hx hrun hpool hfine hfail ⊢
      by_cases hth : e.threadRx = 0 ∧ e.threadTx = 0
      · obtain ⟨h0, hlive, hrn, htn⟩ := hfine hth
        rw [if_neg (not_not.2 h0)]
        have hmode : modeOf ch' = mode := by
          unfold modeOf
          rw [hx]
          cases mode <;> rfl
        refine ⟨_, _, rfl, hpool, fun _ => ⟨h0, rfl, hmode, ⟨?_, ?_⟩, hlive, hrn, ?_⟩, fun hno => absurd ?_ hno⟩
        · exact (hrc.trans hc.1).trans (congrArg some hmode.symm)
        · exact (htc.trans hc.2).trans (congrArg some hmode.symm)
        · rw [htn, hx]
        · exact ⟨he.1, he.2, hsrx, hstx, hth⟩
      · obtain ⟨h0, hdead, htn⟩ := hfail hth
        rw [if_pos h0, destroyBoth_eq mode (hrc.trans hc.1) (htc.trans hc.2)]
        refine ⟨_, _, rfl, ?_, fun hf => absurd hf.2.2.2.2 hth, fun _ => ⟨h0, ?_, delNapi_idle ⟨rfl, rfl⟩ hdead ?_⟩⟩
        · exact (delNapi_pool ..).trans hpool
        · exact (delNapi_isRunning ..).trans (hrun.trans hr)
        · exact fun hm => htn.trans (hzero hm)
    · rw [if_pos hstx, destroyBoth_eq mode hc.1 hc.2]
      refine ⟨_, _, rfl, ?_, fun hf => absurd hf.2.2.2.1 hstx, fun _ => ⟨hstx, ?_, delNapi_idle ⟨rfl, rfl⟩ ht hzero⟩⟩
      · exact delNapi_pool ..
      · exact (delNapi_isRunning ..).trans hr
  · rw [if_pos hsrx, destroyBoth_eq mode hc.1 hc.2]
    refine ⟨_, _, rfl, ?_, fun hf => absurd hf.2.2.1 hsrx, fun _ => ⟨hsrx, ?_, delNapi_idle ⟨rfl, rfl⟩ ht hzero⟩⟩
    · exact delNapi_pool ..
    · exact (delNapi_isRunning ..).trans hr

theorem channelStart_spec (mode : XdpMode) (e : StartEnv) (ch : NfbXdpChannel) (hi : Idle ch) (hr : ch.isRunning = false)
    (hp : ¬NoPool mode e ch) : ∃ ch' ret, channelStart mode e ch = some (ch', ret) ∧ Started mode e ch ch' ret := by
  have hpool : e.allocRx ≠ .early → ¬(mode = .xsk ∧ ch.pool = none) := fun he hx => hp ⟨hx.1, hx.2, he⟩
  obtain ⟨⟨hrc, htc⟩, ht, hrn, htn⟩ := hi
  unfold channelStart
  rw [hr, if_neg Bool.false_ne_true]
  dsimp only
  rw [hrn, htn, nfbXctrlAlloc_eq hpool, Option.bind_some]
  have hzero : mode = .pp → addTxNapi mode .zero = .zero := by
    rintro rfl
    rfl
  by_cases hrx : e.allocRx = .ok
  · simp only [if_pos hrx, reduceCtorEq, if_false]
    rw [nfbXctrlAlloc_eq fun _ => hpool (by rw [hrx]; nofun), Option.bind_some]
    by_cases htx : e.allocTx = .ok
    · simp only [if_pos htx, reduceCtorEq, if_false]
      obtain ⟨ch', ret, heq, hpool', hfine, hfail⟩ := startAllocated_spec ⟨⟨some mode, ch.rxq.thread, .added⟩,
        ⟨some mode, ch.txq.thread, addTxNapi mode .zero⟩, ch.isXsk, false, ch.pool⟩ ⟨hrx, htx⟩ ⟨rfl, rfl⟩ ht ⟨rfl, rfl⟩ rfl
      exact ⟨ch', ret, heq, hpool', hfine, hfail⟩
    · simp only [if_neg htx, if_true]
      unfold destroyRx nfbXctrlDestroy
      rw [if_pos rfl]
      refine ⟨_, _, rfl, ?_, fun h => absurd h.2.1 htx, fun _ => ⟨by decide, ?_, delNapi_idle ⟨rfl, rfl⟩ ht hzero⟩⟩
      · exact delNapi_pool ..
      · exact delNapi_isRunning ..
  · simp only [if_neg hrx, if_true]
    refine ⟨_, _, rfl, ?_, fun h => absurd h.1 hrx, fun _ => ⟨by decide, ?_, delNapi_idle ⟨rfl, htc⟩ ht hzero⟩⟩
    · exact delNapi_pool ..
    · exact delNapi_isRunning ..

theorem channelStart_noPool (hr : ch.isRunning = false) (hp : NoPool mode e ch) : channelStart mode e ch = none := by
  obtain ⟨rfl, hpool, he⟩ := hp
  unfold channelStart nfbXctrlAlloc
  rw [hr, if_neg Bool.false_ne_true]
  dsimp only
  rw [if_neg he, if_pos ⟨rfl, hpool⟩]
  rfl

theorem channelStart_booked (h : Booked ch) (hs : channelStart mode e ch = some r) : Booked r.1 ∧ r.1.pool = ch.pool := by
  cases hr : ch.isRunning with
  | true =>
    unfold channelStart at hs
    rw [hr, if_pos rfl] at hs
    cases hs
    exact ⟨h, rfl⟩
  | false =>
    by_cases hp : NoPool mode e ch
    · rw [channelStart_noPool hr hp] at hs
      cases hs
    · obtain ⟨ch', ret, heq, hpool, hfine, hfail⟩ := channelStart_spec _ _ _ (h.2 hr) hr hp
      rw [heq] at hs
      cases hs
      by_cases hf : e.Fine
      · obtain ⟨-, hrun, -, hup⟩ := hfine hf
        exact ⟨⟨fun _ => hup, fun hno => absurd (hrun.symm.trans hno) nofun⟩, hpool⟩
      · obtain ⟨-, hrun, hidle⟩ := hfail hf
        exact ⟨⟨fun hyes => absurd (hrun.symm.trans hyes) nofun, fun _ => hidle⟩, hpool⟩

theorem channelStop_booked (h : Booked ch) (hs : channelStop ch = some r) :
    Booked r.1 ∧ Idle r.1 ∧ r.1.isRunning = false ∧ r.1.pool = ch.pool := by
  obtain ⟨ch', ret, heq, hidle, hrun, hpool⟩ := channelStop_spec h
  rw [heq] at hs
  cases hs
  exact ⟨⟨fun hyes => absurd (hrun.symm.trans hyes) nofun, fun _ => hidle⟩, hidle, hrun, hpool⟩

/-! ## Pools -/

/-- Every pool is mapped once for each setup that still needs it, and the channel has one that is mapped, if any. -/
structure PoolsRight (s : Sys) : Prop where
  mapped : ∀ p, s.mapped p = s.owed.count p
  pool : ∀ p, s.ch.pool = some p → 0 < s.mapped p

/-- No teardown, no setup whose start fails after the pool got mapped (unless an earlier setup mapped the same pool), and no start
of an AF_XDP channel that follows the NULL pointer of a channel without a pool. -/
def Clean (s : Sys) : Act → Prop
  | .startPp _ => True
  | .startXsk e => s.ch.isRunning = true ∨ ¬NoPool .xsk e s.ch
  | .stop => True
  | .setup pool map e => map = 0 → e.Fine ∨ 0 < s.mapped pool
  | .teardown _ => False

theorem setup_eq {s : Sys} (h : Booked s.ch) (pool : Nat) (e : StartEnv) : ∃ ch' ret,
    Booked ch' ∧ ch'.pool = some pool ∧ nfbSetupXskPool pool 0 e s = some (if e.Fine
      then ({ ch := ch', mapped := Function.update s.mapped pool (s.mapped pool + 1), owed := pool :: s.owed }, ret)
      else ({ s with ch := ch' }, ret)) := by
  obtain ⟨ch₁, ret₁, hstop, hidle, hrun, -⟩ := channelStop_spec h
  obtain ⟨ch', ret, hstart, hs⟩ := channelStart_spec .xsk e { ch₁ with pool := some pool }
    ⟨hidle.ctrls, hidle.threads, hidle.napis⟩ hrun (fun hp => nomatch hp.2.1)
  have hb : Booked { ch₁ with pool := some pool } :=
    ⟨fun hyes => absurd (hrun.symm.trans hyes) nofun, fun _ => ⟨hidle.ctrls, hidle.threads, hidle.napis⟩⟩
  refine ⟨ch', ret, (channelStart_booked hb hstart).1, hs.pool, ?_⟩
  unfold nfbSetupXskPool
  rw [if_neg (not_not.2 rfl)]
  show (channelStop s.ch).bind _ = _
  rw [hstop, Option.bind_some]
  show (channelStart .xsk e { ch₁ with pool := some pool }).map _ = _
  rw [hstart, Option.map_some]
  by_cases hf : e.Fine
  · rw [if_pos hf, if_neg (not_not.2 (hs.fine hf).1)]
    rfl
  · rw [if_neg hf, if_pos (hs.failed hf).1]
    unfold xskPoolDmaUnmap xskPoolDmaMap
    simp

theorem step_booked (s : Sys) (a : Act) (s' : Sys) (h : Booked s.ch) (hs : step s a = some s') : Booked s'.ch := by
  cases a with
  | startPp e =>
    obtain ⟨r, hr, rfl⟩ := Option.map_eq_some_iff.1 hs
    exact (channelStart_booked h hr).1
  | startXsk e =>
    obtain ⟨r, hr, rfl⟩ := Option.map_eq_some_iff.1 hs
    exact (channelStart_booked h hr).1
  | stop =>
    obtain ⟨r, hr, rfl⟩ := Option.map_eq_some_iff.1 hs
    exact (channelStop_booked h hr).1
  | setup pool map e =>
    obtain ⟨r, hr, rfl⟩ := Option.map_eq_some_iff.1 hs
    by_cases hm : map = 0
    · subst hm
      obtain ⟨ch', ret, hb, -, heq⟩ := setup_eq h pool e
      rw [heq] at hr
      obtain rfl := Option.some.inj hr
      split
      · exact hb
      · exact hb
    · unfold nfbSetupXskPool at hr
      rw [if_pos hm] at hr
      obtain rfl := Option.some.inj hr
      exact h
  | teardown e =>
    obtain ⟨r, hr, rfl⟩ := Option.map_eq_some_iff.1 hs
    obtain ⟨r₁, h₁, hr⟩ := Option.bind_eq_some_iff.1 hr
    obtain ⟨r₂, h₂, hr⟩ := Option.bind_eq_some_iff.1 hr
    have hb := (channelStart_booked (channelStop_booked h h₁).1 h₂).1
    split at hr
    · cases hr
    · cases hr
      exact ⟨fun hy => ⟨(hb.1 hy).ctrls, (hb.1 hy).threads, (hb.1 hy).napis⟩,
        fun hn => ⟨(hb.2 hn).ctrls, (hb.2 hn).threads, (hb.2 hn).napis⟩⟩

theorem PoolsRight.start {s : Sys} (hP : PoolsRight s) {ch' : NfbXdpChannel} (hp : ch'.pool = s.ch.pool) :
    PoolsRight { s with ch := ch' } := ⟨hP.mapped, fun p h => hP.pool p (hp ▸ h)⟩

theorem channelStart_some (mode : XdpMode) (e : StartEnv) (h : Booked ch) (hp : ch.isRunning = true ∨ ¬NoPool mode e ch) :
    ∃ r, channelStart mode e ch = some r := by
  cases hr : ch.isRunning with
  | true => exact ⟨(ch, eBusy), by unfold channelStart; rw [hr, if_pos rfl]⟩
  | false =>
    obtain ⟨ch', ret, heq, -⟩ := channelStart_spec _ _ _ (h.2 hr) hr (hp.resolve_left (by simp [hr]))
    exact ⟨_, heq⟩

/-- The condition says when a call keeps the pools right. -/
theorem clean_iff (s : Sys) (a : Act) (h : Booked s.ch) (hP : PoolsRight s) :
    Clean s a ↔ ∃ s', step s a = some s' ∧ PoolsRight s' := by
  cases a with
  | startPp e =>
    obtain ⟨r, hr⟩ := channelStart_some .pp e h (Or.inr fun hn => nomatch hn.1)
    exact iff_of_true trivial ⟨_, Option.map_eq_some_iff.2 ⟨r, hr, rfl⟩, hP.start (channelStart_booked h hr).2⟩
  | startXsk e =>
    constructor
    · intro hc
      obtain ⟨r, hr⟩ := channelStart_some .xsk e h hc
      exact ⟨_, Option.map_eq_some_iff.2 ⟨r, hr, rfl⟩, hP.start (channelStart_booked h hr).2⟩
    · rintro ⟨s', hs, -⟩
      by_contra hc
      obtain ⟨hrun, hp⟩ := not_or.1 hc
      obtain ⟨r, hr, -⟩ := Option.map_eq_some_iff.1 hs
      cases (channelStart_noPool (by simpa using hrun) (not_not.1 hp)).symm.trans hr
  | stop =>
    obtain ⟨ch', ret, heq, -, -, hpool⟩ := channelStop_spec h
    exact iff_of_true trivial ⟨_, Option.map_eq_some_iff.2 ⟨_, heq, rfl⟩, hP.start hpool⟩
  | setup pool map e =>
    show (map = 0 → _) ↔ ∃ s', (nfbSetupXskPool pool map e s).map Prod.fst = some s' ∧ _
    by_cases hm : map = 0
    · subst hm
      obtain ⟨ch', ret, -, hpool, heq⟩ := setup_eq h pool e
      rw [heq]
      by_cases hf : e.Fine
      · refine iff_of_true (fun _ => Or.inl hf) ⟨_, rfl, ?_⟩
        rw [if_pos hf]
        refine ⟨fun p => ?_, fun p hp => ?_⟩
        · show Function.update _ _ _ p = _
          rw [Function.update_apply, List.count_cons, hP.mapped p]
          by_cases hpp : p = pool
          · simp [hpp, hP.mapped pool]
          · simp [hpp, Ne.symm hpp]
        · obtain rfl : pool = p := Option.some.inj (hpool.symm.trans hp)
          show 0 < Function.update s.mapped pool (s.mapped pool + 1) pool
          rw [Function.update_self]
          exact Nat.succ_pos _
      · rw [if_neg hf]
        constructor
        · intro hc
          refine ⟨_, rfl, hP.mapped, fun p hp => ?_⟩
          obtain rfl : pool = p := Option.some.inj (hpool.symm.trans hp)
          exact (hc rfl).resolve_left hf
        · rintro ⟨s', hs, hP'⟩ -
          obtain rfl := Option.some.inj hs
          exact Or.inr (hP'.pool pool hpool)
    · unfold nfbSetupXskPool
      rw [if_pos hm]
      exact iff_of_true (fun h0 => absurd h0 hm) ⟨s, rfl, hP⟩
  | teardown e =>
    refine iff_of_false id ?_
    rintro ⟨s', hs, hP'⟩
    obtain ⟨r, hr, rfl⟩ := Option.map_eq_some_iff.1 hs
    obtain ⟨r₁, h₁, hr⟩ := Option.bind_eq_some_iff.1 hr
    obtain ⟨r₂, h₂, hr⟩ := Option.bind_eq_some_iff.1 hr
    obtain ⟨hb₁, -, -, hp₁⟩ := channelStop_booked h h₁
    have hp₂ := (channelStart_booked hb₁ h₂).2.trans hp₁
    split at hr
    · cases hr
    next p hp =>
      cases hr
      -- the pool that the channel had stays mapped, and no setup accounts for it any more
      have hpos := hP.pool p (hp₂ ▸ hp)
      have hzero := hP'.mapped p
      rw [show (([] : List Nat).count p) = 0 from rfl] at hzero
      exact absurd hzero (Nat.ne_of_gt hpos)

/-! ## Runs -/

/-- The channel runs exactly when all it needs is there, and a stop or a failed start leaves nothing of it. -/
structure ChannelRight (ch : NfbXdpChannel) : Prop where
  running : ch.isRunning = true ↔ Complete ch
  stopped : ∀ ch' ret, channelStop ch = some (ch', ret) → Idle ch'
  failed : ∀ mode e ch' ret, channelStart mode e ch = some (ch', ret) → ret ≠ 0 → ch.isRunning = false → Idle ch'

theorem Booked.right (h : Booked ch) : ChannelRight ch := by
  refine ⟨h.running_iff, fun ch' ret hs => (channelStop_booked h hs).2.1, fun mode e ch' ret hs hret hr => ?_⟩
  by_cases hp : NoPool mode e ch
  · cases (channelStart_noPool hr hp).symm.trans hs
  · obtain ⟨ch₁, ret₁, heq, -, hfine, hfail⟩ := channelStart_spec _ _ _ (h.2 hr) hr hp
    cases heq.symm.trans hs
    by_cases hf : e.Fine
    · exact absurd (hfine hf).1 hret
    · exact (hfail hf).2.2

theorem Booked.init : Booked Sys.init.ch := ⟨nofun, fun _ => ⟨⟨rfl, rfl⟩, ⟨nofun, nofun⟩, rfl, rfl⟩⟩

def fine : StartEnv := ⟨.ok, .ok, 0, 0, 0, 0⟩

end NdkSw.Xdp.Channel

/-
Reconfiguring the ring of a Medusa channel (`ring.c`, `ctrl_ndp.c`): its sysfs attributes, the resize
with its fallback, and the attach of a ring. What the allocations and registrations of a call return
is part of the call. The channel's locks and the device tree are left out.
-/
import NdkSw.Medusa.MpsUsable
import NdkSw.Ring.Run
import NdkSw.Shared.Words

namespace NdkSw.Medusa

open Ndp Ring

/-! ## State -/

/-- An allocated `struct ndp_ring`: `block_count` blocks of `blocks[0].size` bytes. -/
structure NdpRing where
  blockCount : U64
  blockSize : U64
  deriving DecidableEq, Repr

/-- `ring.size`. -/
def NdpRing.size (r : NdpRing) : U64 := r.blockCount * r.blockSize

/-- A Medusa channel: the stored request, the configuration `mps.cfg` that the walk uses, the ring,
`start_count`, and whether the ring has a device. -/
structure MpsChannel where
  req : RingRequest
  mpsCfg : NdpCtrlCfg
  ring : Option NdpRing
  startCount : U32
  dev : Bool
  deriving DecidableEq, Repr

/-- What a creation of a ring meets: whether the memory of the ring can be had, the result of its
`nfb_char_register_mmap`, and that of the allocations in `attach_ring`. -/
structure CreateEnv where
  alloc : Bool
  registerMmap : Int
  attach : Int
  deriving DecidableEq, Repr

/-- What a resize meets: with the new ring, and with the old one if it has to be created again. -/
structure ResizeEnv where
  new : CreateEnv
  old : CreateEnv
  deriving DecidableEq, Repr

section Reconf

variable (pageSize : U32)

/-! ## Rings -/

/-- `ndp_ctrl_medusa_req_block_update` without a resize. The loop that counts the buffers takes one round
for each; with more than its 32-bit index can count it does not end. -/
def storeRequest (req : RingRequest) (bufferSize bufferCount initialOffset : U64) : Option (RingRequest × Int) :=
  ndpCtrlMedusaReqBlockUpdate pageSize (fun _ => 0) bufferCount.toNat req false bufferSize bufferCount initialOffset

/-- The check of the requested parameters in `ndp_ctrl_medusa_attach_ring`. -/
def restoreRequest (req : RingRequest) : Option (RingRequest × Int) :=
  storeRequest pageSize req (req.cfg.bufferSize.setWidth 64) (req.cfg.bufferCount.setWidth 64)
    (req.cfg.initialOffset.setWidth 64)

/-- `ndp_ctrl_medusa_attach_ring`. -/
def ndpCtrlMedusaAttachRing (attach : Int) (s : MpsChannel) (ring : NdpRing) : MpsChannel × Int :=
  if ring.size = 0 then (s, eInval)
  else
    match restoreRequest pageSize s.req with
    | none => (s, eInval)
    | some (req, ret) =>
      if ret ≠ 0 then ({ s with req }, eInval)
      else ({ s with req, mpsCfg := req.cfg }, attach)

/-- `ndp_channel_ring_create`; `ndp_block_alloc` takes a 32-bit count and fails without a block. -/
def ndpChannelRingCreate (env : CreateEnv) (s : MpsChannel) (dev : Bool) (blockCount blockSize : U64) : MpsChannel × Int :=
  if dev = false then (s, eInval)
  else if blockCount = 0 then (s, 0)
  else if (blockCount.setWidth 32 : U32) = 0 ∨ blockSize = 0 ∨ env.alloc = false then ({ s with ring := none }, eNomem)
  else if env.registerMmap ≠ 0 then ({ s with ring := none }, env.registerMmap)
  else
    match ndpCtrlMedusaAttachRing pageSize env.attach s ⟨blockCount, blockSize⟩ with
    | (s, ret) =>
      if ret ≠ 0 then ({ s with ring := none }, ret) else ({ s with ring := some ⟨blockCount, blockSize⟩ }, 0)

/-- `ndp_channel_ring_destroy`. -/
def ndpChannelRingDestroy (s : MpsChannel) : MpsChannel :=
  match s.ring with
  | none => s
  | some r => if r.size ≠ 0 then { s with ring := none } else s

/-- `ndp_channel_ring_resize`. -/
def ndpChannelRingResize (env : ResizeEnv) (s : MpsChannel) : MpsChannel × Int :=
  if s.startCount ≠ 0 then (s, eBusy)
  else if s.dev = false then (s, eBadf)
  else
    match ndpChannelRingCreate pageSize env.new (ndpChannelRingDestroy s) s.dev s.req.reqBlockCount s.req.reqBlockSize with
    | (s', ret) =>
      if ret ≠ 0 then
        match s.ring with
        | none => (s', ret)
        | some r => ((ndpChannelRingCreate pageSize env.old s' s.dev r.blockCount r.blockSize).1, ret)
      else (s', 0)

/-- `ndp_ctrl_medusa_req_block_update` with a resize. -/
def reqBlockResize (env : ResizeEnv) (s : MpsChannel) (bufferSize bufferCount initialOffset : U64) :
    Option (MpsChannel × Int) :=
  (storeRequest pageSize s.req bufferSize bufferCount initialOffset).map fun (req, ret) =>
    if ret ≠ 0 then ({ s with req }, ret) else ndpChannelRingResize pageSize env { s with req }

/-! ## Attributes -/

/-- `while (buffer_count * 2 <= value / buffer_size) buffer_count *= 2`, for at most `fuel` rounds. -/
def ringSizeCount (limit : U64) : Nat → U64 → Option U64
  | 0, count => if count * 2 ≤ limit then none else some count
  | fuel + 1, count => if count * 2 ≤ limit then ringSizeCount limit fuel (count * 2) else some count

inductive RingAttr where
  | bufferSize
  | bufferCount
  | initialOffset
  | ringSize
  deriving DecidableEq, Repr

/-- The sizes that a write of an attribute asks for; `none` if `set_ring_size` does not get that far, as
its loop, once past the largest power of two, does not end. -/
def askedSizes (cfg : NdpCtrlCfg) (attr : RingAttr) (value : U64) : Option (U64 × U64 × U64) :=
  match attr with
  | .bufferSize => some (value, cfg.bufferCount.setWidth 64, cfg.initialOffset.setWidth 64)
  | .bufferCount => some (cfg.bufferSize.setWidth 64, value, cfg.initialOffset.setWidth 64)
  | .initialOffset => some (cfg.bufferSize.setWidth 64, cfg.bufferCount.setWidth 64, value)
  | .ringSize =>
    (ringSizeCount (value / cfg.bufferSize.setWidth 64) 64 1).map fun count =>
      (cfg.bufferSize.setWidth 64, count, cfg.initialOffset.setWidth 64)

/-- `ndp_ctrl_set_buffer_size`, `_buffer_count`, `_initial_offset` and `_ring_size`; 0 stands for the
number of bytes written. -/
def ndpCtrlSet (env : ResizeEnv) (s : MpsChannel) (attr : RingAttr) (value : U64) : Option (MpsChannel × Int) :=
  if attr = .ringSize ∧ s.req.cfg.bufferSize = 0 then some (s, eInval)
  else
    (askedSizes s.req.cfg attr value).bind fun (bufferSize, bufferCount, initialOffset) =>
      reqBlockResize pageSize env s bufferSize bufferCount initialOffset

/-- What happens to the channel: an attribute is written, or one of its users starts or stops it. -/
inductive ReconfOp where
  | set (attr : RingAttr) (value : U64) (env : ResizeEnv)
  | start
  | stop
  deriving DecidableEq, Repr

def reconfStep (s : MpsChannel) : ReconfOp → Option (MpsChannel × Int)
  | .set attr value env => ndpCtrlSet pageSize env s attr value
  | .start => some ({ s with startCount := s.startCount + 1 }, 0)
  | .stop => some (if s.startCount = 0 then s else { s with startCount := s.startCount - 1 }, 0)

/-! ## The new channel -/

def ispow2 (val : U64) : Bool := (val - 1) &&& val = 0

/-- `ndp_channel_ring_req_block_update_by_size`. -/
def ringReqBlockUpdateBySize (ringBlockSize : U64) (req : RingRequest) (reqSize : U64) : RingRequest × Int :=
  if ispow2 reqSize = false ∨ reqSize < pageSize.setWidth 64 then (req, eInval)
  else
    let blockSize := if reqSize < ringBlockSize then reqSize else ringBlockSize
    let blockSize := if blockSize = 0 ∨ ispow2 blockSize = false then 0x400000 else blockSize
    ({ req with reqBlockSize := blockSize, reqBlockCount := reqSize / blockSize }, 0)

/-- The module parameters, and the index of the channel. -/
structure NdpParams where
  ringSize : U64
  ringBlockSize : U64
  bufferSize : U64
  initialOffset : U64
  index : U64
  deriving DecidableEq, Repr

/-- `ndp_ctrl_create` and the first ring from `ndp_channel_add`. -/
def createChannel (p : NdpParams) (env : CreateEnv) : Option MpsChannel :=
  let req := (ringReqBlockUpdateBySize pageSize p.ringBlockSize ⟨⟨0, 0, 0, 0, 0⟩, 0, 0⟩ p.ringSize).1
  let bufferSize := if p.bufferSize = 0 then 4096 else p.bufferSize
  (storeRequest pageSize req bufferSize (p.ringSize / bufferSize) ((p.index + 1) * p.initialOffset)).map fun (req, _) =>
    let s : MpsChannel := { req, mpsCfg := ⟨0, 0, 0, 0, 0⟩, ring := none, startCount := 0, dev := true }
    (ndpChannelRingCreate pageSize env s true req.reqBlockCount req.reqBlockSize).1

end Reconf

/-! ## The stored request -/

variable {pageSize : U32} {s : MpsChannel} {x : MpsChannel × Int} {req : RingRequest} {env : CreateEnv} {attr : RingAttr} {value : U64}

/-- Checking the request again changes nothing, and rejects it only for an empty buffer. -/
def RingRequest.Stable (pageSize : U32) (req : RingRequest) : Prop :=
  restoreRequest pageSize req = some (req, if req.cfg.bufferSize = 0 then eInval else 0)

theorem storeRequest_cases {req' : RingRequest} {bufferSize bufferCount initialOffset : U64} {ret : Int}
    (h : storeRequest pageSize req bufferSize bufferCount initialOffset = some (req', ret)) :
    req' = req ∧ ret = eInval ∨
      ret = 0 ∧ ∃ cfg, mpsRequestCfg pageSize bufferCount.toNat req.reqBlockSize bufferSize bufferCount initialOffset = some cfg ∧
        ¬ bufferCount < (minBufferItems pageSize).setWidth 64 ∧
        req' = { req with cfg, reqBlockCount := cfg.blockCount.setWidth 64 } := by
  unfold storeRequest ndpCtrlMedusaReqBlockUpdate at h
  split at h
  · obtain ⟨rfl, rfl⟩ := Prod.mk.inj (Option.some.inj h)
    exact Or.inl ⟨rfl, rfl⟩
  · rename_i hchk
    obtain ⟨cfg, hcfg, he⟩ := Option.map_eq_some_iff.1 h
    obtain ⟨rfl, rfl⟩ := Prod.mk.inj he
    exact Or.inr ⟨rfl, cfg, hcfg, fun hlt => hchk (Or.inr hlt), rfl⟩

theorem setWidth_64_32 (x : U32) : ((x.setWidth 64 : U64).setWidth 32 : U32) = x := by
  rw [BitVec.setWidth_setWidth_of_le _ (by norm_num), BitVec.setWidth_eq]

theorem mpsRequestCfg_own {reqBlockSize bufferSize bufferCount initialOffset : U64} {cfg : NdpCtrlCfg} {fuel : Nat}
    (h : mpsRequestCfg pageSize fuel reqBlockSize bufferSize bufferCount initialOffset = some cfg) :
    mpsRequestCfg pageSize (cfg.bufferCount.setWidth 64 : U64).toNat reqBlockSize (cfg.bufferSize.setWidth 64)
        (cfg.bufferCount.setWidth 64) (cfg.initialOffset.setWidth 64) = some cfg ∧
      cfg.bufferCount.toNat = bufferCount.toNat ∧ cfg.blockSize = reqBlockSize.setWidth 32 := by
  obtain ⟨hn, _, he⟩ := mpsRequestCfg_eq_some.1 h
  obtain ⟨hc, hi⟩ := @virtual_index pageSize (virtualCfg reqBlockSize bufferSize initialOffset) rfl _ hn
  obtain ⟨hb, hs, ho⟩ := counted_sizes hc
  rw [he] at hb hs ho
  have hcount : cfg.bufferCount.toNat = bufferCount.toNat := by rw [← he]; exact hi
  have hv : virtualCfg reqBlockSize (cfg.bufferSize.setWidth 64) (cfg.initialOffset.setWidth 64) =
      virtualCfg reqBlockSize bufferSize initialOffset := by
    unfold virtualCfg
    rw [setWidth_64_32, setWidth_64_32, hb, ho]
    rfl
  refine ⟨mpsRequestCfg_eq_some.2 ?_, hcount, hs⟩
  rw [toNat_setWidth64, hcount, hv]
  exact ⟨hn, le_rfl, he⟩

theorem not_lt_minBufferItems {a b : U64} (he : a.toNat = b.toNat) (h : ¬ b < (minBufferItems pageSize).setWidth 64) :
    ¬ a < (minBufferItems pageSize).setWidth 64 := by
  rw [BitVec.lt_def] at h ⊢
  rwa [he]

theorem storeRequest_stable {req' : RingRequest} {bufferSize bufferCount initialOffset : U64} {ret : Int}
    (h : storeRequest pageSize req bufferSize bufferCount initialOffset = some (req', ret)) (hs : req.Stable pageSize) :
    req'.Stable pageSize := by
  rcases storeRequest_cases h with ⟨rfl, _⟩ | ⟨_, cfg, hcfg, hmin, rfl⟩
  · exact hs
  · obtain ⟨hown, hcount, _⟩ := mpsRequestCfg_own hcfg
    have hmin' : ¬ cfg.bufferCount.setWidth 64 < (minBufferItems pageSize).setWidth 64 :=
      not_lt_minBufferItems (by rw [toNat_setWidth64, hcount]) hmin
    unfold RingRequest.Stable restoreRequest storeRequest ndpCtrlMedusaReqBlockUpdate
    simp only
    by_cases h0 : cfg.bufferSize = 0
    · rw [if_pos (Or.inl (by rw [h0]; rfl)), if_pos h0]
    · have hne : ¬ (cfg.bufferSize.setWidth 64 = (0 : U64)) := by
        intro he
        apply h0
        rw [← setWidth_64_32 cfg.bufferSize, he]
        rfl
      rw [if_neg (not_or.2 ⟨hne, hmin'⟩), if_neg h0, hown]
      rfl

/-! ## Creating a ring -/

/-- What it takes to create a ring for the request. -/
structure CanCreate (env : CreateEnv) (req : RingRequest) (blockCount blockSize : U64) : Prop where
  alloc : ¬ ((blockCount.setWidth 32 : U32) = 0 ∨ blockSize = 0 ∨ env.alloc = false)
  register : env.registerMmap = 0
  size : blockCount * blockSize ≠ 0
  buffer : req.cfg.bufferSize ≠ 0
  attach : env.attach = 0

theorem attachRing_eq (hs : s.req.Stable pageSize) (attach : Int) (ring : NdpRing) :
    ndpCtrlMedusaAttachRing pageSize attach s ring =
      if ring.size = 0 ∨ s.req.cfg.bufferSize = 0 then (s, eInval) else ({ s with mpsCfg := s.req.cfg }, attach) := by
  have hs' : restoreRequest pageSize s.req = some (s.req, if s.req.cfg.bufferSize = 0 then eInval else 0) := hs
  unfold ndpCtrlMedusaAttachRing
  rw [hs']
  simp only
  by_cases h0 : ring.size = 0
  · rw [if_pos h0, if_pos (Or.inl h0)]
  · rw [if_neg h0]
    by_cases hb : s.req.cfg.bufferSize = 0
    · rw [if_pos hb, if_pos (by decide), if_pos (Or.inr hb)]
    · rw [if_neg hb, if_neg (by decide), if_neg (not_or.2 ⟨h0, hb⟩)]

/-- What a creation of a ring does to the channel and its request. -/
inductive Created (pageSize : U32) (env : CreateEnv) (s : MpsChannel) (blockCount blockSize : U64) : MpsChannel × Int → Prop
  | empty : blockCount = 0 → Created pageSize env s blockCount blockSize (s, 0)
  | failed {cfg : NdpCtrlCfg} {ret : Int} : blockCount ≠ 0 → ret ≠ 0 → ¬ CanCreate env s.req blockCount blockSize →
      Created pageSize env s blockCount blockSize ({ s with mpsCfg := cfg, ring := none }, ret)
  | attached : CanCreate env s.req blockCount blockSize →
      Created pageSize env s blockCount blockSize
        ({ s with mpsCfg := s.req.cfg, ring := some ⟨blockCount, blockSize⟩ }, 0)

theorem ringCreate_created (hs : s.req.Stable pageSize) (env : CreateEnv) (blockCount blockSize : U64) :
    Created pageSize env s blockCount blockSize (ndpChannelRingCreate pageSize env s true blockCount blockSize) := by
  unfold ndpChannelRingCreate
  rw [if_neg (by decide)]
  by_cases hc : blockCount = 0
  · rw [if_pos hc]; exact .empty hc
  rw [if_neg hc]
  by_cases ha : (blockCount.setWidth 32 : U32) = 0 ∨ blockSize = 0 ∨ env.alloc = false
  · rw [if_pos ha]; exact .failed hc (by decide) fun h => h.alloc ha
  rw [if_neg ha]
  by_cases hr : env.registerMmap ≠ 0
  · rw [if_pos hr]; exact .failed hc hr fun h => hr h.register
  rw [if_neg hr, attachRing_eq hs]
  by_cases hz : NdpRing.size ⟨blockCount, blockSize⟩ = 0 ∨ s.req.cfg.bufferSize = 0
  · rw [if_pos hz]
    simp only
    rw [if_pos (by decide)]
    refine .failed hc (by decide) fun h => ?_
    rcases hz with hz | hz
    · exact h.size hz
    · exact h.buffer hz
  · rw [if_neg hz]
    rw [not_or] at hz
    simp only
    by_cases hat : env.attach ≠ 0
    · rw [if_pos hat]; exact .failed hc hat fun h => hat h.attach
    · rw [if_neg hat]
      exact .attached ⟨ha, not_not.1 hr, hz.1, hz.2, not_not.1 hat⟩

theorem Created.same {blockCount blockSize : U64} (h : Created pageSize env s blockCount blockSize x) :
    x.1.req = s.req ∧ x.1.startCount = s.startCount ∧ x.1.dev = s.dev := by
  cases h
  · exact ⟨rfl, rfl, rfl⟩
  · exact ⟨rfl, rfl, rfl⟩
  · exact ⟨rfl, rfl, rfl⟩

theorem Created.ret_iff {blockCount blockSize : U64} (h : Created pageSize env s blockCount blockSize x) :
    x.2 = 0 ↔ blockCount = 0 ∨ CanCreate env s.req blockCount blockSize := by
  cases h with
  | empty h0 => exact iff_of_true rfl (Or.inl h0)
  | failed hc hr hn => exact iff_of_false hr (not_or.2 ⟨hc, hn⟩)
  | attached h => exact iff_of_true rfl (Or.inr h)

theorem ringCreate_of_can {env : CreateEnv} {s : MpsChannel} {blockCount blockSize : U64} (hs : s.req.Stable pageSize)
    (h : CanCreate env s.req blockCount blockSize) :
    ndpChannelRingCreate pageSize env s true blockCount blockSize =
      ({ s with mpsCfg := s.req.cfg, ring := some ⟨blockCount, blockSize⟩ }, 0) := by
  have hc := ringCreate_created hs env blockCount blockSize
  generalize ndpChannelRingCreate pageSize env s true blockCount blockSize = x at hc
  cases hc with
  | empty h0 => exact absurd (Or.inl (by rw [h0]; rfl)) h.alloc
  | failed _ _ hn => exact absurd h hn
  | attached _ => rfl

/-! ## Resizing -/

theorem destroy_same (s : MpsChannel) :
    (ndpChannelRingDestroy s).req = s.req ∧ (ndpChannelRingDestroy s).startCount = s.startCount ∧
      (ndpChannelRingDestroy s).dev = s.dev := by
  unfold ndpChannelRingDestroy
  split
  · exact ⟨rfl, rfl, rfl⟩
  · split
    · exact ⟨rfl, rfl, rfl⟩
    · exact ⟨rfl, rfl, rfl⟩

/-- The resize can be carried through. -/
def CanResize (env : ResizeEnv) (s : MpsChannel) (req : RingRequest) : Prop :=
  s.startCount = 0 ∧ s.dev = true ∧
    (req.reqBlockCount = 0 ∨ CanCreate env.new req req.reqBlockCount req.reqBlockSize)

/-- What a resize does: it is refused, it replaces the ring, or it tries to bring the old ring back. -/
theorem ringResize_cases {s : MpsChannel} (hs : s.req.Stable pageSize) (env : ResizeEnv) :
    (∃ ret, ret ≠ 0 ∧ ¬ CanResize env s s.req ∧ ndpChannelRingResize pageSize env s = (s, ret)) ∨
    (∃ s', CanResize env s s.req ∧
      Created pageSize env.new (ndpChannelRingDestroy s) s.req.reqBlockCount s.req.reqBlockSize (s', 0) ∧
      ndpChannelRingResize pageSize env s = (s', 0)) ∨
    ∃ s' ret, ret ≠ 0 ∧ ¬ CanResize env s s.req ∧ s'.ring = none ∧ s'.req = s.req ∧ s'.startCount = s.startCount ∧
      s'.dev = s.dev ∧
      ((s.ring = none ∧ ndpChannelRingResize pageSize env s = (s', ret)) ∨
        ∃ r x, s.ring = some r ∧ Created pageSize env.old s' r.blockCount r.blockSize x ∧
          ndpChannelRingResize pageSize env s = (x.1, ret)) := by
  unfold ndpChannelRingResize
  by_cases hst : s.startCount ≠ 0
  · rw [if_pos hst]
    exact Or.inl ⟨_, by decide, fun h => hst h.1, rfl⟩
  rw [if_neg hst]
  by_cases hd : s.dev = false
  · rw [if_pos hd]
    exact Or.inl ⟨_, by decide, fun h => absurd (hd.symm.trans h.2.1) (by decide), rfl⟩
  rw [if_neg hd]
  have hdev : s.dev = true := by simpa using hd
  obtain ⟨hreq, hsc, hdv⟩ := destroy_same s
  have hc := ringCreate_created (hreq ▸ hs) env.new s.req.reqBlockCount s.req.reqBlockSize
  rw [hdev]
  generalize ndpChannelRingCreate pageSize env.new (ndpChannelRingDestroy s) true s.req.reqBlockCount s.req.reqBlockSize = x
    at hc
  obtain ⟨s', ret⟩ := x
  have hiff := hc.ret_iff
  obtain ⟨hreq', hsc', hdv'⟩ := hc.same
  rw [hreq] at hiff hreq'
  simp only at hiff hreq' hsc' hdv' ⊢
  by_cases hr : ret = 0
  · subst hr
    rw [if_neg (by decide)]
    exact Or.inr (Or.inl ⟨s', ⟨not_not.1 hst, hdev, hiff.1 rfl⟩, hc, rfl⟩)
  · right; right
    rw [if_pos hr]
    have hnone : s'.ring = none := by
      cases hc with
      | empty => exact absurd rfl hr
      | failed => rfl
      | attached => exact absurd rfl hr
    refine ⟨s', ret, hr, fun h => hr (hiff.2 h.2.2), hnone, hreq', hsc'.trans hsc, (hdv'.trans hdv).trans hdev, ?_⟩
    rcases hring : s.ring with _ | r
    · exact Or.inl ⟨rfl, rfl⟩
    · exact Or.inr ⟨r, _, rfl, ringCreate_created (by rw [hreq']; exact hs) env.old r.blockCount r.blockSize, rfl⟩

theorem ringResize_of_can {env : ResizeEnv} (hs : s.req.Stable pageSize) (hstart : s.startCount = 0) (hdev : s.dev = true)
    (h : CanCreate env.new s.req s.req.reqBlockCount s.req.reqBlockSize) :
    ndpChannelRingResize pageSize env s =
      ({ s with mpsCfg := s.req.cfg, ring := some ⟨s.req.reqBlockCount, s.req.reqBlockSize⟩ }, 0) := by
  have hsame : ∃ ring, ndpChannelRingDestroy s = { s with ring } := by
    unfold ndpChannelRingDestroy
    split
    · exact ⟨s.ring, rfl⟩
    · split
      · exact ⟨none, rfl⟩
      · exact ⟨s.ring, rfl⟩
  obtain ⟨ring, hsame⟩ := hsame
  unfold ndpChannelRingResize
  rw [if_neg (not_not.2 hstart), if_neg (by rw [hdev]; decide), hdev, hsame,
    ringCreate_of_can (s := { s with ring }) hs h]
  simp [hdev]

theorem ringResize_spec {s : MpsChannel} (hs : s.req.Stable pageSize) (env : ResizeEnv) :
    (ndpChannelRingResize pageSize env s).1.req = s.req ∧
      ((ndpChannelRingResize pageSize env s).2 = 0 ↔ CanResize env s s.req) := by
  rcases ringResize_cases hs env with ⟨ret, hr, hn, he⟩ | ⟨s', hc, hcr, he⟩ | ⟨s', ret, hr, hn, _, hreq, _, _, hb⟩
  · rw [he]; exact ⟨rfl, iff_of_false hr hn⟩
  · rw [he]; exact ⟨hcr.same.1.trans (destroy_same s).1, iff_of_true rfl hc⟩
  · rcases hb with ⟨_, he⟩ | ⟨r, x, _, hcr, he⟩
    · rw [he]; exact ⟨hreq, iff_of_false hr hn⟩
    · rw [he]; exact ⟨hcr.same.1.trans hreq, iff_of_false hr hn⟩

/-- Between two writes: the request is stable, and an attached ring is the requested one. -/
structure Settled (pageSize : U32) (s : MpsChannel) : Prop where
  stable : s.req.Stable pageSize
  ring : ∀ r, s.ring = some r → s.mpsCfg = s.req.cfg ∧ r = ⟨s.req.reqBlockCount, s.req.reqBlockSize⟩ ∧ r.size ≠ 0 ∧
    s.req.cfg.bufferSize ≠ 0

theorem Settled.of_none (hs : s.req.Stable pageSize) (hr : s.ring = none) : Settled pageSize s :=
  ⟨hs, fun r h => absurd (hr.symm.trans h) (by simp)⟩

theorem Created.settled (hs : s.req.Stable pageSize) (hr : s.ring = none)
    (h : Created pageSize env s s.req.reqBlockCount s.req.reqBlockSize x) : Settled pageSize x.1 := by
  cases h with
  | empty => exact .of_none hs hr
  | failed => exact .of_none hs rfl
  | attached hc =>
    refine ⟨hs, fun r h => ?_⟩
    cases h
    exact ⟨rfl, rfl, hc.size, hc.buffer⟩

theorem destroy_ring (h : ∀ r, s.ring = some r → r.size ≠ 0) : (ndpChannelRingDestroy s).ring = none := by
  unfold ndpChannelRingDestroy
  split
  · rename_i hr; exact hr
  · rename_i r hr
    rw [if_pos (h r hr)]

theorem ringResize_settled {s : MpsChannel} (hs : s.req.Stable pageSize) (hsize : ∀ r, s.ring = some r → r.size ≠ 0)
    (env : ResizeEnv) (h : CanResize env s s.req ∨ Settled pageSize s) :
    Settled pageSize (ndpChannelRingResize pageSize env s).1 := by
  rcases ringResize_cases hs env with ⟨ret, hr, hn, he⟩ | ⟨s', hc, hcr, he⟩ | ⟨s', ret, hr, hn, hnone, hreq, _, _, hb⟩
  · rw [he]; exact h.resolve_left hn
  · rw [he]
    have hreq := (destroy_same s).1
    rw [← hreq] at hcr
    exact hcr.settled (hreq ▸ hs) (destroy_ring hsize)
  · have hset := h.resolve_left hn
    have hs' : s'.req.Stable pageSize := hreq ▸ hs
    rcases hb with ⟨_, he⟩ | ⟨r, x, hring, hcr, he⟩
    · rw [he]; exact .of_none hs' hnone
    · -- the old ring is the requested one
      rw [he]
      obtain ⟨_, rfl, _, _⟩ := hset.ring r hring
      rw [← hreq] at hcr
      have hsettled := hcr.settled hs' hnone
      exact hsettled

/-! ## Writing an attribute -/

/-- The request that a write would store, if it passes the checks. -/
def acceptedRequest (pageSize : U32) (s : MpsChannel) (attr : RingAttr) (value : U64) : Option RingRequest :=
  if attr = .ringSize ∧ s.req.cfg.bufferSize = 0 then none
  else
    (askedSizes s.req.cfg attr value).bind fun (bufferSize, bufferCount, initialOffset) =>
      (storeRequest pageSize s.req bufferSize bufferCount initialOffset).bind fun (req, ret) =>
        if ret = 0 then some req else none

theorem ndpCtrlSet_accepted (env : ResizeEnv) (h : acceptedRequest pageSize s attr value = some req) (hs : s.req.Stable pageSize) :
    ndpCtrlSet pageSize env s attr value = some (ndpChannelRingResize pageSize env { s with req }) ∧
      req.Stable pageSize ∧ req.reqBlockSize = s.req.reqBlockSize := by
  unfold acceptedRequest at h
  unfold ndpCtrlSet
  split at h
  · cases h
  rename_i hne
  rw [if_neg hne]
  obtain ⟨⟨bufferSize, bufferCount, initialOffset⟩, ha, hb⟩ := Option.bind_eq_some_iff.1 h
  obtain ⟨⟨req', ret⟩, hst, hx⟩ := Option.bind_eq_some_iff.1 hb
  simp only at hx
  split at hx
  · rename_i hr
    subst hr
    cases hx
    refine ⟨?_, storeRequest_stable hst hs, ?_⟩
    · rw [ha, Option.bind_some]
      simp only [reqBlockResize]
      rw [hst, Option.map_some]
      simp only [ne_eq, not_true_eq_false, if_false]
    · rcases storeRequest_cases hst with ⟨rfl, _⟩ | ⟨_, cfg, _, _, rfl⟩
      · rfl
      · rfl
  · cases hx

theorem ndpCtrlSet_rejected {env : ResizeEnv} (h : ndpCtrlSet pageSize env s attr value = some x)
    (hn : acceptedRequest pageSize s attr value = none) : x = (s, eInval) := by
  unfold ndpCtrlSet at h
  unfold acceptedRequest at hn
  split at h
  · exact (Option.some.inj h).symm
  rename_i hne
  rw [if_neg hne] at hn
  obtain ⟨⟨bufferSize, bufferCount, initialOffset⟩, ha, hb⟩ := Option.bind_eq_some_iff.1 h
  obtain ⟨⟨req, ret⟩, hst, hx⟩ := Option.map_eq_some_iff.1 hb
  rw [ha, Option.bind_some] at hn
  simp only at hx hn
  rw [hst, Option.bind_some] at hn
  simp only at hn
  split at hn
  · cases hn
  · rename_i hr
    rw [if_pos hr] at hx
    rcases storeRequest_cases hst with ⟨rfl, rfl⟩ | ⟨rfl, _⟩
    · exact hx.symm
    · exact absurd rfl hr

/-- A write that cannot leave a change behind: it is rejected, asks for what is stored already, or can be
carried through. -/
def Carried (pageSize : U32) (s : MpsChannel) : ReconfOp → Prop
  | .set attr value env =>
    ∀ req, acceptedRequest pageSize s attr value = some req → req = s.req ∨ CanResize env s req
  | .start => True
  | .stop => True

/-- A write whose ring, if one is made, holds the buffers that it asks for. -/
def Packed (pageSize : U32) (s : MpsChannel) : ReconfOp → Prop
  | .set attr value env =>
    ∀ req, acceptedRequest pageSize s attr value = some req → CanResize env s req → req.reqBlockCount ≠ 0 →
      Packable pageSize req.cfg
  | .start => True
  | .stop => True

/-- A write that neither leaves a change behind nor attaches a ring that its walk leaves. -/
def CleanStep (pageSize : U32) (s : MpsChannel) (op : ReconfOp) : Prop := Carried pageSize s op ∧ Packed pageSize s op

/-- An operation that returns an error leaves the stored request as it was. -/
def AtomicStep (pageSize : U32) (s : MpsChannel) (op : ReconfOp) : Prop :=
  ∀ s' ret, reconfStep pageSize s op = some (s', ret) → ret ≠ 0 → s'.req = s.req

theorem atomic_iff_carried (hs : s.req.Stable pageSize) (op : ReconfOp) : AtomicStep pageSize s op ↔ Carried pageSize s op := by
  cases op with
  | set attr value env =>
    constructor
    · intro ha req hreq
      obtain ⟨hset, hst, _⟩ := ndpCtrlSet_accepted env hreq hs
      obtain ⟨hsame, hret⟩ := @ringResize_spec pageSize { s with req } hst env
      rcases hx : ndpChannelRingResize pageSize env { s with req } with ⟨s', ret⟩
      rw [hx] at hset hsame hret
      by_cases h0 : ret = 0
      · exact Or.inr (hret.1 h0)
      · exact Or.inl (hsame.symm.trans (ha s' ret hset h0))
    · intro hc s' ret h hr
      have h' : ndpCtrlSet pageSize env s attr value = some (s', ret) := h
      rcases hacc : acceptedRequest pageSize s attr value with _ | req
      · obtain ⟨rfl, _⟩ := Prod.mk.inj (ndpCtrlSet_rejected h' hacc)
        rfl
      · obtain ⟨hset, hst, _⟩ := ndpCtrlSet_accepted env hacc hs
        obtain ⟨hsame, hret⟩ := @ringResize_spec pageSize { s with req } hst env
        rw [hset, Option.some.injEq] at h'
        rw [h'] at hsame hret
        rcases hc req hacc with he | hcan
        · rw [hsame]; exact he
        · exact absurd (hret.2 hcan) hr
  | start =>
    refine iff_of_true (fun s' ret h hr => ?_) trivial
    obtain ⟨_, rfl⟩ := Prod.mk.inj (Option.some.inj h)
    exact absurd rfl hr
  | stop =>
    refine iff_of_true (fun s' ret h hr => ?_) trivial
    obtain ⟨_, rfl⟩ := Prod.mk.inj (Option.some.inj h)
    exact absurd rfl hr

/-- The request of `s` and the ring that belongs to it are carried over to a state that differs only in
its start count. -/
theorem Settled.of_started (h : Settled pageSize s) (n : U32) :
    Settled pageSize { s with startCount := n } := ⟨h.stable, h.ring⟩

theorem reconfStep_settled (h : Settled pageSize s) {op : ReconfOp} (hc : Carried pageSize s op) (hx : reconfStep pageSize s op = some x) :
    Settled pageSize x.1 ∧ x.1.req.reqBlockSize = s.req.reqBlockSize := by
  cases op with
  | set attr value env =>
    have hx' : ndpCtrlSet pageSize env s attr value = some x := hx
    rcases hacc : acceptedRequest pageSize s attr value with _ | req
    · rw [ndpCtrlSet_rejected hx' hacc]
      exact ⟨h, rfl⟩
    · obtain ⟨hset, hst, hbs⟩ := ndpCtrlSet_accepted env hacc h.stable
      rw [hset, Option.some.injEq] at hx'
      subst hx'
      refine ⟨@ringResize_settled pageSize { s with req } hst (fun r hr => (h.ring r hr).2.2.1) env ?_, ?_⟩
      · rcases hc req hacc with rfl | hcan
        · exact Or.inr h
        · exact Or.inl hcan
      · rw [(ringResize_spec hst env).1]; exact hbs
  | start =>
    cases hx
    exact ⟨h.of_started _, rfl⟩
  | stop =>
    cases hx
    simp only
    split
    · exact ⟨h, rfl⟩
    · exact ⟨h.of_started _, rfl⟩

/-! ## Runs -/

/-- The walk of a configuration stays inside the blocks of the ring. -/
structure Holds (pageSize : U32) (r : NdpRing) (cfg : NdpCtrlCfg) : Prop where
  count : cfg.blockCount.toNat ≤ r.blockCount.toNat
  size : cfg.blockSize.toNat = r.blockSize.toNat
  block : ∀ m, (mpsWalk pageSize cfg.first m).blockIndex.toNat < r.blockCount.toNat
  inside : ∀ m, (mpsWalk pageSize cfg.first m).blockOffset.toNat + cfg.bufferSize.toNat ≤ r.blockSize.toNat

/-- An attached ring holds the walk of the configuration. -/
def RingOk (pageSize : U32) (s : MpsChannel) : Prop := ∀ r, s.ring = some r → Holds pageSize r s.mpsCfg

theorem stable_blocks (hs : req.Stable pageSize) (hb : req.cfg.bufferSize ≠ 0) :
    req.reqBlockCount = req.cfg.blockCount.setWidth 64 ∧ req.cfg.blockSize = req.reqBlockSize.setWidth 32 := by
  have hs' : restoreRequest pageSize req = some (req, 0) := by
    have h : restoreRequest pageSize req = some (req, if req.cfg.bufferSize = 0 then eInval else 0) := hs
    rwa [if_neg hb] at h
  rcases storeRequest_cases hs' with ⟨_, h0⟩ | ⟨_, cfg, hcfg, _, he⟩
  · exact absurd h0 (by decide)
  · have hc : req.cfg = cfg := congrArg RingRequest.cfg he
    have hn : req.reqBlockCount = cfg.blockCount.setWidth 64 := congrArg RingRequest.reqBlockCount he
    rw [hc]
    exact ⟨hn, (mpsRequestCfg_own hcfg).2.2⟩

theorem stable_counted (hpage : IsPageSize pageSize) (hs : req.Stable pageSize) (hb : req.cfg.bufferSize ≠ 0) :
    ∃ (v : NdpCtrlCfg) (n : Nat), (v.bufferCount = 0 ∧ v.blockCount = 0) ∧ n + 2 < 2 ^ 32 ∧ 0 < v.bufferSize.toNat ∧
      (mpsWalk pageSize v.first (n + 2)).counted = req.cfg := by
  have hs' : restoreRequest pageSize req = some (req, 0) := by
    have h : restoreRequest pageSize req = some (req, if req.cfg.bufferSize = 0 then eInval else 0) := hs
    rwa [if_neg hb] at h
  unfold restoreRequest storeRequest at hs'
  obtain ⟨-, hcount, hcfg⟩ := reqBlockUpdate_accepted hpage hs'
  obtain ⟨hn, -, hcfg⟩ := mpsRequestCfg_eq_some.1 hcfg
  obtain ⟨n, hn2⟩ : ∃ n, (req.cfg.bufferCount.setWidth 64 : U64).toNat = n + 2 := Nat.exists_eq_add_of_le' hcount
  rw [hn2] at hn hcfg
  refine ⟨virtualCfg req.reqBlockSize (req.cfg.bufferSize.setWidth 64) (req.cfg.initialOffset.setWidth 64), n, ⟨rfl, rfl⟩, hn, ?_, hcfg⟩
  show 0 < ((req.cfg.bufferSize.setWidth 64 : U64).setWidth 32 : U32).toNat
  rw [setWidth_64_32]
  exact Nat.pos_of_ne_zero fun h => hb (BitVec.eq_of_toNat_eq h)

theorem holds_iff (hpage : IsPageSize pageSize) (hs : req.Stable pageSize) (hb : req.cfg.bufferSize ≠ 0)
    (hsize : req.reqBlockSize.toNat < 2 ^ 32) (hcount : req.reqBlockCount ≠ 0) :
    Holds pageSize ⟨req.reqBlockCount, req.reqBlockSize⟩ req.cfg ↔ Packable pageSize req.cfg := by
  obtain ⟨hn, hbs⟩ := stable_blocks hs hb
  have hblocks : req.reqBlockCount.toNat = req.cfg.blockCount.toNat := by rw [hn, toNat_setWidth64]
  have hbytes : req.cfg.blockSize.toNat = req.reqBlockSize.toNat := by rw [hbs, BitVec.toNat_setWidth, Nat.mod_eq_of_lt hsize]
  have h0 : 0 < req.cfg.blockCount.toNat := by
    rw [← hblocks]
    exact Nat.pos_of_ne_zero fun h => hcount (BitVec.eq_of_toNat_eq h)
  obtain ⟨v, n, hv, hlt, hpos, hcfg⟩ := stable_counted hpage hs hb
  rw [← counted_inside_iff hv hlt hpos hcfg h0]
  constructor
  · intro h m
    refine ⟨BitVec.lt_def.2 ?_, ?_⟩
    · rw [← hblocks]
      exact h.block m
    · rw [hbytes]
      exact h.inside m
  · intro h
    refine ⟨hblocks.ge, hbytes, fun m => ?_, fun m => ?_⟩
    · exact hblocks ▸ BitVec.lt_def.1 (h m).1
    · exact hbytes ▸ (h m).2

theorem Settled.ringOk_iff (hpage : IsPageSize pageSize) (h : Settled pageSize s) (hsize : s.req.reqBlockSize.toNat < 2 ^ 32) :
    RingOk pageSize s ↔ (s.ring ≠ none → Packable pageSize s.req.cfg) := by
  cases hr : s.ring with
  | none =>
    refine iff_of_true (fun r h' => ?_) fun h' => absurd rfl h'
    rw [hr] at h'
    cases h'
  | some r =>
    obtain ⟨hcfg, rfl, hz, hb⟩ := h.ring r hr
    have hcount : s.req.reqBlockCount ≠ 0 := fun h0 => hz (by rw [NdpRing.size, h0]; exact BitVec.zero_mul)
    rw [← holds_iff hpage h.stable hb hsize hcount]
    constructor
    · intro hok _
      exact hcfg ▸ hok _ hr
    · intro hok r' hr'
      cases hr.symm.trans hr'
      rw [hcfg]
      exact hok (Option.some_ne_none _)

theorem createChannel_settled {p : NdpParams} (h : createChannel pageSize p env = some s) : Settled pageSize s := by
  unfold createChannel at h
  simp only at h
  obtain ⟨⟨req, ret⟩, hst, rfl⟩ := Option.map_eq_some_iff.1 h
  have hstable : req.Stable pageSize := by
    refine storeRequest_stable hst ?_
    unfold ringReqBlockUpdateBySize
    split
    · rfl
    · rfl
  simp only
  exact (ringCreate_created (s := { req, mpsCfg := ⟨0, 0, 0, 0, 0⟩, ring := none, startCount := 0, dev := true }) hstable env
    req.reqBlockCount req.reqBlockSize).settled hstable rfl

def reconfNext (pageSize : U32) (s : MpsChannel) (op : ReconfOp) : Option MpsChannel :=
  (reconfStep pageSize s op).map Prod.fst

/-- After a write that is accepted and carried, a ring is attached only for buffers that fit, if the write is packed. -/
theorem packed_iff (hpage : IsPageSize pageSize) {s' : MpsChannel} (h : Settled pageSize s) (hsize : s.req.reqBlockSize.toNat < 2 ^ 32)
    (hok : RingOk pageSize s) {env : ResizeEnv} (hacc : acceptedRequest pageSize s attr value = some req)
    (hc : req = s.req ∨ CanResize env s req) (hst : req.Stable pageSize) (hs' : (ndpChannelRingResize pageSize env { s with req }).1 = s') :
    (CanResize env s req → req.reqBlockCount ≠ 0 → Packable pageSize req.cfg) ↔ (s'.ring ≠ none → Packable pageSize req.cfg) := by
  have hold := (h.ringOk_iff hpage hsize).1 hok
  have hsizes : ∀ r, s.ring = some r → r.size ≠ 0 := fun r hr => (h.ring r hr).2.2.1
  rcases @ringResize_cases pageSize { s with req } hst env with
    ⟨ret, -, hn, he⟩ | ⟨s₁, hcan, hcr, he⟩ | ⟨s₁, ret, -, hn, hnone, -, -, -, hb⟩
  · -- refused: the old ring stays
    obtain rfl : req = s.req := hc.resolve_right hn
    rw [he] at hs'
    subst hs'
    exact iff_of_true (fun hcan => absurd hcan hn) hold
  · rw [he] at hs'
    subst hs'
    have hreq : (ndpChannelRingDestroy { s with req }).req = req := (destroy_same _).1
    have hring : (ndpChannelRingDestroy { s with req }).ring = none := destroy_ring hsizes
    generalize ndpChannelRingDestroy { s with req } = s₂ at hcr hreq hring
    cases hcr with
    | empty h0 =>
      exact iff_of_true (fun _ hne => absurd h0 hne) fun hne => absurd hring hne
    | failed _ hr => exact absurd rfl hr
    | attached hnew =>
      have hne : req.reqBlockCount ≠ 0 := fun h0 => hnew.alloc (Or.inl (by rw [h0]; rfl))
      exact ⟨fun hp _ => hp hcan hne, fun hp _ _ => hp (Option.some_ne_none _)⟩
  · -- the old ring comes back, if anything
    obtain rfl : req = s.req := hc.resolve_right hn
    refine iff_of_true (fun hcan => absurd hcan hn) fun hne => ?_
    rcases hb with ⟨-, he⟩ | ⟨r, x, hring, -, -⟩
    · rw [he] at hs'
      subst hs'
      exact absurd hnone hne
    · exact hold (by rw [show s.ring = some r from hring]; exact Option.some_ne_none _)

/-- The condition says when an operation is atomic and keeps the walk inside the ring. -/
theorem clean_iff (hpage : IsPageSize pageSize) (h : Settled pageSize s) (hsize : s.req.reqBlockSize.toNat < 2 ^ 32)
    (hok : RingOk pageSize s) (op : ReconfOp) :
    CleanStep pageSize s op ↔ AtomicStep pageSize s op ∧ ∀ s', reconfNext pageSize s op = some s' → RingOk pageSize s' := by
  rw [atomic_iff_carried h.stable]
  refine and_congr_right fun hc => ?_
  cases op with
  | set attr value env =>
    rcases hacc : acceptedRequest pageSize s attr value with _ | req
    · refine iff_of_true (fun req hreq => absurd (hacc.symm.trans hreq) nofun) fun s' hnext => ?_
      obtain ⟨x, hx, rfl⟩ := Option.map_eq_some_iff.1 hnext
      rw [ndpCtrlSet_rejected hx hacc]
      exact hok
    · obtain ⟨hset, hst, hbs⟩ := ndpCtrlSet_accepted env hacc h.stable
      have hnext : reconfNext pageSize s (.set attr value env) = some (ndpChannelRingResize pageSize env { s with req }).1 :=
        congrArg (Option.map Prod.fst) hset
      obtain ⟨hset', -⟩ := reconfStep_settled h hc hset
      have hreq : (ndpChannelRingResize pageSize env { s with req }).1.req = req := (ringResize_spec hst env).1
      have hring := packed_iff hpage h hsize hok hacc (hc req hacc) hst rfl
      have hholds := hset'.ringOk_iff hpage (by rw [hreq, hbs]; exact hsize)
      rw [hreq] at hholds
      rw [← hholds] at hring
      constructor
      · intro hp s' hs'
        cases hnext.symm.trans hs'
        exact hring.1 (hp req hacc)
      · intro hp req' hacc'
        cases hacc.symm.trans hacc'
        exact hring.2 (hp _ hnext)
  | start =>
    refine iff_of_true trivial fun s' hs' => ?_
    cases hs'
    exact hok
  | stop =>
    refine iff_of_true trivial fun s' hs' => ?_
    cases hs'
    split
    · exact hok
    · exact hok

/-- From every new channel with blocks of less than 4 GiB: in a run all operations are atomic and every
attached ring holds its walk exactly if the first ring does and every write of the run is clean. -/
theorem reconf_atomic_iff (hpage : IsPageSize pageSize) {p : NdpParams} {env : CreateEnv} {s₀ : MpsChannel}
    (h : createChannel pageSize p env = some s₀) (hsize : s₀.req.reqBlockSize.toNat < 2 ^ 32) (l : List ReconfOp) :
    (MeetsM (reconfNext pageSize) (AtomicStep pageSize) s₀ l ∧
        ∀ l' s, l' <+: l → runM (reconfNext pageSize) s₀ l' = some s → RingOk pageSize s) ↔
      (s₀.ring ≠ none → Packable pageSize s₀.req.cfg) ∧ MeetsM (reconfNext pageSize) (CleanStep pageSize) s₀ l := by
  have h0 := createChannel_settled h
  have hstep : ∀ s op s', CleanStep pageSize s op → Settled pageSize s ∧ s.req.reqBlockSize = s₀.req.reqBlockSize →
      reconfNext pageSize s op = some s' → Settled pageSize s' ∧ s'.req.reqBlockSize = s₀.req.reqBlockSize := by
    rintro s op s' hc ⟨hs, hb⟩ hnext
    obtain ⟨x, hx, rfl⟩ := Option.map_eq_some_iff.1 hnext
    obtain ⟨h1, h2⟩ := reconfStep_settled hs hc.1 hx
    exact ⟨h1, h2.trans hb⟩
  have hiff := runM_safe_iff (P := RingOk pageSize) (A := AtomicStep pageSize)
    (fun s op hs hok => clean_iff hpage hs.1 (hs.2 ▸ hsize) hok op) hstep l s₀ ⟨h0, rfl⟩
  rw [← h0.ringOk_iff hpage hsize]
  constructor
  · intro hrun
    have hok := hrun.2 [] s₀ List.nil_prefix rfl
    exact ⟨hok, (hiff hok).1 hrun⟩
  · rintro ⟨hok, hm⟩
    exact (hiff hok).2 hm

/-- The channel that the default parameters give. -/
def defaultParams : NdpParams := ⟨0x400000, 0x400000, 4096, 64, 0⟩

def defaultChannel : MpsChannel :=
  ⟨⟨⟨1024, 4096, 2, 0x400000, 64⟩, 2, 0x400000⟩, ⟨1024, 4096, 2, 0x400000, 64⟩, some ⟨2, 0x400000⟩, 0, true⟩

def plenty : CreateEnv := ⟨true, 0, 0⟩

theorem default_stored :
    storeRequest 4096 ⟨⟨0, 0, 0, 0, 0⟩, 1, 0x400000⟩ 4096 1024 64 = some (defaultChannel.req, 0) := by decide +kernel

theorem default_stable : defaultChannel.req.Stable 4096 := storeRequest_stable default_stored rfl

theorem createChannel_default : createChannel 4096 defaultParams plenty = some defaultChannel := by
  have hreq : ringReqBlockUpdateBySize 4096 defaultParams.ringBlockSize ⟨⟨0, 0, 0, 0, 0⟩, 0, 0⟩ defaultParams.ringSize =
      (⟨⟨0, 0, 0, 0, 0⟩, 1, 0x400000⟩, 0) := by decide
  have hsizes : (if defaultParams.bufferSize = 0 then 4096 else defaultParams.bufferSize) = 4096 ∧
      defaultParams.ringSize / 4096 = 1024 ∧ (defaultParams.index + 1) * defaultParams.initialOffset = 64 := by decide
  unfold createChannel
  simp only [hreq, hsizes, default_stored, Option.map_some]
  rw [ringCreate_of_can (s := { req := defaultChannel.req, mpsCfg := ⟨0, 0, 0, 0, 0⟩, ring := none, startCount := 0, dev := true })
    default_stable ⟨by decide, rfl, by decide, by decide, rfl⟩]
  rfl

theorem default_half :
    acceptedRequest 4096 defaultChannel .bufferSize 2048 = some ⟨⟨1024, 2048, 1, 0x400000, 64⟩, 1, 0x400000⟩ := by
  decide +kernel

theorem default_twice :
    acceptedRequest 4096 defaultChannel .bufferSize 8192 = some ⟨⟨1024, 8192, 3, 0x400000, 64⟩, 3, 0x400000⟩ := by
  decide +kernel

theorem default_far :
    acceptedRequest 4096 defaultChannel .initialOffset 0x800000 = some ⟨⟨1024, 4096, 1, 0x400000, 0x800000⟩, 1, 0x400000⟩ := by
  decide +kernel

/-- Halving the buffers of the default channel, with enough memory. -/
theorem reconf_atomic_half :
    createChannel 4096 defaultParams plenty = some defaultChannel ∧
      MeetsM (reconfNext 4096) (AtomicStep 4096) defaultChannel [.set .bufferSize 2048 ⟨plenty, plenty⟩] ∧
      ∀ l' s, l' <+: [.set .bufferSize 2048 ⟨plenty, plenty⟩] → runM (reconfNext 4096) defaultChannel l' = some s →
        RingOk 4096 s := by
  refine ⟨createChannel_default, (reconf_atomic_iff ⟨12, le_rfl, rfl⟩ createChannel_default (by decide) _).2
    ⟨fun _ => .of_sizes (by decide) (by decide) (by decide) (by decide), ⟨fun req h => ?_, fun req h _ _ => ?_⟩, fun _ _ => trivial⟩⟩
  · cases default_half.symm.trans h
    exact Or.inr ⟨rfl, rfl, Or.inr ⟨by decide, rfl, by decide, by decide, rfl⟩⟩
  · cases default_half.symm.trans h
    exact .of_sizes (by decide) (by decide) (by decide) (by decide)

/-- A write on a started channel returns `-EBUSY` and leaves its request behind; and a write that gets no
memory for its ring brings the old one back under the new configuration, which walks over three blocks
where there are two. And a write that is carried through may ask for a first buffer behind the end of its block. -/
theorem reconf_not_atomic :
    createChannel 4096 defaultParams plenty = some defaultChannel ∧
      (∃ s s', runM (reconfNext 4096) defaultChannel [.start] = some s ∧
        reconfStep 4096 s (.set .bufferSize 2048 ⟨plenty, plenty⟩) = some (s', eBusy) ∧ s'.req ≠ s.req) ∧
      (∃ s', reconfStep 4096 defaultChannel (.set .bufferSize 8192 ⟨⟨false, 0, 0⟩, plenty⟩) = some (s', eNomem) ∧
        s'.req ≠ defaultChannel.req ∧ ¬ RingOk 4096 s') ∧
      ∃ s', reconfStep 4096 defaultChannel (.set .initialOffset 0x800000 ⟨plenty, plenty⟩) = some (s', 0) ∧ ¬ RingOk 4096 s' := by
  refine ⟨createChannel_default, ⟨{ defaultChannel with startCount := 1 },
    { defaultChannel with req := ⟨⟨1024, 2048, 1, 0x400000, 64⟩, 1, 0x400000⟩, startCount := 1 }, rfl, ?_, by decide⟩,
    ⟨{ defaultChannel with
        req := ⟨⟨1024, 8192, 3, 0x400000, 64⟩, 3, 0x400000⟩
        mpsCfg := ⟨1024, 8192, 3, 0x400000, 64⟩ }, ?_, by decide, fun h => ?_⟩,
    ⟨{ defaultChannel with
        req := ⟨⟨1024, 4096, 1, 0x400000, 0x800000⟩, 1, 0x400000⟩
        mpsCfg := ⟨1024, 4096, 1, 0x400000, 0x800000⟩
        ring := some ⟨1, 0x400000⟩ }, ?_, fun h => ?_⟩⟩
  · have hacc : acceptedRequest 4096 { defaultChannel with startCount := 1 } .bufferSize 2048 =
        some ⟨⟨1024, 2048, 1, 0x400000, 64⟩, 1, 0x400000⟩ := default_half
    exact (ndpCtrlSet_accepted ⟨plenty, plenty⟩ hacc default_stable).1
  · obtain ⟨hset, hst, _⟩ := ndpCtrlSet_accepted ⟨⟨false, 0, 0⟩, plenty⟩ default_twice default_stable
    have hold := @ringCreate_of_can 4096 plenty { defaultChannel with
      req := ⟨⟨1024, 8192, 3, 0x400000, 64⟩, 3, 0x400000⟩, ring := none } 2 0x400000 hst ⟨by decide, rfl, by decide, by decide, rfl⟩
    refine hset.trans (congrArg some ?_)
    show ((ndpChannelRingCreate 4096 plenty { defaultChannel with
      req := ⟨⟨1024, 8192, 3, 0x400000, 64⟩, 3, 0x400000⟩, ring := none } true 2 0x400000).1, eNomem) = _
    rw [hold]
    rfl
  · exact absurd (h ⟨2, 0x400000⟩ rfl).count (by decide)
  · obtain ⟨hset, hst, _⟩ := ndpCtrlSet_accepted ⟨plenty, plenty⟩ default_far default_stable
    exact hset.trans (congrArg some (ringResize_of_can hst rfl rfl ⟨by decide, rfl, by decide, by decide, rfl⟩))
  · exact absurd ((h ⟨1, 0x400000⟩ rfl).inside 0) (by decide)

end NdkSw.Medusa

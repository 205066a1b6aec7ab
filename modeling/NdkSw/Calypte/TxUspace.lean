/-
The library's own TX sync of a Calypte queue in userspace mode (`_ndp_queue_tx_sync_v3_us`), beside the
driver's: every sync of the queue is also made, for the same headers put to the hardware and the same
progress of the hardware, by the library's code over `ndp_channel_txsync`, and the two are compared.
-/
import NdkSw.Calypte.Tx
import NdkSw.Ring.Run

namespace NdkSw.Calypte

open Ndp Ring

/-! ## The library's sync -/

/-- The update buffer, which the hardware writes. -/
structure UpdateBuff where
  hdp : U32
  hhp : U32
  deriving DecidableEq, Repr

/-- The bytes that the header in item `x` takes in the data ring. -/
def TxWorld.space {W : Type} (t : TxWorld W) (x : Int) : U32 := frameLenCeil ((t.hdr x).frameLen.setWidth 32)

/-- The first `n` rounds of the loop of `_ndp_queue_tx_sync_v3_us`, on `uspace_free` and `sdp`. -/
def uspaceRounds {W : Type} (t : TxWorld W) (us : Uspace) : Nat → U32 × U32
  | 0 => (us.free, us.sdp)
  | n + 1 =>
    let (free, sdp) := uspaceRounds t us n
    let frameSpace := t.space (us.shp.toNat + n)
    (free - frameSpace, sdp + frameSpace)

/-- The first part of `_ndp_queue_tx_sync_v3_us`: account for the headers up to `newHwptr`. -/
def uspacePublish {W : Type} (t : TxWorld W) (us : Uspace) (newHwptr : U32) : Uspace :=
  let count := (newHwptr - us.shp) &&& us.mhp
  let (free, sdp) := uspaceRounds t us count.toNat
  let us := { us with free }
  if count ≠ 0 then
    let acc := us.acc + count
    { us with sdp := sdp &&& us.mdp, shp := newHwptr, acc := if acc ≥ 32 then 0 else acc }
  else us

/-- If the second part looks into the update buffer. -/
def Uspace.Looks (us : Uspace) : Prop := (us.hhp - us.shp - 1) &&& us.mhp < 512 ∨ us.free ≤ 4096

instance (us : Uspace) : Decidable us.Looks := inferInstanceAs (Decidable (_ ∨ _))

/-- The second part: the progress of the hardware. -/
def uspaceUpdate (upd : UpdateBuff) (us : Uspace) : Uspace :=
  if us.Looks then
    { us with hdp := upd.hdp, hhp := upd.hhp, free := us.free + ((upd.hdp - us.hdp) &&& us.mdp) }
  else us

/-- `_ndp_queue_tx_sync_v3_us`. -/
def ndpQueueTxSyncV3Us {W : Type} (t : TxWorld W) (upd : UpdateBuff) (q : QueueV3Tx) : QueueV3Tx :=
  let us := uspaceUpdate upd (uspacePublish t q.us (q.sync.hwptr.setWidth 32))
  let chlen := (us.hhp - us.shp - 1) &&& us.mhp
  let len : U32 := ((q.sync.swptr - q.sync.hwptr) &&& us.mhp.setWidth 64).setWidth 32
  let len := umin len chlen
  { q with
    us
    sync := { hwptr := us.hhp.setWidth 64
              swptr := (us.hhp.setWidth 64 + len.setWidth 64) &&& us.mhp.setWidth 64
              size := us.free.setWidth 64 } }

/-! ## Both syncs on the same history -/

/-- How far the hardware comes until a sync: more headers and more bytes done. -/
structure HwMove where
  hdrs : Nat
  bytes : Nat
  deriving DecidableEq, Repr

/-- A sync, made by the library and by the driver: the queue behind the one, what the other has returned,
the headers the library took for newly published, and those put to the hardware since the sync before. -/
structure SyncRec where
  kind : SyncKind
  us : QueueV3Tx
  kernel : SubscriptionSync
  counted : Nat
  put : Nat

/-- The world of a queue in userspace mode: what the hardware has done and will do until the next syncs, the
headers put before the last sync, the driver's channel with the pointers of its subscription, and the
syncs so far. -/
structure UsWorld where
  hwHdrs : Nat
  hwBytes : Nat
  moves : List HwMove
  published : Nat
  ch : Channel CalypteTxCtrl
  ksync : SubscriptionSync
  recs : List SyncRec

/-- The bytes that the headers `l` take in the data ring. -/
def sentBytes (l : List (U32 × V3PacketHdr)) : Nat := (l.map fun h => (frameLenCeil (h.2.frameLen.setWidth 32)).toNat).sum

/-- The hardware comes further, but not beyond what was put to it. -/
def hwAdvance (t : TxWorld UsWorld) : TxWorld UsWorld :=
  let m := t.w.moves.headD ⟨0, 0⟩
  { t with w := { t.w with
      hwHdrs := min (t.w.hwHdrs + m.hdrs) t.sent.length
      hwBytes := min (t.w.hwBytes + m.bytes) (sentBytes t.sent)
      moves := t.w.moves.tail } }

/-- What the hardware shows in the update buffer. -/
def hwShows (t : TxWorld UsWorld) (us : Uspace) : UpdateBuff where
  hdp := BitVec.ofNat 32 t.w.hwBytes &&& us.mdp
  hhp := BitVec.ofNat 32 t.w.hwHdrs &&& us.mhp

/-- The pointers that the library passes to the driver when as many headers were put. -/
def driverRequest (kind : SyncKind) (mask : U64) (put : Nat) (sync : SubscriptionSync) : SubscriptionSync :=
  let shp : U64 := BitVec.ofNat 64 put &&& mask
  match kind with
  | .lock _ => { sync with swptr := (sync.hwptr - 1) &&& mask }
  | .space => { sync with hwptr := shp }
  | .flush => { sync with hwptr := shp, swptr := (shp + 64) &&& mask }

/-- The driver's end of the sync. -/
def driverSync (kind : SyncKind) (t : TxWorld UsWorld) (us : Uspace) : Channel CalypteTxCtrl × SubscriptionSync :=
  let upd := hwShows t us
  let ch := { t.w.ch with ctrl := { t.w.ch.ctrl with ts := { t.w.ch.ctrl.ts with hdr := t.mem } } }
  match ndpSubscriptionSync calypteTxOps .tx { hwStill with hdp := upd.hdp, hhp := upd.hhp } ch 0
    (driverRequest kind ch.ptrmask t.sent.length t.w.ksync) with
  | (ch, sync, _) => (ch, sync)

/-- The library's sync, with the driver's beside it. -/
def usCall : SyncCall UsWorld := fun kind t q =>
  let t := hwAdvance t
  let q' := ndpQueueTxSyncV3Us t (hwShows t q.us) q
  let k := driverSync kind t q.us
  let r : SyncRec :=
    { kind, us := q', kernel := k.2
      counted := ((q.sync.hwptr.setWidth 32 - q.us.shp) &&& q.us.mhp).toNat
      put := t.sent.length - t.w.published }
  ({ t with w := { t.w with published := t.sent.length, ch := k.1, ksync := k.2, recs := t.w.recs ++ [r] } }, q', 0)

/-- The library's code behind the sync, had it returned `sync`. -/
def SyncRec.after (r : SyncRec) (sync : SubscriptionSync) : QueueV3Tx :=
  match r.kind with
  | .lock lockValid => lockTail lockValid { r.us with sync }
  | .space => spaceTail { r.us with sync }
  | .flush => flushTail { r.us with sync }

/-- The two agree: the library counted what was put, and its code gets at most as many bytes as with the
driver's answer and, outside of a put, the driver's position and at most as many headers. -/
def SyncRec.Agrees (r : SyncRec) : Prop :=
  r.counted = r.put ∧ (r.after r.us.sync).bytesAvailable ≤ (r.after r.kernel).bytesAvailable ∧
    (r.kind ≠ .space → (r.after r.us.sync).shp.setWidth 64 = r.kernel.hwptr ∧
      (r.after r.us.sync).pktsAvailable ≤ (r.after r.kernel).pktsAvailable)

instance (r : SyncRec) : Decidable r.Agrees := inferInstanceAs (Decidable (_ ∧ _ ∧ (_ → _ ∧ _)))

/-! ## Runs -/

/-- A call of the application, with the progress of the hardware until its syncs, and how often it may ask for
space. -/
inductive UsOp where
  | get (packets : Nat → NdpPacket) (count : U32) (moves : List HwMove)
  | put (fuel : Nat) (moves : List HwMove)
  | flush (fuel : Nat) (moves : List HwMove)

structure UsState where
  t : TxWorld UsWorld
  q : QueueV3Tx

def UsState.withMoves (s : UsState) (moves : List HwMove) : TxWorld UsWorld := { s.t with w := { s.t.w with moves } }

def usStep (s : UsState) : UsOp → Option UsState
  | .get packets count moves =>
    match ncNdpV3TxBurstGet usCall (s.withMoves moves) s.q packets count with
    | (t, q, _) => some ⟨t, q⟩
  | .put fuel moves => (ncNdpV3TxBurstPut usCall fuel (s.withMoves moves) s.q).map fun (t, q, _) => ⟨t, q⟩
  | .flush fuel moves => (ncNdpV3TxBurstFlush usCall fuel (s.withMoves moves) s.q).map fun (t, q, _) => ⟨t, q⟩

/-- What a queue finds: the masks of its rings, the limits of the frame size, and the header buffer. -/
structure TxParams where
  mhp : U32
  mdp : U32
  frameSizeMin : U32
  frameSizeMax : U32
  mem : Nat → V3PacketHdr

/-- A channel that one subscription has opened, and started. -/
def startedChannel (p : TxParams) : Channel CalypteTxCtrl :=
  (ndpSubscriptionStart calypteTxOps .tx
    { hwStill with start₁ := { lock := 0, running := false, mdp := p.mdp, mhp := p.mhp } }
    { lockedSub := none, hwptr := 0, swptr := 0, ptrmask := p.mhp.setWidth 64, startCount := 0, listSubscriptions := []
      sub := fun _ => { status := .subscribed, hwptr := 0, swptr := 0 }
      ctrl := { type := .calypte
                c := { lastUpperAddr := 0, mdp := p.mdp, mhp := p.mhp, sdp := 0, hdp := 0, shp := 0, hhp := 0 }
                flags := 0
                ts := { freeBytes := 0, hdrItems := 2 * (p.mhp.toNat + 1), hdr := p.mem } } } 0
    { size := 0, hwptr := 0, swptr := 0 }).1

/-- The queue that opened it in userspace mode: `nc_ndp_v3_open_queue` and `nc_ndp_queue_start`. -/
def startedQueue (p : TxParams) : QueueV3Tx where
  userspace := true
  frameSizeMin := p.frameSizeMin
  frameSizeMax := p.frameSizeMax
  sync := { size := 0, hwptr := 0, swptr := 0 }
  pktsAvailable := 0
  pktsToSend := 0
  bytesAvailable := 0
  sdp := 0
  shp := 0
  dataPtrMask := p.mdp
  hdrPtrMask := p.mhp
  hdrs := 0
  txPkts _ := 0
  txPktsCnt := 256
  us := { shp := 0, hhp := 0, sdp := 0, hdp := 0, mhp := p.mhp, mdp := p.mdp, free := p.mdp + 1 - ndpTxCalypteBlockSize, acc := 0 }

def usStart (p : TxParams) : UsState where
  t := { items := 2 * (p.mhp.toNat + 1), mem := p.mem, sent := []
         w := { hwHdrs := 0, hwBytes := 0, moves := [], published := 0, ch := startedChannel p
                ksync := { size := 0, hwptr := 0, swptr := 0 }, recs := [] } }
  q := startedQueue p

end NdkSw.Calypte

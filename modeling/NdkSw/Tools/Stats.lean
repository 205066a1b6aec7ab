/-
The statistics of ndptool (`tools/ndptool/stats.c`, `main.c`): each thread counts for itself and now and then publishes what it has
counted under a lock; `update_stats_loop_thread` collects what is published, and `main` what is left at the end.
-/
import Mathlib.Data.BitVec
import NdkSw.Ndp.Channel
import NdkSw.Ring.Run
import NdkSw.Shared.Stock

namespace NdkSw.Tools

open Ndp

/-! ## Counters -/

/-- The counters of `struct stats_info`. -/
structure StatsInfo where
  packetCnt : U64
  bytesCnt : U64
  lastPacketCnt : U64
  lastBytesCnt : U64
  lastUpdate : U64
  threadPacketCnt : U64
  threadBytesCnt : U64
  threadTotalBytesCnt : U64
  incremental : Bool
  deriving DecidableEq, Repr

def StatsInfo.init (incremental : Bool) : StatsInfo := ⟨0, 0, 0, 0, 0, 0, 0, 0, incremental⟩

/-- `clear_stats_info`; the times and the latency are left out. -/
def clearStatsInfo (si : StatsInfo) : StatsInfo :=
  if si.incremental then si else { si with packetCnt := 0, bytesCnt := 0 }

/-- `gather_stats_info`: the new values of both records. -/
def gatherStatsInfo (si thread : StatsInfo) : StatsInfo × StatsInfo :=
  ({ si with packetCnt := si.packetCnt + thread.threadPacketCnt, bytesCnt := si.bytesCnt + thread.threadBytesCnt },
    if si.incremental then thread else { thread with threadPacketCnt := 0, threadBytesCnt := 0 })

/-- One turn of the loop in `update_print_progress`, for a packet with this `data_length`. -/
def StatsInfo.addPacket (si : StatsInfo) (len : U32) : StatsInfo :=
  { si with
    bytesCnt := si.bytesCnt + len.setWidth 64
    threadTotalBytesCnt := si.threadTotalBytesCnt + len.setWidth 64 }

/-- `update_print_progress` for a burst of packets with these lengths; what it prints is left out. -/
def updatePrintProgress (lens : List U32) (si : StatsInfo) : StatsInfo :=
  lens.foldl StatsInfo.addPacket { si with packetCnt := si.packetCnt + BitVec.ofNat 64 lens.length }

/-- `update_stats`: the record behind it, and what is printed if statistics were asked for. -/
def updateStats (stats : Bool) (lens : List U32) (si : StatsInfo) : StatsInfo × Option (U64 × U64) :=
  let si := updatePrintProgress lens si
  if stats then (clearStatsInfo si, some (si.packetCnt, si.bytesCnt)) else (si, none)

/-- `update_stats_thread` before the lock. -/
def StatsInfo.count (si : StatsInfo) (lens : List U32) : StatsInfo :=
  let si := updatePrintProgress lens si
  { si with lastUpdate := si.lastUpdate + BitVec.ofNat 64 lens.length }

/-- Whether `update_stats_thread` goes on to publish. -/
def StatsInfo.IsDue (si : StatsInfo) (lens : List U32) : Prop := 100000 < si.lastUpdate.toNat ∨ lens.length = 0

instance (si : StatsInfo) (lens : List U32) : Decidable (si.IsDue lens) := inferInstanceAs (Decidable (_ ∨ _))

/-- `update_stats_thread` under the lock. -/
def StatsInfo.publish (si : StatsInfo) : StatsInfo :=
  { si with
    threadPacketCnt := si.threadPacketCnt + (si.packetCnt - si.lastPacketCnt)
    threadBytesCnt := si.threadBytesCnt + (si.bytesCnt - si.lastBytesCnt) }

/-- `update_stats_thread` behind the lock. -/
def StatsInfo.remember (si : StatsInfo) : StatsInfo :=
  { si with lastPacketCnt := si.packetCnt, lastBytesCnt := si.bytesCnt, lastUpdate := 0 }

/-- `update_stats_thread`, where nothing comes in between. -/
def updateStatsThread (lens : List U32) (si : StatsInfo) : StatsInfo :=
  let si := si.count lens
  if si.IsDue lens then si.publish.remember else si

/-! ## Threads -/

/-- `enum thread_state`. -/
inductive ThreadState where
  | init
  | running
  | finished
  deriving DecidableEq, Repr

/-- Where a thread is in `update_stats_thread`: not in it, before the lock, or behind it. -/
inductive UpdatePhase where
  | idle
  | due
  | published
  deriving DecidableEq, Repr

/-- A thread; `closing` from its last call on. What it has processed and what of it it has published, packets and bytes, is
recorded beside. -/
structure Worker where
  state : ThreadState
  si : StatsInfo
  phase : UpdatePhase
  closing : Bool
  processed : Nat × Nat
  published : Nat × Nat

def Worker.init (incremental : Bool) : Worker := ⟨.init, .init incremental, .idle, false, 0, 0⟩

/-- Packets and bytes of a burst. -/
def burstAmount (lens : List U32) : Nat × Nat := (lens.length, (lens.map BitVec.toNat).sum)

def Worker.count (w : Worker) (lens : List U32) : Worker :=
  let si := w.si.count lens
  { w with si := si, phase := if si.IsDue lens then .due else .idle, processed := w.processed + burstAmount lens }

def Worker.publish (w : Worker) : Worker :=
  { w with si := w.si.publish, phase := .published, published := w.processed }

def Worker.remember (w : Worker) : Worker :=
  { w with si := w.si.remember, phase := .idle }

/-- The published counters of a thread. -/
def StatsInfo.shared (si : StatsInfo) : U64 × U64 := (si.threadPacketCnt, si.threadBytesCnt)

def StatsInfo.counts (si : StatsInfo) : U64 × U64 := (si.packetCnt, si.bytesCnt)

/-! ## The threads and the main thread -/

/-- Where the main thread is: between two requests, before thread `k` of a request, at the lock of a thread it saw running, before
the join of thread `k`, or at the end. -/
inductive MainPos (n : Nat) where
  | idle
  | visiting (k : Nat)
  | locked (i : Fin n)
  | joining (k : Nat)
  | done
  deriving DecidableEq

/-- What a request or a tick has printed, and what the threads had published as they were looked at. -/
structure StatsReport where
  value : U64 × U64
  seen : Nat × Nat

/-- All threads and the main thread with its `si`; `tick` holds `pkts` and `bytes`, and `seen` what the threads that this request has
looked at had published. -/
structure StatsSys (n : Nat) where
  interval : Int
  workers : Fin n → Worker
  si : StatsInfo
  pos : MainPos n
  tick : U64 × U64
  seen : Nat × Nat
  reports : List StatsReport
  final : Option (U64 × U64)

def StatsSys.init (n : Nat) (interval : Int) (incremental : Bool) : StatsSys n where
  interval := interval
  workers := fun _ => .init incremental
  si := .init incremental
  pos := .idle
  tick := 0
  seen := 0
  reports := []
  final := none

inductive StatsAct (n : Nat) where
  | prepare (i : Fin n) (ok : Bool)
  | count (i : Fin n) (lens : List U32)
  | close (i : Fin n)
  | publish (i : Fin n)
  | remember (i : Fin n)
  | finish (i : Fin n)
  | request
  | look
  | visit
  | print
  | leave
  | join
  | finalPrint

section

variable {n : Nat}

def StatsSys.setWorker (s : StatsSys n) (i : Fin n) (w : Worker) : StatsSys n :=
  { s with workers := Function.update s.workers i w }

/-- The locked section of `update_stats_loop_thread`: the main record, `pkts` and `bytes`, and the record of the thread. -/
def visitThread (interval : Int) (si : StatsInfo) (tick : U64 × U64) (thread : StatsInfo) : StatsInfo × (U64 × U64) × StatsInfo :=
  if interval = 0 then
    let gathered := gatherStatsInfo si thread
    (gathered.1, tick, clearStatsInfo gathered.2)
  else if si.incremental then (si, tick + thread.shared, thread)
  else
    ({ si with packetCnt := si.packetCnt + thread.threadPacketCnt, bytesCnt := si.bytesCnt + thread.threadBytesCnt },
      tick + thread.shared, { thread with threadPacketCnt := 0, threadBytesCnt := 0 })

/-- One step of a thread: it prepares itself, processes a burst, makes its last call, publishes, remembers what it has published, or
ends. The burst is counted in an `int`. -/
def workerStep (w : Worker) : StatsAct n → Worker
  | .prepare _ ok => if w.state = .init then { w with state := if ok then .running else .finished } else w
  | .count _ lens =>
    if w.state = .running ∧ w.phase = .idle ∧ w.closing = false ∧ lens.length < 2 ^ 31 then w.count lens else w
  | .close _ =>
    if w.state = .running ∧ w.phase = .idle ∧ w.closing = false then { w.count [] with closing := true } else w
  | .publish _ => if w.phase = .due then w.publish else w
  | .remember _ => if w.phase = .published then w.remember else w
  | .finish _ => if w.state = .running ∧ w.phase = .idle ∧ w.closing = true then { w with state := .finished } else w
  | _ => w

/-- One step of the main thread: `update_stats_loop_thread` takes up a request or a tick, looks at the next thread, visits it, prints,
or returns; then `main` joins the threads and prints at the end. -/
def mainStep (s : StatsSys n) : StatsAct n → StatsSys n
  | .request => if s.pos = .idle then { s with pos := .visiting 0, tick := 0, seen := 0 } else s
  | .look =>
    match s.pos with
    | .visiting k =>
      if h : k < n then
        let w := s.workers ⟨k, h⟩
        if w.state = .running then { s with pos := .locked ⟨k, h⟩ }
        else { s with pos := .visiting (k + 1), seen := s.seen + w.published }
      else s
    | _ => s
  | .visit =>
    match s.pos with
    | .locked i =>
      let w := s.workers i
      let r := visitThread s.interval s.si s.tick w.si
      { s.setWorker i { w with si := r.2.2 } with
        si := r.1, tick := r.2.1, pos := .visiting (i + 1), seen := s.seen + w.published }
    | _ => s
  | .print =>
    match s.pos with
    | .visiting k =>
      if k < n then s
      else if s.interval = 0 then
        { s with pos := .idle, reports := s.reports ++ [⟨s.si.counts, s.seen⟩], si := clearStatsInfo s.si }
      else { s with pos := .idle, reports := s.reports ++ [⟨s.tick, s.seen⟩] }
    | _ => s
  | .leave => if s.pos = .idle then { s with pos := .joining 0 } else s
  | .join =>
    match s.pos with
    | .joining k =>
      if h : k < n then
        let w := s.workers ⟨k, h⟩
        if w.state = .finished then
          let gathered := gatherStatsInfo s.si w.si
          { s.setWorker ⟨k, h⟩ { w with si := gathered.2 } with si := gathered.1, pos := .joining (k + 1) }
        else s
      else s
    | _ => s
  | .finalPrint =>
    match s.pos with
    | .joining k => if k < n then s else { s with pos := .done, final := some s.si.counts }
    | _ => s
  | _ => s

def statsStep (s : StatsSys n) (a : StatsAct n) : StatsSys n :=
  match a with
  | .prepare i _ | .count i _ | .close i | .publish i | .remember i | .finish i => s.setWorker i (workerStep (s.workers i) a)
  | _ => mainStep s a

end

end NdkSw.Tools

/-
Runs of the statistics of ndptool: what the counters hold after any interleaving of the threads with the requests, as long as a request
finds no counter that it would clear or add a second time.
-/
import NdkSw.Tools.Stats

namespace NdkSw.Tools

open Ndp Ring Shared

/-! ## Amounts and counters -/

/-- The counters that hold an amount. -/
def counters (m : Nat × Nat) : U64 × U64 := (BitVec.ofNat 64 m.1, BitVec.ofNat 64 m.2)

@[simp] theorem counters_zero : counters 0 = 0 := rfl

@[simp] theorem counters_add (a b : Nat × Nat) : counters (a + b) = counters a + counters b :=
  Prod.ext (BitVec.ofNat_add ..) (BitVec.ofNat_add ..)

theorem add_counters_zero (c : U64 × U64) : c + counters 0 = c :=
  Prod.ext (BitVec.add_zero _) (BitVec.add_zero _)

theorem burstAmount_le (lens : List U32) : (burstAmount lens).2 ≤ (burstAmount lens).1 * (2 ^ 32 - 1) := by
  rw [burstAmount]
  induction lens with
  | nil => exact Nat.zero_le _
  | cons len lens ih =>
    have hlen := len.isLt
    simp only [List.map_cons, List.sum_cons, List.length_cons] at ih ⊢
    omega

/-! ## What the functions do with the counters -/

theorem foldl_addPacket (lens : List U32) : ∀ si : StatsInfo, lens.foldl StatsInfo.addPacket si =
    { si with
      bytesCnt := si.bytesCnt + BitVec.ofNat 64 (burstAmount lens).2
      threadTotalBytesCnt := si.threadTotalBytesCnt + BitVec.ofNat 64 (burstAmount lens).2 } := by
  induction lens with
  | nil =>
    intro si
    simp [burstAmount]
  | cons len lens ih =>
    intro si
    have hlen : len.setWidth 64 = BitVec.ofNat 64 len.toNat := (BitVec.ofNat_toNat ..).symm
    have hsum : (burstAmount (len :: lens)).2 = len.toNat + (burstAmount lens).2 := by simp [burstAmount]
    rw [List.foldl_cons, ih, hsum, BitVec.ofNat_add, StatsInfo.addPacket, hlen]
    simp only [BitVec.add_assoc]

theorem updatePrintProgress_eq (lens : List U32) (si : StatsInfo) : updatePrintProgress lens si =
    { si with
      packetCnt := si.packetCnt + BitVec.ofNat 64 (burstAmount lens).1
      bytesCnt := si.bytesCnt + BitVec.ofNat 64 (burstAmount lens).2
      threadTotalBytesCnt := si.threadTotalBytesCnt + BitVec.ofNat 64 (burstAmount lens).2 } := by
  rw [updatePrintProgress, foldl_addPacket]
  rfl

theorem counter_sub (x y z : U64) : x + y - z = x - z + y := by bv_omega

theorem clearStatsInfo_incremental (si : StatsInfo) : (clearStatsInfo si).incremental = si.incremental := by
  rw [clearStatsInfo]
  split <;> rfl

/-! ## A thread -/

/-- What is processed and not yet published stands in the differences of the counters. -/
structure Worker.Pending (w : Worker) (b : Nat × Nat) : Prop where
  processed : w.processed = w.published + b
  packets : w.si.packetCnt - w.si.lastPacketCnt = BitVec.ofNat 64 b.1
  bytes : w.si.bytesCnt - w.si.lastBytesCnt = BitVec.ofNat 64 b.2
  update : w.si.lastUpdate = BitVec.ofNat 64 b.1
  bytesLe : b.2 ≤ b.1 * (2 ^ 32 - 1)
  packetsLe : b.1 ≤ if w.phase = .due then 100000 + 2 ^ 31 else 100000

structure Worker.Ok (w : Worker) : Prop where
  pending : w.state ≠ .finished → w.phase ≠ .published → ∃ b, w.Pending b
  published : w.phase = .published → w.published = w.processed
  init : w.state = .init → w.phase = .idle ∧ w.published = w.processed
  closing : w.closing = true → w.phase = .idle → w.published = w.processed
  finished : w.state = .finished → w.phase = .idle ∧ w.published = w.processed

theorem Worker.init_ok (incremental : Bool) : (Worker.init incremental).Ok where
  pending _ _ := ⟨0, rfl, BitVec.sub_self (0 : U64), BitVec.sub_self (0 : U64), rfl, Nat.zero_le _, Nat.zero_le _⟩
  published h := nomatch h
  init _ := ⟨rfl, rfl⟩
  closing h := nomatch h
  finished h := nomatch h

variable {w : Worker} {b : Nat × Nat}

theorem Worker.Pending.lt (h : w.Pending b) : b.1 < 2 ^ 64 ∧ b.2 < 2 ^ 64 := by
  have hp := h.packetsLe
  have hb := h.bytesLe
  split at hp <;> omega

theorem Worker.Pending.difference (h : w.Pending b) :
    ((w.si.packetCnt - w.si.lastPacketCnt).toNat, (w.si.bytesCnt - w.si.lastBytesCnt).toNat) = b := by
  obtain ⟨h1, h2⟩ := h.lt
  rw [h.packets, h.bytes, BitVec.toNat_ofNat, BitVec.toNat_ofNat, Nat.mod_eq_of_lt h1, Nat.mod_eq_of_lt h2]

theorem Worker.Ok.count (h : w.Ok) {lens : List U32} (hrun : w.state = .running) (hidle : w.phase = .idle) (hcl : w.closing = false)
    (hlen : lens.length < 2 ^ 31) : (w.count lens).Ok := by
  obtain ⟨b, hb⟩ := h.pending (by rw [hrun]; decide) (by rw [hidle]; decide)
  have hle : b.1 ≤ 100000 := by
    have := hb.packetsLe
    rwa [if_neg (by rw [hidle]; decide)] at this
  have hsi : w.si.count lens =
      { w.si with
        packetCnt := w.si.packetCnt + BitVec.ofNat 64 (burstAmount lens).1
        bytesCnt := w.si.bytesCnt + BitVec.ofNat 64 (burstAmount lens).2
        threadTotalBytesCnt := w.si.threadTotalBytesCnt + BitVec.ofNat 64 (burstAmount lens).2
        lastUpdate := w.si.lastUpdate + BitVec.ofNat 64 lens.length } := by
    rw [StatsInfo.count, updatePrintProgress_eq]
  have hupdate : (w.si.count lens).lastUpdate = BitVec.ofNat 64 (b.1 + (burstAmount lens).1) := by
    rw [hsi, BitVec.ofNat_add, ← hb.update]
    rfl
  have hfst : (burstAmount lens).1 = lens.length := rfl
  have hpending : (w.count lens).Pending (b + burstAmount lens) := by
    constructor
    case processed =>
      show w.processed + burstAmount lens = w.published + (b + burstAmount lens)
      rw [hb.processed, add_assoc]
    case packets =>
      show (w.si.count lens).packetCnt - (w.si.count lens).lastPacketCnt = BitVec.ofNat 64 (b.1 + (burstAmount lens).1)
      rw [hsi, BitVec.ofNat_add, ← hb.packets]
      exact counter_sub ..
    case bytes =>
      show (w.si.count lens).bytesCnt - (w.si.count lens).lastBytesCnt = BitVec.ofNat 64 (b.2 + (burstAmount lens).2)
      rw [hsi, BitVec.ofNat_add, ← hb.bytes]
      exact counter_sub ..
    case update => exact hupdate
    case bytesLe =>
      have h1 := hb.bytesLe
      have h2 := burstAmount_le lens
      show b.2 + (burstAmount lens).2 ≤ (b.1 + (burstAmount lens).1) * (2 ^ 32 - 1)
      omega
    case packetsLe =>
      show b.1 + (burstAmount lens).1 ≤ if (if (w.si.count lens).IsDue lens then UpdatePhase.due else .idle) = .due then _ else _
      by_cases hdue : (w.si.count lens).IsDue lens
      · rw [if_pos hdue, if_pos rfl]
        omega
      · rw [if_neg hdue, if_neg (by decide)]
        have hnot : ¬ 100000 < (w.si.count lens).lastUpdate.toNat := fun hlt => hdue (.inl hlt)
        rw [hupdate, BitVec.toNat_ofNat, Nat.mod_eq_of_lt (by omega)] at hnot
        omega
  have hphase : (w.count lens).phase ≠ .published := by
    show (if (w.si.count lens).IsDue lens then UpdatePhase.due else .idle) ≠ .published
    split <;> decide
  refine ⟨fun _ _ => ⟨_, hpending⟩, fun hp => absurd hp hphase, fun hi => ?_, fun hc => ?_, fun hf => ?_⟩
  · rw [show (w.count lens).state = w.state from rfl, hrun] at hi
    cases hi
  · rw [show (w.count lens).closing = w.closing from rfl, hcl] at hc
    cases hc
  · rw [show (w.count lens).state = w.state from rfl, hrun] at hf
    cases hf

theorem Worker.Ok.due_state (h : w.Ok) (hdue : w.phase = .due) : w.state = .running ∧ ∃ b, w.Pending b := by
  have hstate : w.state = .running := by
    cases hs : w.state with
    | init => exact absurd ((h.init hs).1.symm.trans hdue) (by decide)
    | running => rfl
    | finished => exact absurd ((h.finished hs).1.symm.trans hdue) (by decide)
  exact ⟨hstate, h.pending (by rw [hstate]; decide) (by rw [hdue]; decide)⟩

theorem Worker.Ok.publish (h : w.Ok) (hdue : w.phase = .due) : w.publish.Ok := by
  obtain ⟨hstate, -⟩ := h.due_state hdue
  refine ⟨fun _ hp => absurd rfl hp, fun _ => rfl, fun hi => ?_, fun _ _ => rfl, fun hf => ?_⟩
  · exact absurd (hstate.symm.trans hi) (by decide)
  · exact absurd (hstate.symm.trans hf) (by decide)

theorem Worker.Ok.remember (h : w.Ok) (hphase : w.phase = .published) : w.remember.Ok := by
  have hpub : w.published = w.processed := h.published hphase
  refine ⟨fun _ _ => ⟨0, ?_, ?_, ?_, rfl, Nat.zero_le _, Nat.zero_le _⟩, fun _ => hpub, fun _ => ⟨rfl, hpub⟩,
    fun _ _ => hpub, fun _ => ⟨rfl, hpub⟩⟩
  · exact hpub.symm
  · exact BitVec.sub_self w.si.packetCnt
  · exact BitVec.sub_self w.si.bytesCnt

theorem Worker.Ok.setSi (h : w.Ok) (si : StatsInfo)
    (hsi : w.phase = .published ∨ w.state = .finished ∨ (si.packetCnt = w.si.packetCnt ∧ si.bytesCnt = w.si.bytesCnt ∧ si.lastPacketCnt = w.si.lastPacketCnt ∧ si.lastBytesCnt = w.si.lastBytesCnt ∧ si.lastUpdate = w.si.lastUpdate)) :
    ({ w with si := si } : Worker).Ok := by
  refine ⟨fun hf hp => ?_, h.published, h.init, h.closing, h.finished⟩
  rcases hsi with hp' | hf' | ⟨h1, h2, h3, h4, h5⟩
  · exact absurd hp' hp
  · exact absurd hf' hf
  · obtain ⟨b, hb⟩ := h.pending hf hp
    refine ⟨b, hb.processed, ?_, ?_, ?_, hb.bytesLe, hb.packetsLe⟩
    · show si.packetCnt - si.lastPacketCnt = _
      rw [h1, h3, hb.packets]
    · show si.bytesCnt - si.lastBytesCnt = _
      rw [h2, h4, hb.bytes]
    · exact h5.trans hb.update

/-- What a step of a thread can do: publish an amount, and add it to the counters under the lock. -/
structure Worker.Moved (w w' : Worker) (b : Nat × Nat) : Prop where
  ok : w'.Ok
  incremental : w'.si.incremental = w.si.incremental
  finished : w.state = .finished → w' = w
  init : w.state ≠ .init → w'.state ≠ .init
  published : w'.published = w.published + b
  shared : w'.si.shared = w.si.shared + counters b

theorem Worker.Moved.refl (h : w.Ok) : w.Moved w 0 := ⟨h, rfl, fun _ => rfl, id, rfl, (add_counters_zero _).symm⟩

theorem count_shared (si : StatsInfo) (lens : List U32) : (si.count lens).shared = si.shared := by
  rw [StatsInfo.count, updatePrintProgress_eq]
  rfl

theorem count_incremental (si : StatsInfo) (lens : List U32) : (si.count lens).incremental = si.incremental := by
  rw [StatsInfo.count, updatePrintProgress_eq]

theorem workerStep_moved {n : Nat} (h : w.Ok) (a : StatsAct n) : ∃ b, w.Moved (workerStep w a) b := by
  cases a with
  | prepare i ok =>
    rw [workerStep]
    split
    case isFalse => exact ⟨0, .refl h⟩
    case isTrue hinit =>
      obtain ⟨hidle, hpub⟩ := h.init hinit
      have hpending := h.pending (by rw [hinit]; decide) (by rw [hidle]; decide)
      obtain ⟨b, hb⟩ := hpending
      have hok : ∀ st, ({ w with state := st } : Worker).Ok := fun st =>
        ⟨fun _ _ => ⟨b, hb.processed, hb.packets, hb.bytes, hb.update, hb.bytesLe, hb.packetsLe⟩, fun _ => hpub,
          fun _ => ⟨hidle, hpub⟩, fun _ _ => hpub, fun _ => ⟨hidle, hpub⟩⟩
      refine ⟨0, hok _, rfl, fun hf => ?_, fun hi => absurd hinit hi, rfl, (add_counters_zero _).symm⟩
      exact absurd (hinit.symm.trans hf) (by decide)
  | count i lens =>
    rw [workerStep]
    split
    case isFalse => exact ⟨0, .refl h⟩
    case isTrue hc =>
      obtain ⟨hrun, hidle, hcl, hlen⟩ := hc
      refine ⟨0, h.count hrun hidle hcl hlen, count_incremental .., fun hf => ?_, fun hi => hi, rfl, ?_⟩
      · exact absurd (hrun.symm.trans hf) (by decide)
      · exact (count_shared ..).trans (add_counters_zero _).symm
  | close i =>
    rw [workerStep]
    split
    case isFalse => exact ⟨0, .refl h⟩
    case isTrue hc =>
      obtain ⟨hrun, hidle, hcl⟩ := hc
      have hok : (w.count []).Ok := h.count hrun hidle hcl (by decide)
      -- the last call always goes on to publish
      have hdue : (w.count []).phase = .due := if_pos (.inr rfl)
      have hok' : ({ w.count [] with closing := true } : Worker).Ok := by
        refine ⟨fun hf hp => ?_, hok.published, hok.init, fun _ hp => absurd (hdue.symm.trans hp) (by decide), hok.finished⟩
        obtain ⟨b, hb⟩ := hok.pending hf hp
        exact ⟨b, hb.processed, hb.packets, hb.bytes, hb.update, hb.bytesLe, hb.packetsLe⟩
      refine ⟨0, hok', count_incremental .., fun hf => ?_, fun hi => hi, rfl, ?_⟩
      · exact absurd (hrun.symm.trans hf) (by decide)
      · exact (count_shared ..).trans (add_counters_zero _).symm
  | publish i =>
    rw [workerStep]
    split
    case isFalse => exact ⟨0, .refl h⟩
    case isTrue hdue =>
      obtain ⟨hrun, b, hb⟩ := h.due_state hdue
      refine ⟨b, h.publish hdue, rfl, fun hf => ?_, fun hi => hi, hb.processed, ?_⟩
      · exact absurd (hrun.symm.trans hf) (by decide)
      · show (_ + (w.si.packetCnt - w.si.lastPacketCnt), _ + (w.si.bytesCnt - w.si.lastBytesCnt)) = _
        rw [hb.packets, hb.bytes]
        rfl
  | remember i =>
    rw [workerStep]
    split
    case isFalse => exact ⟨0, .refl h⟩
    case isTrue hp =>
      refine ⟨0, h.remember hp, rfl, fun hf => ?_, fun hi => hi, rfl, (add_counters_zero _).symm⟩
      exact absurd ((h.finished hf).1.symm.trans hp) (by decide)
  | finish i =>
    rw [workerStep]
    split
    case isFalse => exact ⟨0, .refl h⟩
    case isTrue hc =>
      obtain ⟨hrun, hidle, hcl⟩ := hc
      have hpub := h.closing hcl hidle
      refine ⟨0, ⟨fun hf _ => absurd rfl hf, h.published, fun _ => ⟨hidle, hpub⟩, fun _ _ => hpub, fun _ => ⟨hidle, hpub⟩⟩,
        rfl, fun hf => ?_, fun _ => (by decide : ThreadState.finished ≠ .init), rfl,
        (add_counters_zero _).symm⟩
      exact absurd (hrun.symm.trans hf) (by decide)
  | request | look | visit | print | leave | join | finalPrint => exact ⟨0, .refl h⟩

/-! ## What is to hold -/

section

variable {n k : Nat} {s : StatsSys n} {i : Fin n} {l : Stock (Fin n) (Nat × Nat)}

/-- What has been processed, by all threads. -/
def StatsSys.processed (s : StatsSys n) : Nat × Nat := ∑ i, (s.workers i).processed

/-- The differences are what is not yet published. What is printed on request and what is printed at the end sum to what was
processed; with `incremental` every print is what was published, and the one at the end everything. The ticks of an interval show parts of
what was processed, and everything is printed at the end. -/
structure Conserved (s : StatsSys n) : Prop where
  differences : ∀ i, (s.workers i).state ≠ .finished → (s.workers i).phase ≠ .published →
    (s.workers i).published +
      (((s.workers i).si.packetCnt - (s.workers i).si.lastPacketCnt).toNat,
        ((s.workers i).si.bytesCnt - (s.workers i).si.lastBytesCnt).toNat) =
      (s.workers i).processed
  incremental : s.si.incremental = true →
    (∀ r ∈ s.reports, r.value = counters r.seen) ∧ ∀ v, s.final = some v → v = counters s.processed
  requests : s.si.incremental = false → s.interval = 0 → ∀ v, s.final = some v →
    ∃ parts : List (Nat × Nat), s.reports.map (·.value) ++ [v] = parts.map counters ∧ parts.sum = s.processed
  ticks : s.si.incremental = false → s.interval ≠ 0 → ∀ v, s.final = some v → v = counters s.processed ∧
    ∃ parts : List (Nat × Nat), s.reports.map (·.value) = parts.map counters ∧ parts.sum ≤ s.processed

/-- What a step has to find. A thread that is visited for a request has nothing in the counters that are cleared, or is going to remember
the cleared ones; with `incremental` it has nothing in the counters that are added once more, and a thread that is passed over has
published nothing. -/
def StatsRight (s : StatsSys n) : StatsAct n → Prop
  | .look =>
    match s.pos with
    | .visiting k =>
      ∀ h : k < n, s.si.incremental = true → (s.workers ⟨k, h⟩).state ≠ .running → (s.workers ⟨k, h⟩).si.shared = 0
    | _ => True
  | .visit =>
    match s.pos with
    | .locked i =>
      s.interval = 0 →
        if s.si.incremental then (s.workers i).si.shared = 0
        else (s.workers i).phase = .published ∨ (s.workers i).state = .finished ∨ (s.workers i).si.counts = 0
    | _ => True
  | _ => True

instance (s : StatsSys n) (a : StatsAct n) : Decidable (StatsRight s a) := by
  cases a with
  | look =>
    unfold StatsRight
    cases s.pos <;> infer_instance
  | visit =>
    unfold StatsRight
    cases s.pos <;> infer_instance
  | prepare | count | close | publish | remember | finish | request | print | leave | join | finalPrint =>
    exact inferInstanceAs (Decidable True)

/-! ## The ledger -/

/-- The threads that `main` has joined. -/
def StatsSys.Joined (s : StatsSys n) (i : Fin n) : Prop :=
  match s.pos with
  | .joining k => i.val < k
  | .done => True
  | _ => False

def MainPos.InRequest : MainPos n → Prop
  | .visiting _ | .locked _ => True
  | _ => False

def MainPos.InLoop : MainPos n → Prop
  | .idle | .visiting _ | .locked _ => True
  | _ => False

/-- Where what was published has gone: it waits in the counters of a thread, or it is held in those of the main record, or it was
printed. -/
structure Ledger (s : StatsSys n) (l : Stock (Fin n) (Nat × Nat)) : Prop where
  total : l.total = ∑ i, (s.workers i).published
  waiting : ∀ i, ¬ s.Joined i → (s.workers i).si.shared = counters (l.waiting i)
  joined : ∀ i, s.Joined i → (s.workers i).state = .finished ∧ l.waiting i = 0
  main : s.si.counts = counters (l.held + if s.interval = 0 then 0 else l.given.sum)
  given : s.si.incremental = false → s.reports.map (·.value) = l.given.map counters
  idle : s.pos = .idle → l.held = 0
  tick : s.interval ≠ 0 → s.si.incremental = false → s.pos.InRequest → s.tick = counters l.held
  increments : s.si.incremental = true → l.given = [] ∧ (s.pos.InLoop → l.held = 0) ∧
    ∀ i, ¬ s.Joined i → l.waiting i = (s.workers i).published
  seen : s.si.incremental = true → s.pos.InRequest → counters s.seen = if s.interval = 0 then 0 else s.tick
  reports : s.si.incremental = true → ∀ r ∈ s.reports, r.value = counters r.seen
  final : ∀ v, s.final = some v → v = s.si.counts ∧ s.pos = .done

structure StatsInv (s : StatsSys n) : Prop where
  ok : ∀ i, (s.workers i).Ok
  incremental : ∀ i, (s.workers i).si.incremental = s.si.incremental
  locked : ∀ i, s.pos = .locked i → (s.workers i).state ≠ .init
  ledger : ∃ l, Ledger s l

theorem StatsInv.init (n : Nat) (interval : Int) (incremental : Bool) : StatsInv (StatsSys.init n interval incremental) where
  ok _ := Worker.init_ok incremental
  incremental _ := rfl
  locked i h := nomatch h
  ledger := by
    refine ⟨.empty, ?_, fun _ _ => rfl, fun i h => h.elim, ?_, fun _ => rfl, fun _ => rfl, fun _ _ h => h.elim, fun _ => ?_,
      fun _ h => h.elim, fun _ r hr => (nomatch hr), fun v hv => (nomatch hv)⟩
    · exact Stock.total_empty.trans (Finset.sum_eq_zero fun i _ => rfl).symm
    · show (0 : U64 × U64) = counters (0 + if interval = 0 then 0 else 0)
      rw [ite_self]
      rfl
    · exact ⟨rfl, fun _ => rfl, fun _ _ => rfl⟩

/-! ## Steps of the threads -/

@[simp] theorem setWorker_self (s : StatsSys n) (i : Fin n) (w : Worker) : (s.setWorker i w).workers i = w :=
  Function.update_self ..

theorem setWorker_other (s : StatsSys n) {j : Fin n} (w : Worker) (h : j ≠ i) : (s.setWorker i w).workers j = s.workers j :=
  Function.update_of_ne h ..

theorem forall_setWorker {P : Fin n → Worker → Prop} (hw : P i w) (h : ∀ j, j ≠ i → P j (s.workers j)) (j : Fin n) :
    P j ((s.setWorker i w).workers j) := by
  by_cases hj : j = i
  · subst hj
    rwa [setWorker_self]
  · rw [setWorker_other s w hj]
    exact h j hj

theorem sum_setWorker (s : StatsSys n) (i : Fin n) {f : Worker → Nat × Nat} {m : Nat × Nat} (h : f w = f (s.workers i) + m) :
    ∑ j, f ((s.setWorker i w).workers j) = ∑ j, f (s.workers j) + m := by
  rw [← sum_update_add (fun j => f (s.workers j)) i m, ← h]
  refine Finset.sum_congr rfl fun j _ => ?_
  by_cases hj : j = i
  · subst hj
    rw [setWorker_self, Function.update_self]
  · rw [setWorker_other s w hj, Function.update_of_ne hj]

/-- A thread makes a step. -/
theorem StatsInv.setWorker (h : StatsInv s) (hw : (s.workers i).Moved w b) : StatsInv (s.setWorker i w) := by
  obtain ⟨l, hl⟩ := h.ledger
  -- a thread that is joined publishes nothing more
  have hb : s.Joined i → b = 0 := fun hj => by
    have hsame := hw.finished (hl.joined i hj).1
    have hpub := hw.published
    rw [hsame] at hpub
    exact left_eq_add.1 hpub
  have hwaiting : ∀ j, (l.add i b).waiting j = if j = i then l.waiting i + b else l.waiting j := fun j => by
    by_cases hj : j = i
    · subst hj
      exact (Function.update_self ..).trans (if_pos rfl).symm
    · exact (Function.update_of_ne hj ..).trans (if_neg hj).symm
  constructor
  case ok => exact forall_setWorker (P := fun _ w => w.Ok) hw.ok fun j _ => h.ok j
  case incremental =>
    exact forall_setWorker (P := fun _ w => w.si.incremental = s.si.incremental) (hw.incremental.trans (h.incremental i))
      fun j _ => h.incremental j
  case locked =>
    exact forall_setWorker (P := fun j w => s.pos = .locked j → w.state ≠ .init) (fun hp => hw.init (h.locked i hp))
      fun j _ => h.locked j
  case ledger =>
    refine ⟨l.add i b, ?_⟩
    constructor
    case total =>
      rw [Stock.total_add, hl.total]
      exact (sum_setWorker s i hw.published).symm
    case waiting =>
      refine forall_setWorker (P := fun j w => ¬ s.Joined j → w.si.shared = counters ((l.add i b).waiting j)) (fun hj => ?_)
        fun j hne hj => ?_
      · rw [hwaiting, if_pos rfl, counters_add, ← hl.waiting i hj]
        exact hw.shared
      · rw [hwaiting, if_neg hne]
        exact hl.waiting j hj
    case joined =>
      refine forall_setWorker (P := fun j w => s.Joined j → w.state = .finished ∧ (l.add i b).waiting j = 0) (fun hj => ?_)
        fun j hne hj => ?_
      · obtain ⟨hf, hz⟩ := hl.joined i hj
        rw [hwaiting, if_pos rfl, hb hj, hz]
        exact ⟨by rw [hw.finished hf]; exact hf, rfl⟩
      · rw [hwaiting, if_neg hne]
        exact hl.joined j hj
    case main => exact hl.main
    case given => exact hl.given
    case idle => exact hl.idle
    case tick => exact hl.tick
    case increments =>
      intro hinc
      obtain ⟨hg, hh, hpub⟩ := hl.increments hinc
      refine ⟨hg, hh, ?_⟩
      refine forall_setWorker (P := fun j w => ¬ s.Joined j → (l.add i b).waiting j = w.published) (fun hj => ?_) fun j hne hj => ?_
      · rw [hwaiting, if_pos rfl, hpub i hj, hw.published]
      · rw [hwaiting, if_neg hne]
        exact hpub j hj
    case seen => exact hl.seen
    case reports => exact hl.reports
    case final => exact hl.final

/-! ## Steps of the main thread -/

theorem not_joined (h : s.pos.InLoop) (i : Fin n) : ¬ s.Joined i := by
  unfold StatsSys.Joined
  cases hp : s.pos with
  | idle => exact id
  | visiting k => exact id
  | locked j => exact id
  | joining k => rw [hp] at h; exact h.elim
  | done => rw [hp] at h; exact h.elim

theorem Ledger.final_none (hl : Ledger s l) (h : s.pos ≠ .done) : s.final = none := by
  cases hf : s.final with
  | none => rfl
  | some v => exact absurd (hl.final v hf).2 h

/-- A ledger as long as `update_stats_loop_thread` runs. -/
theorem Ledger.of_inLoop (hloop : s.pos.InLoop) (hfinal : s.final = none) (total : l.total = ∑ i, (s.workers i).published)
    (waiting : ∀ i, (s.workers i).si.shared = counters (l.waiting i))
    (main : s.si.counts = counters (l.held + if s.interval = 0 then 0 else l.given.sum))
    (given : s.si.incremental = false → s.reports.map (·.value) = l.given.map counters) (idle : s.pos = .idle → l.held = 0)
    (tick : s.interval ≠ 0 → s.si.incremental = false → s.pos.InRequest → s.tick = counters l.held)
    (increments : s.si.incremental = true → l.given = [] ∧ l.held = 0 ∧ ∀ i, l.waiting i = (s.workers i).published)
    (seen : s.si.incremental = true → s.pos.InRequest → counters s.seen = if s.interval = 0 then 0 else s.tick)
    (reports : s.si.incremental = true → ∀ r ∈ s.reports, r.value = counters r.seen) : Ledger s l where
  total := total
  waiting i _ := waiting i
  joined i h := absurd h (not_joined hloop i)
  main := main
  given := given
  idle := idle
  tick := tick
  increments hi := ⟨(increments hi).1, fun _ => (increments hi).2.1, fun i _ => (increments hi).2.2 i⟩
  seen := seen
  reports := reports
  final v hv := by rw [hfinal] at hv; cases hv

/-- What the ledger says in the loop: nothing is printed at the end, and no thread is joined. -/
theorem StatsInv.inLoop (h : StatsInv s) (hloop : s.pos.InLoop) : ∃ l, Ledger s l ∧ s.final = none ∧
    (∀ i, (s.workers i).si.shared = counters (l.waiting i)) ∧
      (s.si.incremental = true → l.given = [] ∧ l.held = 0 ∧ ∀ i, l.waiting i = (s.workers i).published) := by
  obtain ⟨l, hl⟩ := h.ledger
  have hnot := not_joined hloop
  refine ⟨l, hl, hl.final_none fun hd => ?_, fun i => hl.waiting i (hnot i), fun hinc => ?_⟩
  · rw [hd] at hloop
    exact hloop
  · obtain ⟨hg, hh, hw⟩ := hl.increments hinc
    exact ⟨hg, hh hloop, fun i => hw i (hnot i)⟩

theorem StatsInv.request (h : StatsInv s) (hpos : s.pos = .idle) : StatsInv { s with pos := .visiting 0, tick := 0, seen := 0 } := by
  obtain ⟨l, hl, hfinal, hwait, hincs⟩ := h.inLoop (by rw [hpos]; trivial)
  have hheld := hl.idle hpos
  refine ⟨h.ok, h.incremental, fun i hi => (nomatch hi), l, ?_⟩
  refine .of_inLoop trivial hfinal hl.total hwait hl.main hl.given nofun (fun _ _ _ => by rw [hheld]; rfl) hincs
    (fun _ _ => (ite_self _).symm) hl.reports

theorem StatsInv.lock (h : StatsInv s) (hpos : s.pos = .visiting k) (hi : (s.workers i).state = .running) :
    StatsInv { s with pos := .locked i } := by
  obtain ⟨l, hl, hfinal, hwait, hincs⟩ := h.inLoop (by rw [hpos]; trivial)
  have hreq : s.pos.InRequest := by rw [hpos]; trivial
  refine ⟨h.ok, h.incremental, fun j hj => ?_, l, ?_⟩
  · cases hj
    rw [hi]
    decide
  · exact .of_inLoop trivial hfinal hl.total hwait hl.main hl.given nofun (fun ht hc _ => hl.tick ht hc hreq) hincs
      (fun hc _ => hl.seen hc hreq) hl.reports

theorem StatsInv.pass (h : StatsInv s) (hpos : s.pos = .visiting k) (i : Fin n)
    (hright : s.si.incremental = true → (s.workers i).si.shared = 0) :
    StatsInv { s with pos := .visiting (k + 1), seen := s.seen + (s.workers i).published } := by
  obtain ⟨l, hl, hfinal, hwait, hincs⟩ := h.inLoop (by rw [hpos]; trivial)
  have hreq : s.pos.InRequest := by rw [hpos]; trivial
  refine ⟨h.ok, h.incremental, fun j hj => (nomatch hj), l, ?_⟩
  refine .of_inLoop trivial hfinal hl.total hwait hl.main hl.given nofun (fun ht hc _ => hl.tick ht hc hreq) hincs (fun hc _ => ?_) hl.reports
  have hpub : counters (s.workers i).published = counters 0 := by
    rw [← (hincs hc).2.2 i, ← hwait i, hright hc]
    rfl
  show counters (s.seen + (s.workers i).published) = _
  rw [counters_add, hpub, add_counters_zero, hl.seen hc hreq]

/-- The visit without `incremental`: what waits with the thread is taken. -/
theorem StatsInv.collect (h : StatsInv s) (hpos : s.pos = .locked i) (hinc : s.si.incremental = false) {si thread : StatsInfo}
    {tick : U64 × U64} (hthread : ({ s.workers i with si := thread } : Worker).Ok)
    (htinc : thread.incremental = (s.workers i).si.incremental) (hshared : thread.shared = 0) (hsinc : si.incremental = false)
    (hcounts : si.counts = s.si.counts + (s.workers i).si.shared) (htick : s.interval ≠ 0 → tick = s.tick + (s.workers i).si.shared) :
    StatsInv { s.setWorker i { s.workers i with si := thread } with
      si := si, tick := tick, pos := .visiting (i + 1), seen := s.seen + (s.workers i).published } := by
  obtain ⟨l, hl, hfinal, hwait, hincs⟩ := h.inLoop (by rw [hpos]; trivial)
  have hreq : s.pos.InRequest := by rw [hpos]; trivial
  have hstate := h.locked i hpos
  refine ⟨?_, ?_, nofun, l.collect i, ?_⟩
  · exact forall_setWorker (P := fun _ w => w.Ok) hthread fun j _ => h.ok j
  · refine forall_setWorker (P := fun _ w => w.si.incremental = si.incremental) ?_ fun j _ => ?_
    · rw [hsinc, ← hinc, ← h.incremental i]
      exact htinc
    · rw [hsinc, ← hinc]
      exact h.incremental j
  refine .of_inLoop trivial hfinal ?_ ?_ ?_ (fun _ => hl.given hinc) nofun (fun ht _ _ => ?_)
    (fun hc => ?_) (fun hc => ?_) (fun hc => ?_)
  · have hsum := sum_setWorker s i (f := Worker.published) (m := 0) (w := { s.workers i with si := thread }) (add_zero _).symm
    rw [Stock.total_collect, hl.total]
    exact (hsum.trans (add_zero _)).symm
  · refine forall_setWorker (P := fun j w => w.si.shared = counters ((l.collect i).waiting j)) ?_ fun j hne => ?_
    · have hzero : (l.collect i).waiting i = 0 := Function.update_self ..
      rw [hzero]
      exact hshared
    · have hsame : (l.collect i).waiting j = l.waiting j := Function.update_of_ne hne ..
      rw [hsame]
      exact hwait j
  · show si.counts = counters (l.held + l.waiting i + if s.interval = 0 then 0 else l.given.sum)
    rw [hcounts, hl.main, hwait i, ← counters_add, add_right_comm]
  · show tick = counters (l.held + l.waiting i)
    rw [htick ht, hl.tick ht hinc hreq, hwait i, counters_add]
  · exact absurd (hsinc.symm.trans hc) Bool.false_ne_true
  · exact absurd (hsinc.symm.trans hc) Bool.false_ne_true
  · exact absurd (hsinc.symm.trans hc) Bool.false_ne_true

/-- The visit with `incremental`: the counters of the thread stay, and nothing may be added to those of the main record. -/
theorem StatsInv.read (h : StatsInv s) (hpos : s.pos = .locked i) (hinc : s.si.incremental = true) {si : StatsInfo} {tick : U64 × U64}
    (hsinc : si.incremental = true) (hcounts : si.counts = s.si.counts)
    (hseen : (if s.interval = 0 then 0 else s.tick) + (s.workers i).si.shared = if s.interval = 0 then 0 else tick) :
    StatsInv { s with si := si, tick := tick, pos := .visiting (i + 1), seen := s.seen + (s.workers i).published } := by
  obtain ⟨l, hl, hfinal, hwait, hincs⟩ := h.inLoop (by rw [hpos]; trivial)
  have hreq : s.pos.InRequest := by rw [hpos]; trivial
  refine ⟨h.ok, fun j => ((h.incremental j).trans hinc).trans hsinc.symm, nofun, l, ?_⟩
  refine .of_inLoop trivial hfinal hl.total hwait (hcounts.trans hl.main) (fun hc => ?_) nofun (fun _ hc => ?_) (fun _ => hincs hinc)
    (fun _ _ => ?_) fun _ => hl.reports hinc
  · exact nomatch hsinc.symm.trans hc
  · exact nomatch hsinc.symm.trans hc
  · show counters (s.seen + (s.workers i).published) = if s.interval = 0 then 0 else tick
    rw [← hseen, counters_add, hl.seen hinc hreq, ← (hincs hinc).2.2 i, ← hwait i]

/-- The visit. -/
theorem StatsInv.visit (h : StatsInv s) (hpos : s.pos = .locked i)
    (hright : s.interval = 0 → if s.si.incremental then (s.workers i).si.shared = 0 else (s.workers i).phase = .published ∨ (s.workers i).state = .finished ∨ (s.workers i).si.counts = 0) :
    StatsInv (mainStep s .visit) := by
  have hstep : mainStep s .visit =
      let r := visitThread s.interval s.si s.tick (s.workers i).si
      { s.setWorker i { s.workers i with si := r.2.2 } with
        si := r.1, tick := r.2.1, pos := .visiting (i + 1), seen := s.seen + (s.workers i).published } := by
    rw [mainStep, hpos]
  have htinc := h.incremental i
  have hsame : s.setWorker i (s.workers i) = s := by
    rw [StatsSys.setWorker, Function.update_eq_self]
  rw [hstep, visitThread]
  cases hinc : s.si.incremental with
  | true =>
    rw [hinc] at htinc
    by_cases hz : s.interval = 0
    · -- nothing is cleared, so what a thread has counted would be added once more in every round
      have hzero : (s.workers i).si.shared = 0 := by
        have := hright hz
        rwa [if_pos hinc] at this
      obtain ⟨hp, hb⟩ := Prod.mk.inj hzero
      have hkept : clearStatsInfo (gatherStatsInfo s.si (s.workers i).si).2 = (s.workers i).si := by
        rw [gatherStatsInfo, if_pos hinc, clearStatsInfo, if_pos htinc]
      rw [if_pos hz]
      simp only [hkept, hsame]
      refine h.read hpos hinc hinc ?_ ?_
      · show (s.si.packetCnt + (s.workers i).si.threadPacketCnt, s.si.bytesCnt + (s.workers i).si.threadBytesCnt) = _
        rw [hp, hb]
        exact Prod.ext (BitVec.add_zero _) (BitVec.add_zero _)
      · rw [if_pos hz, hzero]
        exact add_counters_zero 0
    · rw [if_neg hz, if_pos rfl]
      simp only [hsame]
      refine h.read hpos hinc hinc rfl ?_
      rw [if_neg hz, if_neg hz]
  | false =>
    rw [hinc] at htinc
    by_cases hz : s.interval = 0
    · have hclear := hright hz
      rw [hinc, if_neg Bool.false_ne_true] at hclear
      have htaken : clearStatsInfo (gatherStatsInfo s.si (s.workers i).si).2 =
          { (s.workers i).si with threadPacketCnt := 0, threadBytesCnt := 0, packetCnt := 0, bytesCnt := 0 } := by
        rw [gatherStatsInfo, if_neg (by rw [hinc]; exact Bool.false_ne_true), clearStatsInfo,
          if_neg (by rw [htinc]; exact Bool.false_ne_true)]
      rw [if_pos hz]
      simp only [htaken]
      refine h.collect hpos hinc ((h.ok i).setSi _ ?_) rfl rfl hinc rfl (fun hn => absurd hz hn)
      rcases hclear with hp | hf | hc
      · exact .inl hp
      · exact .inr (.inl hf)
      · obtain ⟨hp, hb⟩ := Prod.mk.inj hc
        exact .inr (.inr ⟨hp.symm, hb.symm, rfl, rfl, rfl⟩)
    · rw [if_neg hz, if_neg Bool.false_ne_true]
      exact h.collect hpos hinc ((h.ok i).setSi _ (.inr (.inr ⟨rfl, rfl, rfl, rfl, rfl⟩))) rfl rfl rfl rfl fun _ => rfl

/-- What was collected is printed. -/
theorem StatsInv.print (h : StatsInv s) (hpos : s.pos = .visiting k) (hk : ¬ k < n) : StatsInv (mainStep s .print) := by
  obtain ⟨l, hl, hfinal, hwait, hincs⟩ := h.inLoop (by rw [hpos]; trivial)
  have hreq : s.pos.InRequest := by rw [hpos]; trivial
  have hstep : mainStep s .print = if s.interval = 0 then
        { s with pos := .idle, reports := s.reports ++ [⟨s.si.counts, s.seen⟩], si := clearStatsInfo s.si }
      else { s with pos := .idle, reports := s.reports ++ [⟨s.tick, s.seen⟩] } := by
    simp only [mainStep, hpos, if_neg hk]
  have hreport : ∀ v, counters s.seen = v → s.si.incremental = true →
      ∀ r ∈ s.reports ++ [⟨v, s.seen⟩], StatsReport.value r = counters r.seen := by
    intro v hv hinc r hr
    rcases List.mem_append.1 hr with hr | hr
    · exact hl.reports hinc r hr
    · rw [List.mem_singleton.1 hr]
      exact hv.symm
  have hgiven : s.si.incremental = false →
      (s.reports ++ [StatsReport.mk (counters l.held) s.seen]).map (·.value) = l.give.given.map counters := fun hinc => by
      show _ = List.map counters (l.given ++ [l.held])
      rw [List.map_append, List.map_append, hl.given hinc]
      rfl
  rw [hstep]
  cases hinc : s.si.incremental with
  | true =>
    obtain ⟨-, hh, -⟩ := hincs hinc
    have hinc' : ∀ {p : Prop}, s.si.incremental = false → p := fun hf => nomatch hinc.symm.trans hf
    by_cases hz : s.interval = 0
    · have hclear : clearStatsInfo s.si = s.si := if_pos hinc
      rw [if_pos hz, hclear]
      refine ⟨h.ok, h.incremental, nofun, l, ?_⟩
      refine .of_inLoop trivial hfinal hl.total hwait hl.main hinc' (fun _ => hh) (fun _ hf => hinc' hf) hincs nofun (hreport _ ?_)
      rw [hl.seen hinc hreq, hl.main, hh, if_pos hz, if_pos hz]
      rfl
    · rw [if_neg hz]
      refine ⟨h.ok, h.incremental, nofun, l, ?_⟩
      refine .of_inLoop trivial hfinal hl.total hwait hl.main hinc' (fun _ => hh) (fun _ hf => hinc' hf) hincs nofun (hreport _ ?_)
      rw [hl.seen hinc hreq, if_neg hz]
  | false =>
    have hinc' : ∀ {p : Prop}, s.si.incremental = true → p := fun ht => nomatch hinc.symm.trans ht
    by_cases hz : s.interval = 0
    · have hclear : clearStatsInfo s.si = { s.si with packetCnt := 0, bytesCnt := 0 } :=
        if_neg (by rw [hinc]; exact Bool.false_ne_true)
      have hcounts : s.si.counts = counters l.held := by rw [hl.main, if_pos hz, add_zero]
      rw [if_pos hz, hclear, hcounts]
      refine ⟨h.ok, h.incremental, nofun, l.give, ?_⟩
      refine .of_inLoop trivial hfinal (l.total_give.trans hl.total) hwait ?_ hgiven (fun _ => rfl)
        (fun ht => absurd hz ht) hinc' nofun hinc'
      show (0, 0) = counters (0 + if s.interval = 0 then 0 else l.give.given.sum)
      rw [if_pos hz]
      rfl
    · rw [if_neg hz, hl.tick hz hinc hreq]
      refine ⟨h.ok, h.incremental, nofun, l.give, ?_⟩
      refine .of_inLoop trivial hfinal (l.total_give.trans hl.total) hwait ?_ hgiven (fun _ => rfl)
        (fun _ _ hr => hr.elim) hinc' nofun hinc'
      show s.si.counts = counters (0 + if s.interval = 0 then 0 else (l.given ++ [l.held]).sum)
      rw [hl.main, if_neg hz, if_neg hz, List.sum_append, List.sum_singleton, zero_add, add_comm]

theorem StatsInv.leave (h : StatsInv s) (hpos : s.pos = .idle) : StatsInv { s with pos := .joining 0 } := by
  obtain ⟨l, hl, hfinal, hwait, hincs⟩ := h.inLoop (by rw [hpos]; trivial)
  refine ⟨h.ok, h.incremental, nofun, l, ?_⟩
  refine ⟨hl.total, fun i _ => hwait i, fun i hi => absurd hi (Nat.not_lt_zero _), hl.main, hl.given, nofun,
    fun _ _ hr => hr.elim, fun hc => ?_, fun _ hr => hr.elim, hl.reports, fun v hv => ?_⟩
  · obtain ⟨hg, -, hw⟩ := hincs hc
    exact ⟨hg, fun hf => hf.elim, fun i _ => hw i⟩
  · exact nomatch hfinal.symm.trans hv

/-- `main` joins a thread that has ended. -/
theorem StatsInv.join (h : StatsInv s) (hpos : s.pos = .joining i) (hend : (s.workers i).state = .finished) :
    let gathered := gatherStatsInfo s.si (s.workers i).si
    StatsInv { s.setWorker i { s.workers i with si := gathered.2 } with si := gathered.1, pos := .joining (i + 1) } := by
  obtain ⟨l, hl⟩ := h.ledger
  have hfinal := hl.final_none (by rw [hpos]; exact nofun)
  have hjoined : ∀ j : Fin n, s.Joined j ↔ j.val < i := fun j => by rw [StatsSys.Joined, hpos]
  have hwait := hl.waiting i fun hi => absurd ((hjoined i).1 hi) (lt_irrefl _)
  have htinc : (gatherStatsInfo s.si (s.workers i).si).2.incremental = s.si.incremental := by
    rw [gatherStatsInfo, ← h.incremental i]
    show (if _ then _ else _ : StatsInfo).incremental = _
    split <;> rfl
  have hself : (l.collect i).waiting i = 0 := Function.update_self ..
  have hother : ∀ j, j ≠ i → (l.collect i).waiting j = l.waiting j := fun j hne => Function.update_of_ne hne ..
  constructor
  case ok => exact forall_setWorker (P := fun _ w => w.Ok) ((h.ok i).setSi _ (.inr (.inl hend))) fun j _ => h.ok j
  case incremental => exact forall_setWorker (P := fun _ w => w.si.incremental = s.si.incremental) htinc fun j _ => h.incremental j
  case locked => exact nofun
  case ledger =>
    refine ⟨l.collect i, ?_⟩
    constructor
    case total =>
      have hsum := sum_setWorker s i (f := Worker.published) (m := 0)
        (w := { s.workers i with si := (gatherStatsInfo s.si (s.workers i).si).2 }) (add_zero _).symm
      rw [Stock.total_collect, hl.total]
      exact (hsum.trans (add_zero _)).symm
    case waiting =>
      intro j
      refine forall_setWorker (P := fun j w => ¬ j.val < i + 1 → w.si.shared = counters ((l.collect i).waiting j)) (fun hj => ?_)
        (fun j hne hj => ?_) j
      · exact absurd (Nat.lt_succ_self _) hj
      · rw [hother j hne]
        exact hl.waiting j fun hj' => hj (Nat.lt_succ_of_lt ((hjoined j).1 hj'))
    case joined =>
      intro j
      refine forall_setWorker (w := { s.workers i with si := (gatherStatsInfo s.si (s.workers i).si).2 })
        (P := fun j w => j.val < i + 1 → w.state = .finished ∧ (l.collect i).waiting j = 0) (fun _ => ⟨hend, hself⟩)
        (fun j hne hj => ?_) j
      have hlt : j.val < i := by
        have : j.val ≠ i.val := fun he => hne (Fin.ext he)
        omega
      rw [hother j hne]
      exact hl.joined j ((hjoined j).2 hlt)
    case main =>
      show (s.si.packetCnt + _, s.si.bytesCnt + _) = counters (l.held + l.waiting i + if s.interval = 0 then 0 else l.given.sum)
      have hmain := hl.main
      rw [add_right_comm, counters_add, ← hmain, ← hwait]
      rfl
    case given => exact hl.given
    case idle => exact nofun
    case tick => exact fun _ _ hr => hr.elim
    case increments =>
      intro hc
      obtain ⟨hg, -, hw⟩ := hl.increments hc
      refine ⟨hg, fun hf => hf.elim, fun j => ?_⟩
      refine forall_setWorker (P := fun j w => ¬ j.val < i + 1 → (l.collect i).waiting j = w.published) (fun hj => ?_)
        (fun j hne hj => ?_) j
      · exact absurd (Nat.lt_succ_self _) hj
      · rw [hother j hne]
        exact hw j fun hj' => hj (Nat.lt_succ_of_lt ((hjoined j).1 hj'))
    case seen => exact fun _ hr => hr.elim
    case reports => exact hl.reports
    case final => exact fun v hv => nomatch hfinal.symm.trans hv

theorem StatsInv.finalPrint (h : StatsInv s) (hpos : s.pos = .joining k) (hk : ¬ k < n) :
    StatsInv { s with pos := .done, final := some s.si.counts } := by
  obtain ⟨l, hl⟩ := h.ledger
  have hall : ∀ j : Fin n, s.Joined j := fun j => by
    rw [StatsSys.Joined, hpos]
    exact j.isLt.trans_le (Nat.le_of_not_lt hk)
  refine ⟨h.ok, h.incremental, nofun, l, hl.total, fun i hi => absurd trivial hi, fun i _ => hl.joined i (hall i), hl.main,
    hl.given, nofun, fun _ _ hr => hr.elim, fun hc => ?_, fun _ hr => hr.elim, hl.reports,
    fun v hv => ⟨(Option.some.inj hv).symm, rfl⟩⟩
  exact ⟨(hl.increments hc).1, fun hf => hf.elim, fun i hi => absurd trivial hi⟩

/-- Every step that finds what it has to find keeps the ledger. -/
theorem statsStep_inv (s : StatsSys n) (a : StatsAct n) (hright : StatsRight s a) (h : StatsInv s) : StatsInv (statsStep s a) := by
  have hworker : ∀ i, StatsInv (s.setWorker i (workerStep (s.workers i) a)) := fun i => by
    obtain ⟨b, hb⟩ := workerStep_moved (h.ok i) a
    exact h.setWorker hb
  cases a with
  | prepare i ok => exact hworker i
  | count i lens => exact hworker i
  | close i => exact hworker i
  | publish i => exact hworker i
  | remember i => exact hworker i
  | finish i => exact hworker i
  | request =>
    show StatsInv (if s.pos = .idle then _ else s)
    split
    case isTrue hpos => exact h.request hpos
    case isFalse => exact h
  | look =>
    show StatsInv (mainStep s .look)
    unfold StatsRight at hright
    unfold mainStep
    cases hpos : s.pos with
    | visiting k =>
      rw [hpos] at hright
      by_cases hk : k < n
      · simp only [dif_pos hk]
        split
        case isTrue hrun => exact h.lock hpos hrun
        case isFalse hrun => exact h.pass hpos ⟨k, hk⟩ fun hinc => hright hk hinc hrun
      · simp only [dif_neg hk]
        exact h
    | idle | locked i | joining k | done => exact h
  | visit =>
    cases hpos : s.pos with
    | locked i =>
      unfold StatsRight at hright
      rw [hpos] at hright
      exact h.visit hpos hright
    | idle | visiting k | joining k | done =>
      have hstep : mainStep s .visit = s := by rw [mainStep, hpos]
      exact (congrArg StatsInv hstep).mpr h
  | print =>
    cases hpos : s.pos with
    | visiting k =>
      by_cases hk : k < n
      · have hstep : mainStep s .print = s := by simp only [mainStep, hpos, if_pos hk]
        exact (congrArg StatsInv hstep).mpr h
      · exact h.print hpos hk
    | idle | locked i | joining k | done =>
      have hstep : mainStep s .print = s := by rw [mainStep, hpos]
      exact (congrArg StatsInv hstep).mpr h
  | leave =>
    show StatsInv (if s.pos = .idle then _ else s)
    split
    case isTrue hpos => exact h.leave hpos
    case isFalse => exact h
  | join =>
    show StatsInv (mainStep s .join)
    unfold mainStep
    cases hpos : s.pos with
    | joining k =>
      by_cases hk : k < n
      · simp only [dif_pos hk]
        split
        case isTrue hend => exact h.join (i := ⟨k, hk⟩) hpos hend
        case isFalse => exact h
      · simp only [dif_neg hk]
        exact h
    | idle | visiting k | locked i | done => exact h
  | finalPrint =>
    show StatsInv (mainStep s .finalPrint)
    unfold mainStep
    cases hpos : s.pos with
    | joining k =>
      by_cases hk : k < n
      · simp only [if_pos hk]
        exact h
      · simp only [if_neg hk]
        exact h.finalPrint hpos hk
    | idle | visiting k | locked i | done => exact h

/-! ## The result -/

theorem StatsInv.conserved (h : StatsInv s) : Conserved s := by
  obtain ⟨l, hl⟩ := h.ledger
  -- at the end nothing waits, and everything processed is published
  have hend : ∀ v, s.final = some v → v = s.si.counts ∧ l.held + l.given.sum = s.processed := fun v hv => by
    obtain ⟨hval, hpos⟩ := hl.final v hv
    have hall : ∀ i, s.Joined i := fun i => by
      rw [StatsSys.Joined, hpos]
      trivial
    refine ⟨hval, ?_⟩
    rw [← Stock.total_of_collected fun i => (hl.joined i (hall i)).2, hl.total]
    exact Finset.sum_congr rfl fun i _ => ((h.ok i).finished (hl.joined i (hall i)).1).2
  refine ⟨fun i hf hp => ?_, fun hc => ⟨hl.reports hc, fun v hv => ?_⟩, fun hc hz v hv => ?_, fun hc hz v hv => ?_⟩
  · obtain ⟨b, hb⟩ := (h.ok i).pending hf hp
    rw [hb.difference, hb.processed]
  · obtain ⟨hval, hsum⟩ := hend v hv
    rw [hval, hl.main, ← hsum, (hl.increments hc).1, List.sum_nil, ite_self]
  · obtain ⟨hval, hsum⟩ := hend v hv
    refine ⟨l.given ++ [l.held], ?_, ?_⟩
    · rw [hl.given hc, hval, hl.main, if_pos hz, add_zero, List.map_append, List.map_singleton]
    · rw [List.sum_append, List.sum_singleton, add_comm, hsum]
  · obtain ⟨hval, hsum⟩ := hend v hv
    refine ⟨?_, l.given, hl.given hc, ?_⟩
    · rw [hval, hl.main, if_neg hz, hsum]
    · rw [← hsum]
      exact ⟨Nat.le_add_left .., Nat.le_add_left ..⟩

/-- In every run whose requests find what they have to find, the statistics are conserved. -/
theorem stats_conserved (n : Nat) (interval : Int) (incremental : Bool) (acts : List (StatsAct n))
    (h : Meets statsStep StatsRight (StatsSys.init n interval incremental) acts) :
    Conserved (run statsStep (StatsSys.init n interval incremental) acts) :=
  (run_inv_of statsStep_inv acts _ h (.init n interval incremental)).conserved

end

/-- Two threads; the first processes a packet and then finds none, so that it publishes. -/
def onePacketRun (requests : List (StatsAct 2)) : List (StatsAct 2) :=
  [StatsAct.prepare 0 true, StatsAct.prepare 1 true, StatsAct.count 0 [60], StatsAct.count 0 [], StatsAct.publish 0] ++ requests ++
    [StatsAct.close 0, StatsAct.publish 0, StatsAct.remember 0, StatsAct.finish 0, StatsAct.close 1, StatsAct.publish 1,
      StatsAct.remember 1, StatsAct.finish 1, StatsAct.leave, StatsAct.join, StatsAct.join, StatsAct.finalPrint]

def oneRequest : List (StatsAct 2) := [.request, .look, .visit, .look, .visit, .print]

theorem stats_conserved_before_remember :
    Conserved (run statsStep (StatsSys.init 2 0 false) (onePacketRun (oneRequest ++ [.remember 0]))) :=
  stats_conserved 2 0 false _ (by decide)

/-- Where the request comes after the thread has remembered what it has published, only one of the two counters is cleared, and what is
printed at the end is less than nothing. -/
theorem cleared_counter_wraps :
    let s := run statsStep (StatsSys.init 2 0 false) (onePacketRun (.remember 0 :: oneRequest))
    s.reports.map (·.value) = [(1, 60)] ∧ s.final = some (-1, -60) ∧ s.processed = (1, 60) ∧ ¬ Conserved s := by
  have hreports : (run statsStep (StatsSys.init 2 0 false) (onePacketRun (.remember 0 :: oneRequest))).reports.map (·.value) =
      [(1, 60)] := by decide
  have hfinal : (run statsStep (StatsSys.init 2 0 false) (onePacketRun (.remember 0 :: oneRequest))).final = some (-1, -60) := by decide
  have hprocessed : (run statsStep (StatsSys.init 2 0 false) (onePacketRun (.remember 0 :: oneRequest))).processed = (1, 60) := by
    rw [StatsSys.processed, Fin.sum_univ_two]
    decide
  refine ⟨hreports, hfinal, hprocessed, fun h => ?_⟩
  obtain ⟨parts, hparts, hsum⟩ := h.requests (by decide) (by decide) _ hfinal
  rw [hreports] at hparts
  obtain ⟨a, b, rfl⟩ : ∃ a b, parts = [a, b] := List.length_eq_two.1 (by simpa using (congrArg List.length hparts).symm)
  have hlast : (-1 : U64) = BitVec.ofNat 64 b.1 := by
    have := (List.cons.inj (List.cons.inj hparts).2).1
    exact congrArg Prod.fst this
  have hb : b.1 % 2 ^ 64 = 2 ^ 64 - 1 := (congrArg BitVec.toNat hlast).symm
  rw [hprocessed, List.sum_cons, List.sum_singleton] at hsum
  have hone : a.1 + b.1 = 1 := congrArg Prod.fst hsum
  omega

end NdkSw.Tools

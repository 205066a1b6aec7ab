/-
The sums of `nfb-dma -T` (`tools/dma/dma.c`): the queues of all types are read one after the other into one record, the sums are made on
the way, and what the last record says decides which of them are printed.
-/
import Mathlib.Data.BitVec
import NdkSw.Tools.ListRange

namespace NdkSw.Tools

open Ndp

/-! ## Queues -/

/-- The type of a DMA controller, in the order of `rx_ctrl_name` and `tx_ctrl_name`. -/
inductive QueueType where
  | sze
  | ndp
  | calypte
  deriving DecidableEq, Repr

/-- A node of a queue: whether it can be opened, and what its counters hold when they are read. -/
structure DmaQueue where
  opens : Bool
  count : U64
  bytes : U64
  discarded : U64
  discardedBytes : U64

/-- The queues of a direction, by their type. -/
abbrev DmaQueues := QueueType → List DmaQueue

/-- `struct nc_rxqueue_counters`. -/
structure RxCounters where
  received : U64
  discarded : U64
  receivedBytes : U64
  discardedBytes : U64
  haveBytes : Bool

/-- `struct nc_txqueue_counters`. -/
structure TxCounters where
  sent : U64
  sentBytes : U64
  discarded : U64
  discardedBytes : U64
  haveBytes : Bool
  haveTxDiscard : Bool

/-- `_nc_rxqueue_read_counters`. -/
def ncRxqueueReadCounters : QueueType → DmaQueue → RxCounters
  | .ndp, q | .calypte, q => ⟨q.count, q.discarded, q.bytes, q.discardedBytes, true⟩
  | .sze, q => ⟨q.count, q.discarded, 0, 0, false⟩

/-- `_nc_txqueue_read_counters`. -/
def ncTxqueueReadCounters : QueueType → DmaQueue → TxCounters
  | .ndp, q => ⟨q.count, q.bytes, 0, 0, true, false⟩
  | .calypte, q => ⟨q.count, q.bytes, q.discarded, q.discardedBytes, true, true⟩
  | .sze, q => ⟨q.count, 0, 0, 0, false, false⟩

/-! ## The status loop -/

/-- The queues in the order of the loops, with their indexes. -/
def loopQueues (nodes : DmaQueues) : List (QueueType × DmaQueue × Nat) :=
  [QueueType.sze, .ndp, .calypte].flatMap fun type => (nodes type).zipIdx.map fun q => (type, q.1, q.2)

/-- One pass: a selected queue that can be opened is read, and what was read is added. -/
def statusTurn {C : Type} (read : QueueType → DmaQueue → C) (add : C → C → C) (indexRange : ListRange) (st : C × C) :
    QueueType × DmaQueue × Nat → C × C
  | (type, q, i) =>
    if indexRange = [] ∨ listRangeContains indexRange (BitVec.ofNat 32 i) then
      if q.opens then
        let cntr := read type q
        (cntr, add st.2 cntr)
      else st
    else st

/-- What is added to `sum_rx`. -/
def RxCounters.add (sum cntr : RxCounters) : RxCounters :=
  { sum with
    received := sum.received + cntr.received
    receivedBytes := sum.receivedBytes + cntr.receivedBytes
    discarded := sum.discarded + cntr.discarded
    discardedBytes := sum.discardedBytes + cntr.discardedBytes }

/-- What is added to `sum_tx`; nothing is added to the discarded packets. -/
def TxCounters.add (sum cntr : TxCounters) : TxCounters :=
  { sum with
    sent := sum.sent + cntr.sent
    sentBytes := sum.sentBytes + cntr.sentBytes }

/-- The items of the sums. -/
inductive SumItem where
  | regRecv
  | regRecvB
  | regDisc
  | regDiscB
  | regSent
  | regSentB
  deriving DecidableEq, Repr

/-- `dir`. -/
inductive Direction where
  | both
  | rx
  | tx
  deriving DecidableEq, Repr

def Direction.hasRx (dir : Direction) : Bool := dir ≠ .tx

def Direction.hasTx (dir : Direction) : Bool := dir ≠ .rx

/-- What is printed in the section of the RX sums, with `cntr_rx` and `sum_rx`. -/
def printRxSums (cntr sum : RxCounters) : List (SumItem × U64) :=
  [(SumItem.regRecv, sum.received)] ++ (if cntr.haveBytes then [(SumItem.regRecvB, sum.receivedBytes)] else []) ++
    [(SumItem.regDisc, sum.discarded)] ++ if cntr.haveBytes then [(SumItem.regDiscB, sum.discardedBytes)] else []

/-- What is printed in the section of the TX sums, with `cntr_tx` and `sum_tx`. -/
def printTxSums (cntr sum : TxCounters) : List (SumItem × U64) :=
  [(SumItem.regSent, sum.sent)] ++ (if cntr.haveBytes then [(SumItem.regSentB, sum.sentBytes)] else []) ++
    if cntr.haveTxDiscard then
      [(SumItem.regDisc, sum.discarded)] ++ if cntr.haveBytes then [(SumItem.regDiscB, sum.discardedBytes)] else []
    else []

/-- The RX sums that `main` prints for `-T`; `cntr` is what stands in `cntr_rx` at the start, where nothing is written. -/
def rxSums (dir : Direction) (indexRange : ListRange) (nodes : DmaQueues) (cntr : RxCounters) : List (SumItem × U64) :=
  if dir.hasRx then
    let st := (loopQueues nodes).foldl (statusTurn ncRxqueueReadCounters RxCounters.add indexRange) (cntr, ⟨0, 0, 0, 0, false⟩)
    printRxSums st.1 st.2
  else []

/-- The TX sums that `main` prints for `-T`; `cntr` is what stands in `cntr_tx` at the start. -/
def txSums (dir : Direction) (indexRange : ListRange) (nodes : DmaQueues) (cntr : TxCounters) : List (SumItem × U64) :=
  if dir.hasTx then
    let st := (loopQueues nodes).foldl (statusTurn ncTxqueueReadCounters TxCounters.add indexRange)
      (cntr, ⟨0, 0, 0, 0, false, false⟩)
    printTxSums st.1 st.2
  else []

/-! ## What is asked for -/

/-- The queues that are selected and can be opened. -/
def selectedQueues (indexRange : ListRange) (nodes : DmaQueues) : List (QueueType × DmaQueue) :=
  ((loopQueues nodes).filter fun q =>
    (indexRange = [] ∨ listRangeContains indexRange (BitVec.ofNat 32 q.2.2)) ∧ q.2.1.opens = true).map fun q => (q.1, q.2.1)

/-- A counter: its item, the types of queues that have it, and its value. -/
structure SumCounter where
  item : SumItem
  has : QueueType → Bool
  value : DmaQueue → U64

/-- The counters of RX queues. -/
def rxCounters : List SumCounter :=
  [⟨.regRecv, fun _ => true, DmaQueue.count⟩, ⟨.regRecvB, (· ≠ .sze), DmaQueue.bytes⟩,
    ⟨.regDisc, fun _ => true, DmaQueue.discarded⟩, ⟨.regDiscB, (· ≠ .sze), DmaQueue.discardedBytes⟩]

/-- The packets that TX queues have discarded. -/
def txDiscarded : SumCounter := ⟨.regDisc, (· = .calypte), DmaQueue.discarded⟩

/-- The bytes that TX queues have discarded. -/
def txDiscardedBytes : SumCounter := ⟨.regDiscB, (· = .calypte), DmaQueue.discardedBytes⟩

/-- The counters of TX queues. -/
def txCounters : List SumCounter :=
  [⟨.regSent, fun _ => true, DmaQueue.count⟩, ⟨.regSentB, (· ≠ .sze), DmaQueue.bytes⟩, txDiscarded, txDiscardedBytes]

/-- The sum of a counter over the queues that have it. -/
def SumCounter.total (c : SumCounter) (queues : List (QueueType × DmaQueue)) : U64 :=
  ((queues.filter fun q => c.has q.1).map fun q => c.value q.2).sum

/-- The sum of a counter is printed, once, if and only if some queue has the counter. -/
def SumCounter.Printed (c : SumCounter) (queues : List (QueueType × DmaQueue)) (out : List (SumItem × U64)) : Prop :=
  (out.filter fun p => p.1 = c.item).map Prod.snd = if queues.any fun q => c.has q.1 then [c.total queues] else []

/-- All sums of `nfb-dma -T` are right. -/
def SumsRight (dir : Direction) (indexRange : ListRange) (rx tx : DmaQueues) (cntrRx : RxCounters) (cntrTx : TxCounters) : Prop :=
  (∀ c ∈ rxCounters, c.Printed (if dir.hasRx then selectedQueues indexRange rx else []) (rxSums dir indexRange rx cntrRx)) ∧
    ∀ c ∈ txCounters, c.Printed (if dir.hasTx then selectedQueues indexRange tx else []) (txSums dir indexRange tx cntrTx)

/-! ## The loop over the selected queues -/

section

variable {C : Type} {read : QueueType → DmaQueue → C} {add : C → C → C} {indexRange : ListRange}

theorem statusLoop_selected (queues : List (QueueType × DmaQueue × Nat)) (st : C × C) :
    queues.foldl (statusTurn read add indexRange) st =
      ((queues.filter fun q =>
        (indexRange = [] ∨ listRangeContains indexRange (BitVec.ofNat 32 q.2.2)) ∧ q.2.1.opens = true).map
          fun q => read q.1 q.2.1).foldl (fun st cntr => (cntr, add st.2 cntr)) st := by
  induction queues generalizing st with
  | nil => rfl
  | cons q queues ih =>
    obtain ⟨type, q, i⟩ := q
    rw [List.foldl_cons, ih, List.filter_cons]
    by_cases hsel : indexRange = [] ∨ listRangeContains indexRange (BitVec.ofNat 32 i) = true
    · by_cases hopen : q.opens = true
      · rw [if_pos (decide_eq_true ⟨hsel, hopen⟩), List.map_cons, List.foldl_cons, statusTurn, if_pos hsel, if_pos hopen]
      · rw [if_neg (fun h => hopen (of_decide_eq_true h).2), statusTurn, if_pos hsel, if_neg hopen]
    · rw [if_neg (fun h => hsel (of_decide_eq_true h).1), statusTurn, if_neg hsel]

theorem lastAndSum (l : List C) (st : C × C) :
    l.foldl (fun st cntr => (cntr, add st.2 cntr)) st = (l.getLast?.getD st.1, l.foldl add st.2) := by
  induction l generalizing st with
  | nil => rfl
  | cons c l ih =>
    rw [List.foldl_cons, ih, List.foldl_cons]
    cases l with
    | nil => rfl
    | cons d l => rw [List.getLast?_cons_cons, List.getLast?_cons, Option.getD_some, Option.getD_some]

theorem statusLoop_eq (nodes : DmaQueues) (st : C × C) :
    (loopQueues nodes).foldl (statusTurn read add indexRange) st =
      (((selectedQueues indexRange nodes).map fun q => read q.1 q.2).getLast?.getD st.1,
        ((selectedQueues indexRange nodes).map fun q => read q.1 q.2).foldl add st.2) := by
  rw [statusLoop_selected, lastAndSum, selectedQueues, List.map_map]
  rfl

end

/-! ## The last queue -/

/-- The queues come in the order of their types. -/
def QueueType.rank : QueueType → Nat
  | .sze => 0
  | .ndp => 1
  | .calypte => 2

theorem loopQueues_sorted (nodes : DmaQueues) : (loopQueues nodes).Pairwise fun p q => p.1.rank ≤ q.1.rank := by
  unfold loopQueues
  rw [List.pairwise_flatMap]
  constructor
  · intro type _
    rw [List.pairwise_map]
    exact List.pairwise_of_forall fun _ _ => Nat.le_refl _
  · have htypes : ∀ s t : QueueType, s.rank ≤ t.rank → ∀ x ∈ (nodes s).zipIdx.map fun q => (s, q.1, q.2),
        ∀ y ∈ (nodes t).zipIdx.map fun q => (t, q.1, q.2), x.1.rank ≤ y.1.rank := by
      intro s t hle x hx y hy
      obtain ⟨_, -, rfl⟩ := List.mem_map.1 hx
      obtain ⟨_, -, rfl⟩ := List.mem_map.1 hy
      exact hle
    simp only [List.pairwise_cons, List.mem_cons, List.not_mem_nil, or_false, forall_eq_or_imp, forall_eq, List.Pairwise.nil,
      and_true, false_implies, implies_true]
    exact ⟨⟨htypes _ _ (by decide), htypes _ _ (by decide)⟩, htypes _ _ (by decide)⟩

theorem selectedQueues_sorted (indexRange : ListRange) (nodes : DmaQueues) :
    (selectedQueues indexRange nodes).Pairwise fun p q => p.1.rank ≤ q.1.rank := by
  unfold selectedQueues
  rw [List.pairwise_map]
  exact (loopQueues_sorted nodes).filter _

variable {l : List (QueueType × DmaQueue)}

theorem last_any (hsorted : l.Pairwise fun p q => p.1.rank ≤ q.1.rank) {has : QueueType → Bool}
    (hmono : ∀ s t : QueueType, s.rank ≤ t.rank → has s = true → has t = true) (hne : l ≠ []) :
    has (l.getLast hne).1 = l.any fun q => has q.1 := by
  rw [Bool.eq_iff_iff, List.any_eq_true]
  constructor
  · intro h
    exact ⟨_, List.getLast_mem hne, h⟩
  · rintro ⟨q, hq, h⟩
    exact hmono _ _ (hsorted.rel_getLast_of_rel_getLast_getLast hq (Nat.le_refl _)) h

/-! ## Sums -/

theorem foldl_field {C : Type} {add : C → C → C} {field : C → U64} (hadd : ∀ s c, field (add s c) = field s + field c) (l : List C)
    (s : C) : field (l.foldl add s) = field s + (l.map field).sum := by
  induction l generalizing s with
  | nil => exact (BitVec.add_zero _).symm
  | cons c l ih => rw [List.foldl_cons, ih, hadd, List.map_cons, List.sum_cons, BitVec.add_assoc]

theorem foldl_field_const {C : Type} {add : C → C → C} {field : C → U64} (hadd : ∀ s c, field (add s c) = field s) (l : List C) (s : C) :
    field (l.foldl add s) = field s := by
  induction l generalizing s with
  | nil => rfl
  | cons c l ih => rw [List.foldl_cons, ih, hadd]

theorem total_eq (c : SumCounter) {C : Type} {read : QueueType → DmaQueue → C} {field : C → U64}
    (hread : ∀ type q, field (read type q) = if c.has type then c.value q else 0) (l : List (QueueType × DmaQueue)) :
    ((l.map fun q => read q.1 q.2).map field).sum = c.total l := by
  unfold SumCounter.total
  induction l with
  | nil => rfl
  | cons q l ih =>
    rw [List.map_cons, List.map_cons, List.sum_cons, ih, hread, List.filter_cons]
    by_cases hhas : c.has q.1 = true
    · rw [if_pos hhas, if_pos hhas, List.map_cons, List.sum_cons]
    · rw [if_neg hhas, if_neg hhas]
      exact BitVec.zero_add _

theorem lastRecord_eq {C : Type} (read : QueueType → DmaQueue → C) (flag : C → Bool) (has : QueueType → Bool)
    (hflag : ∀ type q, flag (read type q) = has type) (hmono : ∀ s t : QueueType, s.rank ≤ t.rank → has s = true → has t = true)
    (hsorted : l.Pairwise fun p q => p.1.rank ≤ q.1.rank) (hne : l ≠ []) (cntr : C) :
    flag ((l.map fun q => read q.1 q.2).getLast?.getD cntr) = l.any fun q => has q.1 := by
  rw [List.getLast?_map, List.getLast?_eq_some_getLast hne, Option.map_some, Option.getD_some, hflag, last_any hsorted hmono hne]

theorem sum_eq (c : SumCounter) {C : Type} (read : QueueType → DmaQueue → C) (add : C → C → C) (field : C → U64) (zero : C)
    (hadd : ∀ s c, field (add s c) = field s + field c) (hzero : field zero = 0)
    (hread : ∀ type q, field (read type q) = if c.has type then c.value q else 0) (l : List (QueueType × DmaQueue)) :
    field ((l.map fun q => read q.1 q.2).foldl add zero) = c.total l := by
  rw [foldl_field hadd, total_eq c hread, hzero]
  exact BitVec.zero_add _

section

variable {dir : Direction} {indexRange : ListRange} {nodes : DmaQueues}

theorem any_of_ne_nil (hne : l ≠ []) : (l.any fun _ => true) = true := by
  obtain ⟨q, hq⟩ := List.exists_mem_of_ne_nil _ hne
  exact List.any_eq_true.2 ⟨q, hq, rfl⟩

/-- The RX sums are right if there is a queue, and wrong if there is none: the number of packets is printed in any case. -/
theorem rxSums_right (cntr : RxCounters) :
    (∀ c ∈ rxCounters, c.Printed (if dir.hasRx then selectedQueues indexRange nodes else []) (rxSums dir indexRange nodes cntr)) ↔
      (dir.hasRx = true → selectedQueues indexRange nodes ≠ []) := by
  unfold rxSums
  by_cases hdir : dir.hasRx = true
  · rw [if_pos hdir, if_pos hdir, statusLoop_eq]
    dsimp only
    have hsorted := selectedQueues_sorted indexRange nodes
    generalize selectedQueues indexRange nodes = queues at hsorted ⊢
    constructor
    · intro h _ hnil
      have hrecv := h ⟨.regRecv, fun _ => true, DmaQueue.count⟩ List.mem_cons_self
      rw [hnil, SumCounter.Printed] at hrecv
      simp [printRxSums] at hrecv
    · intro hne
      have hne := hne hdir
      have hbytes := lastRecord_eq ncRxqueueReadCounters RxCounters.haveBytes (· ≠ .sze) (by rintro (_ | _ | _) q <;> rfl)
        (by rintro (_ | _ | _) (_ | _ | _) <;> decide) hsorted hne cntr
      have hreceived := sum_eq ⟨.regRecv, fun _ => true, DmaQueue.count⟩ ncRxqueueReadCounters RxCounters.add RxCounters.received
        ⟨0, 0, 0, 0, false⟩ (fun _ _ => rfl) rfl (by rintro (_ | _ | _) q <;> rfl) queues
      have hreceivedBytes := sum_eq ⟨.regRecvB, (· ≠ .sze), DmaQueue.bytes⟩ ncRxqueueReadCounters RxCounters.add RxCounters.receivedBytes
        ⟨0, 0, 0, 0, false⟩ (fun _ _ => rfl) rfl (by rintro (_ | _ | _) q <;> rfl) queues
      have hdiscarded := sum_eq ⟨.regDisc, fun _ => true, DmaQueue.discarded⟩ ncRxqueueReadCounters RxCounters.add RxCounters.discarded
        ⟨0, 0, 0, 0, false⟩ (fun _ _ => rfl) rfl (by rintro (_ | _ | _) q <;> rfl) queues
      have hdiscardedBytes := sum_eq ⟨.regDiscB, (· ≠ .sze), DmaQueue.discardedBytes⟩ ncRxqueueReadCounters RxCounters.add RxCounters.discardedBytes
        ⟨0, 0, 0, 0, false⟩ (fun _ _ => rfl) rfl (by rintro (_ | _ | _) q <;> rfl) queues
      have hany := any_of_ne_nil hne
      intro c hc
      simp only [rxCounters, List.mem_cons, List.not_mem_nil, or_false] at hc
      unfold SumCounter.Printed printRxSums
      rw [hreceived, hreceivedBytes, hdiscarded, hdiscardedBytes, hbytes]
      rcases hc with rfl | rfl | rfl | rfl
      all_goals cases hb : queues.any fun q => q.1 ≠ .sze
      all_goals simp [hany]
  · rw [if_neg hdir, if_neg hdir]
    constructor
    · exact fun _ h => absurd h hdir
    · exact fun _ c _ => rfl

theorem total_none (c : SumCounter) (h : (l.any fun q => c.has q.1) = false) : c.total l = 0 := by
  rw [SumCounter.total, List.filter_eq_nil_iff.2]
  · rfl
  · intro q hq hhas
    exact absurd (List.any_eq_true.2 ⟨q, hq, hhas⟩) (by rw [h]; decide)

/-- The TX sums are right if there is a queue and nothing was discarded: the discarded packets are not summed up. -/
theorem txSums_right (cntr : TxCounters) :
    (∀ c ∈ txCounters, c.Printed (if dir.hasTx then selectedQueues indexRange nodes else []) (txSums dir indexRange nodes cntr)) ↔
      (dir.hasTx = true → selectedQueues indexRange nodes ≠ [] ∧ txDiscarded.total (selectedQueues indexRange nodes) = 0 ∧
        txDiscardedBytes.total (selectedQueues indexRange nodes) = 0) := by
  unfold txSums
  by_cases hdir : dir.hasTx = true
  · rw [if_pos hdir, if_pos hdir, statusLoop_eq]
    dsimp only
    have hsorted := selectedQueues_sorted indexRange nodes
    generalize selectedQueues indexRange nodes = queues at hsorted ⊢
    by_cases hne : queues = []
    · -- not even the packets are printed where no queue is read
      rw [hne]
      constructor
      · intro h
        have hsent := h ⟨.regSent, fun _ => true, DmaQueue.count⟩ List.mem_cons_self
        rw [SumCounter.Printed] at hsent
        simp [printTxSums] at hsent
      · exact fun h => absurd rfl (h hdir).1
    · have hbytes := lastRecord_eq ncTxqueueReadCounters TxCounters.haveBytes (· ≠ .sze) (by rintro (_ | _ | _) q <;> rfl)
        (by rintro (_ | _ | _) (_ | _ | _) <;> decide) hsorted hne cntr
      have hdiscard := lastRecord_eq ncTxqueueReadCounters TxCounters.haveTxDiscard (· = .calypte)
        (by rintro (_ | _ | _) q <;> rfl) (by rintro (_ | _ | _) (_ | _ | _) <;> decide) hsorted hne cntr
      have hsent := sum_eq ⟨.regSent, fun _ => true, DmaQueue.count⟩ ncTxqueueReadCounters TxCounters.add TxCounters.sent
        ⟨0, 0, 0, 0, false, false⟩ (fun _ _ => rfl) rfl (by rintro (_ | _ | _) q <;> rfl) queues
      have hsentBytes := sum_eq ⟨.regSentB, (· ≠ .sze), DmaQueue.bytes⟩ ncTxqueueReadCounters TxCounters.add TxCounters.sentBytes
        ⟨0, 0, 0, 0, false, false⟩ (fun _ _ => rfl) rfl (by rintro (_ | _ | _) q <;> rfl) queues
      have hdiscarded := foldl_field_const (fun _ _ => rfl : ∀ s c, (TxCounters.add s c).discarded = s.discarded)
        (queues.map fun q => ncTxqueueReadCounters q.1 q.2) ⟨0, 0, 0, 0, false, false⟩
      have hdiscardedBytes := foldl_field_const
        (fun _ _ => rfl : ∀ s c, (TxCounters.add s c).discardedBytes = s.discardedBytes)
        (queues.map fun q => ncTxqueueReadCounters q.1 q.2) ⟨0, 0, 0, 0, false, false⟩
      have hany := any_of_ne_nil hne
      unfold printTxSums
      rw [hsent, hsentBytes, hdiscarded, hdiscardedBytes, hbytes, hdiscard]
      -- the discard counters are printed for a Calypte queue, but `add` leaves them as they are
      cases hcalypte : queues.any fun q => decide (q.1 = .calypte) with
      | false =>
        constructor
        · exact fun _ _ => ⟨hne, total_none txDiscarded hcalypte, total_none txDiscardedBytes hcalypte⟩
        · intro _ c hc
          simp only [txCounters, List.mem_cons, List.not_mem_nil, or_false] at hc
          unfold SumCounter.Printed
          rcases hc with rfl | rfl | rfl | rfl
          all_goals cases hb : queues.any fun q => q.1 ≠ .sze
          all_goals simp [hany, hcalypte, txDiscarded, txDiscardedBytes]
      | true =>
        have hb : (queues.any fun q => decide (q.1 ≠ .sze)) = true := by
          obtain ⟨q, hq, htype⟩ := List.any_eq_true.1 hcalypte
          refine List.any_eq_true.2 ⟨q, hq, ?_⟩
          rw [of_decide_eq_true htype]
          rfl
        rw [hb]
        constructor
        · intro h _
          have hdisc := h txDiscarded (by simp [txCounters])
          have hdiscBytes := h txDiscardedBytes (by simp [txCounters])
          rw [SumCounter.Printed, show (queues.any fun q => txDiscarded.has q.1) = true from hcalypte] at hdisc
          rw [SumCounter.Printed, show (queues.any fun q => txDiscardedBytes.has q.1) = true from hcalypte]
            at hdiscBytes
          exact ⟨hne, (List.singleton_inj.1 hdisc).symm, (List.singleton_inj.1 hdiscBytes).symm⟩
        · intro h c hc
          obtain ⟨-, hzero, hzeroBytes⟩ := h hdir
          simp only [txCounters, List.mem_cons, List.not_mem_nil, or_false] at hc
          unfold SumCounter.Printed
          rcases hc with rfl | rfl | rfl | rfl
          · exact (if_pos hany).symm
          · exact (if_pos hb).symm
          · rw [show (queues.any fun q => txDiscarded.has q.1) = true from hcalypte, hzero]
            rfl
          · rw [show (queues.any fun q => txDiscardedBytes.has q.1) = true from hcalypte, hzeroBytes]
            rfl
  · rw [if_neg hdir, if_neg hdir]
    constructor
    · exact fun _ h => absurd h hdir
    · exact fun _ c _ => rfl

end

/-- The sums are right if and only if a queue is selected in every direction that is asked for, and the selected TX queues that can discard
have discarded nothing, modulo 2^64. -/
theorem dmaSums_right_iff (dir : Direction) (indexRange : ListRange) (rx tx : DmaQueues) (cntrRx : RxCounters) (cntrTx : TxCounters) :
    SumsRight dir indexRange rx tx cntrRx cntrTx ↔
      (dir.hasRx = true → selectedQueues indexRange rx ≠ []) ∧
        (dir.hasTx = true → selectedQueues indexRange tx ≠ [] ∧ txDiscarded.total (selectedQueues indexRange tx) = 0 ∧
          txDiscardedBytes.total (selectedQueues indexRange tx) = 0) := by
  unfold SumsRight
  rw [rxSums_right, txSums_right]

/-- The packet that a Calypte queue has discarded is not in the sum. -/
theorem discarded_not_summed : ¬SumsRight .tx [] (fun _ => [])
    (fun type => if type = .calypte then [⟨true, 5, 320, 1, 64⟩] else []) ⟨0, 0, 0, 0, false⟩ ⟨0, 0, 0, 0, false, false⟩ := by
  intro h
  have hdisc := h.2 txDiscarded (by simp [txCounters])
  have hprinted : ((txSums .tx [] (fun type => if type = .calypte then [⟨true, 5, 320, 1, 64⟩] else []) ⟨0, 0, 0, 0, false, false⟩).filter
      fun p => p.1 = SumItem.regDisc).map Prod.snd = [0] := rfl
  rw [SumCounter.Printed, show txDiscarded.item = .regDisc from rfl, hprinted] at hdisc
  exact absurd hdisc (by decide)

end NdkSw.Tools

/-
Sending with a copy (`ndp_core.h`): the packets of the caller are described to the queue once more, in an array from `malloc`, and
what the queue grants is filled from the caller's buffers. The queue is a parameter; a get may grant any part of what is asked for.
-/
import NdkSw.Ndp.Queue

namespace NdkSw.Ndp

/-! ## Data model -/

/-- A TX queue: how many of the descriptors it grants at each get, and what the header areas of its packets hold before. -/
structure TxQueue where
  get : Nat → List NdpPacket → Nat
  get_le : ∀ k ds, get k ds ≤ ds.length
  stale : Nat → Nat → U8

/-- A packet as it leaves the queue. -/
structure TxFrame where
  headerLength : U16
  flags : U16
  header : List U8
  data : List U8
  deriving DecidableEq, Repr

/-- `n` bytes of the caller's memory. -/
def memBytes (mem : Int → U8) (p : Int) (n : Nat) : List U8 := (List.range n).map fun j => mem (p + j)

def ndpTxBurstCopyAttempts : Nat := 1000

/-- The array `our_packets`, from what `malloc` returned. -/
def ourPackets (heap packets : Nat → NdpPacket) (i : Nat) : NdpPacket :=
  { heap i with headerLength := 0, dataLength := (packets i).dataLength }

/-- The descriptors from `sent` on. -/
def asked (heap packets : Nat → NdpPacket) (count sent : Nat) : List NdpPacket :=
  (List.range (count - sent)).map fun i => ourPackets heap packets (sent + i)

/-! ## Copy -/

section

variable (q : TxQueue) (mem : Int → U8) (heap packets : Nat → NdpPacket) (count : Nat)

/-- Packet `i` behind `memcpy`: of the caller's packet, only the data is copied. -/
def copiedFrame (i : Nat) : TxFrame :=
  let p := ourPackets heap packets i
  { headerLength := p.headerLength
    flags := p.flags
    header := (List.range p.headerLength.toNat).map (q.stale i)
    data := memBytes mem (packets i).data p.dataLength.toNat }

/-- The loop of `ndp_tx_burst_copy` from attempt `k` on, with the attempts left. -/
def copyLoop : Nat → Nat → Nat → List TxFrame → Nat × List TxFrame
  | 0, _, sent, frames => (sent, frames)
  | left + 1, k, sent, frames =>
    if sent < count then
      let n := q.get k (asked heap packets count sent)
      let frames := frames ++ (List.range n).map fun i => copiedFrame q mem heap packets (sent + i)
      copyLoop left (k + 1) (sent + n) frames
    else (sent, frames)

/-- `ndp_tx_burst_copy`: its result, and what leaves the queue; `heap` is `none` when `malloc` fails. -/
def ndpTxBurstCopy : Option (Nat → NdpPacket) → Nat × List TxFrame
  | none => (0, [])
  | some heap => copyLoop q mem heap packets count ndpTxBurstCopyAttempts 0 0 []

/-! ## What is asked of it -/

/-- The caller's packet, in full. -/
def callerFrame (p : NdpPacket) : TxFrame :=
  { headerLength := p.headerLength
    flags := p.flags
    header := memBytes mem p.header p.headerLength.toNat
    data := memBytes mem p.data p.dataLength.toNat }

/-- Just the first packets leave the queue, as many as are returned, in order and in full. -/
def Copied (r : Nat × List TxFrame) : Prop := r.2 = (List.range r.1).map fun i => callerFrame mem (packets i)

/-- How many packets the queue has granted after `k` gets. -/
def TxQueue.granted : Nat → Nat
  | 0 => 0
  | k + 1 =>
    let sent := TxQueue.granted k
    if sent < count then sent + q.get k (asked heap packets count sent) else sent

/-- The condition on a packet: it has no metadata, and its flags are what `malloc` has left there. -/
def Bare (heap : Nat → NdpPacket) (i : Nat) : Prop := (packets i).headerLength = 0 ∧ (heap i).flags = (packets i).flags

end

instance (packets heap : Nat → NdpPacket) (i : Nat) : Decidable (Bare packets heap i) := inferInstanceAs (Decidable (_ ∧ _))

/-! ## The loop -/

section

variable {q : TxQueue} {mem : Int → U8} {heap packets : Nat → NdpPacket} {count : Nat}

theorem granted_succ (k : Nat) : q.granted heap packets count (k + 1) =
    if q.granted heap packets count k < count then
      q.granted heap packets count k + q.get k (asked heap packets count (q.granted heap packets count k))
    else q.granted heap packets count k := rfl

theorem granted_full {k : Nat} (h : ¬q.granted heap packets count k < count) (j : Nat) :
    q.granted heap packets count (k + j) = q.granted heap packets count k := by
  induction j with
  | zero => rfl
  | succ j ih =>
    have hfull : ¬q.granted heap packets count (k + j) < count := by rwa [ih]
    show q.granted heap packets count (k + j + 1) = _
    rw [granted_succ, if_neg hfull, ih]

/-- The frames of the first packets. -/
def framesUpTo (q : TxQueue) (mem : Int → U8) (heap packets : Nat → NdpPacket) (n : Nat) : List TxFrame :=
  (List.range n).map fun i => copiedFrame q mem heap packets i

theorem framesUpTo_add (n m : Nat) : framesUpTo q mem heap packets (n + m) =
    framesUpTo q mem heap packets n ++ (List.range m).map fun i => copiedFrame q mem heap packets (n + i) := by
  unfold framesUpTo
  rw [List.range_add, List.map_append, List.map_map]
  rfl

/-- The loop goes from the state after `k` gets to the state after all of them. -/
theorem copyLoop_eq (left : Nat) : ∀ k, copyLoop q mem heap packets count left k (q.granted heap packets count k)
      (framesUpTo q mem heap packets (q.granted heap packets count k)) =
    (q.granted heap packets count (k + left), framesUpTo q mem heap packets (q.granted heap packets count (k + left))) := by
  induction left with
  | zero => exact fun _ => rfl
  | succ left ih =>
    intro k
    rw [copyLoop]
    by_cases hlt : q.granted heap packets count k < count
    · have hstep : q.granted heap packets count (k + 1) =
          q.granted heap packets count k + q.get k (asked heap packets count (q.granted heap packets count k)) := by
        rw [granted_succ, if_pos hlt]
      rw [if_pos hlt]
      dsimp only
      rw [← framesUpTo_add, ← hstep, ih (k + 1), Nat.add_assoc, Nat.add_comm 1 left]
    · rw [if_neg hlt, granted_full hlt]

theorem ndpTxBurstCopy_eq : ndpTxBurstCopy q mem packets count (some heap) =
    (q.granted heap packets count ndpTxBurstCopyAttempts,
      framesUpTo q mem heap packets (q.granted heap packets count ndpTxBurstCopyAttempts)) := by
  have hloop : ndpTxBurstCopy q mem packets count (some heap) = _ := copyLoop_eq ndpTxBurstCopyAttempts 0
  rwa [Nat.zero_add] at hloop

theorem copiedFrame_eq_iff (i : Nat) : copiedFrame q mem heap packets i = callerFrame mem (packets i) ↔ Bare packets heap i := by
  unfold copiedFrame callerFrame ourPackets Bare
  rw [TxFrame.mk.injEq]
  constructor
  · rintro ⟨hlen, hflags, -, -⟩
    exact ⟨hlen.symm, hflags⟩
  · rintro ⟨hlen, hflags⟩
    rw [hlen]
    exact ⟨rfl, hflags, rfl, rfl⟩

theorem copied_iff : Copied mem packets (ndpTxBurstCopy q mem packets count (some heap)) ↔
    ∀ i < q.granted heap packets count ndpTxBurstCopyAttempts, Bare packets heap i := by
  rw [ndpTxBurstCopy_eq, Copied, framesUpTo, List.map_inj_left]
  exact forall_congr' fun i => by rw [List.mem_range, copiedFrame_eq_iff]

end

/-- For every list of packets and every queue: what leaves the queue is the first packets, as many as are returned, if and only if
those that the queue grants in its gets have no metadata, and the flags that `malloc` has left. -/
theorem tx_burst_copy_iff (q : TxQueue) (mem : Int → U8) (packets : Nat → NdpPacket) (count : Nat)
    (heap : Option (Nat → NdpPacket)) : Copied mem packets (ndpTxBurstCopy q mem packets count heap) ↔
      ∀ ours ∈ heap, ∀ i < q.granted ours packets count ndpTxBurstCopyAttempts, Bare packets ours i := by
  cases heap with
  | none => exact iff_of_true rfl nofun
  | some ours => simpa using copied_iff

/-- A queue that grants everything at its first get. -/
def openQueue : TxQueue := ⟨fun _ ds => ds.length, fun _ _ => le_rfl, fun _ _ => 0xAA⟩

/-- A packet of two bytes with four bytes of metadata and the header id 1 goes out without either. -/
theorem metadata_lost :
    ¬Copied (fun _ => 7) (fun _ => ⟨0, 100, 2, 4, 1⟩)
      (ndpTxBurstCopy openQueue (fun _ => 7) (fun _ => ⟨0, 100, 2, 4, 1⟩) 1 (some fun _ => ⟨0, 0, 0, 0, 0⟩)) ∧
    ndpTxBurstCopy openQueue (fun _ => 7) (fun _ => ⟨0, 100, 2, 4, 1⟩) 1 (some fun _ => ⟨0, 0, 0, 0, 0⟩) = (1, [⟨0, 0, [], [7, 7]⟩]) := by
  have hgranted : openQueue.granted (fun _ => ⟨0, 0, 0, 0, 0⟩) (fun _ => ⟨0, 100, 2, 4, 1⟩) 1 ndpTxBurstCopyAttempts = 1 :=
    granted_full (k := 1) (by decide) 999
  constructor
  · rw [copied_iff, hgranted]
    exact fun h => absurd (h 0 Nat.one_pos).1 (by decide)
  · rw [ndpTxBurstCopy_eq, hgranted]
    rfl

end NdkSw.Ndp

/-
The walk of `nc_ndp_v1_rx_burst_get` (`ndp_rx.h`) over any bytes, with a `_ndp_queue_sync` that may do anything at any call: what
the header checks are worth, and what a sync that fails in the middle of a burst takes with it.
-/
import NdkSw.Ndp.RxV1
import NdkSw.Ndp.TxV1Inv

namespace NdkSw.Ndp.V1Walk

section Walk

/-! ## The walk -/

variable {S : Type} (rd : S → Int → U8) (sync : Nat → S → SubscriptionSync → S × SubscriptionSync × Int)

/-- `nc_ndp_v1_rx_lock` over one call of `_ndp_queue_sync`. -/
def lock (sync : S → SubscriptionSync → S × SubscriptionSync × Int) (s : S) (q : QueueV1) : S × QueueV1 × Int :=
  match sync s q.sync with
  | (s, sync, ret) =>
    let q := { q with sync }
    if ret ≠ 0 then (s, q, ret)
    else
      (s, { q with
        data := q.buffer + sync.swptr.toNat + q.swptr.toNat
        bytes := (sync.hwptr - sync.swptr - q.swptr) &&& q.mask
        total := (sync.hwptr - sync.swptr) &&& q.mask }, 0)

/-- A packet that a get has filled in: the bytes that were locked, the queue as the loop found the packet, its header, and the bytes
that the loop went on by. -/
structure Visit where
  lo : Int
  hi : Int
  q : QueueV1
  hdr : V1PacketHdr
  packet : NdpPacket
  size : U16

/-- What one turn of the loop ends with: the get is over, or it has filled in a packet. -/
inductive Turn (S : Type)
  | stop (s : S) (q : QueueV1) (err : Option V1RxError)
  | next (s : S) (v : Visit)

/-- The bytes that the queue has left. -/
def locked (q : QueueV1) : Int × Int := (q.data, q.data + q.bytes.toNat)

/-- One turn; `w` are the bytes locked so far. -/
def turn (sync : S → SubscriptionSync → S × SubscriptionSync × Int) (s : S) (q : QueueV1) (w : Int × Int) : Turn S :=
  match (if q.bytes = 0 then lock sync s q else (s, q, 0)) with
  | (s, q', ret) =>
    if ret ≠ 0 then .stop s q' (some .sync)
    else if q'.bytes = 0 then .stop s q' none
    else
      let w := if q.bytes = 0 then locked q' else w
      let hdr := v1HdrAt (rd s) q'.data
      match v1RxPacket hdr q'.data q'.bytes with
      | .error err => .stop s q' (some err)
      | .ok (packet, size) => .next s { lo := w.1, hi := w.2, q := q', hdr, packet, size }

/-- Where a get stands after some turns. -/
structure Walked (S : Type) where
  s : S
  q : QueueV1
  visits : List Visit
  err : Option V1RxError

/-- At most `count` turns from the `n`-th on. -/
def walk : Nat → Nat → S → QueueV1 → Int × Int → Walked S
  | _, 0, s, q, _ => ⟨s, q, [], none⟩
  | n, count + 1, s, q, w =>
    match turn rd (sync n) s q w with
    | .stop s q err => ⟨s, q, [], err⟩
    | .next s v =>
      let r := walk (n + 1) count s (v.q.advance v.size) (v.lo, v.hi)
      { r with visits := v :: r.visits }

/-- `nc_ndp_v1_rx_burst_get`; `count` is an `unsigned`. -/
def burstGet (s : S) (q : QueueV1) (count : U32) : Walked S := walk rd sync 0 count.toNat s q (locked q)

/-- The packets that the return value counts. -/
def Walked.returned (r : Walked S) : List Visit := if r.err = none then r.visits else []

end Walk

theorem v1RxRounds_eq {C E : Type} (ops : ChannelOps C E) (rd : C → Int → U8) (e : Nat → E) (i : Nat) :
    ∀ (count n : Nat) (ch : Channel C) (q : QueueV1) (w : Int × Int), v1RxRounds ops rd e i n count ch q =
      let r := walk (fun ch => rd ch.ctrl) (fun n ch => ndpSubscriptionSync ops .rx (e n) ch i) n count ch q w
      (r.s, r.q, r.visits.map Visit.packet, r.err) := by
  intro count
  induction count with
  | zero => intros; rfl
  | succ count ih =>
    intro n ch q w
    have hlock : (if q.bytes = 0 then ncNdpV1RxLock ops (e n) i ch q else (ch, q, 0)) =
        if q.bytes = 0 then lock (fun ch => ndpSubscriptionSync ops .rx (e n) ch i) ch q else (ch, q, 0) := rfl
    rw [v1RxRounds, walk, turn, hlock]
    generalize (if q.bytes = 0 then lock (fun ch => ndpSubscriptionSync ops .rx (e n) ch i) ch q else (ch, q, 0)) = r
    obtain ⟨ch', q', ret⟩ := r
    dsimp only
    split
    · rfl
    split
    · rfl
    cases v1RxPacket (v1HdrAt (rd ch'.ctrl) q'.data) q'.data q'.bytes with
    | error err => rfl
    | ok r =>
      dsimp only
      rw [ih (n + 1) ch' (q'.advance r.2)]
      rfl

/-! ## The checks of one packet -/

/-- What the caller of a get relies on for one packet: header and data are inside the locked bytes, the length of the data is the
difference that it is meant to be, and the loop goes on, by no more than is left. -/
structure Visit.Inside (v : Visit) : Prop where
  header : v.lo ≤ v.packet.header ∧ v.packet.header + v.packet.headerLength.toNat ≤ v.hi
  data : v.lo ≤ v.packet.data ∧ v.packet.data + v.packet.dataLength.toNat ≤ v.hi
  length : (v.packet.dataLength.toNat : Int) = v.hdr.packetSize.toNat - (v.packet.data - v.q.data)
  progress : 0 < v.size.toNat ∧ v.size.toNat ≤ v.q.bytes.toNat

instance (v : Visit) : Decidable v.Inside :=
  decidable_of_iff ((v.lo ≤ v.packet.header ∧ v.packet.header + v.packet.headerLength.toNat ≤ v.hi) ∧
      (v.lo ≤ v.packet.data ∧ v.packet.data + v.packet.dataLength.toNat ≤ v.hi) ∧
      (v.packet.dataLength.toNat : Int) = v.hdr.packetSize.toNat - (v.packet.data - v.q.data) ∧
      0 < v.size.toNat ∧ v.size.toNat ≤ v.q.bytes.toNat)
    ⟨fun ⟨h1, h2, h3, h4⟩ => ⟨h1, h2, h3, h4⟩, fun h => ⟨h.header, h.data, h.length, h.progress⟩⟩

/-- The sizes of the header are right also after they are aligned. -/
structure Visit.Aligned (v : Visit) : Prop where
  area : (v.hdr.headerSize.toNat + 11) / 8 * 8 ≤ v.hdr.packetSize.toNat
  short : v.hdr.packetSize.toNat ≤ 65528
  whole : (v.hdr.packetSize.toNat + 7) / 8 * 8 ≤ v.q.bytes.toNat

/-- The packet is what the loop makes of the header. -/
def Visit.Made (v : Visit) : Prop := v1RxPacket v.hdr v.q.data v.q.bytes = .ok (v.packet, v.size)

/-- The rest of the locked bytes is what the queue has left. -/
def Visit.InLock (v : Visit) : Prop := v.lo ≤ v.q.data ∧ v.q.data + v.q.bytes.toNat = v.hi

variable {v : Visit}

/-- What the checks let through: they compare the sizes before they are aligned to 8 and cut to 16 bits. -/
theorem Visit.Made.checked (h : v.Made) : v.hdr.headerSize.toNat + 4 ≤ v.hdr.packetSize.toNat ∧
    v.hdr.packetSize.toNat ≤ v.q.bytes.toNat ∧ v.packet.header = v.q.data + 4 ∧ v.packet.headerLength = v.hdr.headerSize ∧
    v.packet.data = v.q.data + ((v.hdr.headerSize.toNat + 11) / 8 * 8 % 2 ^ 16 : Nat) ∧
    v.packet.dataLength.toNat = (v.hdr.packetSize.toNat + 2 ^ 32 - (v.hdr.headerSize.toNat + 11) / 8 * 8 % 2 ^ 16) % 2 ^ 32 ∧
    v.size.toNat = (v.hdr.packetSize.toNat + 7) / 8 * 8 % 2 ^ 16 := by
  unfold Visit.Made v1RxPacket at h
  split at h
  · cases h
  next hm =>
  split at h
  · cases h
  next hl =>
  obtain ⟨hp, hs⟩ := Prod.mk.inj (Except.ok.inj h)
  have hps := v.hdr.packetSize.isLt
  have hhs := v.hdr.headerSize.isLt
  have harea : ((align8 (v.hdr.headerSize.setWidth 32 + 4)).setWidth 16 : U16).toNat = (v.hdr.headerSize.toNat + 11) / 8 * 8 % 2 ^ 16 := by
    have hsum : (v.hdr.headerSize.setWidth 32 + 4 : U32).toNat = v.hdr.headerSize.toNat + 4 := by
      rw [BitVec.toNat_add, BitVec.toNat_setWidth, show (4 : U32).toNat = 4 from rfl]
      omega
    rw [BitVec.toNat_setWidth, toNat_align8, hsum]
    omega
  have hpad : ((align8 (v.hdr.packetSize.setWidth 32)).setWidth 16 : U16).toNat = (v.hdr.packetSize.toNat + 7) / 8 * 8 % 2 ^ 16 := by
    rw [BitVec.toNat_setWidth, toNat_align8, BitVec.toNat_setWidth]
    omega
  have hroom : v.hdr.headerSize.toNat + 4 ≤ v.hdr.packetSize.toNat := by
    have := not_lt.1 (not_or.1 hm).2
    simp only [ndpPacketHeaderSize] at this
    omega
  have hin : v.hdr.packetSize.toNat ≤ v.q.bytes.toNat := by
    rw [gt_iff_lt, BitVec.lt_def, BitVec.toNat_setWidth] at hl
    omega
  refine ⟨hroom, hin, ?_, ?_, ?_, ?_, ?_⟩
  · rw [← hp]
    rfl
  · rw [← hp]
  · rw [← hp, ← harea]
  · rw [← hp, ← harea]
    generalize ((align8 (v.hdr.headerSize.setWidth 32 + 4)).setWidth 16 : U16) = area
    have harealt := area.isLt
    show (v.hdr.packetSize.setWidth 32 - area.setWidth 32 : U32).toNat = _
    rw [BitVec.toNat_sub, BitVec.toNat_setWidth, BitVec.toNat_setWidth]
    omega
  · rw [← hs, hpad]

theorem Visit.inside_iff (hv : v.Made) (hw : v.InLock) : v.Inside ↔ v.Aligned := by
  obtain ⟨hroom, hin, hheader, hheaderLength, hdata, hdataLength, hsize⟩ := hv.checked
  obtain ⟨hlo, hhi⟩ := hw
  have hps := v.hdr.packetSize.isLt
  have hbytes := v.q.bytes.isLt
  constructor
  · intro h
    have hlength := h.length
    obtain ⟨hpos, hle⟩ := h.progress
    rw [hdata, hdataLength] at hlength
    rw [hsize] at hpos hle
    have hshort : v.hdr.packetSize.toNat ≤ 65528 := by omega
    exact ⟨by omega, hshort, by omega⟩
  · rintro ⟨harea, hshort, hwhole⟩
    refine ⟨⟨?_, ?_⟩, ⟨?_, ?_⟩, ?_, ?_, ?_⟩
    · rw [hheader]
      omega
    · rw [hheader, hheaderLength]
      omega
    · rw [hdata]
      omega
    · rw [hdata, hdataLength]
      omega
    · rw [hdata, hdataLength]
      omega
    · rw [hsize]
      omega
    · rw [hsize]
      omega

theorem Visit.Aligned.rest (h : v.Aligned) (hv : v.Made) (hw : v.InLock) :
    v.lo ≤ (v.q.advance v.size).data ∧ (v.q.advance v.size).data + (v.q.advance v.size).bytes.toNat = v.hi := by
  obtain ⟨-, -, -, -, -, -, hsize⟩ := hv.checked
  obtain ⟨hlo, hhi⟩ := hw
  have hshort := h.short
  have hwhole := h.whole
  have hbytes := v.q.bytes.isLt
  have hsub : (v.q.bytes - v.size.setWidth 64).toNat = v.q.bytes.toNat - v.size.toNat := by
    rw [BitVec.toNat_sub, BitVec.toNat_setWidth]
    omega
  show v.lo ≤ v.q.data + v.size.toNat ∧ v.q.data + v.size.toNat + ((v.q.bytes - v.size.setWidth 64).toNat : Int) = v.hi
  rw [hsub]
  omega

/-! ## The checks of a whole get -/

section Run

variable {S : Type} (rd : S → Int → U8) (sync : Nat → S → SubscriptionSync → S × SubscriptionSync × Int)

theorem turn_next {sync : S → SubscriptionSync → S × SubscriptionSync × Int} {s s' : S} {q : QueueV1} {w : Int × Int}
    (hw : w.1 ≤ q.data ∧ q.data + q.bytes.toNat = w.2) (h : turn rd sync s q w = .next s' v) : v.Made ∧ v.InLock := by
  unfold turn at h
  by_cases hq : q.bytes = 0
  · rw [if_pos hq] at h
    split at h
    split at h
    · cases h
    split at h
    · cases h
    dsimp only at h
    split at h
    · cases h
    next hp =>
      cases h
      exact ⟨hp, le_rfl, rfl⟩
  · rw [if_neg hq] at h
    dsimp only at h
    rw [if_neg (not_not.2 rfl), if_neg hq, if_neg hq] at h
    split at h
    · cases h
    next hp =>
      cases h
      exact ⟨hp, hw⟩

theorem walk_inside_iff : ∀ (count n : Nat) (s : S) (q : QueueV1) (w : Int × Int), w.1 ≤ q.data ∧ q.data + q.bytes.toNat = w.2 →
    ((∀ v ∈ (walk rd sync n count s q w).visits, v.Inside) ↔ ∀ v ∈ (walk rd sync n count s q w).visits, v.Aligned) := by
  intro count
  induction count with
  | zero =>
    intro n s q w _
    exact iff_of_true (fun _ hv => absurd hv List.not_mem_nil) fun _ hv => absurd hv List.not_mem_nil
  | succ count ih =>
    intro n s q w hw
    rw [walk]
    cases hturn : turn rd (sync n) s q w with
    | stop s q err => exact iff_of_true (fun _ hv => absurd hv List.not_mem_nil) fun _ hv => absurd hv List.not_mem_nil
    | next s v =>
      obtain ⟨hv, hin⟩ := turn_next rd hw hturn
      dsimp only
      rw [List.forall_mem_cons, List.forall_mem_cons, Visit.inside_iff hv hin]
      refine and_congr_right fun ha => ?_
      exact ih (n + 1) s (v.q.advance v.size) (v.lo, v.hi) (ha.rest hv hin)

/-- The packets of a get are good exactly when the aligned sizes of every header that it accepts fit. -/
theorem header_checks_sufficient_iff (s : S) (q : QueueV1) (count : U32) :
    (∀ v ∈ (burstGet rd sync s q count).visits, v.Inside) ↔ ∀ v ∈ (burstGet rd sync s q count).visits, v.Aligned :=
  walk_inside_iff rd sync count.toNat 0 s q (locked q) ⟨le_rfl, rfl⟩

end Run

/-- A queue with `bytes` locked bytes at address 0. -/
def lockedQueue (bytes : U64) : QueueV1 := { ncNdpV1OpenQueue 0 64 with bytes, total := bytes }

/-- A sync that fails. -/
def failing (_ : Nat) (_ : Unit) (sync : SubscriptionSync) : Unit × SubscriptionSync × Int := ((), sync, eBadf)

/-- A header of a packet of 5 bytes, one of them header: its data would begin behind its end. -/
def tinyHeader : Unit → Int → U8 := fun _ addr => if addr = 0 then 5 else if addr = 2 then 1 else 0

theorem tiny_packet_wraps : ((burstGet tinyHeader failing () (lockedQueue 8) 1).visits.map fun v => v.packet.dataLength.toNat) =
    [2 ^ 32 - 3] ∧ ¬∀ v ∈ (burstGet tinyHeader failing () (lockedQueue 8) 1).visits, v.Inside := by
  decide +kernel

/-! ## A sync that fails -/

section Failing

variable {S : Type} (rd : S → Int → U8) (sync : Nat → S → SubscriptionSync → S × SubscriptionSync × Int)

/-- The bytes that the pointers have gone on by. -/
def taken (vs : List Visit) : Nat := (vs.map fun v => v.size.toNat).sum

@[simp] theorem taken_cons (v : Visit) (vs : List Visit) : taken (v :: vs) = v.size.toNat + taken vs := rfl

/-- What the queue records as consumed by the get is what it has returned. After a malformed header or too short locked space the
queue is closed. -/
def Kept (q : QueueV1) (r : Walked S) : Prop :=
  r.err = none ∨ r.err = some .sync → r.q.swptr = q.swptr + BitVec.ofNat 64 (taken r.returned)

/-- Turn `k` is reached out of locked bytes and its sync fails. -/
structure FailsAt (s : S) (q : QueueV1) (w : Int × Int) (n k : Nat) : Prop where
  reached : (walk rd sync n k s q w).err = none
  turns : (walk rd sync n k s q w).visits.length = k
  empty : (walk rd sync n k s q w).q.bytes = 0
  fails : (lock (sync (n + k)) (walk rd sync n k s q w).s (walk rd sync n k s q w).q).2.2 ≠ 0

/-- A sync fails only as long as the get has gone on by no bytes. -/
def FailsEarly (s : S) (q : QueueV1) (w : Int × Int) (n count : Nat) : Prop :=
  ∀ k < count, FailsAt rd sync s q w n k → ∀ v ∈ (walk rd sync n k s q w).visits, v.size = 0

theorem lock_swptr (sync : S → SubscriptionSync → S × SubscriptionSync × Int) (s : S) (q : QueueV1) :
    (lock sync s q).2.1.swptr = q.swptr := by
  unfold lock
  dsimp only
  split
  · rfl
  · rfl

theorem v1RxPacket_error {hdr : V1PacketHdr} {data : Int} {bytes : U64} {err : V1RxError} (h : v1RxPacket hdr data bytes = .error err) :
    err ≠ .sync := by
  unfold v1RxPacket at h
  split at h
  · cases h
    exact nofun
  split at h
  · cases h
    exact nofun
  · cases h

theorem turn_fails {sync : S → SubscriptionSync → S × SubscriptionSync × Int} {s : S} {q : QueueV1} (w : Int × Int) (hq : q.bytes = 0)
    (hl : (lock sync s q).2.2 ≠ 0) : ∃ s' q', turn rd sync s q w = .stop s' q' (some .sync) := by
  unfold turn
  rw [if_pos hq]
  exact ⟨_, _, if_pos hl⟩

/-- No turn moves `swptr`; the loop does, behind a packet. -/
theorem turn_swptr (sync : S → SubscriptionSync → S × SubscriptionSync × Int) {s : S} {q : QueueV1} {w : Int × Int} :
    match turn rd sync s q w with
    | .stop _ q' err => q'.swptr = q.swptr ∧ (err = some .sync → q.bytes = 0 ∧ (lock sync s q).2.2 ≠ 0)
    | .next _ v => v.q.swptr = q.swptr := by
  have hr : ∀ r : S × QueueV1 × Int, r = (if q.bytes = 0 then lock sync s q else (s, q, 0)) →
      r.2.1.swptr = q.swptr ∧ (r.2.2 ≠ 0 → q.bytes = 0 ∧ (lock sync s q).2.2 ≠ 0) := fun r hr => by
    by_cases hq : q.bytes = 0
    · rw [if_pos hq] at hr
      rw [hr]
      exact ⟨lock_swptr sync s q, fun h => ⟨hq, h⟩⟩
    · rw [if_neg hq] at hr
      rw [hr]
      exact ⟨rfl, fun h => absurd rfl h⟩
  unfold turn
  obtain ⟨hswptr, hfail⟩ := hr _ rfl
  generalize (if q.bytes = 0 then lock sync s q else (s, q, 0)) = r at hswptr hfail
  dsimp only
  by_cases hret : r.2.2 = 0
  · rw [if_neg (not_not.2 hret)]
    by_cases hq : r.2.1.bytes = 0
    · rw [if_pos hq]
      exact ⟨hswptr, nofun⟩
    · rw [if_neg hq]
      cases hp : v1RxPacket (v1HdrAt (rd r.1) r.2.1.data) r.2.1.data r.2.1.bytes with
      | error err => exact ⟨hswptr, fun h => absurd (Option.some.inj h) (v1RxPacket_error hp)⟩
      | ok p => exact hswptr
  · rw [if_pos hret]
    exact ⟨hswptr, fun _ => hfail hret⟩

theorem walk_swptr : ∀ (count n : Nat) (s : S) (q : QueueV1) (w : Int × Int),
    (walk rd sync n count s q w).q.swptr = q.swptr + BitVec.ofNat 64 (taken (walk rd sync n count s q w).visits) := by
  intro count
  induction count with
  | zero =>
    intro n s q w
    simp [walk, taken]
  | succ count ih =>
    intro n s q w
    have hturn := turn_swptr rd (sync n) (s := s) (q := q) (w := w)
    rw [walk]
    cases ht : turn rd (sync n) s q w with
    | stop s' q' err =>
      rw [ht] at hturn
      simp [taken, hturn.1]
    | next s' v =>
      rw [ht] at hturn
      dsimp only at hturn ⊢
      rw [ih, taken_cons]
      show v.q.swptr + v.size.setWidth 64 + _ = _
      rw [hturn, BitVec.ofNat_add, ← BitVec.ofNat_toNat, BitVec.add_assoc]

theorem length_visits_le : ∀ (count n : Nat) (s : S) (q : QueueV1) (w : Int × Int), (walk rd sync n count s q w).visits.length ≤ count := by
  intro count
  induction count with
  | zero =>
    intro n s q w
    exact le_rfl
  | succ count ih =>
    intro n s q w
    rw [walk]
    cases turn rd (sync n) s q w with
    | stop s' q' err => exact Nat.zero_le _
    | next s' v => exact Nat.succ_le_succ (ih ..)

theorem taken_le (vs : List Visit) : taken vs ≤ vs.length * (2 ^ 16 - 1) := by
  induction vs with
  | nil => exact le_rfl
  | cons v vs ih =>
    have hv := v.size.isLt
    rw [taken_cons, List.length_cons]
    omega

theorem taken_eq_zero_iff (vs : List Visit) : taken vs = 0 ↔ ∀ v ∈ vs, v.size = 0 := by
  unfold taken
  rw [List.sum_eq_zero_iff]
  simp only [List.mem_map, forall_exists_index, and_imp, forall_apply_eq_imp_iff₂]
  exact forall₂_congr fun v _ => ⟨fun h => BitVec.eq_of_toNat_eq h, fun h => congrArg BitVec.toNat h⟩

section Shift

variable {rd sync} {s s' : S} {q : QueueV1} {w : Int × Int} {v : Visit} {n : Nat}

theorem failsAt_succ (h : turn rd (sync n) s q w = .next s' v) (k : Nat) : FailsAt rd sync s q w n (k + 1) ↔
    FailsAt rd sync s' (v.q.advance v.size) (v.lo, v.hi) (n + 1) k := by
  have hwalk : walk rd sync n (k + 1) s q w = { walk rd sync (n + 1) k s' (v.q.advance v.size) (v.lo, v.hi) with
      visits := v :: (walk rd sync (n + 1) k s' (v.q.advance v.size) (v.lo, v.hi)).visits } := by
    rw [walk, h]
  have hn : n + (k + 1) = n + 1 + k := by omega
  constructor
  · rintro ⟨h1, h2, h3, h4⟩
    rw [hwalk] at h1 h2 h3 h4
    rw [hn] at h4
    exact ⟨h1, Nat.succ.inj h2, h3, h4⟩
  · rintro ⟨h1, h2, h3, h4⟩
    rw [← hn] at h4
    exact ⟨hwalk ▸ h1, hwalk ▸ congrArg Nat.succ h2, hwalk ▸ h3, hwalk ▸ h4⟩

theorem not_failsAt_succ {q' : QueueV1} {err : Option V1RxError} (h : turn rd (sync n) s q w = .stop s' q' err) (k : Nat) :
    ¬FailsAt rd sync s q w n (k + 1) := by
  rintro ⟨-, h2, -, -⟩
  rw [walk, h] at h2
  cases h2

end Shift

theorem FailsAt.walk : ∀ {k count n : Nat} {s : S} {q : QueueV1} {w : Int × Int}, k < count → FailsAt rd sync s q w n k →
    (walk rd sync n count s q w).err = some .sync ∧ (walk rd sync n count s q w).visits = (V1Walk.walk rd sync n k s q w).visits := by
  intro k
  induction k with
  | zero =>
    intro count n s q w hk h
    obtain ⟨m, rfl⟩ := Nat.exists_eq_succ_of_ne_zero (Nat.ne_of_gt hk)
    have ht : ∃ s' q', turn rd (sync n) s q w = .stop s' q' (some .sync) := turn_fails rd w h.empty h.fails
    obtain ⟨s', q', ht⟩ := ht
    have hwalk : V1Walk.walk rd sync n (m + 1) s q w = ⟨s', q', [], some .sync⟩ := by
      rw [V1Walk.walk, ht]
    rw [hwalk]
    exact ⟨rfl, rfl⟩
  | succ k ih =>
    intro count n s q w hk h
    obtain ⟨m, rfl⟩ := Nat.exists_eq_succ_of_ne_zero (Nat.ne_of_gt (Nat.zero_lt_of_lt hk))
    cases ht : turn rd (sync n) s q w with
    | stop s' q' err => exact absurd h (not_failsAt_succ ht k)
    | next s' v =>
      obtain ⟨herr, hvis⟩ := ih (Nat.lt_of_succ_lt_succ hk) ((failsAt_succ ht k).1 h)
      rw [V1Walk.walk, V1Walk.walk, ht]
      exact ⟨herr, congrArg (v :: ·) hvis⟩

theorem exists_failsAt : ∀ {count n : Nat} {s : S} {q : QueueV1} {w : Int × Int}, (walk rd sync n count s q w).err = some .sync →
    ∃ k < count, FailsAt rd sync s q w n k := by
  intro count
  induction count with
  | zero => exact fun h => nomatch h
  | succ count ih =>
    intro n s q w h
    have hturn := turn_swptr rd (sync n) (s := s) (q := q) (w := w)
    rw [walk] at h
    cases ht : turn rd (sync n) s q w with
    | stop s' q' err =>
      rw [ht] at h hturn
      obtain ⟨hq, hl⟩ := hturn.2 h
      exact ⟨0, Nat.succ_pos _, rfl, rfl, hq, hl⟩
    | next s' v =>
      rw [ht] at h
      obtain ⟨k, hk, hf⟩ := ih h
      exact ⟨k + 1, Nat.succ_lt_succ hk, (failsAt_succ ht k).2 hf⟩

/-- A get keeps what it consumes exactly when no sync fails behind a packet that takes bytes. -/
theorem no_packet_lost_iff (s : S) (q : QueueV1) (count : U32) :
    Kept q (burstGet rd sync s q count) ↔ FailsEarly rd sync s q (locked q) 0 count.toNat := by
  have hswptr := walk_swptr rd sync count.toNat 0 s q (locked q)
  have hlen := length_visits_le rd sync count.toNat 0 s q (locked q)
  have htaken := taken_le (walk rd sync 0 count.toNat s q (locked q)).visits
  have hcount := count.isLt
  unfold Kept Walked.returned burstGet
  by_cases herr : (walk rd sync 0 count.toNat s q (locked q)).err = some .sync
  · obtain ⟨k, hk, hf⟩ := exists_failsAt rd sync herr
    have hvis := (hf.walk rd sync hk).2
    have hzero : BitVec.ofNat 64 (taken (walk rd sync 0 count.toNat s q (locked q)).visits) = 0 ↔
        ∀ v ∈ (walk rd sync 0 count.toNat s q (locked q)).visits, v.size = 0 := by
      rw [← taken_eq_zero_iff, ← BitVec.toNat_inj, BitVec.toNat_ofNat, Nat.mod_eq_of_lt (by omega)]
      rfl
    rw [if_neg (by rw [herr]; exact nofun), hswptr]
    constructor
    · intro h j hj hfj
      have h0 := h (Or.inr herr)
      rw [← (hfj.walk rd sync hj).2]
      refine hzero.1 ?_
      simpa [taken] using h0
    · intro h _
      rw [hzero.2 (hvis ▸ h k hk hf)]
      simp [taken]
  · have hno : ∀ k < count.toNat, ¬FailsAt rd sync s q (locked q) 0 k := fun k hk hf => herr (hf.walk rd sync hk).1
    refine iff_of_true (fun h => ?_) fun k hk hf => absurd hf (hno k hk)
    have hnone := h.resolve_right herr
    rw [if_pos hnone, hswptr]

end Failing

/-- Two packets of 8 bytes are asked for, one is there: the get has it in hand when the sync fails, and returns nothing. -/
theorem packet_lost : (burstGet (fun _ addr => if addr = 0 then 8 else 0) failing () (lockedQueue 8) 2).visits.length = 1 ∧
    (burstGet (fun _ addr => if addr = 0 then 8 else 0) failing () (lockedQueue 8) 2).returned.length = 0 ∧
    (burstGet (fun _ addr => if addr = 0 then 8 else 0) failing () (lockedQueue 8) 2).q.swptr = 8 ∧
    ¬Kept (lockedQueue 8) (burstGet (fun _ addr => if addr = 0 then 8 else 0) failing () (lockedQueue 8) 2) := by
  refine ⟨by decide +kernel, by decide +kernel, by decide +kernel, fun h => ?_⟩
  exact absurd (h (Or.inr (by decide +kernel))) (by decide +kernel)

end NdkSw.Ndp.V1Walk

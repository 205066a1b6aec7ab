/-
The packet limit of ndptool (`tools/ndptool/read.c`, `receive.c`, `transmit.c`): the loops take the packets that they have processed from
the counter of the statistics, which a request for statistics clears.
-/
import NdkSw.Tools.StatsRun

namespace NdkSw.Tools

open Ndp Ring

/-! ## The loops -/

/-- The parameters of a loop; `main` checks the burst size. -/
structure LoopParams where
  limitPackets : U64
  limitBytes : U64
  minLen : U64
  burstSize : U32
  burst_pos : 1 ≤ burstSize.toNat
  burst_le : burstSize.toNat ≤ 1024

/-- What `p->update_stats` is: a single queue is served without threads, and otherwise another thread handles the requests. -/
inductive UpdateStats where
  | single
  | thread
  deriving DecidableEq, Repr

/-- The visit of `update_stats_loop_thread` for a request, if there is one now; its own record has the same `incremental`. -/
def UpdateStats.visit (u : UpdateStats) (now : Bool) (si : StatsInfo) : StatsInfo :=
  match u with
  | .single => si
  | .thread => if now then (visitThread 0 si (0, 0) si).2.2 else si

def UpdateStats.update (u : UpdateStats) (stats : Bool) (lens : List U32) (si : StatsInfo) : StatsInfo :=
  match u with
  | .single => (updateStats stats lens si).1
  | .thread => updateStatsThread lens si

/-- How a loop ends. -/
inductive LoopEnd where
  | stop
  | limit
  | bytes
  | writeError
  | sourceEnd
  | tooShort
  deriving DecidableEq, Repr

/-- What comes from outside in one round: the stop, visits before the single reads of the counters and before the update, the flag
`stats`, the lengths of the packets that are there, and how many of them the TX queue takes and the source fills. -/
structure LimitRound where
  stop : Bool
  atTest : Bool
  atCompare : Bool
  atRemaining : Bool
  atBytes : Bool
  atUpdate : Bool
  stats : Bool
  lens : List U32
  got : Nat
  filled : Nat
  writeFails : Bool

/-- A loop; beside its variables, what was requested, each with the number processed before, and how many were processed. `supplied`
counts the rounds with at least one packet. -/
structure LoopState where
  si : StatsInfo
  burstSize : U32
  ended : Option LoopEnd
  requests : List (Nat × Nat)
  processed : Nat
  supplied : Nat

def LoopState.init (p : LoopParams) (incremental : Bool) : LoopState := ⟨.init incremental, p.burstSize, none, [], 0, 0⟩

/-- The tests of the limits at the head of all three loops: the record, and the end of the loop or the size of the burst. -/
def checkLimits (p : LoopParams) (u : UpdateStats) (r : LimitRound) (si : StatsInfo) (burstSize : U32) : StatsInfo × (LoopEnd ⊕ U32) :=
  let packets : StatsInfo × Option U32 :=
    if 0 < p.limitPackets then
      let si := u.visit r.atTest si
      if si.packetCnt = p.limitPackets then (si, none)
      else
        let si := u.visit r.atCompare si
        if p.limitPackets < si.packetCnt + burstSize.setWidth 64 then
          let si := u.visit r.atRemaining si
          (si, some ((p.limitPackets - si.packetCnt).setWidth 32))
        else (si, some burstSize)
    else (si, some burstSize)
  match packets with
  | (si, none) => (si, .inl .limit)
  | (si, some burstSize) =>
    let si := u.visit r.atBytes si
    if 0 < p.limitBytes ∧ p.limitBytes < si.bytesCnt then (si, .inl .bytes) else (si, .inr burstSize)

/-- One round of `ndp_mode_read_loop`. -/
def readRound (p : LoopParams) (u : UpdateStats) (s : LoopState) (r : LimitRound) : LoopState :=
  if r.stop then { s with ended := some .stop }
  else
    match checkLimits p u r s.si s.burstSize with
    | (si, .inl e) => { s with si := si, ended := some e }
    | (si, .inr burstSize) =>
      let packets := r.lens.take burstSize.toNat
      { s with
        si := u.update r.stats packets (u.visit r.atUpdate si)
        burstSize := burstSize
        requests := s.requests ++ [(burstSize.toNat, s.processed)]
        processed := s.processed + packets.length }

/-- One round of `ndp_mode_receive_loop`. -/
def receiveRound (p : LoopParams) (u : UpdateStats) (s : LoopState) (r : LimitRound) : LoopState :=
  if r.stop then { s with ended := some .stop }
  else
    match checkLimits p u r s.si s.burstSize with
    | (si, .inl e) => { s with si := si, ended := some e }
    | (si, .inr burstSize) =>
      let packets := r.lens.take burstSize.toNat
      { s with
        si := u.update r.stats packets (u.visit r.atUpdate si)
        burstSize := burstSize
        requests := s.requests ++ [(burstSize.toNat, s.processed)]
        processed := s.processed + packets.length
        ended := if packets ≠ [] ∧ r.writeFails then some .writeError else none }

/-- One round of `ndp_mode_transmit_loop`; the TX queue is asked again until it gives a packet or `stop` is set. -/
def transmitRound (p : LoopParams) (u : UpdateStats) (s : LoopState) (r : LimitRound) : LoopState :=
  if r.stop then { s with ended := some .stop }
  else
    match checkLimits p u r s.si s.burstSize with
    | (si, .inl e) => { s with si := si, ended := some e }
    | (si, .inr burstSize) =>
      let ready := r.lens.take burstSize.toNat
      let s := { s with si := si, burstSize := burstSize, requests := s.requests ++ [(burstSize.toNat, s.processed)] }
      if ready = [] then { s with ended := some .sourceEnd }
      else if ready.any (·.setWidth 64 < p.minLen) then { s with ended := some .tooShort }
      else
        let cnt := min r.got ready.length
        let packets := ready.take (min r.filled cnt)
        { s with
          si := u.update r.stats packets (u.visit r.atUpdate si)
          requests := s.requests ++ [(ready.length, s.processed)]
          processed := s.processed + packets.length
          ended := if cnt = 0 then some .stop else none }

inductive LimitLoop where
  | read
  | receive
  | transmit
  deriving DecidableEq, Repr

/-- Whether there is at least one packet in the round. -/
def LimitLoop.Supplies (loop : LimitLoop) (r : LimitRound) : Prop :=
  match loop with
  | .read | .receive => r.lens ≠ []
  | .transmit => r.lens ≠ [] ∧ r.got ≠ 0 ∧ r.filled ≠ 0

instance (loop : LimitLoop) (r : LimitRound) : Decidable (loop.Supplies r) := by
  unfold LimitLoop.Supplies
  cases loop <;> infer_instance

def LimitLoop.round (loop : LimitLoop) (p : LoopParams) (u : UpdateStats) (s : LoopState) (r : LimitRound) : LoopState :=
  match loop with
  | .read => readRound p u s r
  | .receive => receiveRound p u s r
  | .transmit => transmitRound p u s r

/-- A round, as long as the loop has not ended. -/
def limitStep (loop : LimitLoop) (p : LoopParams) (u : UpdateStats) (s : LoopState) (r : LimitRound) : LoopState :=
  let s := { s with supplied := s.supplied + if loop.Supplies r then 1 else 0 }
  if s.ended.isSome then s else loop.round p u s r

/-! ## What is to hold -/

/-- No more than the limit is processed or requested; the loop ends by the limit where the limit is reached; and as long as it does not
end, every round with a packet brings it on. -/
structure LimitKept (limit : Nat) (s : LoopState) : Prop where
  atMost : s.processed ≤ limit
  requests : ∀ q ∈ s.requests, 1 ≤ q.1 ∧ q.2 + q.1 ≤ limit
  exact : s.ended = some .limit → s.processed = limit
  goesOn : s.ended = none → s.supplied ≤ s.processed

/-- What in a round makes the loop end, apart from its limits. -/
def LimitRound.Ends (loop : LimitLoop) (p : LoopParams) (r : LimitRound) : LoopEnd → Prop
  | .stop => r.stop = true ∨ (loop = .transmit ∧ r.got = 0)
  | .writeError => loop = .receive ∧ r.writeFails = true
  | .sourceEnd => loop = .transmit ∧ r.lens = []
  | .tooShort => loop = .transmit ∧ ∃ len ∈ r.lens, len.setWidth 64 < p.minLen
  | .limit | .bytes => False

/-- The limit is kept; an end other than by the limit of packets has its cause in the limit of bytes or in a round; and without such a
cause, rounds with enough packets bring the loop to the limit. -/
structure LimitExact (loop : LimitLoop) (p : LoopParams) (rounds : List LimitRound) (s : LoopState) : Prop
    extends LimitKept p.limitPackets.toNat s where
  bytes : s.ended = some .bytes → 0 < p.limitBytes ∧ p.limitBytes < s.si.bytesCnt
  causes : ∀ e, s.ended = some e → e = .limit ∨ e = .bytes ∨ ∃ r ∈ rounds, r.Ends loop p e
  reaches : p.limitBytes = 0 → (∀ r ∈ rounds, ∀ e, ¬ r.Ends loop p e) →
    p.limitPackets.toNat ≤ (rounds.filter fun r => loop.Supplies r).length → s.processed = p.limitPackets.toNat

/-- Whether a request comes to a thread in a round. -/
def LimitRound.Visited (r : LimitRound) : Prop :=
  r.atTest = true ∨ r.atCompare = true ∨ r.atRemaining = true ∨ r.atBytes = true ∨ r.atUpdate = true

instance (r : LimitRound) : Decidable r.Visited := inferInstanceAs (Decidable (_ ∨ _))

/-- What a round has to find: no request clears a counter that is not 0, and the size of the burst can be added to the counter. Without
threads a request is handled behind the tests, so that it comes too late once the limit is reached. -/
def LimitRight (loop : LimitLoop) (p : LoopParams) (u : UpdateStats) (s : LoopState) (r : LimitRound) : Prop :=
  s.ended = none → r.stop = false →
    (s.si.incremental = false →
      match u with
      | .single => r.stats = true → s.si.packetCnt = p.limitPackets ∨ (s.si.packetCnt = 0 ∧ ¬ loop.Supplies r)
      | .thread => r.Visited → s.si.packetCnt = 0) ∧
      (s.si.packetCnt = p.limitPackets ∨ s.si.packetCnt.toNat + s.burstSize.toNat < 2 ^ 64)

/-! ## The counter -/

variable {si : StatsInfo} {loop : LimitLoop} {e : LoopEnd} {u : UpdateStats} {p : LoopParams} {r : LimitRound} {s : LoopState}

theorem clearStatsInfo_packetCnt (h : si.incremental = true ∨ si.packetCnt = 0) : (clearStatsInfo si).packetCnt = si.packetCnt := by
  rw [clearStatsInfo]
  split
  case isTrue => rfl
  case isFalse hinc =>
    rcases h with h | h
    · exact absurd h hinc
    · exact h.symm

/-- Whether requests leave the counter of this record as it is. -/
def Untouched (u : UpdateStats) (now : Bool) (si : StatsInfo) : Prop :=
  u = .thread → now = true → si.incremental = true ∨ si.packetCnt = 0

theorem visit_packetCnt {now : Bool} (h : Untouched u now si) :
    (u.visit now si).packetCnt = si.packetCnt ∧ (u.visit now si).incremental = si.incremental := by
  cases u with
  | single => exact ⟨rfl, rfl⟩
  | thread =>
    cases now with
    | false => exact ⟨rfl, rfl⟩
    | true =>
      have hgather : (gatherStatsInfo si si).2.packetCnt = si.packetCnt ∧ (gatherStatsInfo si si).2.incremental = si.incremental := by
        rw [gatherStatsInfo]
        show (if _ then _ else _ : StatsInfo).packetCnt = _ ∧ (if _ then _ else _ : StatsInfo).incremental = _
        split <;> exact ⟨rfl, rfl⟩
      have hvisit : UpdateStats.thread.visit true si = clearStatsInfo (gatherStatsInfo si si).2 := rfl
      rw [hvisit, clearStatsInfo_incremental, hgather.2]
      refine ⟨?_, rfl⟩
      rw [clearStatsInfo_packetCnt ?_, hgather.1]
      rw [hgather.1, hgather.2]
      exact h rfl rfl

theorem update_packetCnt {stats : Bool} {lens : List U32}
    (h : u = .single → stats = true → si.incremental = true ∨ (si.packetCnt = 0 ∧ lens = [])) :
    (u.update stats lens si).packetCnt = si.packetCnt + BitVec.ofNat 64 lens.length ∧
      (u.update stats lens si).incremental = si.incremental := by
  have hprint : (updatePrintProgress lens si).packetCnt = si.packetCnt + BitVec.ofNat 64 lens.length ∧
      (updatePrintProgress lens si).incremental = si.incremental := by
    rw [updatePrintProgress_eq]
    exact ⟨rfl, rfl⟩
  cases u with
  | thread =>
    have hcount : (si.count lens).packetCnt = (updatePrintProgress lens si).packetCnt ∧
        (si.count lens).incremental = (updatePrintProgress lens si).incremental := ⟨rfl, rfl⟩
    show (updateStatsThread lens si).packetCnt = _ ∧ (updateStatsThread lens si).incremental = _
    rw [updateStatsThread, ← hprint.1, ← hprint.2]
    split
    · exact hcount
    · exact hcount
  | single =>
    cases stats with
    | false => exact hprint
    | true =>
      show (clearStatsInfo (updatePrintProgress lens si)).packetCnt = _ ∧ (clearStatsInfo (updatePrintProgress lens si)).incremental = _
      rw [clearStatsInfo_incremental, hprint.2]
      refine ⟨?_, rfl⟩
      rw [clearStatsInfo_packetCnt ?_, hprint.1]
      rw [hprint.1, hprint.2]
      rcases h rfl rfl with hinc | ⟨hzero, rfl⟩
      · exact .inl hinc
      · exact .inr (by rw [hzero]; rfl)

/-! ## The tests of the limits -/

/-- What the requests of a round leave as it is: the counter, at every point of the round. -/
structure Undisturbed (u : UpdateStats) (r : LimitRound) (si : StatsInfo) : Prop where
  visits : u = .thread → si.incremental = true ∨ si.packetCnt = 0 ∨
    (r.atTest = false ∧ r.atCompare = false ∧ r.atRemaining = false ∧ r.atBytes = false ∧ r.atUpdate = false)

theorem Undisturbed.of_eq {si' : StatsInfo} (h : Undisturbed u r si)
    (heq : si'.packetCnt = si.packetCnt ∧ si'.incremental = si.incremental) : Undisturbed u r si' := by
  obtain ⟨hcnt, hinc⟩ := heq
  refine ⟨fun hu => ?_⟩
  rw [hcnt, hinc]
  exact h.visits hu

theorem Undisturbed.untouched (h : Undisturbed u r si) :
    Untouched u r.atTest si ∧ Untouched u r.atCompare si ∧ Untouched u r.atRemaining si ∧ Untouched u r.atBytes si ∧
      Untouched u r.atUpdate si := by
  unfold Untouched
  refine ⟨fun hu hn => ?_, fun hu hn => ?_, fun hu hn => ?_, fun hu hn => ?_, fun hu hn => ?_⟩
  all_goals
    rcases h.visits hu with hi | hz | ⟨h1, h2, h3, h4, h5⟩
    · exact .inl hi
    · exact .inr hz
    · simp_all

/-- With the counter undisturbed, the tests end the loop exactly at the limit, and else leave a burst that fits. -/
theorem checkLimits_spec {burstSize : U32} (hr : Undisturbed u r si) (hlimit : 0 < p.limitPackets)
    (hle : si.packetCnt.toNat ≤ p.limitPackets.toNat) (hpos : 1 ≤ burstSize.toNat)
    (hwrap : si.packetCnt = p.limitPackets ∨ si.packetCnt.toNat + burstSize.toNat < 2 ^ 64) :
    ∃ si' res, checkLimits p u r si burstSize = (si', res) ∧ si'.packetCnt = si.packetCnt ∧ si'.incremental = si.incremental ∧
      (res = .inl .bytes ∨ (res = .inl .limit ∧ si.packetCnt = p.limitPackets) ∨
        ∃ b : U32, res = .inr b ∧ 1 ≤ b.toNat ∧ si.packetCnt.toNat + b.toNat ≤ p.limitPackets.toNat) := by
  -- the tail, with the record and the burst that the tests on the packets leave
  have htail : ∀ (si₁ : StatsInfo) (b : U32), si₁.packetCnt = si.packetCnt ∧ si₁.incremental = si.incremental →
      1 ≤ b.toNat → si.packetCnt.toNat + b.toNat ≤ p.limitPackets.toNat →
      ∃ si' res, (let si₂ := u.visit r.atBytes si₁
        if 0 < p.limitBytes ∧ p.limitBytes < si₂.bytesCnt then ((si₂, .inl .bytes) : StatsInfo × (LoopEnd ⊕ U32))
        else (si₂, .inr b)) = (si', res) ∧ si'.packetCnt = si.packetCnt ∧ si'.incremental = si.incremental ∧
        (res = .inl .bytes ∨ (res = .inl .limit ∧ si.packetCnt = p.limitPackets) ∨
          ∃ b : U32, res = .inr b ∧ 1 ≤ b.toNat ∧ si.packetCnt.toNat + b.toNat ≤ p.limitPackets.toNat) := by
    intro si₁ b heq hb hfit
    have hvisit := visit_packetCnt (hr.of_eq heq).untouched.2.2.2.1
    by_cases hbytes : 0 < p.limitBytes ∧ p.limitBytes < (u.visit r.atBytes si₁).bytesCnt
    · exact ⟨_, _, if_pos hbytes, hvisit.1.trans heq.1, hvisit.2.trans heq.2, .inl rfl⟩
    · exact ⟨_, _, if_neg hbytes, hvisit.1.trans heq.1, hvisit.2.trans heq.2, .inr (.inr ⟨b, rfl, hb, hfit⟩)⟩
  have htest := visit_packetCnt hr.untouched.1
  have hcompare := visit_packetCnt (hr.of_eq htest).untouched.2.1
  have hremaining := visit_packetCnt ((hr.of_eq htest).of_eq hcompare).untouched.2.2.1
  rw [checkLimits, if_pos hlimit]
  by_cases hend : (u.visit r.atTest si).packetCnt = p.limitPackets
  · rw [if_pos hend]
    exact ⟨_, _, rfl, htest.1, htest.2, .inr (.inl ⟨rfl, htest.1.symm.trans hend⟩)⟩
  have hcnt := hcompare.1.trans htest.1
  have hlt : si.packetCnt.toNat < p.limitPackets.toNat :=
    lt_of_le_of_ne hle fun he => hend (htest.1.trans (BitVec.eq_of_toNat_eq he))
  have hsum : (si.packetCnt + burstSize.setWidth 64).toNat = si.packetCnt.toNat + burstSize.toNat := by
    have hwrap := hwrap.resolve_left fun he => hend (htest.1.trans he)
    rw [BitVec.toNat_add, BitVec.toNat_setWidth_of_le (by decide), Nat.mod_eq_of_lt hwrap]
  rw [if_neg hend]
  by_cases hshort : p.limitPackets < (u.visit r.atCompare (u.visit r.atTest si)).packetCnt + burstSize.setWidth 64
  · rw [if_pos hshort]
    have hcnt' := hremaining.1.trans hcnt
    rw [hcnt, BitVec.lt_def, hsum] at hshort
    have hsub : ((p.limitPackets - (u.visit r.atRemaining (u.visit r.atCompare (u.visit r.atTest si))).packetCnt).setWidth 32).toNat =
        p.limitPackets.toNat - si.packetCnt.toNat := by
      have hb := burstSize.isLt
      rw [hcnt', BitVec.toNat_setWidth, BitVec.toNat_sub_of_le (BitVec.le_def.2 hle), Nat.mod_eq_of_lt (by omega)]
    refine htail _ _ ⟨hcnt', (hremaining.2.trans hcompare.2).trans htest.2⟩ ?_ ?_
    · rw [hsub]
      omega
    · rw [hsub]
      omega
  · rw [if_neg hshort]
    refine htail _ _ ⟨hcnt, hcompare.2.trans htest.2⟩ hpos ?_
    rw [hcnt, BitVec.lt_def, hsum] at hshort
    omega

/-! ## Rounds -/

structure LimitInv (p : LoopParams) (s : LoopState) : Prop where
  count : s.ended = none → s.si.packetCnt = BitVec.ofNat 64 s.processed
  burst : s.ended = none → 1 ≤ s.burstSize.toNat
  holds : LimitKept p.limitPackets.toNat s

theorem LimitInv.init (p : LoopParams) (incremental : Bool) : LimitInv p (LoopState.init p incremental) where
  count _ := rfl
  burst _ := p.burst_pos
  holds := ⟨Nat.zero_le _, nofun, nofun, fun _ => Nat.zero_le _⟩

theorem LimitInv.toNat_packetCnt (h : LimitInv p s) (hend : s.ended = none) : s.si.packetCnt.toNat = s.processed := by
  have hle := h.holds.atMost
  have hlt := p.limitPackets.isLt
  rw [h.count hend, BitVec.toNat_ofNat]
  exact Nat.mod_eq_of_lt (by omega)

theorem LimitInv.not_full (h : LimitInv p s) (hend : s.ended = none) {b : Nat} (hb : 1 ≤ b)
    (hfit : s.processed + b ≤ p.limitPackets.toNat) : s.si.packetCnt ≠ p.limitPackets := by
  intro he
  have hcnt := h.toNat_packetCnt hend
  rw [he] at hcnt
  omega

theorem LimitInv.ends (h : LimitInv p s) (si : StatsInfo) (n : Nat) (he : e = .limit → s.processed = p.limitPackets.toNat) :
    LimitInv p { s with si := si, ended := some e, supplied := n } where
  count hn := nomatch hn
  burst hn := nomatch hn
  holds := ⟨h.holds.atMost, h.holds.requests, fun hl => he (Option.some.inj hl), fun hn => (nomatch hn)⟩

theorem LimitInv.advance {s' : LoopState} (h : LimitInv p s) {b : U32} {m : Nat} (hend : s.ended = none) (hb : 1 ≤ b.toNat)
    (hfit : s.processed + b.toNat ≤ p.limitPackets.toNat) (hm : m ≤ b.toNat)
    (hcount : s'.si.packetCnt = s.si.packetCnt + BitVec.ofNat 64 m) (hburst : s'.burstSize = b)
    (hprocessed : s'.processed = s.processed + m)
    (hrequests : ∀ q ∈ s'.requests, q ∈ s.requests ∨ (q.2 = s.processed ∧ 1 ≤ q.1 ∧ q.1 ≤ b.toNat)) (hnot : s'.ended ≠ some .limit)
    (hsupplied : s'.ended = none → s'.supplied ≤ s.supplied + m) : LimitInv p s' := by
  refine ⟨fun _ => ?_, fun _ => by rw [hburst]; exact hb, ?_, fun q hq => ?_, fun he => absurd he hnot, fun he => ?_⟩
  · rw [hcount, h.count hend, hprocessed, BitVec.ofNat_add]
  · rw [hprocessed]
    omega
  · rcases hrequests q hq with hold | ⟨hbefore, hlow, hhigh⟩
    · exact h.holds.requests q hold
    · exact ⟨hlow, by omega⟩
  · have hs := hsupplied he
    have hg := h.holds.goesOn hend
    rw [hprocessed]
    omega

theorem Undisturbed.of_right (h : LimitRight loop p u s r) (hend : s.ended = none) (hstop : r.stop = false) : Undisturbed u r s.si := by
  refine ⟨fun hu => ?_⟩
  subst hu
  cases hinc : s.si.incremental with
  | true => exact .inl rfl
  | false =>
    refine .inr ?_
    by_cases hz : s.si.packetCnt = 0
    · exact .inl hz
    · have hnone : ¬ r.Visited := fun hv => hz ((h hend hstop).1 hinc hv)
      simp only [LimitRound.Visited, not_or, Bool.not_eq_true] at hnone
      exact .inr hnone

theorem mem_requests {old new : List (Nat × Nat)} {n b : Nat} (h : ∀ q ∈ new, q.2 = n ∧ 1 ≤ q.1 ∧ q.1 ≤ b) :
    ∀ q ∈ old ++ new, q ∈ old ∨ (q.2 = n ∧ 1 ≤ q.1 ∧ q.1 ≤ b) := by
  intro q hq
  rcases List.mem_append.1 hq with ho | hn
  · exact .inl ho
  · exact .inr (h q hn)

theorem LimitInv.check (h : LimitInv p s) (hlimit : 0 < p.limitPackets) (hright : LimitRight loop p u s r) (hend : s.ended = none)
    (hstop : r.stop = false) :
    ∃ si res, checkLimits p u r s.si s.burstSize = (si, res) ∧ Undisturbed u r si ∧ si.packetCnt = s.si.packetCnt ∧
      si.incremental = s.si.incremental ∧
      ((∃ e, res = .inl e ∧ (e = .limit → s.processed = p.limitPackets.toNat)) ∨
        ∃ b : U32, res = .inr b ∧ 1 ≤ b.toNat ∧ s.processed + b.toNat ≤ p.limitPackets.toNat) := by
  have hund := Undisturbed.of_right hright hend hstop
  have hcnt := h.toNat_packetCnt hend
  obtain ⟨si, res, heq, hp, hi, hres⟩ :=
    checkLimits_spec hund hlimit (hcnt.trans_le h.holds.atMost) (h.burst hend) (hright hend hstop).2
  refine ⟨si, res, heq, hund.of_eq ⟨hp, hi⟩, hp, hi, ?_⟩
  rcases hres with hb | ⟨hl, hfull⟩ | ⟨b, hb, hpos, hfit⟩
  · exact .inl ⟨.bytes, hb, nofun⟩
  · exact .inl ⟨.limit, hl, fun _ => by rw [← hcnt, hfull]⟩
  · exact .inr ⟨b, hb, hpos, by omega⟩

theorem LimitRight.update (h : LimitRight loop p u s r) (hend : s.ended = none) (hstop : r.stop = false)
    (hnot : s.si.packetCnt ≠ p.limitPackets) (hund : Undisturbed u r si) (hp : si.packetCnt = s.si.packetCnt)
    (hi : si.incremental = s.si.incremental) {packets : List U32} (hnone : ¬ loop.Supplies r → packets = []) :
    (u.update r.stats packets (u.visit r.atUpdate si)).packetCnt = s.si.packetCnt + BitVec.ofNat 64 packets.length := by
  have hvisit := visit_packetCnt hund.untouched.2.2.2.2
  have hkeep : u = .single → r.stats = true →
      (u.visit r.atUpdate si).incremental = true ∨ ((u.visit r.atUpdate si).packetCnt = 0 ∧ packets = []) := by
    rintro rfl hstats
    rw [hvisit.1, hvisit.2, hp, hi]
    cases hinc : s.si.incremental with
    | true => exact .inl rfl
    | false =>
      obtain ⟨hz, hs⟩ := ((h hend hstop).1 hinc hstats).resolve_left hnot
      exact .inr ⟨hz, hnone hs⟩
  rw [(update_packetCnt hkeep).1, hvisit.1, hp]

section

variable {p : LoopParams} {u : UpdateStats} {s : LoopState} {r : LimitRound}

theorem LimitInv.takes (hloop : loop.Supplies r ↔ r.lens ≠ []) (h : LimitInv p s) (hright : LimitRight loop p u s r)
    (hend : s.ended = none) (hstop : r.stop = false) (hund : Undisturbed u r si) (hp : si.packetCnt = s.si.packetCnt)
    (hi : si.incremental = s.si.incremental) {b : U32} (hb : 1 ≤ b.toNat) (hfit : s.processed + b.toNat ≤ p.limitPackets.toNat)
    {e : Option LoopEnd} (he : e ≠ some .limit) :
    LimitInv p { s with
      si := u.update r.stats (r.lens.take b.toNat) (u.visit r.atUpdate si)
      burstSize := b
      requests := s.requests ++ [(b.toNat, s.processed)]
      processed := s.processed + (r.lens.take b.toNat).length
      ended := e
      supplied := s.supplied + if loop.Supplies r then 1 else 0 } := by
  have hlen : (r.lens.take b.toNat).length ≤ b.toNat := List.length_take_le ..
  refine h.advance hend hb hfit hlen ?_ rfl rfl (mem_requests fun q hq => ?_) he fun _ => Nat.add_le_add_left ?_ _
  · refine hright.update hend hstop (h.not_full hend hb hfit) hund hp hi fun hs => ?_
    rw [not_not.1 fun hne => hs (hloop.2 hne), List.take_nil]
  · rw [List.mem_singleton.1 hq]
    exact ⟨rfl, hb, le_rfl⟩
  · split
    case isTrue hs =>
      have hpos : 0 < r.lens.length := List.length_pos_of_ne_nil (hloop.1 hs)
      rw [List.length_take]
      omega
    case isFalse => exact Nat.zero_le _

theorem readRound_inv (h : LimitInv p s) (hlimit : 0 < p.limitPackets) (hright : LimitRight .read p u s r) (hend : s.ended = none) :
    LimitInv p (readRound p u { s with supplied := s.supplied + if LimitLoop.read.Supplies r then 1 else 0 } r) := by
  unfold readRound
  cases hstop : r.stop with
  | true => exact h.ends s.si _ nofun
  | false =>
    obtain ⟨si, res, heq, hund, hp, hi, hres⟩ := h.check hlimit hright hend hstop
    rw [if_neg Bool.false_ne_true]
    simp only [heq]
    rcases hres with ⟨e, rfl, he⟩ | ⟨b, rfl, hb, hfit⟩
    · exact h.ends si _ he
    · refine h.takes Iff.rfl hright hend hstop hund hp hi hb hfit ?_
      rw [hend]
      exact nofun

theorem receiveRound_inv (h : LimitInv p s) (hlimit : 0 < p.limitPackets) (hright : LimitRight .receive p u s r) (hend : s.ended = none) :
    LimitInv p (receiveRound p u { s with supplied := s.supplied + if LimitLoop.receive.Supplies r then 1 else 0 } r) := by
  unfold receiveRound
  cases hstop : r.stop with
  | true => exact h.ends s.si _ nofun
  | false =>
    obtain ⟨si, res, heq, hund, hp, hi, hres⟩ := h.check hlimit hright hend hstop
    rw [if_neg Bool.false_ne_true]
    simp only [heq]
    rcases hres with ⟨e, rfl, he⟩ | ⟨b, rfl, hb, hfit⟩
    · exact h.ends si _ he
    · refine h.takes Iff.rfl hright hend hstop hund hp hi hb hfit ?_
      split <;> exact nofun

theorem transmitRound_inv (h : LimitInv p s) (hlimit : 0 < p.limitPackets) (hright : LimitRight .transmit p u s r) (hend : s.ended = none) :
    LimitInv p (transmitRound p u { s with supplied := s.supplied + if LimitLoop.transmit.Supplies r then 1 else 0 } r) := by
  unfold transmitRound
  cases hstop : r.stop with
  | true => exact h.ends s.si _ nofun
  | false =>
    obtain ⟨si, res, heq, hund, hp, hi, hres⟩ := h.check hlimit hright hend hstop
    rw [if_neg Bool.false_ne_true]
    simp only [heq]
    rcases hres with ⟨e, rfl, he⟩ | ⟨b, rfl, hb, hfit⟩
    · exact h.ends si _ he
    have hsingle : ∀ q ∈ [(b.toNat, s.processed)], q.2 = s.processed ∧ 1 ≤ q.1 ∧ q.1 ≤ b.toNat := fun q hq => by
      rw [List.mem_singleton.1 hq]
      exact ⟨rfl, hb, le_rfl⟩
    have hzero : si.packetCnt = s.si.packetCnt + BitVec.ofNat 64 0 := by rw [hp]; exact (BitVec.add_zero _).symm
    dsimp only
    by_cases hready : r.lens.take b.toNat = []
    · rw [if_pos hready]
      exact h.advance hend hb hfit (Nat.zero_le _) hzero rfl rfl (mem_requests hsingle) nofun nofun
    rw [if_neg hready]
    by_cases hshort : (r.lens.take b.toNat).any (·.setWidth 64 < p.minLen) = true
    · rw [if_pos hshort]
      exact h.advance hend hb hfit (Nat.zero_le _) hzero rfl rfl (mem_requests hsingle) nofun nofun
    rw [if_neg hshort]
    have hlen : (r.lens.take b.toNat).length ≤ b.toNat := List.length_take_le ..
    have hpos : 0 < (r.lens.take b.toNat).length := List.length_pos_of_ne_nil hready
    refine h.advance (m := ((r.lens.take b.toNat).take (min r.filled (min r.got (r.lens.take b.toNat).length))).length)
      hend hb hfit ?_ ?_ rfl rfl (fun q hq => ?_) ?_ fun hend' => ?_
    · exact (List.length_take_le' ..).trans hlen
    · refine hright.update hend hstop (h.not_full hend hb hfit) hund hp hi fun hs => ?_
      apply List.length_eq_zero_iff.1
      have hnone : r.got = 0 ∨ r.filled = 0 := by
        by_contra hc
        rw [not_or] at hc
        exact hs ⟨fun hl => hready (by rw [hl, List.take_nil]), hc.1, hc.2⟩
      rw [List.length_take]
      omega
    · rw [List.append_assoc] at hq
      refine mem_requests (fun q hq => ?_) q hq
      rcases List.mem_cons.1 hq with rfl | hq
      · exact ⟨rfl, hb, le_rfl⟩
      · rw [List.mem_singleton.1 hq]
        exact ⟨rfl, hpos, hlen⟩
    · show (if _ then some LoopEnd.stop else none) ≠ some .limit
      split <;> exact nofun
    · refine Nat.add_le_add_left ?_ _
      split
      case isTrue hs =>
        obtain ⟨-, hgot, hfilled⟩ := hs
        rw [List.length_take]
        omega
      case isFalse => exact Nat.zero_le _

theorem limitStep_inv (hlimit : 0 < p.limitPackets) (s : LoopState) (r : LimitRound) (hright : LimitRight loop p u s r) (h : LimitInv p s) :
    LimitInv p (limitStep loop p u s r) := by
  unfold limitStep
  dsimp only
  by_cases hsome : s.ended.isSome = true
  · rw [if_pos hsome]
    refine ⟨h.count, h.burst, h.holds.atMost, h.holds.requests, h.holds.exact, fun hn => ?_⟩
    rw [show s.ended = none from hn] at hsome
    cases hsome
  · have hend : s.ended = none := Option.not_isSome_iff_eq_none.1 hsome
    rw [if_neg hsome]
    cases loop with
    | read => exact readRound_inv h hlimit hright hend
    | receive => exact receiveRound_inv h hlimit hright hend
    | transmit => exact transmitRound_inv h hlimit hright hend

/-! ## Ends -/

theorem checkLimits_inl {burstSize : U32} {si' : StatsInfo} (h : checkLimits p u r si burstSize = (si', .inl e)) :
    e = .limit ∨ (e = .bytes ∧ 0 < p.limitBytes ∧ p.limitBytes < si'.bytesCnt) := by
  unfold checkLimits at h
  revert h
  generalize (if 0 < p.limitPackets then _ else _ : StatsInfo × Option U32) = packets
  obtain ⟨si₁, _ | b⟩ := packets
  · exact fun h => .inl (Sum.inl.inj (Prod.mk.inj h).2).symm
  · dsimp only
    split
    case isTrue hbytes =>
      intro h
      obtain ⟨rfl, he⟩ := Prod.mk.inj h
      exact .inr ⟨(Sum.inl.inj he).symm, hbytes⟩
    case isFalse => exact fun h => nomatch (Prod.mk.inj h).2

/-- What a round of a loop that goes on ends for. -/
theorem LimitInv.cause (h : LimitInv p s) (hlimit : 0 < p.limitPackets) (hright : LimitRight loop p u s r) (hend : s.ended = none)
    (n : Nat) (he : (loop.round p u { s with supplied := n } r).ended = some e) :
    (e = .bytes → 0 < p.limitBytes ∧ p.limitBytes < (loop.round p u { s with supplied := n } r).si.bytesCnt) ∧
      (e = .limit ∨ e = .bytes ∨ r.Ends loop p e) := by
  cases hstop : r.stop with
  | true =>
    obtain rfl : e = .stop := by
      cases loop <;> simp_all [LimitLoop.round, readRound, receiveRound, transmitRound]
    exact ⟨nofun, .inr (.inr (.inl hstop))⟩
  | false =>
    obtain ⟨si, res, heq, -, -, -, hres⟩ := h.check hlimit hright hend hstop
    have hgo : ¬ r.stop = true := by rw [hstop]; exact Bool.false_ne_true
    rcases hres with ⟨e', rfl, -⟩ | ⟨b, rfl, hb, -⟩
    · -- a limit is reached, and nothing is requested
      have hround : loop.round p u { s with supplied := n } r = { s with si := si, supplied := n, ended := some e' } := by
        cases loop <;> simp only [LimitLoop.round, readRound, receiveRound, transmitRound, if_neg hgo, heq]
      rw [hround] at he ⊢
      obtain rfl := Option.some.inj he
      rcases checkLimits_inl heq with rfl | ⟨rfl, hbytes⟩
      · exact ⟨nofun, .inl rfl⟩
      · exact ⟨fun _ => hbytes, .inr (.inl rfl)⟩
    · have hends : r.Ends loop p e := by
        cases loop with
        | read =>
          simp only [LimitLoop.round, readRound, if_neg hgo, heq, hend] at he
          cases he
        | receive =>
          simp only [LimitLoop.round, receiveRound, if_neg hgo, heq] at he
          split at he
          · rename_i hfails
            obtain rfl := Option.some.inj he
            exact ⟨rfl, hfails.2⟩
          · cases he
        | transmit =>
          simp only [LimitLoop.round, transmitRound, if_neg hgo, heq] at he
          split at he
          · rename_i hready
            obtain rfl := Option.some.inj he
            exact ⟨rfl, (List.take_eq_nil_iff.1 hready).resolve_left (by omega)⟩
          · rename_i hready
            split at he
            · rename_i hshort
              obtain rfl := Option.some.inj he
              obtain ⟨len, hlen, hlt⟩ := List.any_eq_true.1 hshort
              exact ⟨rfl, len, List.mem_of_mem_take hlen, of_decide_eq_true hlt⟩
            · have hpos := List.length_pos_of_ne_nil hready
              dsimp only at he
              split at he
              · rename_i hcnt
                obtain rfl := Option.some.inj he
                exact .inr ⟨rfl, by omega⟩
              · cases he
      refine ⟨?_, .inr (.inr hends)⟩
      rintro rfl
      exact hends.elim

theorem limitStep_none (loop : LimitLoop) (hend : s.ended = none) :
    limitStep loop p u s r = loop.round p u { s with supplied := s.supplied + if loop.Supplies r then 1 else 0 } r :=
  if_neg (by rw [hend]; exact Bool.false_ne_true)

theorem run_ended (loop : LimitLoop) {e : LoopEnd} : ∀ (rounds : List LimitRound) (s : LoopState), s.ended = some e →
    ∃ n, run (limitStep loop p u) s rounds = { s with supplied := n }
  | [], s, _ => ⟨s.supplied, rfl⟩
  | r :: rounds, s, hend => by
    have hstep : limitStep loop p u s r = { s with supplied := s.supplied + if loop.Supplies r then 1 else 0 } :=
      if_pos (by rw [hend]; rfl)
    rw [run_cons, hstep]
    exact run_ended loop rounds _ hend

theorem round_supplied (loop : LimitLoop) (s : LoopState) (r : LimitRound) : (loop.round p u s r).supplied = s.supplied := by
  cases loop
  all_goals
    simp only [LimitLoop.round, readRound, receiveRound, transmitRound]
    cases r.stop
    · obtain ⟨si, e | b⟩ := checkLimits p u r s.si s.burstSize
      · rfl
      · grind
    · rfl

theorem run_supplied (loop : LimitLoop) : ∀ (rounds : List LimitRound) (s : LoopState),
    (run (limitStep loop p u) s rounds).supplied = s.supplied + (rounds.filter fun r => loop.Supplies r).length
  | [], s => rfl
  | r :: rounds, s => by
    have hstep : (limitStep loop p u s r).supplied = s.supplied + if loop.Supplies r then 1 else 0 := by
      unfold limitStep
      dsimp only
      split
      · rfl
      · exact round_supplied ..
    rw [run_cons, run_supplied loop rounds, hstep, List.filter_cons]
    by_cases hs : loop.Supplies r
    · rw [if_pos hs, if_pos (decide_eq_true hs), List.length_cons]
      omega
    · rw [if_neg hs, if_neg (by simpa using hs), Nat.add_zero]

theorem LimitInv.caused {loop : LimitLoop} (hlimit : 0 < p.limitPackets) : ∀ (rounds : List LimitRound) (s : LoopState),
    LimitInv p s → s.ended = none → Meets (limitStep loop p u) (LimitRight loop p u) s rounds →
      ∀ e, (run (limitStep loop p u) s rounds).ended = some e →
        (e = .bytes → 0 < p.limitBytes ∧ p.limitBytes < (run (limitStep loop p u) s rounds).si.bytesCnt) ∧
          (e = .limit ∨ e = .bytes ∨ ∃ r ∈ rounds, r.Ends loop p e)
  | [], s, _, hend, _, e, he => nomatch hend.symm.trans he
  | r :: rounds, s, h, hend, hm, e, he => by
    rw [run_cons] at he ⊢
    cases hnext : (limitStep loop p u s r).ended with
    | none =>
      obtain ⟨hbytes, hcause⟩ := caused hlimit rounds _ (limitStep_inv hlimit s r hm.1 h) hnext hm.2 e he
      exact ⟨hbytes, hcause.imp_right (.imp_right fun ⟨x, hx, hends⟩ => ⟨x, List.mem_cons_of_mem _ hx, hends⟩)⟩
    | some e' =>
      obtain ⟨n, hrun⟩ := run_ended (p := p) (u := u) loop rounds _ hnext
      rw [hrun] at he ⊢
      rw [limitStep_none loop hend] at he ⊢
      obtain ⟨hbytes, hcause⟩ := h.cause hlimit hm.1 hend _ he
      exact ⟨hbytes, hcause.imp_right (.imp_right fun hends => ⟨r, List.mem_cons_self, hends⟩)⟩

end

instance (loop : LimitLoop) (p : LoopParams) (u : UpdateStats) (s : LoopState) (r : LimitRound) :
    Decidable (LimitRight loop p u s r) := by
  unfold LimitRight
  cases u <;> infer_instance

def twoPackets : LoopParams := ⟨2, 0, 0, 1, by decide, by decide⟩

def packetRound (stats : Bool) : LimitRound := ⟨false, false, false, false, false, false, stats, [60], 1, 1, false⟩

end NdkSw.Tools

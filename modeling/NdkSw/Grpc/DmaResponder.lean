/-
The responder of the gRPC DMA stream (`client_dma_vas.cc`): each request that arrives gets a call of `OnReadDone`, which asks for the
next request before it looks at its own. The calls, the read in progress and the writes take turns in any order. Whatever they do,
one response at a time is on its way, in the order of the queue; that it answers the right request needs a next request that
comes late enough.
-/
import NdkSw.Ndp.Channel

namespace NdkSw.Grpc.DmaResponder

open Ndp Ring

/-! ## Messages -/

/-- `DmaRequest`; `nbyte` is the number of bytes that `set_data` gets. -/
structure DmaRequest where
  type : Int
  addr : Int
  nbyte : Nat
  data : List U8
  deriving DecidableEq, Repr

structure DmaResponse where
  status : Int
  data : List U8
  deriving DecidableEq, Repr

def dmaRead : Int := 0

abbrev Memory := Int → U8

/-- `memcpy` to the memory. -/
def Memory.store (m : Memory) (addr : Int) (data : List U8) : Memory := fun x =>
  if addr ≤ x then (data[(x - addr).toNat]?).getD (m x) else m x

/-- The fields of a request that its type needs. -/
def DmaRequest.used (r : DmaRequest) : DmaRequest := if r.type = dmaRead then { r with data := [] } else { r with nbyte := 0 }

/-- The memory access of `OnReadDone`. -/
def access (m : Memory) (r : DmaRequest) : Memory × DmaResponse :=
  if r.type = dmaRead then (m, { status := 0, data := (List.range r.nbyte).map fun i : Nat => m (r.addr + i) })
  else (m.store r.addr r.data, { status := 0, data := [] })

/-! ## State -/

/-- Where a call of `OnReadDone` stands: before `StartRead`, before each field of the request it reads, before the push to the queue
(`source` are the fields it has read), and if it found the queue empty, before `resp = resp_act` and before `StartWrite`. -/
inductive OnReadDone
  | start
  | type
  | addr (type : Int)
  | access (type addr : Int)
  | push (source : DmaRequest) (resp : DmaResponse)
  | write (resp : DmaResponse)
  | startWrite
  | done
  deriving DecidableEq, Repr

/-- `class DmaAccess`. `reading` says that a read is in progress, `writes` counts the writes in flight, `popping` and `starting` the calls
of `OnWriteDone` before their critical section and before `StartWrite`. `received`, `pushed` and `sent` are the history; the
`k`-th call of `OnReadDone` is that of the `k`-th request. A failed write ends the stream. -/
structure DmaAccess where
  memory : Memory
  req : DmaRequest
  resp : DmaResponse
  respQue : List DmaResponse
  reading : Bool
  call : Nat → OnReadDone
  writes : Nat
  popping : Nat
  starting : Nat
  broken : Bool
  received : List DmaRequest
  pushed : List (DmaRequest × DmaResponse)
  sent : List DmaResponse

def DmaAccess.setCall (s : DmaAccess) (k : Nat) (c : OnReadDone) : DmaAccess := { s with call := Function.update s.call k c }

/-! ## Steps -/

/-- The next step of a call of `OnReadDone`. -/
def onReadDone (k : Nat) (s : DmaAccess) : DmaAccess :=
  match s.call k with
  | .start => { s with reading := true }.setCall k .type
  | .type => s.setCall k (.addr s.req.type)
  | .addr type => s.setCall k (.access type s.req.addr)
  | .access type addr =>
    -- the field that the type does not need is not read
    let source := { type, addr, nbyte := s.req.nbyte, data := s.req.data : DmaRequest }.used
    let r := access s.memory source
    { s with memory := r.1 }.setCall k (.push source r.2)
  | .push source resp =>
    { s with respQue := s.respQue ++ [resp], pushed := s.pushed ++ [(source, resp)] }.setCall k
      (if s.respQue = [] then .write resp else .done)
  | .write resp => { s with resp }.setCall k .startWrite
  | .startWrite => { s with writes := s.writes + 1 }.setCall k .done
  | .done => s

/-- The critical section of `OnWriteDone`. -/
def onWriteDone (s : DmaAccess) : DmaAccess :=
  match s.popping, s.respQue.tail with
  | 0, _ => s
  | n + 1, [] => { s with popping := n, respQue := [] }
  | n + 1, next :: l => { s with popping := n, respQue := next :: l, resp := next, starting := s.starting + 1 }

inductive Act
  -- a read ends: with the next request, or with the end of the stream
  | readDone (r : Option DmaRequest)
  | onReadDone (k : Nat)
  -- a write ends
  | writeDone (ok : Bool)
  | onWriteDone
  | startWrite
  -- the application writes to its memory
  | memory (m : Memory)

def step (s : DmaAccess) : Act → DmaAccess
  | .readDone r =>
    if s.reading then
      match r with
      | none => { s with reading := false }
      | some r => { s with req := r, reading := false, received := s.received ++ [r] }.setCall s.received.length .start
    else s
  | .onReadDone k => if k < s.received.length then onReadDone k s else s
  | .writeDone ok =>
    match s.writes with
    | 0 => s
    | n + 1 => if ok then { s with writes := n, popping := s.popping + 1, sent := s.sent ++ [s.resp] } else { s with writes := n, broken := true }
  | .onWriteDone => onWriteDone s
  | .startWrite =>
    match s.starting with
    | 0 => s
    | n + 1 => { s with starting := n, writes := s.writes + 1 }
  | .memory m => { s with memory := m }

/-- After the constructor. -/
def init (memory : Memory) : DmaAccess where
  memory
  req := ⟨0, 0, 0, []⟩
  resp := ⟨0, []⟩
  respQue := []
  reading := true
  call _ := .done
  writes := 0
  popping := 0
  starting := 0
  broken := false
  received := []
  pushed := []
  sent := []

/-! ## The writer -/

/-- Who has the next write: nobody, the call of `OnReadDone` that found the queue empty, the write in flight, or `OnWriteDone`
before and after its critical section. -/
inductive Writer
  | quiet
  | first (k : Nat)
  | flight
  | popping
  | starting
  deriving DecidableEq

/-- The call has a write to start. -/
def OnReadDone.Writes : OnReadDone → Prop
  | .write _ | .startWrite => True
  | _ => False

/-- There is one writer, it has the head of the queue, and what has been sent is what has left the queue. -/
structure WriterAt (w : Writer) (s : DmaAccess) : Prop where
  first : ∀ k, (s.call k).Writes ↔ w = .first k
  writes : s.writes = if w = .flight then 1 else 0
  popping : s.popping = if w = .popping then 1 else 0
  starting : s.starting = if w = .starting then 1 else 0
  queue : w ≠ .quiet → s.respQue ≠ []
  quiet : w = .quiet → s.respQue = [] ∨ s.broken = true
  held : ∀ k resp, s.call k = .write resp → s.respQue.head? = some resp
  resp : w = .flight ∨ w = .starting ∨ (∃ k, s.call k = .startWrite) → s.respQue.head? = some s.resp
  sent : s.pushed.map Prod.snd = s.sent ++ if w = .popping then s.respQue.tail else s.respQue

theorem WriterAt.init (m : Memory) : WriterAt .quiet (init m) := by
  constructor <;> simp [DmaResponder.init, OnReadDone.Writes]

section Writing

variable {s : DmaAccess} {w : Writer} {k : Nat}

@[simp] theorem setCall_call (s : DmaAccess) (k j : Nat) (c : OnReadDone) :
    (s.setCall k c).call j = if j = k then c else s.call j := Function.update_apply ..

theorem WriterAt.inputs (h : WriterAt w s) (memory : Memory) (req : DmaRequest) (reading : Bool) (received : List DmaRequest) :
    WriterAt w { s with memory, req, reading, received } :=
  ⟨h.first, h.writes, h.popping, h.starting, h.queue, h.quiet, h.held, h.resp, h.sent⟩

theorem WriterAt.call (h : WriterAt w s) {c : OnReadDone} (hold : ¬(s.call k).Writes) (hnew : ¬c.Writes) :
    WriterAt w (s.setCall k c) := by
  have hsame : ∀ j, ((s.setCall k c).call j).Writes ↔ (s.call j).Writes := fun j => by
    rw [setCall_call]
    by_cases hj : j = k
    · subst hj
      rw [if_pos rfl]
      exact iff_of_false hnew hold
    · rw [if_neg hj]
  refine ⟨fun j => (hsame j).trans (h.first j), h.writes, h.popping, h.starting, h.queue, h.quiet, fun j resp hj => ?_, fun hr => ?_,
    h.sent⟩
  · rw [setCall_call] at hj
    by_cases hjk : j = k
    · rw [if_pos hjk] at hj
      exact absurd (hj ▸ trivial) hnew
    · rw [if_neg hjk] at hj
      exact h.held j resp hj
  · refine h.resp (hr.imp_right (Or.imp_right ?_))
    rintro ⟨j, hj⟩
    rw [setCall_call] at hj
    by_cases hjk : j = k
    · rw [if_pos hjk] at hj
      exact absurd (hj ▸ trivial) hnew
    · rw [if_neg hjk] at hj
      exact ⟨j, hj⟩

/-- The push of a response: the call becomes the writer if there is none. -/
theorem WriterAt.push (h : WriterAt w s) {source : DmaRequest} {resp : DmaResponse} (hk : s.call k = .push source resp) :
    ∃ w, WriterAt w (onReadDone k s) := by
  have hold : ¬(s.call k).Writes := by
    rw [hk]
    exact id
  unfold onReadDone
  rw [hk]
  dsimp only
  by_cases hq : s.respQue = []
  · have hw : w = .quiet := by
      by_contra hne
      exact h.queue hne hq
    subst hw
    rw [if_pos hq]
    refine ⟨.first k, fun j => ?_, h.writes, h.popping, h.starting, fun _ => by simp [DmaAccess.setCall], nofun, fun j r hj => ?_,
      ?_, ?_⟩
    · rw [setCall_call]
      by_cases hj : j = k
      · rw [if_pos hj, hj]
        exact iff_of_true trivial rfl
      · rw [if_neg hj]
        refine iff_of_false ?_ fun heq => hj (Writer.first.inj heq).symm
        exact fun hw => nomatch (h.first j).1 hw
    · rw [setCall_call] at hj
      by_cases hjk : j = k
      · rw [if_pos hjk] at hj
        cases hj
        simp [DmaAccess.setCall, hq]
      · rw [if_neg hjk] at hj
        exact nomatch (h.first j).1 (by rw [show s.call j = _ from hj]; trivial)
    · rintro (hno | hno | ⟨j, hj⟩)
      · cases hno
      · cases hno
      · rw [setCall_call] at hj
        by_cases hjk : j = k
        · rw [if_pos hjk] at hj
          cases hj
        · rw [if_neg hjk] at hj
          exact nomatch (h.first j).1 (by rw [show s.call j = _ from hj]; trivial)
    · have hs := h.sent
      simpa [DmaAccess.setCall, hq] using hs
  · rw [if_neg hq]
    have hhead : (s.respQue ++ [resp]).head? = s.respQue.head? := List.head?_append_of_ne_nil _ hq
    refine ⟨w, WriterAt.call (c := .done) (k := k) (s := { s with
      respQue := s.respQue ++ [resp], pushed := s.pushed ++ [(source, resp)] }) ?_ hold id⟩
    refine ⟨h.first, h.writes, h.popping, h.starting, fun _ => by simp, fun hw => Or.inr ((h.quiet hw).resolve_left hq),
      fun j r hj => hhead.trans (h.held j r hj), fun hr => hhead.trans (h.resp hr), ?_⟩
    show (s.pushed ++ [(source, resp)]).map Prod.snd = s.sent ++ if w = .popping then (s.respQue ++ [resp]).tail else s.respQue ++ [resp]
    rw [List.map_append, h.sent]
    by_cases hw : w = .popping
    · rw [if_pos hw, if_pos hw, List.tail_append_of_ne_nil hq]
      simp
    · rw [if_neg hw, if_neg hw]
      simp

theorem WriterAt.write (h : WriterAt w s) {resp : DmaResponse} (hk : s.call k = .write resp) :
    WriterAt (.first k) (onReadDone k s) := by
  have hw : w = .first k := (h.first k).1 (by rw [hk]; trivial)
  subst hw
  have hother : ∀ j, j ≠ k → ¬(s.call j).Writes := fun j hj hc => hj (Writer.first.inj ((h.first j).1 hc)).symm
  unfold onReadDone
  rw [hk]
  dsimp only
  refine ⟨fun j => ?_, h.writes, h.popping, h.starting, h.queue, nofun, fun j r hj => ?_, fun _ => h.held k resp hk, h.sent⟩
  · rw [setCall_call]
    by_cases hj : j = k
    · rw [if_pos hj, hj]
      exact iff_of_true trivial rfl
    · rw [if_neg hj]
      exact h.first j
  · rw [setCall_call] at hj
    by_cases hjk : j = k
    · rw [if_pos hjk] at hj
      cases hj
    · rw [if_neg hjk] at hj
      exact absurd (by rw [show s.call j = _ from hj]; trivial) (hother j hjk)

theorem WriterAt.startWrite (h : WriterAt w s) (hk : s.call k = .startWrite) : WriterAt .flight (onReadDone k s) := by
  have hw : w = .first k := (h.first k).1 (by rw [hk]; trivial)
  subst hw
  have hother : ∀ j, j ≠ k → ¬(s.call j).Writes := fun j hj hc => hj (Writer.first.inj ((h.first j).1 hc)).symm
  have hdone : ∀ j, ¬((({ s with writes := s.writes + 1 } : DmaAccess).setCall k .done).call j).Writes := fun j => by
    rw [setCall_call]
    by_cases hj : j = k
    · rw [if_pos hj]
      exact id
    · rw [if_neg hj]
      exact hother j hj
  unfold onReadDone
  rw [hk]
  dsimp only
  refine ⟨fun j => iff_of_false (hdone j) nofun, ?_, h.popping, h.starting, fun _ => h.queue nofun, nofun, fun j r hj => ?_,
    fun _ => h.resp (Or.inr (Or.inr ⟨k, hk⟩)), h.sent⟩
  · show s.writes + 1 = _
    rw [h.writes]
    rfl
  · exact absurd (by rw [hj]; trivial) (hdone j)

theorem WriterAt.onReadDone (h : WriterAt w s) (k : Nat) : ∃ w, WriterAt w (onReadDone k s) := by
  have hold : ∀ {c : OnReadDone}, s.call k = c → ¬c.Writes → ¬(s.call k).Writes := fun hc hn => by rwa [hc]
  cases hk : s.call k with
  | push source resp => exact h.push hk
  | write resp => exact ⟨_, h.write hk⟩
  | startWrite => exact ⟨_, h.startWrite hk⟩
  | start =>
    unfold DmaResponder.onReadDone
    rw [hk]
    refine ⟨w, (h.inputs s.memory s.req true s.received).call ?_ id⟩
    exact fun hc => hold hk id hc
  | type =>
    unfold DmaResponder.onReadDone
    rw [hk]
    exact ⟨w, h.call (hold hk id) id⟩
  | addr type =>
    unfold DmaResponder.onReadDone
    rw [hk]
    exact ⟨w, h.call (hold hk id) id⟩
  | access type addr =>
    unfold DmaResponder.onReadDone
    rw [hk]
    refine ⟨w, (h.inputs (access s.memory _).1 s.req s.reading s.received).call ?_ id⟩
    exact fun hc => hold hk id hc
  | done =>
    unfold DmaResponder.onReadDone
    rw [hk]
    exact ⟨w, h⟩

theorem WriterAt.noFirst (h : WriterAt w s) (hw : ∀ k, w ≠ .first k) (k : Nat) : ¬(s.call k).Writes := fun hc => hw k ((h.first k).1 hc)

theorem no_resp (hno : ∀ j, ¬(s.call j).Writes) (hf : w ≠ .flight) (hs : w ≠ .starting) :
    ¬(w = .flight ∨ w = .starting ∨ ∃ k, s.call k = .startWrite) := by
  rintro (h | h | ⟨k, hk⟩)
  · exact hf h
  · exact hs h
  · exact hno k (by rw [hk]; trivial)

theorem WriterAt.writeDone (h : WriterAt w s) (ok : Bool) : ∃ w, WriterAt w (step s (.writeDone ok)) := by
  unfold step
  dsimp only
  split
  · exact ⟨w, h⟩
  next n hn =>
    have hw : w = .flight := by
      by_contra hne
      have hwr := h.writes
      rw [if_neg hne, hn] at hwr
      cases hwr
    subst hw
    have hn0 : n = 0 := by
      have hwr := h.writes
      rw [if_pos rfl, hn] at hwr
      omega
    have hno := h.noFirst nofun
    have hhead := h.resp (Or.inl rfl)
    obtain ⟨resp, l, hq⟩ := List.exists_cons_of_ne_nil (h.queue nofun)
    have hsent := h.sent
    rw [hq] at hhead hsent
    cases ok with
    | true =>
      refine ⟨.popping, fun j => iff_of_false (hno j) nofun, hn0, ?_, h.starting, fun _ => h.queue nofun, nofun, h.held, fun hr => ?_, ?_⟩
      · show s.popping + 1 = _
        rw [h.popping]
        rfl
      · exact absurd hr (no_resp hno nofun nofun)
      · show s.pushed.map Prod.snd = (s.sent ++ [s.resp]) ++ s.respQue.tail
        rw [hsent, hq, ← Option.some.inj hhead]
        simp
    | false =>
      refine ⟨.quiet, fun j => iff_of_false (hno j) nofun, hn0, h.popping, h.starting, fun hne => absurd rfl hne, fun _ => Or.inr rfl, h.held,
        fun hr => absurd hr (no_resp hno nofun nofun), h.sent⟩

theorem WriterAt.onWriteDone (h : WriterAt w s) : ∃ w, WriterAt w (onWriteDone s) := by
  unfold DmaResponder.onWriteDone
  have hpop : ∀ n, s.popping = n + 1 → w = .popping ∧ n = 0 := fun n hn => by
    have hp := h.popping
    by_cases hw : w = .popping
    · rw [if_pos hw, hn] at hp
      exact ⟨hw, by omega⟩
    · rw [if_neg hw, hn] at hp
      cases hp
  split
  · exact ⟨w, h⟩
  next n hn htail =>
    obtain ⟨rfl, rfl⟩ := hpop n hn
    have hno := h.noFirst nofun
    have hsent := h.sent
    rw [if_pos rfl, htail] at hsent
    refine ⟨.quiet, fun j => iff_of_false (hno j) nofun, h.writes, rfl, h.starting, fun hne => absurd rfl hne, fun _ => Or.inl rfl,
      fun j r hj => absurd (by rw [show s.call j = _ from hj]; trivial) (hno j),
      fun hr => absurd hr (no_resp hno nofun nofun), hsent⟩
  next n next l hn htail =>
    obtain ⟨rfl, rfl⟩ := hpop n hn
    have hno := h.noFirst nofun
    have hsent := h.sent
    rw [if_pos rfl, htail] at hsent
    refine ⟨.starting, fun j => iff_of_false (hno j) nofun, h.writes, rfl, ?_, fun _ => nofun, nofun,
      fun j r hj => absurd (by rw [show s.call j = _ from hj]; trivial) (hno j), fun _ => rfl, hsent⟩
    show s.starting + 1 = _
    rw [h.starting]
    rfl

/-- What holds of every run: there is one writer, and the calls are those of the requests that have come. -/
structure Inv (s : DmaAccess) : Prop where
  writer : ∃ w, WriterAt w s
  later : ∀ k, s.received.length ≤ k → s.call k = .done

theorem onReadDone_frame (k : Nat) (s : DmaAccess) :
    (onReadDone k s).received = s.received ∧ ∀ j, j ≠ k → (onReadDone k s).call j = s.call j := by
  unfold onReadDone
  cases s.call k with
  | done => exact ⟨rfl, fun _ _ => rfl⟩
  | start => exact ⟨rfl, fun j hj => by rw [setCall_call, if_neg hj]⟩
  | type => exact ⟨rfl, fun j hj => by rw [setCall_call, if_neg hj]⟩
  | addr type => exact ⟨rfl, fun j hj => by rw [setCall_call, if_neg hj]⟩
  | access type addr => exact ⟨rfl, fun j hj => by rw [setCall_call, if_neg hj]⟩
  | push source resp => exact ⟨rfl, fun j hj => by rw [setCall_call, if_neg hj]⟩
  | write resp => exact ⟨rfl, fun j hj => by rw [setCall_call, if_neg hj]⟩
  | startWrite => exact ⟨rfl, fun j hj => by rw [setCall_call, if_neg hj]⟩

/-- A critical section of `OnWriteDone` does not touch the calls. -/
theorem onWriteDone_frame (s : DmaAccess) : (onWriteDone s).received = s.received ∧ (onWriteDone s).call = s.call ∧
    (onWriteDone s).req = s.req ∧ (onWriteDone s).pushed = s.pushed := by
  unfold onWriteDone
  split
  · exact ⟨rfl, rfl, rfl, rfl⟩
  · exact ⟨rfl, rfl, rfl, rfl⟩
  · exact ⟨rfl, rfl, rfl, rfl⟩

theorem Inv.init (m : Memory) : Inv (init m) := ⟨⟨_, WriterAt.init m⟩, fun _ _ => rfl⟩

theorem step_inv (s : DmaAccess) (a : Act) (hI : Inv s) : Inv (step s a) := by
  obtain ⟨⟨w, h⟩, hl⟩ := hI
  cases a with
  | readDone r =>
    unfold step
    dsimp only
    split
    · cases r with
      | none => exact ⟨⟨w, h.inputs s.memory s.req false s.received⟩, hl⟩
      | some r =>
        -- the call of the next request has not begun
        have hold : ¬(s.call s.received.length).Writes := by
          rw [hl _ le_rfl]
          exact id
        refine ⟨⟨w, (h.inputs s.memory r false (s.received ++ [r])).call (fun hc => hold hc) id⟩, fun k hk => ?_⟩
        replace hk : (s.received ++ [r]).length ≤ k := hk
        rw [List.length_append, List.length_singleton] at hk
        rw [setCall_call, if_neg (by omega)]
        exact hl k (by omega)
    · exact ⟨⟨w, h⟩, hl⟩
  | onReadDone k =>
    unfold step
    dsimp only
    split
    next hk =>
      obtain ⟨hr, hc⟩ := onReadDone_frame k s
      refine ⟨h.onReadDone k, fun j hj => ?_⟩
      rw [hr] at hj
      rw [hc j (by omega)]
      exact hl j hj
    · exact ⟨⟨w, h⟩, hl⟩
  | writeDone ok =>
    refine ⟨h.writeDone ok, ?_⟩
    unfold step
    dsimp only
    split
    · exact hl
    · split
      · exact hl
      · exact hl
  | onWriteDone =>
    obtain ⟨hr, hc, -⟩ := onWriteDone_frame s
    exact ⟨h.onWriteDone, fun k hk => by rw [show (step s .onWriteDone).call = s.call from hc]; exact hl k (hr ▸ hk)⟩
  | startWrite =>
    unfold step
    dsimp only
    split
    · exact ⟨⟨w, h⟩, hl⟩
    next n hn =>
      -- a started write leads to the writer that starts it
      have hst := h.starting
      have hw : w = .starting := by
        by_contra hne
        rw [if_neg hne, hn] at hst
        cases hst
      subst hw
      rw [if_pos rfl, hn] at hst
      have hno := h.noFirst nofun
      refine ⟨⟨.flight, fun j => iff_of_false (hno j) nofun, ?_, h.popping, by show n = 0; omega, fun _ => h.queue nofun, nofun, h.held,
        fun _ => h.resp (Or.inr (Or.inl rfl)), h.sent⟩, hl⟩
      show s.writes + 1 = _
      rw [h.writes]
      rfl
  | memory m => exact ⟨⟨w, h.inputs m s.req s.reading s.received⟩, hl⟩

end Writing

/-! ## The right request -/

/-- What a call has still to read of the request message `req` is what its own request `q` has there. -/
def Agrees (q req : DmaRequest) : OnReadDone → Prop
  | .start | .type => req.used = q.used
  | .addr type => { req with type }.used = q.used
  | .access type addr => { req with type, addr }.used = q.used
  | _ => True

/-- The call has not pushed its response. -/
def OnReadDone.Pending : OnReadDone → Prop
  | .write _ | .startWrite | .done => False
  | _ => True

/-- What a request asks for, with the memory before and after it: a read gets the bytes that are there, and a write puts its own in
their place and nothing else. -/
structure Answers (q : DmaRequest) (before : Memory) (resp : DmaResponse) (after : Memory) : Prop where
  status : resp.status = 0
  read : q.type = dmaRead → resp.data = (List.range q.nbyte).map (fun i : Nat => before (q.addr + i)) ∧ after = before
  write : q.type ≠ dmaRead → resp.data = [] ∧ (∀ (i : Nat) b, q.data[i]? = some b → after (q.addr + i) = b) ∧
    ∀ x, x < q.addr ∨ q.addr + q.data.length ≤ x → after x = before x

/-- In a step of the run, the `k`-th call accesses the memory as `q` asks, and its response is `resp`. -/
def Accesses (m : Memory) (acts : List Act) (k : Nat) (q : DmaRequest) (resp : DmaResponse) : Prop :=
  ∃ l, l ++ [.onReadDone k] <+: acts ∧
    Answers q (run step (init m) l).memory resp (run step (init m) (l ++ [.onReadDone k])).memory

/-- The calls push in the order of their requests, every one finds its request as it came, and its response is `P`. -/
structure Faithful (P : Nat → DmaRequest → DmaResponse → Prop) (s : DmaAccess) : Prop where
  pushedLe : s.pushed.length ≤ s.received.length
  order : ∀ k, k < s.received.length → ((s.call k).Pending ↔ s.pushed.length ≤ k)
  agrees : ∀ (k : Nat) q, s.received[k]? = some q → Agrees q s.req (s.call k)
  computed : ∀ (k : Nat) q source resp, s.received[k]? = some q → s.call k = .push source resp → P k q resp
  pushed : ∀ (k : Nat) p, s.pushed[k]? = some p → ∃ q, s.received[k]? = some q ∧ P k q p.2

/-- The next request comes when what the calls have still to read of their own requests is the same in it, and a call pushes its
response when those of all earlier requests have pushed theirs. -/
def Clean (s : DmaAccess) : Act → Prop
  | .readDone (some r) => s.reading = true → ∀ (k : Nat) q, s.received[k]? = some q → Agrees q r (s.call k)
  | .onReadDone k => ∀ source resp, s.call k = .push source resp → s.pushed.length = k
  | _ => True

instance (q req : DmaRequest) (c : OnReadDone) : Decidable (Agrees q req c) := by
  cases c <;> unfold Agrees <;> infer_instance

theorem clean_readDone_iff (s : DmaAccess) (r : DmaRequest) : Clean s (.readDone (some r)) ↔
    (s.reading = true → ∀ k : Fin s.received.length, Agrees (s.received.get k) r (s.call k)) := by
  refine imp_congr_right fun _ => ⟨fun h k => ?_, fun h k q hq => ?_⟩
  · exact h k _ (List.getElem?_eq_getElem k.isLt)
  · obtain ⟨hk, rfl⟩ := List.getElem?_eq_some_iff.1 hq
    exact h ⟨k, hk⟩

/-- The next step of the call is its push. -/
def OnReadDone.pushes : OnReadDone → Bool
  | .push _ _ => true
  | _ => false

theorem clean_onReadDone_iff (s : DmaAccess) (k : Nat) :
    Clean s (.onReadDone k) ↔ ((s.call k).pushes = true → s.pushed.length = k) := by
  show (∀ source resp, s.call k = .push source resp → s.pushed.length = k) ↔ _
  cases s.call k with
  | push source resp => exact ⟨fun h _ => h source resp rfl, fun h _ _ _ => h rfl⟩
  | _ => exact iff_of_true nofun nofun

instance (s : DmaAccess) : (a : Act) → Decidable (Clean s a)
  | .readDone (some r) => decidable_of_iff _ (clean_readDone_iff s r).symm
  | .onReadDone k => decidable_of_iff _ (clean_onReadDone_iff s k).symm
  | .readDone none | .writeDone _ | .onWriteDone | .startWrite | .memory _ => isTrue trivial

theorem access_answers (m : Memory) (q : DmaRequest) : Answers q m (access m q.used).2 (access m q.used).1 := by
  by_cases hq : q.type = dmaRead
  · have hused : q.used = { q with data := [] } := if_pos hq
    rw [hused, access, if_pos hq]
    exact ⟨rfl, fun _ => ⟨rfl, rfl⟩, fun h => absurd hq h⟩
  · have hused : q.used = { q with nbyte := 0 } := if_neg hq
    rw [hused, access, if_neg hq]
    refine ⟨rfl, fun h => absurd h hq, fun _ => ⟨rfl, fun i b hb => ?_, fun x hx => ?_⟩⟩
    · have hi : (q.addr + i - q.addr).toNat = i := by omega
      show Memory.store m q.addr q.data (q.addr + i) = b
      rw [Memory.store, if_pos (by omega), hi, hb, Option.getD_some]
    · show Memory.store m q.addr q.data x = m x
      unfold Memory.store
      split
      · rw [List.getElem?_eq_none (by omega), Option.getD_none]
      · rfl

section Faithful

variable {P : Nat → DmaRequest → DmaResponse → Prop} {s : DmaAccess}

theorem Faithful.mono {P' : Nat → DmaRequest → DmaResponse → Prop} (hP : ∀ k q resp, P k q resp → P' k q resp) (h : Faithful P s) :
    Faithful P' s :=
  ⟨h.pushedLe, h.order, h.agrees, fun k q source resp hq hcall => hP _ _ _ (h.computed k q source resp hq hcall), fun k p hp =>
    (h.pushed k p hp).imp fun _ => And.imp_right (hP _ _ _)⟩

/-- A step of call `k` that does not push. -/
theorem Faithful.advance (h : Faithful P s) {k : Nat} (hk : k < s.received.length) {c : OnReadDone} (hp : c.Pending ↔ (s.call k).Pending)
    (hag : ∀ q, s.received[k]? = some q → Agrees q s.req c)
    (hc : ∀ q source resp, s.received[k]? = some q → c = .push source resp → P k q resp) : Faithful P (s.setCall k c) := by
  constructor
  case pushedLe => exact h.pushedLe
  case order =>
    intro j hj
    rw [setCall_call]
    by_cases hjk : j = k
    · subst hjk
      rw [if_pos rfl, hp]
      exact h.order j hj
    · rw [if_neg hjk]
      exact h.order j hj
  case agrees =>
    intro j q hq
    rw [setCall_call]
    by_cases hjk : j = k
    · subst hjk
      rw [if_pos rfl]
      exact hag q hq
    · rw [if_neg hjk]
      exact h.agrees j q hq
  case computed =>
    intro j q source resp hq hcall
    rw [setCall_call] at hcall
    by_cases hjk : j = k
    · subst hjk
      rw [if_pos rfl] at hcall
      exact hc q source resp hq hcall
    · rw [if_neg hjk] at hcall
      exact h.computed j q source resp hq hcall
  case pushed => exact h.pushed

theorem Faithful.frame (h : Faithful P s) {s' : DmaAccess} (hr : s'.received = s.received) (hp : s'.pushed = s.pushed)
    (hq : s'.req = s.req) (hc : s'.call = s.call) : Faithful P s' := by
  obtain ⟨h1, h2, h3, h4, h5⟩ := h
  exact ⟨by rwa [hr, hp], by rwa [hr, hp, hc], by rwa [hr, hq, hc], by rwa [hr, hc], by rwa [hp, hr]⟩

theorem Faithful.push (h : Faithful P s) {k : Nat} (hk : k < s.received.length) {source : DmaRequest} {resp : DmaResponse}
    (hcall : s.call k = .push source resp) (hturn : s.pushed.length = k) : Faithful P (DmaResponder.onReadDone k s) := by
  unfold DmaResponder.onReadDone
  rw [hcall]
  dsimp only
  generalize hc : (if s.respQue = [] then OnReadDone.write resp else .done) = c
  have hnot : ¬c.Pending ∧ (∀ q, Agrees q s.req c) ∧ ∀ source resp, c ≠ .push source resp := by
    rw [← hc]
    split
    · exact ⟨id, fun _ => trivial, nofun⟩
    · exact ⟨id, fun _ => trivial, nofun⟩
  constructor
  case pushedLe =>
    show (s.pushed ++ [(source, resp)]).length ≤ s.received.length
    rw [List.length_append, List.length_singleton]
    omega
  case order =>
    intro j hj
    have hord := h.order j hj
    show _ ↔ (s.pushed ++ [(source, resp)]).length ≤ j
    rw [setCall_call, List.length_append, List.length_singleton]
    by_cases hjk : j = k
    · rw [if_pos hjk]
      exact iff_of_false hnot.1 (by omega)
    · rw [if_neg hjk]
      exact hord.trans (by omega)
  case agrees =>
    intro j q hq
    rw [setCall_call]
    by_cases hjk : j = k
    · rw [if_pos hjk]
      exact hnot.2.1 q
    · rw [if_neg hjk]
      exact h.agrees j q hq
  case computed =>
    intro j q source' resp' hq hcall'
    rw [setCall_call] at hcall'
    by_cases hjk : j = k
    · rw [if_pos hjk] at hcall'
      exact absurd hcall' (hnot.2.2 _ _)
    · rw [if_neg hjk] at hcall'
      exact h.computed j q source' resp' hq hcall'
  case pushed =>
    intro j p hp
    replace hp : (s.pushed ++ [(source, resp)])[j]? = some p := hp
    rcases Nat.lt_or_ge j s.pushed.length with hlt | hge
    · rw [List.getElem?_append_left hlt] at hp
      exact h.pushed j p hp
    · rw [List.getElem?_append_right hge] at hp
      obtain ⟨hj0, rfl⟩ := List.getElem?_eq_some_iff.1 hp
      have hj : j = k := by
        rw [List.length_singleton] at hj0
        omega
      subst hj
      have hq : s.received[j]? = some s.received[j] := List.getElem?_eq_getElem hk
      exact ⟨_, hq, by simpa using h.computed j _ source resp hq hcall⟩

theorem Faithful.onReadDone (h : Faithful P s) {k : Nat} (hk : k < s.received.length)
    (hturn : ∀ source resp, s.call k = .push source resp → s.pushed.length = k)
    (hP : ∀ q resp, Answers q s.memory resp (DmaResponder.onReadDone k s).memory → P k q resp) : Faithful P (DmaResponder.onReadDone k s) := by
  cases hc : s.call k with
  | push source resp => exact h.push hk hc (hturn source resp hc)
  | start =>
    unfold DmaResponder.onReadDone
    rw [hc]
    have h' : Faithful P { s with reading := true } := h.frame rfl rfl rfl rfl
    refine h'.advance hk (by rw [show ({ s with reading := true } : DmaAccess).call k = _ from hc]; exact Iff.rfl) (fun q hq => ?_) nofun
    have hag := h.agrees k q hq
    rwa [hc] at hag
  | type =>
    unfold DmaResponder.onReadDone
    rw [hc]
    refine h.advance hk (by rw [hc]; exact Iff.rfl) (fun q hq => ?_) nofun
    have hag := h.agrees k q hq
    rwa [hc] at hag
  | addr type =>
    unfold DmaResponder.onReadDone
    rw [hc]
    refine h.advance hk (by rw [hc]; exact Iff.rfl) (fun q hq => ?_) nofun
    have hag := h.agrees k q hq
    rwa [hc] at hag
  | access type addr =>
    unfold DmaResponder.onReadDone at hP ⊢
    rw [hc] at hP ⊢
    dsimp only at hP ⊢
    have h' : ∀ m, Faithful P { s with memory := m } := fun m => h.frame rfl rfl rfl rfl
    generalize hsrc : (⟨type, addr, s.req.nbyte, s.req.data⟩ : DmaRequest).used = src at hP ⊢
    refine (h' (access s.memory src).1).advance hk (c := .push src (access s.memory src).2) ?_ (fun _ _ => trivial) ?_
    · rw [show ({ s with memory := (access s.memory src).1 } : DmaAccess).call k = _ from hc]
      exact Iff.rfl
    intro q source resp hq heq
    have hag : ({ s.req with type, addr } : DmaRequest).used = q.used := by
      have := h.agrees k q hq
      rwa [hc] at this
    cases heq
    rw [hsrc] at hag
    refine hP q _ ?_
    show Answers q s.memory (access s.memory src).2 (access s.memory src).1
    rw [hag]
    exact access_answers s.memory q
  | write resp =>
    unfold DmaResponder.onReadDone
    rw [hc]
    have h' : Faithful P { s with resp } := h.frame rfl rfl rfl rfl
    exact h'.advance hk (by rw [show ({ s with resp } : DmaAccess).call k = _ from hc]; exact Iff.rfl) (fun _ _ => trivial) nofun
  | startWrite =>
    unfold DmaResponder.onReadDone
    rw [hc]
    have h' : Faithful P { s with writes := s.writes + 1 } := h.frame rfl rfl rfl rfl
    exact h'.advance hk (by rw [show ({ s with writes := s.writes + 1 } : DmaAccess).call k = _ from hc]; exact Iff.rfl)
      (fun _ _ => trivial) nofun
  | done =>
    unfold DmaResponder.onReadDone
    rw [hc]
    exact h

theorem Faithful.init (m : Memory) : Faithful P (DmaResponder.init m) :=
  ⟨le_rfl, fun _ h => absurd h (Nat.not_lt_zero _), nofun, nofun, nofun⟩

/-- The next request. -/
theorem Faithful.receive (h : Faithful P s) (r : DmaRequest)
    (hag : ∀ (k : Nat) q, s.received[k]? = some q → Agrees q r (s.call k)) :
    Faithful P (({ s with req := r, reading := false, received := s.received ++ [r] } : DmaAccess).setCall s.received.length .start) := by
  have hle := h.pushedLe
  have hget : ∀ (k : Nat) q, (s.received ++ [r])[k]? = some q →
      (k < s.received.length ∧ s.received[k]? = some q) ∨ (k = s.received.length ∧ q = r) := fun k q hq => by
    rcases Nat.lt_or_ge k s.received.length with hlt | hge
    · rw [List.getElem?_append_left hlt] at hq
      exact Or.inl ⟨hlt, hq⟩
    · rw [List.getElem?_append_right hge] at hq
      obtain ⟨hk, heq⟩ := List.getElem?_eq_some_iff.1 hq
      rw [List.length_singleton] at hk
      exact Or.inr ⟨by omega, by simpa using heq.symm⟩
  constructor
  case pushedLe =>
    show s.pushed.length ≤ (s.received ++ [r]).length
    rw [List.length_append]
    exact Nat.le_add_right_of_le hle
  case order =>
    intro k hk
    replace hk : k < (s.received ++ [r]).length := hk
    rw [List.length_append, List.length_singleton] at hk
    rw [setCall_call]
    by_cases hkn : k = s.received.length
    · rw [if_pos hkn, hkn]
      exact iff_of_true trivial hle
    · rw [if_neg hkn]
      exact h.order k (by omega)
  case agrees =>
    intro k q hq
    rw [setCall_call]
    rcases hget k q hq with ⟨hlt, hq⟩ | ⟨rfl, rfl⟩
    · rw [if_neg (Nat.ne_of_lt hlt)]
      exact hag k q hq
    · rw [if_pos rfl]
      exact rfl
  case computed =>
    intro k q source resp hq hcall
    rw [setCall_call] at hcall
    rcases hget k q hq with ⟨hlt, hq⟩ | ⟨rfl, rfl⟩
    · rw [if_neg (Nat.ne_of_lt hlt)] at hcall
      exact h.computed k q source resp hq hcall
    · rw [if_pos rfl] at hcall
      cases hcall
  case pushed =>
    intro k p hp
    obtain ⟨q, hq, hc⟩ := h.pushed k p hp
    refine ⟨q, ?_, hc⟩
    show (s.received ++ [r])[k]? = some q
    rw [List.getElem?_append_left (List.getElem?_eq_some_iff.1 hq).1]
    exact hq

theorem step_faithful (a : Act) (hc : Clean s a)
    (hP : ∀ k q resp, a = .onReadDone k → Answers q s.memory resp (step s a).memory → P k q resp) (h : Faithful P s) :
    Faithful P (step s a) := by
  cases a with
  | readDone r =>
    unfold step
    dsimp only
    split
    next hr =>
      cases r with
      | none => exact h.frame rfl rfl rfl rfl
      | some r => exact h.receive r (hc hr)
    · exact h
  | onReadDone k =>
    by_cases hk : k < s.received.length
    · have hstep : step s (.onReadDone k) = DmaResponder.onReadDone k s := if_pos hk
      rw [hstep] at hP ⊢
      exact h.onReadDone hk hc fun q resp => hP k q resp rfl
    · rw [show step s (.onReadDone k) = s from if_neg hk]
      exact h
  | writeDone ok =>
    unfold step
    dsimp only
    split
    · exact h
    · split
      · exact h.frame rfl rfl rfl rfl
      · exact h.frame rfl rfl rfl rfl
  | onWriteDone =>
    obtain ⟨h1, h2, h3, h4⟩ := onWriteDone_frame s
    exact h.frame h1 h4 h3 h2
  | startWrite =>
    unfold step
    dsimp only
    split
    · exact h
    · exact h.frame rfl rfl rfl rfl
  | memory m => exact h.frame rfl rfl rfl rfl

theorem run_faithful (m : Memory) : ∀ rest done : List Act, Meets step Clean (run step (init m) done) rest →
    Faithful (Accesses m done) (run step (init m) done) → Faithful (Accesses m (done ++ rest)) (run step (init m) (done ++ rest))
  | [], done, _, h => by rwa [List.append_nil]
  | a :: rest, done, hm, h => by
    have hrun : run step (init m) (done ++ [a]) = step (run step (init m) done) a := run_append ..
    rw [List.append_cons]
    refine run_faithful m rest (done ++ [a]) (by rw [hrun]; exact hm.2) ?_
    rw [hrun]
    refine step_faithful a hm.1 (fun k q resp ha hans => ?_) (h.mono fun k q resp ⟨l, hl, hans⟩ => ?_)
    · subst ha
      exact ⟨done, List.prefix_rfl, by rw [hrun]; exact hans⟩
    · exact ⟨l, hl.trans (List.prefix_append ..), hans⟩

end Faithful

/-! ## Runs -/

/-- At most one write is in flight, what has been sent is what was pushed, in order and each response once, and a response in the
queue has somebody who sends it, unless the stream is broken. -/
structure Sending (s : DmaAccess) : Prop where
  one : s.writes ≤ 1
  once : s.sent <+: s.pushed.map Prod.snd
  moving : s.respQue ≠ [] → s.broken = true ∨ s.writes = 1 ∨ s.popping = 1 ∨ s.starting = 1 ∨ ∃ k, (s.call k).Writes

theorem Inv.sending {s : DmaAccess} (hI : Inv s) : Sending s := by
  obtain ⟨⟨w, h⟩, -⟩ := hI
  refine ⟨?_, ?_, fun hq => ?_⟩
  · rw [h.writes]
    split
    · exact le_rfl
    · exact Nat.zero_le _
  · rw [h.sent]
    exact List.prefix_append ..
  · cases w with
    | quiet => exact Or.inl ((h.quiet rfl).resolve_left hq)
    | first k => exact Or.inr (Or.inr (Or.inr (Or.inr ⟨k, (h.first k).2 rfl⟩)))
    | flight => exact Or.inr (Or.inl h.writes)
    | popping => exact Or.inr (Or.inr (Or.inl h.popping))
    | starting => exact Or.inr (Or.inr (Or.inr (Or.inl h.starting)))

/-- The `k`-th response that was sent is that of an access of the `k`-th call as the `k`-th request asks, and there is one for each
request when all calls have pushed theirs and none is left in the queue. -/
structure Answered (m : Memory) (acts : List Act) : Prop where
  each : ∀ (k : Nat) resp, (run step (init m) acts).sent[k]? = some resp →
    ∃ q, (run step (init m) acts).received[k]? = some q ∧ Accesses m acts k q resp
  all : (∀ k, ¬((run step (init m) acts).call k).Pending) → (run step (init m) acts).respQue = [] →
    (run step (init m) acts).sent.length = (run step (init m) acts).received.length

theorem Faithful.all {P : Nat → DmaRequest → DmaResponse → Prop} {s : DmaAccess} (h : Faithful P s) (hI : Inv s)
    (hp : ∀ k, ¬(s.call k).Pending) (hq : s.respQue = []) : s.sent.length = s.received.length := by
  obtain ⟨⟨w, hw⟩, -⟩ := hI
  have hsent := congrArg List.length hw.sent
  rw [hq, List.tail_nil, ite_self, List.append_nil, List.length_map] at hsent
  rw [← hsent]
  refine h.pushedLe.antisymm (not_lt.1 fun hlt => ?_)
  exact hp _ ((h.order _ hlt).2 le_rfl)

/-- In every run there is one writer at a time and the responses are sent once and in order; if all steps meet the condition, they
answer the requests. -/
theorem responses_right (m : Memory) (acts : List Act) : Sending (run step (init m) acts) ∧
    (Meets step Clean (init m) acts → Answered m acts) := by
  have hI : Inv (run step (init m) acts) := run_inv step_inv acts (init m) (Inv.init m)
  refine ⟨hI.sending, fun hc => ?_⟩
  have hF : Faithful (Accesses m acts) (run step (init m) acts) := run_faithful m acts [] hc (Faithful.init m)
  refine ⟨fun k resp hk => ?_, hF.all hI⟩
  obtain ⟨hlen, heq⟩ := List.getElem?_eq_some_iff.1 hk
  have hpre := hI.sending.once
  have hmap : ((run step (init m) acts).pushed.map Prod.snd)[k]? = some resp := by
    obtain ⟨l, hl⟩ := hpre
    rw [← hl, List.getElem?_append_left hlen]
    exact hk
  rw [List.getElem?_map] at hmap
  obtain ⟨p, hp, rfl⟩ := Option.map_eq_some_iff.1 hmap
  exact hF.pushed k p hp

def counting : Memory := fun x => BitVec.ofInt 8 x

/-- Both requests read a byte. -/
def readAt (addr : Int) : DmaRequest := ⟨dmaRead, addr, 1, []⟩

/-- The first call has asked for the next request and not looked at its own when the next one comes. -/
def tooEarly : List Act :=
  [Act.readDone (some (readAt 10)), Act.onReadDone 0, Act.readDone (some (readAt 20))] ++ List.replicate 6 (Act.onReadDone 0) ++
    [Act.writeDone true]

/-- The first response has the byte of the second request. -/
theorem next_request_answered : (run step (init counting) tooEarly).received = [readAt 10, readAt 20] ∧
    (run step (init counting) tooEarly).sent = [⟨0, [20]⟩] ∧ ¬Answered counting tooEarly := by
  refine ⟨by decide +kernel, by decide +kernel, fun h => ?_⟩
  obtain ⟨q, hq, l, hl, hans⟩ := h.each 0 ⟨0, [20]⟩ (by decide +kernel)
  have hq0 : (run step (init counting) tooEarly).received[0]? = some (readAt 10) := by decide +kernel
  cases hq0.symm.trans hq
  -- nothing is ever written
  have hmem : ∀ l ∈ tooEarly.inits, (run step (init counting) l).memory 10 = 10 := by decide +kernel
  have hdata := (hans.read rfl).1
  have hbyte : [(20 : U8)] = [(run step (init counting) l).memory 10] := hdata
  rw [hmem l ((List.mem_inits ..).2 ((List.prefix_append ..).trans hl))] at hbyte
  exact absurd hbyte (by decide)

/-- A byte is written and read again; the second request comes after the first response is in the queue. -/
def writeThenRead : List Act :=
  [Act.readDone (some ⟨1, 10, 0, [7]⟩)] ++ List.replicate 5 (Act.onReadDone 0) ++ [Act.readDone (some (readAt 10))] ++
    List.replicate 2 (Act.onReadDone 0) ++ [Act.writeDone true, Act.onWriteDone] ++ List.replicate 7 (Act.onReadDone 1) ++
    [Act.writeDone true]

theorem responses_right_two : (run step (init counting) writeThenRead).sent = [⟨0, []⟩, ⟨0, [7]⟩] ∧ Answered counting writeThenRead := by
  refine ⟨by decide +kernel, (responses_right counting _).2 ?_⟩
  decide +kernel

end NdkSw.Grpc.DmaResponder

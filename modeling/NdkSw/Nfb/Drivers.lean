/-
The table of drivers of the module and the drivers of a card (`core.c`). Cards are probed and removed while other modules register and
unregister their drivers. A step is what one thread does under `nfb_driver_register_mutex`, or between two such sections; the loop of
`nfb_detach_driver_before_reload` takes no mutex, and goes slot by slot.
-/
import NdkSw.Ndp.Channel

namespace NdkSw.Drivers

/-! ## Data model -/

/-- `NFB_DRIVERS_EARLY`, `NFB_DRIVERS_MAX` and `NFB_CARD_COUNT_MAX`. -/
def driversEarly : Nat := 2

def driversMax : Nat := 16

def cardCountMax : Nat := 8

/-- `struct nfb_driver_ops`: its functions go by numbers. -/
structure DriverOps where
  attach : Option Nat := none
  detach : Option Nat := none
  probeEndpoint : Option Nat := none
  removeEndpoint : Option Nat := none
  deriving DecidableEq

/-- `enum nfb_driver_status`. -/
inductive DriverStatus where
  | none
  | ok
  | error
  deriving DecidableEq, Repr

/-- `struct nfb_driver`. -/
structure NfbDriver where
  status : DriverStatus := .none
  priv : Nat := 0

/-- How far a card has come in its probe and its removal; `reloading next` has the slots below `next` before it. -/
inductive Phase where
  | absent
  | created
  | early
  | failed
  | published
  | running
  | reloading (next : Nat)
  | detached
  | gone
  deriving DecidableEq, Repr

/-- `forget` is no call: the status of a slot whose driver refused the card is cleared. -/
inductive CallKind where
  | attach (ret : Int)
  | detach
  | forget
  | probeEndpoint (endpoint : Nat)
  | removeEndpoint (endpoint : Nat)

/-- A call of a driver's function for a slot of a card; `ops` is the entry of the table it was taken from. -/
structure Call where
  kind : CallKind
  card : Nat
  slot : Nat
  ops : DriverOps
  priv : Nat

/-- `nfb_registered_drivers`, `nfb_devices` and the cards; `clearing` are the entries that a thread in `nfb_driver_unregister` is about
to clear, `log` the calls so far. -/
structure State where
  registered : Nat → DriverOps
  devices : Nat → Option Nat
  minor : Nat → Nat
  drivers : Nat → Nat → NfbDriver
  phase : Nat → Phase
  clearing : List Nat
  log : List Call

/-- What the `attach` functions return for a slot of a card, and what they store in `priv`. -/
abbrev Attached := Nat → Nat → Int × Nat

def State.setDriver (s : State) (c i : Nat) (d : NfbDriver) : State :=
  { s with drivers := Function.update s.drivers c (Function.update (s.drivers c) i d) }

def State.call (s : State) (kind : CallKind) (c i priv : Nat) : State := { s with log := s.log ++ [⟨kind, c, i, s.registered i, priv⟩] }

def State.setPhase (s : State) (c : Nat) (p : Phase) : State := { s with phase := Function.update s.phase c p }

/-! ## The drivers of a card -/

/-- `nfb_attach_driver`. -/
def nfbAttachDriver (env : Attached) (c i : Nat) (s : State) : State :=
  if (s.registered i).attach.isSome ∧ (s.drivers c i).status = .none then
    let s := s.call (.attach (env c i).1) c i (env c i).2
    s.setDriver c i { status := if (env c i).1 = 0 then .ok else .error, priv := (env c i).2 }
  else s

/-- `nfb_detach_driver`. -/
def nfbDetachDriver (c i : Nat) (s : State) : State :=
  let s :=
    match (s.drivers c i).status with
    | .ok => s.call .detach c i (s.drivers c i).priv
    | .error => s.call .forget c i (s.drivers c i).priv
    | .none => s
  s.setDriver c i { s.drivers c i with status := .none }

def attachAll (env : Attached) (l : List (Nat × Nat)) (s : State) : State := l.foldl (fun s p => nfbAttachDriver env p.1 p.2 s) s

def detachAll (l : List (Nat × Nat)) (s : State) : State := l.foldl (fun s p => nfbDetachDriver p.1 p.2 s) s

/-- The slots of the loop of `nfb_attach_drivers_early`. -/
def earlySlots : List Nat := List.range driversEarly

/-- The slots of the loop of `nfb_attach_drivers`. -/
def lateSlots : List Nat := List.range' driversEarly (driversMax - driversEarly)

/-- The slots of the loops that run backwards. -/
def slotsBackwards : List Nat := (List.range driversMax).reverse

/-- `nfb_attach_drivers_early`. -/
def nfbAttachDriversEarly (env : Attached) (c : Nat) (s : State) : State := attachAll env (earlySlots.map (c, ·)) s

/-- `nfb_attach_drivers`. -/
def nfbAttachDrivers (env : Attached) (c : Nat) (s : State) : State := attachAll env (lateSlots.map (c, ·)) s

/-- `nfb_detach_drivers`. -/
def nfbDetachDrivers (c : Nat) (s : State) : State := detachAll (slotsBackwards.map (c, ·)) s

/-- `nfb_net_attach` and `nfb_ndp_netdev_attach`. -/
def nfbNetAttach : Nat := 4

def nfbNdpNetdevAttach : Nat := 5

/-- The drivers that `nfb_detach_driver_before_reload` looks for. -/
def isNet (ops : DriverOps) : Bool := ops.attach = some nfbNdpNetdevAttach ∨ ops.attach = some nfbNetAttach

/-- A round of the loop of `nfb_detach_driver_before_reload`. -/
def nfbDetachDriverBeforeReload (c i : Nat) (s : State) : State := if isNet (s.registered i) then nfbDetachDriver c i s else s

/-- The test in the loops over the endpoint functions, in both of them of `remove_endpoint`. -/
def handlesEndpoints (s : State) (c i : Nat) : Bool := (s.drivers c i).status = .ok ∧ (s.registered i).removeEndpoint.isSome

/-- `nfb_probe_endpoint_late`. -/
def nfbProbeEndpointLate (c endpoint : Nat) (s : State) : State :=
  (List.range driversMax).foldl (fun s i => if handlesEndpoints s c i then s.call (.probeEndpoint endpoint) c i (s.drivers c i).priv else s) s

/-- `nfb_remove_endpoint_early`. -/
def nfbRemoveEndpointEarly (c endpoint : Nat) (s : State) : State :=
  slotsBackwards.foldl (fun s i => if handlesEndpoints s c i then s.call (.removeEndpoint endpoint) c i (s.drivers c i).priv else s) s

/-! ## The table -/

/-- The cards in `nfb_devices`, in its order. -/
def State.cards (s : State) : List Nat := (List.range cardCountMax).filterMap s.devices

/-- The first entry with a function `attach`, or without one. -/
def State.find (s : State) (attach : Option Nat) : Option Nat :=
  (List.range driversMax).find? fun i => decide ((s.registered i).attach = attach)

/-- `nfb_driver_register`. -/
def nfbDriverRegister (ops : DriverOps) (env : Attached) (s : State) : State × Int :=
  if ops.attach = none ∨ ops.detach = none then (s, -1)
  else
    match s.find none with
    | none => (s, -1)
    | some index =>
      let s := { s with registered := Function.update s.registered index ops }
      (attachAll env (s.cards.map (·, index)) s, 0)

/-- `nfb_driver_unregister` up to where it unlocks the mutex. -/
def nfbDriverUnregister (ops : DriverOps) (s : State) : State :=
  if ops.attach = none ∨ ops.detach = none then s
  else
    match s.find ops.attach with
    | none => s
    | some index => { detachAll (s.cards.map (·, index)) s with clearing := index :: s.clearing }

/-- The last statement of `nfb_driver_unregister`. -/
def clearEntry (index : Nat) (s : State) : State :=
  { s with registered := Function.update s.registered index {}, clearing := s.clearing.erase index }

/-- `embedded_driver_ops`, with the drivers that are built in. -/
def embeddedDriverOps (xdp pmci : Bool) : List DriverOps :=
  [{ attach := some 0, detach := some 10, probeEndpoint := some 20, removeEndpoint := some 21 },
    { attach := some 1, detach := some 11 }, { attach := some 2, detach := some 12 }, { attach := some 3, detach := some 13 },
    { attach := some nfbNetAttach, detach := some 14 }, { attach := some nfbNdpNetdevAttach, detach := some 15 },
    { attach := some 6, detach := some 16 }] ++
  (if xdp then [{ attach := some 7, detach := some 17 }] else []) ++ (if pmci then [{ attach := some 8, detach := some 18 }] else [])

/-- The module before `nfb_init`. -/
def State.empty : State where
  registered := fun _ => {}
  devices := fun _ => none
  minor := fun _ => 0
  drivers := fun _ _ => {}
  phase := fun _ => .absent
  clearing := []
  log := []

/-- The loop of `nfb_init`. -/
def nfbInit (xdp pmci : Bool) : State :=
  (embeddedDriverOps xdp pmci).foldl (fun s ops => (nfbDriverRegister ops (fun _ _ => (0, 0)) s).1) State.empty

/-! ## Steps -/

inductive Act where
  | register (ops : DriverOps) (env : Attached)
  | unregister (ops : DriverOps)
  | clear (index : Nat)
  | create (c minor : Nat)
  | attachEarly (c : Nat) (env : Attached)
  | charProbe (c : Nat) (ret : Int)
  | attachLate (c : Nat) (env : Attached)
  | reload (c : Nat)
  | beforeReload (c : Nat)
  | detach (c : Nat)
  | unpublish (c : Nat)
  | probeEndpoint (c endpoint : Nat)
  | removeEndpoint (c endpoint : Nat)

/-- A card whose device number is in use. -/
def State.numbered (s : State) (c : Nat) : Prop := s.phase c ≠ .absent ∧ s.phase c ≠ .gone

/-- A card behind its probe and before its removal. -/
def Phase.alive : Phase → Bool
  | .running | .reloading _ => true
  | _ => false

/-- One step: `nfb_probe` is `attachEarly`, `charProbe` and `attachLate`, `nfb_remove` is `detach` and `unpublish`. A reload starts the
loop of `nfb_detach_driver_before_reload`, of which `beforeReload` is one round: no mutex guards it, and nothing else is taken to reach the
slot during the round. Endpoints come and go only while the card runs or is reloaded. `nfb_create` gives a number that no other card
has. -/
inductive Step (s : State) : Act → State → Prop where
  | register (ops : DriverOps) (env : Attached) : Step s (.register ops env) (nfbDriverRegister ops env s).1
  | unregister (ops : DriverOps) : Step s (.unregister ops) (nfbDriverUnregister ops s)
  | clear {index : Nat} (h : index ∈ s.clearing) : Step s (.clear index) (clearEntry index s)
  | create {c minor : Nat} (h : s.phase c = .absent) (hminor : minor < cardCountMax)
      (hfree : ∀ c, s.numbered c → s.minor c ≠ minor) :
      Step s (.create c minor) ({ s with minor := Function.update s.minor c minor }.setPhase c .created)
  | attachEarly {c : Nat} (env : Attached) (h : s.phase c = .created) :
      Step s (.attachEarly c env) ((nfbAttachDriversEarly env c s).setPhase c .early)
  | charProbe {c : Nat} (h : s.phase c = .early) :
      Step s (.charProbe c 0) ({ s with devices := Function.update s.devices (s.minor c) (some c) }.setPhase c .published)
  | charProbeFails {c : Nat} {ret : Int} (h : s.phase c = .early) (hret : ret ≠ 0) : Step s (.charProbe c ret) (s.setPhase c .failed)
  | attachLate {c : Nat} (env : Attached) (h : s.phase c = .published) :
      Step s (.attachLate c env) ((nfbAttachDrivers env c s).setPhase c .running)
  | reload {c : Nat} (h : s.phase c = .running) : Step s (.reload c) (s.setPhase c (.reloading driversMax))
  | beforeReload {c i : Nat} (h : s.phase c = .reloading (i + 1)) :
      Step s (.beforeReload c) ((nfbDetachDriverBeforeReload c i s).setPhase c (.reloading i))
  | detach {c : Nat} (h : (s.phase c).alive) :
      Step s (.detach c) ((nfbDetachDrivers c s).setPhase c .detached)
  | unpublish {c : Nat} (h : s.phase c = .detached) :
      Step s (.unpublish c) ({ s with devices := Function.update s.devices (s.minor c) none }.setPhase c .gone)
  | probeEndpoint {c : Nat} (endpoint : Nat) (h : (s.phase c).alive) :
      Step s (.probeEndpoint c endpoint) (nfbProbeEndpointLate c endpoint s)
  | removeEndpoint {c : Nat} (endpoint : Nat) (h : (s.phase c).alive) :
      Step s (.removeEndpoint c endpoint) (nfbRemoveEndpointEarly c endpoint s)

/-- What the threads have to keep to: a driver has both endpoint functions or none, none is registered between the two halves of a removal,
a driver is unregistered once and is none of the first two of the table, and no card is attached to drivers between the two halves of an
unregistration. -/
def Calm (s : State) : Act → Prop
  | .register ops _ => (ops.removeEndpoint.isSome → ops.probeEndpoint.isSome) ∧ ∀ c, s.phase c ≠ .detached
  | .unregister ops => ∀ i, s.find ops.attach = some i → driversEarly ≤ i ∧ i ∉ s.clearing
  | .attachLate _ _ => s.clearing = []
  | _ => True

/-- A run of steps that keep to this. -/
inductive Run (s : State) : List Act → State → Prop where
  | nil : Run s [] s
  | snoc {acts : List Act} {a : Act} {t u : State} (h : Run s acts t) (hstep : Step t a u) (hcalm : Calm t a) : Run s (acts ++ [a]) u

/-! ## What a slot goes through -/

/-- What a slot of a card holds: nothing, a driver that has refused the card, or a driver with its private data. -/
inductive Slot where
  | vacant
  | refused (ops : DriverOps)
  | held (driver : DriverOps × Nat)

/-- What a slot holds behind a call for it; none where the call was not in order: an attach of a slot that is taken, any other call but to
the driver that was attached and with the data it gave, or a call through a null pointer. -/
def follow : Slot → Call → Option Slot
  | .vacant, ⟨.attach ret, _, _, ops, priv⟩ =>
    if ops.attach.isSome then some (if ret = 0 then .held (ops, priv) else .refused ops) else none
  | .refused _, ⟨.forget, _, _, _, _⟩ => some .vacant
  | .held held, ⟨.detach, _, _, ops, priv⟩ => if held = (ops, priv) ∧ ops.detach.isSome then some .vacant else none
  | .held held, ⟨.probeEndpoint _, _, _, ops, priv⟩ => if held = (ops, priv) ∧ ops.probeEndpoint.isSome then some (.held held) else none
  | .held held, ⟨.removeEndpoint _, _, _, ops, priv⟩ => if held = (ops, priv) ∧ ops.removeEndpoint.isSome then some (.held held) else none
  | _, _ => none

/-- The calls for a slot of a card. -/
def callsOf (c i : Nat) (log : List Call) : List Call := log.filter fun call => call.card = c ∧ call.slot = i

/-- What the slot holds behind the calls of a log, if they were in order. -/
def history (c i : Nat) (log : List Call) : Option Slot := (callsOf c i log).foldlM follow .vacant

/-- What a slot holds by its entry in the card and the driver of the table. -/
def slotOf (ops : DriverOps) (d : NfbDriver) : Slot :=
  match d.status with
  | .none => .vacant
  | .error => .refused ops
  | .ok => .held (ops, d.priv)

/-- What the state says the slot holds. -/
def State.held (s : State) (c i : Nat) : Slot := slotOf (s.registered i) (s.drivers c i)

/-- The calls were in order, and the state tells what the slots hold. -/
structure Core (s : State) : Prop where
  inOrder : ∀ c i, history c i s.log = some (s.held c i)
  vacant : ∀ i, (s.registered i).attach = none → ∀ c, (s.drivers c i).status = .none
  detach : ∀ i, (s.registered i).attach.isSome → (s.registered i).detach.isSome
  endpoints : ∀ i, (s.registered i).removeEndpoint.isSome → (s.registered i).probeEndpoint.isSome

/-! ## Calls -/

section

variable {s t : State} {c i c' i' : Nat} {log : List Call} {call : Call} {env : Attached} {l : List (Nat × Nat)}

theorem drivers_setDriver (s : State) (c i : Nat) (d : NfbDriver) (c' i' : Nat) :
    (s.setDriver c i d).drivers c' i' = if c' = c ∧ i' = i then d else s.drivers c' i' := by
  by_cases hc : c' = c
  · subst hc
    by_cases hi : i' = i
    · subst hi
      simp [State.setDriver]
    · simp [State.setDriver, hi]
  · simp [State.setDriver, hc]

theorem held_setDriver (s : State) (c i : Nat) (d : NfbDriver) (c' i' : Nat) : (s.setDriver c i d).held c' i' =
    if c' = c ∧ i' = i then slotOf (s.registered i) d else s.held c' i' := by
  rw [State.held, drivers_setDriver]
  split
  next h => obtain ⟨rfl, rfl⟩ := h; rfl
  next => rfl

theorem held_of_none (h : (s.drivers c i).status = .none) : s.held c i = .vacant := by rw [State.held, slotOf, h]

theorem held_of_error (h : (s.drivers c i).status = .error) : s.held c i = .refused (s.registered i) := by rw [State.held, slotOf, h]

theorem held_of_ok (h : (s.drivers c i).status = .ok) : s.held c i = .held (s.registered i, (s.drivers c i).priv) := by
  rw [State.held, slotOf, h]

theorem history_snoc : history c i (log ++ [call]) =
    if call.card = c ∧ call.slot = i then (history c i log).bind (follow · call) else history c i log := by
  by_cases h : call.card = c ∧ call.slot = i
  · rw [if_pos h, history, callsOf, List.filter_append, List.filter_cons_of_pos (by simpa using h), List.filter_nil, List.foldlM_append]
    simp only [List.foldlM_cons, List.foldlM_nil, bind_pure]
    rfl
  · rw [if_neg h, history, callsOf, List.filter_append, List.filter_cons_of_neg (by simpa using h), List.filter_nil, List.append_nil]
    rfl

/-- All but the drivers of the cards and the log is as before. -/
structure SameTable (s t : State) : Prop where
  registered : t.registered = s.registered
  devices : t.devices = s.devices
  minor : t.minor = s.minor
  phase : t.phase = s.phase
  clearing : t.clearing = s.clearing

theorem SameTable.refl (s : State) : SameTable s s := ⟨rfl, rfl, rfl, rfl, rfl⟩

theorem SameTable.trans {u : State} (h : SameTable s t) (h' : SameTable t u) : SameTable s u :=
  ⟨h'.registered.trans h.registered, h'.devices.trans h.devices, h'.minor.trans h.minor, h'.phase.trans h.phase,
    h'.clearing.trans h.clearing⟩

theorem Core.call_endpoint (h : Core s) (hok : handlesEndpoints s c i) (endpoint : Nat) :
    Core (s.call (.probeEndpoint endpoint) c i (s.drivers c i).priv) ∧ Core (s.call (.removeEndpoint endpoint) c i (s.drivers c i).priv) := by
  simp only [handlesEndpoints, Bool.decide_and, Bool.and_eq_true, decide_eq_true_eq] at hok
  have hheld := held_of_ok hok.1
  constructor
  · refine ⟨fun c' i' => ?_, h.vacant, h.detach, h.endpoints⟩
    show history c' i' (s.log ++ [_]) = some (s.held c' i')
    rw [history_snoc, h.inOrder]
    split
    next hon =>
      obtain ⟨rfl, rfl⟩ := hon
      rw [Option.bind_some, hheld]
      exact if_pos ⟨rfl, h.endpoints _ hok.2⟩
    next => rfl
  · refine ⟨fun c' i' => ?_, h.vacant, h.detach, h.endpoints⟩
    show history c' i' (s.log ++ [_]) = some (s.held c' i')
    rw [history_snoc, h.inOrder]
    split
    next hon =>
      obtain ⟨rfl, rfl⟩ := hon
      rw [Option.bind_some, hheld]
      exact if_pos ⟨rfl, hok.2⟩
    next => rfl

/-! ## Attach -/

/-- What a call of `nfb_attach_driver` does: nothing, or it takes a slot that is free. -/
theorem nfbAttachDriver_cases (env : Attached) (c i : Nat) (s : State) :
    nfbAttachDriver env c i s = s ∧ ((s.registered i).attach = none ∨ (s.drivers c i).status ≠ .none) ∨
      (s.registered i).attach.isSome ∧ (s.drivers c i).status = .none ∧
        nfbAttachDriver env c i s = (s.call (.attach (env c i).1) c i (env c i).2).setDriver c i
          { status := if (env c i).1 = 0 then .ok else .error, priv := (env c i).2 } := by
  by_cases h : (s.registered i).attach.isSome ∧ (s.drivers c i).status = .none
  · exact Or.inr ⟨h.1, h.2, if_pos h⟩
  · refine Or.inl ⟨if_neg h, ?_⟩
    by_cases hattach : (s.registered i).attach = none
    · exact Or.inl hattach
    · exact Or.inr fun hnone => h ⟨Option.isSome_iff_ne_none.2 hattach, hnone⟩

theorem nfbAttachDriver_same (env : Attached) (c i : Nat) (s : State) : SameTable s (nfbAttachDriver env c i s) := by
  rcases nfbAttachDriver_cases env c i s with ⟨h, -⟩ | ⟨-, -, h⟩
  · rw [h]; exact .refl s
  · rw [h]; exact ⟨rfl, rfl, rfl, rfl, rfl⟩

theorem Core.attachDriver (h : Core s) (env : Attached) (c i : Nat) : Core (nfbAttachDriver env c i s) := by
  rcases nfbAttachDriver_cases env c i s with ⟨heq, -⟩ | ⟨hattach, hnone, heq⟩
  · rw [heq]; exact h
  rw [heq]
  constructor
  case inOrder =>
    intro c' i'
    have hheld := held_of_none hnone
    show history c' i' (s.log ++ [_]) = some (State.held _ c' i')
    rw [history_snoc, h.inOrder, held_setDriver]
    by_cases hon : c' = c ∧ i' = i
    · obtain ⟨rfl, rfl⟩ := hon
      rw [if_pos ⟨rfl, rfl⟩, if_pos ⟨rfl, rfl⟩, Option.bind_some, hheld]
      refine (if_pos hattach).trans ?_
      by_cases hret : (env c' i').1 = 0
      · rw [if_pos hret, if_pos hret]; rfl
      · rw [if_neg hret, if_neg hret]; rfl
    · rw [if_neg fun h => hon ⟨h.1.symm, h.2.symm⟩, if_neg hon]
      rfl
  case vacant =>
    intro i' hi' c'
    have hne : i' ≠ i := by
      rintro rfl
      rw [show (s.registered i').attach = none from hi'] at hattach
      cases hattach
    rw [drivers_setDriver, if_neg fun h => hne h.2]
    exact h.vacant i' hi' c'
  case detach => exact h.detach
  case endpoints => exact h.endpoints

/-- What a list of attach calls does to the slots. -/
structure AttachesTo (l : List (Nat × Nat)) (s t : State) : Prop where
  table : SameTable s t
  other : ∀ c i, (c, i) ∉ l → t.drivers c i = s.drivers c i
  taken : ∀ c i, (s.drivers c i).status ≠ .none → t.drivers c i = s.drivers c i
  vacant : ∀ c i, (s.registered i).attach = none → t.drivers c i = s.drivers c i
  done : ∀ c i, (c, i) ∈ l → (s.registered i).attach.isSome → (t.drivers c i).status ≠ .none

theorem attachesTo_one (env : Attached) (c i : Nat) (s : State) : AttachesTo [(c, i)] s (nfbAttachDriver env c i s) := by
  rcases nfbAttachDriver_cases env c i s with ⟨heq, hno⟩ | ⟨hattach, hnone, heq⟩
  · rw [heq]
    refine ⟨.refl s, fun _ _ _ => rfl, fun _ _ _ => rfl, fun _ _ _ => rfl, fun c' i' hm hsome => ?_⟩
    obtain ⟨rfl, rfl⟩ := Prod.mk.inj (List.mem_singleton.1 hm)
    rcases hno with hno | hno
    · rw [hno] at hsome; cases hsome
    · exact hno
  · have hdrivers (c' i' : Nat) : (nfbAttachDriver env c i s).drivers c' i' =
        if c' = c ∧ i' = i then { status := if (env c i).1 = 0 then .ok else .error, priv := (env c i).2 } else s.drivers c' i' := by
      rw [heq, drivers_setDriver]
      rfl
    constructor
    case table => exact nfbAttachDriver_same env c i s
    case other =>
      intro c' i' hm
      rw [hdrivers, if_neg]
      rintro ⟨rfl, rfl⟩
      exact hm List.mem_cons_self
    case taken =>
      intro c' i' hne
      rw [hdrivers, if_neg]
      rintro ⟨rfl, rfl⟩
      exact hne hnone
    case vacant =>
      intro c' i' hvacant
      rw [hdrivers, if_neg]
      rintro ⟨rfl, rfl⟩
      rw [hvacant] at hattach
      cases hattach
    case done =>
      intro c' i' hm _
      obtain ⟨rfl, rfl⟩ := Prod.mk.inj (List.mem_singleton.1 hm)
      rw [hdrivers, if_pos ⟨rfl, rfl⟩]
      dsimp only
      split <;> decide

theorem AttachesTo.trans {u : State} {l' : List (Nat × Nat)} (h : AttachesTo l s t) (h' : AttachesTo l' t u) : AttachesTo (l ++ l') s u := by
  have htaken (c i : Nat) (hne : (t.drivers c i).status ≠ .none) : u.drivers c i = t.drivers c i := h'.taken c i hne
  constructor
  case table => exact h.table.trans h'.table
  case other =>
    intro c i hm
    rw [List.mem_append, not_or] at hm
    rw [h'.other c i hm.2, h.other c i hm.1]
  case taken =>
    intro c i hne
    have hsame := h.taken c i hne
    rw [h'.taken c i (by rw [hsame]; exact hne), hsame]
  case vacant =>
    intro c i hvacant
    rw [h'.vacant c i (by rw [h.table.registered]; exact hvacant), h.vacant c i hvacant]
  case done =>
    intro c i hm hsome
    rcases List.mem_append.1 hm with hm | hm
    · have hne := h.done c i hm hsome
      rw [htaken c i hne]
      exact hne
    · exact h'.done c i hm (by rw [h.table.registered]; exact hsome)

theorem attachesTo_all (env : Attached) : ∀ (l : List (Nat × Nat)) (s : State), AttachesTo l s (attachAll env l s)
  | [], s => ⟨.refl s, fun _ _ _ => rfl, fun _ _ _ => rfl, fun _ _ _ => rfl, fun _ _ h => absurd h List.not_mem_nil⟩
  | p :: l, s => (attachesTo_one env p.1 p.2 s).trans (attachesTo_all env l _)

theorem Core.attachAll (h : Core s) (env : Attached) (l : List (Nat × Nat)) : Core (attachAll env l s) := by
  induction l generalizing s with
  | nil => exact h
  | cons p l ih => exact ih (h.attachDriver env p.1 p.2)

/-! ## Detach -/

theorem drivers_nfbDetachDriver (c i : Nat) (s : State) (c' i' : Nat) : (nfbDetachDriver c i s).drivers c' i' =
    if c' = c ∧ i' = i then { s.drivers c i with status := .none } else s.drivers c' i' := by
  unfold nfbDetachDriver
  split <;> exact drivers_setDriver ..

theorem nfbDetachDriver_same (c i : Nat) (s : State) : SameTable s (nfbDetachDriver c i s) := by
  unfold nfbDetachDriver
  split <;> exact ⟨rfl, rfl, rfl, rfl, rfl⟩

theorem held_nfbDetachDriver (c i : Nat) (s : State) (c' i' : Nat) :
    (nfbDetachDriver c i s).held c' i' = if c' = c ∧ i' = i then .vacant else s.held c' i' := by
  unfold nfbDetachDriver
  split <;> exact held_setDriver ..

/-- The call of `nfb_detach_driver` for a status. -/
def detachKind : DriverStatus → Option CallKind
  | .ok => some .detach
  | .error => some .forget
  | .none => none

theorem nfbDetachDriver_log (c i : Nat) (s : State) : (nfbDetachDriver c i s).log =
    s.log ++ ((detachKind (s.drivers c i).status).map fun kind => ⟨kind, c, i, s.registered i, (s.drivers c i).priv⟩).toList := by
  unfold nfbDetachDriver
  cases hstatus : (s.drivers c i).status with
  | none => exact (List.append_nil _).symm
  | ok => rfl
  | error => rfl

theorem Core.follow_detach {kind : CallKind} (h : Core s) (hkind : detachKind (s.drivers c i).status = some kind) :
    follow (s.held c i) ⟨kind, c, i, s.registered i, (s.drivers c i).priv⟩ = some .vacant := by
  cases hstatus : (s.drivers c i).status with
  | none =>
    rw [hstatus] at hkind
    cases hkind
  | error =>
    rw [hstatus] at hkind
    rw [held_of_error hstatus, ← Option.some.inj hkind, follow]
  | ok =>
    have hattach : (s.registered i).attach.isSome := by
      rw [Option.isSome_iff_ne_none]
      intro hnone
      rw [h.vacant i hnone c] at hstatus
      cases hstatus
    rw [hstatus] at hkind
    rw [held_of_ok hstatus, ← Option.some.inj hkind]
    exact if_pos ⟨rfl, h.detach _ hattach⟩

theorem Core.detachDriver (h : Core s) (c i : Nat) : Core (nfbDetachDriver c i s) := by
  have htable := nfbDetachDriver_same c i s
  constructor
  case inOrder =>
    intro c' i'
    rw [held_nfbDetachDriver, nfbDetachDriver_log]
    cases hkind : detachKind (s.drivers c i).status with
    | none =>
      have hnone : (s.drivers c i).status = .none := by
        cases hstatus : (s.drivers c i).status with
        | none => rfl
        | ok | error => rw [hstatus] at hkind; cases hkind
      rw [Option.map_none, Option.toList_none, List.append_nil, h.inOrder]
      split
      next hon => rw [hon.1, hon.2, held_of_none hnone]
      next => rfl
    | some kind =>
      rw [Option.map_some, Option.toList_some, history_snoc, h.inOrder]
      by_cases hon : c' = c ∧ i' = i
      · obtain ⟨rfl, rfl⟩ := hon
        rw [if_pos ⟨rfl, rfl⟩, if_pos ⟨rfl, rfl⟩, Option.bind_some]
        exact h.follow_detach hkind
      · rw [if_neg fun h => hon ⟨h.1.symm, h.2.symm⟩, if_neg hon]
  case vacant =>
    intro i' hi' c'
    rw [htable.registered] at hi'
    rw [drivers_nfbDetachDriver]
    split
    · rfl
    · exact h.vacant i' hi' c'
  case detach => rw [htable.registered]; exact h.detach
  case endpoints => rw [htable.registered]; exact h.endpoints

/-- What a list of detach calls does to the slots. -/
structure DetachesFrom (l : List (Nat × Nat)) (s t : State) : Prop where
  table : SameTable s t
  other : ∀ c i, (c, i) ∉ l → t.drivers c i = s.drivers c i
  none : ∀ c i, (s.drivers c i).status = .none → (t.drivers c i).status = .none
  done : ∀ c i, (c, i) ∈ l → (t.drivers c i).status = .none

theorem detachesFrom_all : ∀ (l : List (Nat × Nat)) (s : State), DetachesFrom l s (detachAll l s)
  | [], s => ⟨.refl s, fun _ _ _ => rfl, fun _ _ h => h, fun _ _ h => absurd h List.not_mem_nil⟩
  | p :: l, s => by
    have ih := detachesFrom_all l (nfbDetachDriver p.1 p.2 s)
    constructor
    case table => exact (nfbDetachDriver_same p.1 p.2 s).trans ih.table
    case other =>
      intro c i hm
      rw [List.mem_cons, not_or] at hm
      show (detachAll l (nfbDetachDriver p.1 p.2 s)).drivers c i = _
      rw [ih.other c i hm.2, drivers_nfbDetachDriver, if_neg fun h => hm.1 (Prod.ext h.1 h.2)]
    case none =>
      intro c i hnone
      apply ih.none
      rw [drivers_nfbDetachDriver]
      split
      · rfl
      · exact hnone
    case done =>
      intro c i hm
      rcases List.mem_cons.1 hm with rfl | hm
      · apply ih.none
        rw [drivers_nfbDetachDriver, if_pos ⟨rfl, rfl⟩]
      · exact ih.done c i hm

theorem Core.detachAll (h : Core s) (l : List (Nat × Nat)) : Core (detachAll l s) := by
  induction l generalizing s with
  | nil => exact h
  | cons p l ih => exact ih (h.detachDriver p.1 p.2)

end

end NdkSw.Drivers

/-
The calls of drivers are in order in every run: each driver is attached to a card at most once before it is detached, with the data it
gave, the functions of endpoints are called in between, and a card that is removed has no drivers left.
-/
import Mathlib.Data.List.GetD
import NdkSw.Nfb.Drivers

namespace NdkSw.Drivers

/-! ## What holds between steps -/

/-- The phases of a card without drivers. -/
def Phase.bare : Phase → Bool
  | .absent | .created | .detached | .gone => true
  | _ => false

/-- The phases of a card with no drivers but the early ones. -/
def Phase.few : Phase → Bool
  | .early | .failed => true
  | _ => false

/-- The phases of a card with the early drivers. -/
def Phase.first : Phase → Bool
  | .early | .published | .running => true
  | _ => false

/-- The phases of a card in `nfb_devices`. -/
def Phase.listed : Phase → Bool
  | .published | .running | .reloading _ | .detached => true
  | _ => false

/-- The cards and their numbers. -/
structure CardTable (s : State) : Prop where
  listed : ∀ c, (s.phase c).listed → s.devices (s.minor c) = some c
  devices : ∀ m c, s.devices m = some c → (s.phase c).listed ∧ s.minor c = m
  minors : ∀ c d, s.numbered c → s.numbered d → s.minor c = s.minor d → c = d
  small : ∀ c, s.numbered c → s.minor c < cardCountMax

/-- The entries of the table of drivers. -/
structure Entries (s : State) : Prop where
  bound : ∀ i, (s.registered i).attach.isSome → i < driversMax
  early : ∀ i < driversEarly, (s.registered i).attach.isSome ∧ i ∉ s.clearing
  clearing : ∀ i ∈ s.clearing, (s.registered i).attach.isSome
  nodup : s.clearing.Nodup

/-- The slots of the cards. -/
structure Slots (s : State) : Prop where
  bare : ∀ c, (s.phase c).bare → ∀ i, (s.drivers c i).status = .none
  few : ∀ c, (s.phase c).few → ∀ i, (s.drivers c i).status ≠ .none → i < driversEarly
  first : ∀ c, (s.phase c).first → ∀ i < driversEarly, (s.drivers c i).status ≠ .none
  all : ∀ c, s.phase c = .running → ∀ i, (s.registered i).attach.isSome → i ∉ s.clearing → (s.drivers c i).status ≠ .none
  clearing : ∀ i ∈ s.clearing, ∀ c, (s.drivers c i).status = .none

structure Inv (s : State) : Prop where
  core : Core s
  cards : CardTable s
  entries : Entries s
  slots : Slots s

variable {acts : List Act}

section

variable {s t : State} {c i : Nat} {p : Phase} {ops : DriverOps} {env : Attached}

theorem CardTable.of_same (h : CardTable s) (same : SameTable s t) : CardTable t := by
  have hnumbered (c : Nat) : t.numbered c ↔ s.numbered c := by rw [State.numbered, State.numbered, same.phase]
  constructor
  case listed => rw [same.phase, same.minor, same.devices]; exact h.listed
  case devices => rw [same.phase, same.minor, same.devices]; exact h.devices
  case minors =>
    intro c d hc hd
    rw [same.minor]
    exact h.minors c d ((hnumbered c).1 hc) ((hnumbered d).1 hd)
  case small =>
    intro c hc
    rw [same.minor]
    exact h.small c ((hnumbered c).1 hc)

theorem Entries.of_eq (h : Entries s) (hregistered : t.registered = s.registered) (hclearing : t.clearing = s.clearing) : Entries t := by
  constructor
  case bound => rw [hregistered]; exact h.bound
  case early => rw [hregistered, hclearing]; exact h.early
  case clearing => rw [hregistered, hclearing]; exact h.clearing
  case nodup => rw [hclearing]; exact h.nodup

theorem phase_setPhase (s : State) (c : Nat) (p : Phase) (c' : Nat) : (s.setPhase c p).phase c' = if c' = c then p else s.phase c' := by
  rw [State.setPhase]
  exact Function.update_apply ..

theorem Phase.numbered_of_listed (h : p.listed) : p ≠ .absent ∧ p ≠ .gone := by
  cases p
  case absent | gone => cases h
  all_goals exact ⟨nofun, nofun⟩

theorem Phase.listed_of_alive (h : p.alive) : p.listed := by
  cases p
  case running | reloading => rfl
  all_goals cases h

/-- A card goes on to a phase that is in `nfb_devices` if and only if the phase before is. -/
theorem CardTable.setPhase (h : CardTable s) (hlisted : p.listed = (s.phase c).listed) (hold : s.numbered c)
    (hnew : p ≠ .absent ∧ p ≠ .gone) : CardTable (s.setPhase c p) := by
  have hnumbered (d : Nat) : (s.setPhase c p).numbered d ↔ s.numbered d := by
    rw [State.numbered, State.numbered, phase_setPhase]
    by_cases hd : d = c
    · subst hd
      rw [if_pos rfl]
      exact ⟨fun _ => hold, fun _ => hnew⟩
    · rw [if_neg hd]
  have hsame (d : Nat) : ((s.setPhase c p).phase d).listed = (s.phase d).listed := by
    rw [phase_setPhase]
    split
    next hd => rw [hd, hlisted]
    next => rfl
  constructor
  case listed => intro d hd; exact h.listed d ((hsame d).symm.trans hd)
  case devices => intro m d hd; rw [hsame]; exact h.devices m d hd
  case minors => intro d e hd he; exact h.minors d e ((hnumbered d).1 hd) ((hnumbered e).1 he)
  case small => intro d hd; exact h.small d ((hnumbered d).1 hd)

/-- A card goes on to another phase behind calls of drivers. -/
theorem Inv.goesOn (h : Inv s) (hcore : Core t) (same : SameTable s t) (hlisted : p.listed = (s.phase c).listed) (hold : s.numbered c)
    (hnew : p ≠ .absent ∧ p ≠ .gone) (hslots : Slots (t.setPhase c p)) : Inv (t.setPhase c p) := by
  constructor
  case core => exact ⟨hcore.inOrder, hcore.vacant, hcore.detach, hcore.endpoints⟩
  case cards =>
    apply (h.cards.of_same same).setPhase
    · rw [same.phase]; exact hlisted
    · rw [State.numbered, same.phase]; exact hold
    · exact hnew
  case entries => exact h.entries.of_eq same.registered same.clearing
  case slots => exact hslots

/-- The cards in `nfb_devices`. -/
theorem Inv.mem_cards (h : Inv s) : c ∈ s.cards ↔ (s.phase c).listed := by
  rw [State.cards, List.mem_filterMap]
  constructor
  · rintro ⟨m, -, hm⟩
    exact (h.cards.devices m c hm).1
  · intro hc
    exact ⟨s.minor c, List.mem_range.2 (h.cards.small c (Phase.numbered_of_listed hc)), h.cards.listed c hc⟩

theorem Core.setEntry (h : Core s) (hfree : ∀ c, (s.drivers c i).status = .none) (hdetach : ops.attach.isSome → ops.detach.isSome)
    (hendpoints : ops.removeEndpoint.isSome → ops.probeEndpoint.isSome) (clearing : List Nat) :
    Core { s with registered := Function.update s.registered i ops, clearing := clearing } := by
  have hentry (j : Nat) : Function.update s.registered i ops j = if j = i then ops else s.registered j := Function.update_apply ..
  constructor
  case inOrder =>
    intro c j
    show history c j s.log = _
    rw [h.inOrder]
    by_cases hj : j = i
    · subst hj
      rw [held_of_none (hfree c), held_of_none]
      exact hfree c
    · show _ = some (slotOf (Function.update s.registered i ops j) (s.drivers c j))
      rw [hentry, if_neg hj]
      rfl
  case vacant =>
    intro j hj c
    by_cases hji : j = i
    · subst hji
      exact hfree c
    · have hj : (Function.update s.registered i ops j).attach = none := hj
      rw [hentry, if_neg hji] at hj
      exact h.vacant j hj c
  case detach =>
    show ∀ j, (Function.update s.registered i ops j).attach.isSome → _
    intro j
    show _ → (Function.update s.registered i ops j).detach.isSome
    rw [hentry]
    split
    · exact hdetach
    · exact h.detach j
  case endpoints =>
    intro j
    show (Function.update s.registered i ops j).removeEndpoint.isSome → (Function.update s.registered i ops j).probeEndpoint.isSome
    rw [hentry]
    split
    · exact hendpoints
    · exact h.endpoints j

theorem find_some {attach : Option Nat} (h : s.find attach = some i) : i < driversMax ∧ (s.registered i).attach = attach := by
  constructor
  · exact List.mem_range.1 (List.mem_of_find?_eq_some h)
  · exact of_decide_eq_true (List.find?_some (p := fun i => decide ((s.registered i).attach = attach)) h)

/-- The slots of one card change, and its phase. -/
theorem Slots.update (h : Slots s) (hregistered : t.registered = s.registered) (hclearing : t.clearing = s.clearing)
    (hphase : t.phase = s.phase) (hother : ∀ d ≠ c, ∀ i, t.drivers d i = s.drivers d i)
    (hbare : p.bare → ∀ i, (t.drivers c i).status = .none)
    (hfew : p.few → ∀ i, (t.drivers c i).status ≠ .none → i < driversEarly)
    (hfirst : p.first → ∀ i < driversEarly, (t.drivers c i).status ≠ .none)
    (hall : p = .running → ∀ i, (s.registered i).attach.isSome → i ∉ s.clearing → (t.drivers c i).status ≠ .none)
    (hfree : ∀ i ∈ s.clearing, (t.drivers c i).status = .none) : Slots (t.setPhase c p) := by
  have hcard (P : Phase → Nat → Prop) (hc : P p c) (hd : ∀ d ≠ c, P (s.phase d) d) (d : Nat) : P ((t.setPhase c p).phase d) d := by
    rw [phase_setPhase, hphase]
    by_cases heq : d = c
    · rw [if_pos heq, heq]
      exact hc
    · rw [if_neg heq]
      exact hd d heq
  constructor
  case bare =>
    apply hcard fun q d => q.bare → ∀ i, (t.drivers d i).status = .none
    · exact hbare
    · intro d hd hq i
      rw [hother d hd]
      exact h.bare d hq i
  case few =>
    apply hcard fun q d => q.few → ∀ i, (t.drivers d i).status ≠ .none → i < driversEarly
    · exact hfew
    · intro d hd hq i
      rw [hother d hd]
      exact h.few d hq i
  case first =>
    apply hcard fun q d => q.first → ∀ i < driversEarly, (t.drivers d i).status ≠ .none
    · exact hfirst
    · intro d hd hq i
      rw [hother d hd]
      exact h.first d hq i
  case all =>
    apply hcard fun q d => q = .running → ∀ i, (t.registered i).attach.isSome → i ∉ t.clearing → (t.drivers d i).status ≠ .none
    · rw [hregistered, hclearing]
      exact hall
    · intro d hd hq i
      rw [hregistered, hclearing, hother d hd]
      exact h.all d hq i
  case clearing =>
    intro i hi d
    have hi : i ∈ s.clearing := by rw [← hclearing]; exact hi
    by_cases hd : d = c
    · rw [hd]
      exact hfree i hi
    · show (t.drivers d i).status = .none
      rw [hother d hd]
      exact h.clearing i hi d

theorem not_mem_card {d : Nat} (hd : d ≠ c) (l : List Nat) : (d, i) ∉ l.map (c, ·) := by
  intro hm
  obtain ⟨j, -, hj⟩ := List.mem_map.1 hm
  exact hd (Prod.mk.inj hj).1.symm

theorem mem_card {l : List Nat} : (c, i) ∈ l.map (c, ·) ↔ i ∈ l := by
  rw [List.mem_map]
  constructor
  · rintro ⟨j, hj, heq⟩
    rw [← (Prod.mk.inj heq).2]
    exact hj
  · intro hi
    exact ⟨i, hi, rfl⟩

theorem mem_earlySlots : i ∈ earlySlots ↔ i < driversEarly := List.mem_range

theorem mem_lateSlots : i ∈ lateSlots ↔ driversEarly ≤ i ∧ i < driversMax := by
  rw [lateSlots, List.mem_range'_1]
  exact and_congr_right fun _ => by rw [driversEarly, driversMax]

theorem mem_slotsBackwards : i ∈ slotsBackwards ↔ i < driversMax := by
  rw [slotsBackwards, List.mem_reverse, List.mem_range]

theorem Inv.attachEarly (h : Inv s) (env : Attached) (hc : s.phase c = .created) :
    Inv ((nfbAttachDriversEarly env c s).setPhase c .early) := by
  have hspec := attachesTo_all env (earlySlots.map (c, ·)) s
  have hnone : ∀ i, (s.drivers c i).status = .none := h.slots.bare c (by rw [hc]; rfl)
  apply h.goesOn (h.core.attachAll env _) hspec.table
  · rw [hc]; rfl
  · rw [State.numbered, hc]; decide
  · decide
  · apply h.slots.update hspec.table.registered hspec.table.clearing hspec.table.phase
    · exact fun d hd i => hspec.other d i (not_mem_card hd _)
    · exact nofun
    · intro _ i hi
      by_contra hlate
      have hsame := hspec.other c i fun hm => hlate (mem_earlySlots.1 (mem_card.1 hm))
      exact hi (by rw [← hnone i]; exact congrArg NfbDriver.status hsame)
    · intro _ i hi
      exact hspec.done c i (mem_card.2 (mem_earlySlots.2 hi)) (h.entries.early i hi).1
    · exact nofun
    · intro i hi
      have hlate : i ∉ earlySlots := fun hm => (h.entries.early i (mem_earlySlots.1 hm)).2 hi
      have hsame := hspec.other c i fun hm => hlate (mem_card.1 hm)
      rw [← hnone i]
      exact congrArg NfbDriver.status hsame

theorem Inv.attachLate (h : Inv s) (env : Attached) (hc : s.phase c = .published) (hclear : s.clearing = []) :
    Inv ((nfbAttachDrivers env c s).setPhase c .running) := by
  have hspec := attachesTo_all env (lateSlots.map (c, ·)) s
  have hfirst : ∀ i < driversEarly, ((nfbAttachDrivers env c s).drivers c i).status ≠ .none := by
    intro i hi
    have hold := h.slots.first c (by rw [hc]; rfl) i hi
    have hsame := hspec.taken c i hold
    exact fun hnone => hold (by rw [← hnone]; exact congrArg NfbDriver.status hsame.symm)
  apply h.goesOn (h.core.attachAll env _) hspec.table
  · rw [hc]; rfl
  · rw [State.numbered, hc]; decide
  · decide
  · apply h.slots.update hspec.table.registered hspec.table.clearing hspec.table.phase
    · exact fun d hd i => hspec.other d i (not_mem_card hd _)
    · exact nofun
    · exact nofun
    · exact fun _ => hfirst
    · intro _ i hattach _
      by_cases hi : i < driversEarly
      · exact hfirst i hi
      · exact hspec.done c i (mem_card.2 (mem_lateSlots.2 ⟨Nat.le_of_not_lt hi, h.entries.bound i hattach⟩)) hattach
    · rw [hclear]
      exact fun i hi => absurd hi List.not_mem_nil

theorem nfbDetachDriverBeforeReload_cases (c i : Nat) (s : State) :
    ∃ l : List Nat, nfbDetachDriverBeforeReload c i s = detachAll (l.map (c, ·)) s := by
  unfold nfbDetachDriverBeforeReload
  split
  · exact ⟨[i], rfl⟩
  · exact ⟨[], rfl⟩

theorem Inv.reloading (h : Inv s) (hc : (s.phase c).alive) (l : List Nat) (n : Nat) :
    Inv ((detachAll (l.map (c, ·)) s).setPhase c (.reloading n)) := by
  have hspec := detachesFrom_all (l.map (c, ·)) s
  have hlisted : (s.phase c).listed = true := Phase.listed_of_alive hc
  apply h.goesOn (h.core.detachAll _) hspec.table
  · rw [hlisted]; rfl
  · exact Phase.numbered_of_listed hlisted
  · exact ⟨nofun, nofun⟩
  · apply h.slots.update hspec.table.registered hspec.table.clearing hspec.table.phase
    · exact fun d hd i => hspec.other d i (not_mem_card hd _)
    · exact nofun
    · exact nofun
    · exact nofun
    · exact nofun
    · exact fun i hi => hspec.none c i (h.slots.clearing i hi c)

/-- No driver is left on a card behind `nfb_detach_drivers`. -/
theorem Inv.detached_none (h : Inv s) (c i : Nat) : ((nfbDetachDrivers c s).drivers c i).status = .none := by
  have hspec := detachesFrom_all (slotsBackwards.map (c, ·)) s
  by_cases hi : i < driversMax
  · exact hspec.done c i (mem_card.2 (mem_slotsBackwards.2 hi))
  · apply hspec.none
    apply h.core.vacant
    by_contra hattach
    exact hi (h.entries.bound i (Option.isSome_iff_ne_none.2 hattach))

theorem Inv.detach (h : Inv s) (hc : (s.phase c).alive) :
    Inv ((nfbDetachDrivers c s).setPhase c .detached) := by
  have hspec := detachesFrom_all (slotsBackwards.map (c, ·)) s
  have hlisted : (s.phase c).listed = true := Phase.listed_of_alive hc
  apply h.goesOn (h.core.detachAll _) hspec.table
  · rw [hlisted]; rfl
  · exact Phase.numbered_of_listed hlisted
  · decide
  · apply h.slots.update hspec.table.registered hspec.table.clearing hspec.table.phase
    · exact fun d hd i => hspec.other d i (not_mem_card hd _)
    · exact fun _ i => h.detached_none c i
    · exact nofun
    · exact nofun
    · exact nofun
    · exact fun i _ => h.detached_none c i

theorem Inv.charProbeFails (h : Inv s) (hc : s.phase c = .early) : Inv (s.setPhase c .failed) := by
  apply h.goesOn h.core (.refl s)
  · rw [hc]; rfl
  · rw [State.numbered, hc]; decide
  · decide
  · apply h.slots.update rfl rfl rfl
    · exact fun _ _ _ => rfl
    · exact nofun
    · exact fun _ => h.slots.few c (by rw [hc]; rfl)
    · exact nofun
    · exact nofun
    · exact fun i hi => h.slots.clearing i hi c

/-! ## Steps that change `nfb_devices` -/

theorem devices_update (s : State) (c : Nat) (d : Option Nat) (m : Nat) :
    Function.update s.devices (s.minor c) d m = if m = s.minor c then d else s.devices m := Function.update_apply ..

theorem Inv.charProbe (h : Inv s) (hc : s.phase c = .early) :
    Inv ({ s with devices := Function.update s.devices (s.minor c) (some c) }.setPhase c .published) := by
  set t : State := { s with devices := Function.update s.devices (s.minor c) (some c) } with ht
  have hnumbered : s.numbered c := by rw [State.numbered, hc]; decide
  have hsame (d : Nat) : (t.setPhase c .published).numbered d ↔ s.numbered d := by
    rw [State.numbered, phase_setPhase]
    by_cases hd : d = c
    · subst hd
      rw [if_pos rfl]
      exact ⟨fun _ => hnumbered, fun _ => by decide⟩
    · rw [if_neg hd]
      rfl
  have hphase (d : Nat) : (t.setPhase c .published).phase d = if d = c then .published else s.phase d := phase_setPhase t c _ d
  constructor
  case core => exact ⟨h.core.inOrder, h.core.vacant, h.core.detach, h.core.endpoints⟩
  case cards =>
    constructor
    case listed =>
      intro d hd
      show Function.update s.devices (s.minor c) (some c) (s.minor d) = some d
      rw [devices_update]
      by_cases hdc : d = c
      · rw [hdc, if_pos rfl]
      · rw [hphase, if_neg hdc] at hd
        rw [if_neg fun heq => hdc (h.cards.minors d c (Phase.numbered_of_listed hd) hnumbered heq)]
        exact h.cards.listed d hd
    case devices =>
      intro m d hd
      have hd : Function.update s.devices (s.minor c) (some c) m = some d := hd
      rw [devices_update] at hd
      by_cases hm : m = s.minor c
      · rw [if_pos hm] at hd
        obtain rfl := Option.some.inj hd
        rw [hphase, if_pos rfl]
        exact ⟨rfl, hm.symm⟩
      · rw [if_neg hm] at hd
        obtain ⟨hlisted, hminor⟩ := h.cards.devices m d hd
        have hdc : d ≠ c := fun hdc => hm (by rw [← hminor, hdc])
        rw [hphase, if_neg hdc]
        exact ⟨hlisted, hminor⟩
    case minors => intro d e hd he; exact h.cards.minors d e ((hsame d).1 hd) ((hsame e).1 he)
    case small => intro d hd; exact h.cards.small d ((hsame d).1 hd)
  case entries => exact h.entries.of_eq rfl rfl
  case slots =>
    apply h.slots.update (t := t) rfl rfl rfl
    · exact fun _ _ _ => rfl
    · exact nofun
    · exact nofun
    · exact fun _ => h.slots.first c (by rw [hc]; rfl)
    · exact nofun
    · exact fun i hi => h.slots.clearing i hi c

theorem Inv.unpublish (h : Inv s) (hc : s.phase c = .detached) :
    Inv ({ s with devices := Function.update s.devices (s.minor c) none }.setPhase c .gone) := by
  set t : State := { s with devices := Function.update s.devices (s.minor c) none } with ht
  have hnumbered : s.numbered c := by rw [State.numbered, hc]; decide
  have hphase (d : Nat) : (t.setPhase c .gone).phase d = if d = c then .gone else s.phase d := phase_setPhase t c _ d
  have hsame {d : Nat} (hd : (t.setPhase c .gone).numbered d) : d ≠ c ∧ s.numbered d := by
    rw [State.numbered, hphase] at hd
    by_cases hdc : d = c
    · rw [if_pos hdc] at hd
      exact absurd rfl hd.2
    · rw [if_neg hdc] at hd
      exact ⟨hdc, hd⟩
  constructor
  case core => exact ⟨h.core.inOrder, h.core.vacant, h.core.detach, h.core.endpoints⟩
  case cards =>
    constructor
    case listed =>
      intro d hd
      rw [hphase] at hd
      by_cases hdc : d = c
      · rw [if_pos hdc] at hd
        cases hd
      · rw [if_neg hdc] at hd
        show Function.update s.devices (s.minor c) none (s.minor d) = some d
        rw [devices_update, if_neg fun heq => hdc (h.cards.minors d c (Phase.numbered_of_listed hd) hnumbered heq)]
        exact h.cards.listed d hd
    case devices =>
      intro m d hd
      have hd : Function.update s.devices (s.minor c) none m = some d := hd
      rw [devices_update] at hd
      by_cases hm : m = s.minor c
      · rw [if_pos hm] at hd
        cases hd
      · rw [if_neg hm] at hd
        obtain ⟨hlisted, hminor⟩ := h.cards.devices m d hd
        have hdc : d ≠ c := fun hdc => hm (by rw [← hminor, hdc])
        rw [hphase, if_neg hdc]
        exact ⟨hlisted, hminor⟩
    case minors => intro d e hd he; exact h.cards.minors d e (hsame hd).2 (hsame he).2
    case small => intro d hd; exact h.cards.small d (hsame hd).2
  case entries => exact h.entries.of_eq rfl rfl
  case slots =>
    apply h.slots.update (t := t) rfl rfl rfl
    · exact fun _ _ _ => rfl
    · exact fun _ => h.slots.bare c (by rw [hc]; rfl)
    · exact nofun
    · exact nofun
    · exact nofun
    · exact fun i hi => h.slots.clearing i hi c

theorem Inv.create (h : Inv s) {minor : Nat} (hc : s.phase c = .absent) (hminor : minor < cardCountMax)
    (hfree : ∀ c, s.numbered c → s.minor c ≠ minor) :
    Inv ({ s with minor := Function.update s.minor c minor }.setPhase c .created) := by
  set t : State := { s with minor := Function.update s.minor c minor } with ht
  have hphase (d : Nat) : (t.setPhase c .created).phase d = if d = c then .created else s.phase d := phase_setPhase t c _ d
  have hnumber (d : Nat) : (t.setPhase c .created).minor d = if d = c then minor else s.minor d := Function.update_apply ..
  have hsame {d : Nat} (hdc : d ≠ c) (hd : (t.setPhase c .created).numbered d) : s.numbered d := by
    rw [State.numbered, hphase, if_neg hdc] at hd
    exact hd
  have hnot : (s.phase c).listed = false := by rw [hc]; rfl
  constructor
  case core => exact ⟨h.core.inOrder, h.core.vacant, h.core.detach, h.core.endpoints⟩
  case cards =>
    constructor
    case listed =>
      intro d hd
      rw [hphase] at hd
      rw [hnumber]
      by_cases hdc : d = c
      · rw [if_pos hdc] at hd
        cases hd
      · rw [if_neg hdc] at hd ⊢
        exact h.cards.listed d hd
    case devices =>
      intro m d hd
      obtain ⟨hlisted, hm⟩ := h.cards.devices m d hd
      have hdc : d ≠ c := by
        rintro rfl
        rw [hnot] at hlisted
        cases hlisted
      rw [hphase, hnumber, if_neg hdc, if_neg hdc]
      exact ⟨hlisted, hm⟩
    case minors =>
      intro d e hd he heq
      rw [hnumber, hnumber] at heq
      by_cases hdc : d = c
      · by_cases hec : e = c
        · rw [hdc, hec]
        · rw [if_pos hdc, if_neg hec] at heq
          exact absurd heq.symm (hfree e (hsame hec he))
      · by_cases hec : e = c
        · rw [if_neg hdc, if_pos hec] at heq
          exact absurd heq (hfree d (hsame hdc hd))
        · rw [if_neg hdc, if_neg hec] at heq
          exact h.cards.minors d e (hsame hdc hd) (hsame hec he) heq
    case small =>
      intro d hd
      rw [hnumber]
      split
      next => exact hminor
      next hdc => exact h.cards.small d (hsame hdc hd)
  case entries => exact h.entries.of_eq rfl rfl
  case slots =>
    apply h.slots.update (t := t) rfl rfl rfl
    · exact fun _ _ _ => rfl
    · exact fun _ => h.slots.bare c (by rw [hc]; rfl)
    · exact nofun
    · exact nofun
    · exact nofun
    · exact fun i hi => h.slots.clearing i hi c

/-! ## Steps of the table -/

theorem mem_entry {l : List Nat} {j : Nat} : (c, j) ∈ l.map (·, i) ↔ c ∈ l ∧ j = i := by
  rw [List.mem_map]
  constructor
  · rintro ⟨d, hd, heq⟩
    obtain ⟨rfl, rfl⟩ := Prod.mk.inj heq
    exact ⟨hd, rfl⟩
  · rintro ⟨hc, rfl⟩
    exact ⟨c, hc, rfl⟩

theorem Inv.register (h : Inv s) (ops : DriverOps) (env : Attached) (hpaired : ops.removeEndpoint.isSome → ops.probeEndpoint.isSome)
    (hcalm : ∀ c, s.phase c ≠ .detached) : Inv (nfbDriverRegister ops env s).1 := by
  rw [nfbDriverRegister]
  split
  next => exact h
  next hops =>
    have hattach : ops.attach.isSome := Option.isSome_iff_ne_none.2 fun hn => hops (Or.inl hn)
    have hdetach : ops.detach.isSome := Option.isSome_iff_ne_none.2 fun hn => hops (Or.inr hn)
    cases hfind : s.find none with
    | none => exact h
    | some i =>
      obtain ⟨hbound, hnone⟩ := find_some hfind
      have hentry (j : Nat) : Function.update s.registered i ops j = if j = i then ops else s.registered j := Function.update_apply ..
      have hne {j : Nat} (hj : (s.registered j).attach.isSome) : j ≠ i := by
        rintro rfl
        rw [hnone] at hj
        cases hj
      have hsome (j : Nat) (hj : (s.registered j).attach.isSome) : (Function.update s.registered i ops j).attach.isSome := by
        rw [hentry, if_neg (hne hj)]
        exact hj
      have hcore : Core { s with registered := Function.update s.registered i ops, clearing := s.clearing } :=
        h.core.setEntry (h.core.vacant i hnone) (fun _ => hdetach) hpaired s.clearing
      have hspec := attachesTo_all env (s.cards.map (·, i)) { s with registered := Function.update s.registered i ops }
      set t := attachAll env (s.cards.map (·, i)) { s with registered := Function.update s.registered i ops } with ht
      have hregistered : t.registered = Function.update s.registered i ops := hspec.table.registered
      have hclearing : t.clearing = s.clearing := hspec.table.clearing
      have hphase : t.phase = s.phase := hspec.table.phase
      have hunlisted {d : Nat} (hd : (s.phase d).listed = false) (j : Nat) : t.drivers d j = s.drivers d j :=
        hspec.other d j fun hm => by
          rw [h.mem_cards.1 (mem_entry.1 hm).1] at hd
          cases hd
      have hold {d j : Nat} (hd : (s.drivers d j).status ≠ .none) : (t.drivers d j).status ≠ .none := by
        rw [show t.drivers d j = s.drivers d j from hspec.taken d j hd]
        exact hd
      show Inv t
      constructor
      case core => exact hcore.attachAll env _
      case cards =>
        have hcards : CardTable { s with registered := Function.update s.registered i ops } :=
          ⟨h.cards.listed, h.cards.devices, h.cards.minors, h.cards.small⟩
        exact hcards.of_same hspec.table
      case entries =>
        constructor
        case bound =>
          intro j hj
          rw [hregistered, hentry] at hj
          by_cases hji : j = i
          · rw [hji]; exact hbound
          · rw [if_neg hji] at hj
            exact h.entries.bound j hj
        case early =>
          intro j hj
          rw [hregistered, hclearing]
          exact ⟨hsome j (h.entries.early j hj).1, (h.entries.early j hj).2⟩
        case clearing =>
          intro j hj
          rw [hclearing] at hj
          rw [hregistered]
          exact hsome j (h.entries.clearing j hj)
        case nodup => rw [hclearing]; exact h.entries.nodup
      case slots =>
        constructor
        case bare =>
          intro d hd j
          rw [hphase] at hd
          have hlisted : (s.phase d).listed = false := by
            cases hq : s.phase d
            case detached => exact absurd hq (hcalm d)
            case absent | created | gone => rfl
            all_goals rw [hq] at hd; cases hd
          rw [hunlisted hlisted]
          exact h.slots.bare d hd j
        case few =>
          intro d hd j
          rw [hphase] at hd
          have hlisted : (s.phase d).listed = false := by
            cases hq : s.phase d
            case early | failed => rfl
            all_goals rw [hq] at hd; cases hd
          rw [hunlisted hlisted]
          exact h.slots.few d hd j
        case first =>
          intro d hd j hj
          rw [hphase] at hd
          exact hold (h.slots.first d hd j hj)
        case all =>
          intro d hd j hj hjc
          rw [hphase] at hd
          rw [hregistered] at hj
          rw [hclearing] at hjc
          by_cases hji : j = i
          · have hcards : d ∈ s.cards := h.mem_cards.2 (by rw [hd]; rfl)
            exact hspec.done d j (mem_entry.2 ⟨hcards, hji⟩) hj
          · rw [hentry, if_neg hji] at hj
            exact hold (h.slots.all d hd j hj hjc)
        case clearing =>
          intro j hj d
          rw [hclearing] at hj
          have hji := hne (h.entries.clearing j hj)
          have hsame : t.drivers d j = s.drivers d j := hspec.other d j fun hm => hji (mem_entry.1 hm).2
          rw [hsame]
          exact h.slots.clearing j hj d

theorem Inv.unregister (h : Inv s) (ops : DriverOps)
    (hcalm : ∀ i, s.find ops.attach = some i → driversEarly ≤ i ∧ i ∉ s.clearing) : Inv (nfbDriverUnregister ops s) := by
  rw [nfbDriverUnregister]
  split
  next => exact h
  next hops =>
    cases hfind : s.find ops.attach with
    | none => exact h
    | some i =>
      obtain ⟨hlate, hnew⟩ := hcalm i hfind
      obtain ⟨-, hentry⟩ := find_some hfind
      have hattach : (s.registered i).attach.isSome := by
        rw [hentry]
        exact Option.isSome_iff_ne_none.2 fun hn => hops (Or.inl hn)
      have hspec := detachesFrom_all (s.cards.map (·, i)) s
      dsimp only
      set t := detachAll (s.cards.map (·, i)) s with ht
      have hold {d j : Nat} (hj : j ≠ i) : t.drivers d j = s.drivers d j := hspec.other d j fun hm => hj (mem_entry.1 hm).2
      have hcore := h.core.detachAll (s.cards.map (·, i))
      have hentries := h.entries.of_eq hspec.table.registered hspec.table.clearing
      have hcards := h.cards.of_same hspec.table
      have hphase (d : Nat) : t.phase d = s.phase d := congrFun hspec.table.phase d
      constructor
      case core => exact ⟨hcore.inOrder, hcore.vacant, hcore.detach, hcore.endpoints⟩
      case cards => exact ⟨hcards.listed, hcards.devices, hcards.minors, hcards.small⟩
      case entries =>
        constructor
        case bound => exact hentries.bound
        case early =>
          intro j hj
          refine ⟨(hentries.early j hj).1, ?_⟩
          rw [List.mem_cons, not_or]
          exact ⟨by omega, (h.entries.early j hj).2⟩
        case clearing =>
          intro j hj
          show (t.registered j).attach.isSome
          rw [hspec.table.registered]
          rcases List.mem_cons.1 hj with rfl | hj
          · exact hattach
          · exact h.entries.clearing j hj
        case nodup => exact List.nodup_cons.2 ⟨hnew, h.entries.nodup⟩
      case slots =>
        constructor
        case bare =>
          intro d hd j
          exact hspec.none d j (h.slots.bare d (by rw [← hphase]; exact hd) j)
        case few =>
          intro d hd j hj
          exact h.slots.few d (by rw [← hphase]; exact hd) j fun hnone => hj (hspec.none d j hnone)
        case first =>
          intro d hd j hj
          show (t.drivers d j).status ≠ .none
          rw [hold (by omega)]
          exact h.slots.first d (by rw [← hphase]; exact hd) j hj
        case all =>
          intro d hd j hj hjc
          rw [List.mem_cons, not_or] at hjc
          show (t.drivers d j).status ≠ .none
          rw [hold hjc.1]
          exact h.slots.all d ((hphase d).symm.trans hd) j (by rw [← hspec.table.registered]; exact hj) hjc.2
        case clearing =>
          intro j hj d
          rcases List.mem_cons.1 hj with rfl | hj
          · -- A card that is not in `nfb_devices` has no drivers but the early ones.
            by_cases hlisted : (s.phase d).listed = true
            · exact hspec.done d j (mem_entry.2 ⟨h.mem_cards.2 hlisted, rfl⟩)
            · apply hspec.none
              by_contra hne
              have hbare : (s.phase d).bare = false := by
                by_contra hb
                exact hne (h.slots.bare d (by simpa using hb) j)
              have hfew : (s.phase d).few = true := by
                cases hq : s.phase d
                case early | failed => rfl
                case absent | created | gone | detached => rw [hq] at hbare; cases hbare
                case published | running | reloading => rw [hq] at hlisted; exact absurd rfl hlisted
              have := h.slots.few d hfew j hne
              omega
          · exact hspec.none d j (h.slots.clearing j hj d)

theorem Inv.clear (h : Inv s) (hi : i ∈ s.clearing) : Inv (clearEntry i s) := by
  have hentry (j : Nat) : (clearEntry i s).registered j = if j = i then {} else s.registered j := Function.update_apply ..
  have hmem (j : Nat) : j ∈ (clearEntry i s).clearing ↔ j ≠ i ∧ j ∈ s.clearing := h.entries.nodup.mem_erase_iff
  constructor
  case core =>
    apply h.core.setEntry
    · exact h.slots.clearing i hi
    · exact nofun
    · exact nofun
  case cards => exact ⟨h.cards.listed, h.cards.devices, h.cards.minors, h.cards.small⟩
  case entries =>
    constructor
    case bound =>
      intro j hj
      rw [hentry] at hj
      by_cases hji : j = i
      · rw [if_pos hji] at hj
        cases hj
      · rw [if_neg hji] at hj
        exact h.entries.bound j hj
    case early =>
      intro j hj
      have hji : j ≠ i := by
        rintro rfl
        exact (h.entries.early j hj).2 hi
      rw [hentry, if_neg hji, hmem]
      exact ⟨(h.entries.early j hj).1, fun hm => (h.entries.early j hj).2 hm.2⟩
    case clearing =>
      intro j hj
      obtain ⟨hji, hj⟩ := (hmem j).1 hj
      rw [hentry, if_neg hji]
      exact h.entries.clearing j hj
    case nodup => exact h.entries.nodup.erase i
  case slots =>
    constructor
    case bare => exact h.slots.bare
    case few => exact h.slots.few
    case first => exact h.slots.first
    case all =>
      intro d hd j hj hjc
      rw [hentry] at hj
      by_cases hji : j = i
      · rw [if_pos hji] at hj
        cases hj
      · rw [if_neg hji] at hj
        exact h.slots.all d hd j hj fun hm => hjc ((hmem j).2 ⟨hji, hm⟩)
    case clearing =>
      intro j hj d
      exact h.slots.clearing j ((hmem j).1 hj).2 d

/-! ## Endpoints -/

theorem Inv.callEndpoint (h : Inv s) (hok : handlesEndpoints s c i) (endpoint : Nat) :
    Inv (s.call (.probeEndpoint endpoint) c i (s.drivers c i).priv) ∧ Inv (s.call (.removeEndpoint endpoint) c i (s.drivers c i).priv) := by
  obtain ⟨hprobe, hremove⟩ := h.core.call_endpoint hok endpoint
  have hsame (kind : CallKind) : SameTable s (s.call kind c i (s.drivers c i).priv) := ⟨rfl, rfl, rfl, rfl, rfl⟩
  have hslots := h.slots
  constructor
  · exact ⟨hprobe, h.cards.of_same (hsame _), h.entries.of_eq rfl rfl, ⟨hslots.bare, hslots.few, hslots.first, hslots.all, hslots.clearing⟩⟩
  · exact ⟨hremove, h.cards.of_same (hsame _), h.entries.of_eq rfl rfl, ⟨hslots.bare, hslots.few, hslots.first, hslots.all, hslots.clearing⟩⟩

theorem Inv.endpoints (h : Inv s) (c endpoint : Nat) :
    Inv (nfbProbeEndpointLate c endpoint s) ∧ Inv (nfbRemoveEndpointEarly c endpoint s) := by
  constructor
  · unfold nfbProbeEndpointLate
    generalize List.range driversMax = l
    induction l generalizing s with
    | nil => exact h
    | cons i l ih =>
      rw [List.foldl_cons]
      split
      next hok => exact ih (h.callEndpoint hok endpoint).1
      next => exact ih h
  · unfold nfbRemoveEndpointEarly
    generalize slotsBackwards = l
    induction l generalizing s with
    | nil => exact h
    | cons i l ih =>
      rw [List.foldl_cons]
      split
      next hok => exact ih (h.callEndpoint hok endpoint).2
      next => exact ih h

/-! ## The start of the module -/

/-- The module with a list of drivers in its table. -/
def State.withDrivers (l : List DriverOps) : State := { State.empty with registered := fun i => l.getD i {} }

theorem register_withDrivers {l : List DriverOps} (hl : ∀ ops ∈ l, ops.attach.isSome) (hlen : l.length < driversMax)
    (hattach : ops.attach.isSome) (hdetach : ops.detach.isSome) (env : Attached) :
    (nfbDriverRegister ops env (State.withDrivers l)).1 = State.withDrivers (l ++ [ops]) := by
  have hfind : (State.withDrivers l).find none = some l.length := by
    rw [State.find, List.find?_range_eq_some]
    refine ⟨?_, List.mem_range.2 hlen, ?_⟩
    · rw [decide_eq_true_eq]
      show ((l.getD l.length {}).attach) = none
      rw [List.getD_eq_getElem?_getD, List.getElem?_eq_none le_rfl]
      rfl
    · intro j hj
      have hmem := hl l[j] (List.getElem_mem hj)
      rw [Bool.not_eq_true', decide_eq_false_iff_not]
      show ¬(l.getD j {}).attach = none
      rw [List.getD_eq_getElem _ _ hj]
      exact Option.isSome_iff_ne_none.1 hmem
  have hops : ¬(ops.attach = none ∨ ops.detach = none) := by
    rintro (hn | hn)
    · rw [hn] at hattach; cases hattach
    · rw [hn] at hdetach; cases hdetach
  have hcards : (State.withDrivers l).cards = [] := List.filterMap_eq_nil_iff.2 fun _ _ => rfl
  rw [nfbDriverRegister, if_neg hops, hfind]
  show attachAll env ((State.withDrivers l).cards.map (·, l.length)) _ = _
  rw [hcards]
  show { State.withDrivers l with registered := Function.update (fun i => l.getD i {}) l.length ops } = State.withDrivers (l ++ [ops])
  have hentries : Function.update (fun i => l.getD i {}) l.length ops = fun i => (l ++ [ops]).getD i {} := by
    funext i
    rw [Function.update_apply]
    split
    next hi => rw [hi, List.getD_eq_getElem?_getD, List.getElem?_concat_length]; rfl
    next hi =>
      rcases Nat.lt_or_ge i l.length with hlt | hge
      · rw [List.getD_eq_getElem?_getD, List.getD_eq_getElem?_getD, List.getElem?_append_left hlt]
      · rw [List.getD_eq_getElem?_getD, List.getD_eq_getElem?_getD, List.getElem?_eq_none hge, List.getElem?_eq_none]
        rw [List.length_append, List.length_singleton]
        omega
  rw [hentries]
  rfl

theorem registerAll_withDrivers (env : Attached) : ∀ (l' l : List DriverOps), (∀ ops ∈ l ++ l', ops.attach.isSome ∧ ops.detach.isSome) →
    (l ++ l').length ≤ driversMax →
    l'.foldl (fun s ops => (nfbDriverRegister ops env s).1) (State.withDrivers l) = State.withDrivers (l ++ l')
  | [], l, _, _ => by rw [List.append_nil, List.foldl_nil]
  | ops :: l', l, hall, hlen => by
    have hops := hall ops (List.mem_append_right _ List.mem_cons_self)
    have hl : ∀ ops ∈ l, ops.attach.isSome := fun o ho => (hall o (List.mem_append_left _ ho)).1
    have hlt : l.length < driversMax := by
      rw [List.length_append, List.length_cons] at hlen
      omega
    rw [List.append_cons] at hall hlen ⊢
    rw [List.foldl_cons, register_withDrivers hl hlt hops.1 hops.2]
    exact registerAll_withDrivers env l' (l ++ [ops]) hall hlen

theorem embeddedDriverOps_ok (xdp pmci : Bool) : (∀ ops ∈ embeddedDriverOps xdp pmci, ops.attach.isSome ∧ ops.detach.isSome) ∧
    (∀ ops ∈ embeddedDriverOps xdp pmci, ops.removeEndpoint.isSome → ops.probeEndpoint.isSome) ∧
    driversEarly ≤ (embeddedDriverOps xdp pmci).length ∧ (embeddedDriverOps xdp pmci).length ≤ driversMax := by
  cases xdp <;> cases pmci <;> decide

theorem nfbInit_eq (xdp pmci : Bool) : nfbInit xdp pmci = State.withDrivers (embeddedDriverOps xdp pmci) := by
  obtain ⟨hall, -, -, hlen⟩ := embeddedDriverOps_ok xdp pmci
  exact registerAll_withDrivers (fun _ _ => (0, 0)) (embeddedDriverOps xdp pmci) [] hall hlen

theorem Inv.init (xdp pmci : Bool) : Inv (nfbInit xdp pmci) := by
  obtain ⟨hall, hpaired, hearly, hlen⟩ := embeddedDriverOps_ok xdp pmci
  rw [nfbInit_eq]
  set l := embeddedDriverOps xdp pmci with hl
  have hentry (i : Nat) (hi : ((l.getD i {}).attach).isSome ∨ (l.getD i {}).removeEndpoint.isSome) :
      i < l.length ∧ l.getD i {} ∈ l := by
    by_cases hlt : i < l.length
    · rw [List.getD_eq_getElem _ _ hlt]
      exact ⟨hlt, List.getElem_mem hlt⟩
    · rw [List.getD_eq_getElem?_getD, List.getElem?_eq_none (Nat.le_of_not_lt hlt)] at hi
      rcases hi with hi | hi <;> cases hi
  have habsent : ∀ c, ¬(State.withDrivers l).numbered c := fun c hc => hc.1 rfl
  constructor
  case core =>
    constructor
    case inOrder => exact fun _ _ => rfl
    case vacant => exact fun _ _ _ => rfl
    case detach => exact fun i hi => (hall _ (hentry i (Or.inl hi)).2).2
    case endpoints => exact fun i hi => hpaired _ (hentry i (Or.inr hi)).2 hi
  case cards =>
    constructor
    case listed => exact fun c hc => absurd hc Bool.false_ne_true
    case devices => exact fun m c hc => absurd hc (Option.some_ne_none c).symm
    case minors => exact fun c _ hc => absurd hc (habsent c)
    case small => exact fun c hc => absurd hc (habsent c)
  case entries =>
    constructor
    case bound => exact fun i hi => lt_of_lt_of_le (hentry i (Or.inl hi)).1 hlen
    case early =>
      intro i hi
      have hlt : i < l.length := lt_of_lt_of_le hi hearly
      refine ⟨?_, List.not_mem_nil⟩
      show (l.getD i {}).attach.isSome
      rw [List.getD_eq_getElem _ _ hlt]
      exact (hall _ (List.getElem_mem hlt)).1
    case clearing => exact fun i hi => absurd hi List.not_mem_nil
    case nodup => exact List.nodup_nil
  case slots =>
    constructor
    case bare => exact fun _ _ _ => rfl
    case few => exact fun c hc => absurd hc Bool.false_ne_true
    case first => exact fun c hc => absurd hc Bool.false_ne_true
    case all => exact fun c hc => absurd hc (show Phase.absent ≠ .running by decide)
    case clearing => exact fun i hi => absurd hi List.not_mem_nil

/-! ## Runs -/

theorem Inv.step {a : Act} (h : Inv s) (hstep : Step s a t) (hcalm : Calm s a) : Inv t := by
  cases hstep with
  | register ops env => exact h.register ops env hcalm.1 hcalm.2
  | unregister ops => exact h.unregister ops hcalm
  | clear hi => exact h.clear hi
  | create hc hminor hfree => exact h.create hc hminor hfree
  | attachEarly env hc => exact h.attachEarly env hc
  | charProbe hc => exact h.charProbe hc
  | charProbeFails hc _ => exact h.charProbeFails hc
  | attachLate env hc => exact h.attachLate env hc hcalm
  | reload hc => exact h.reloading (by rw [hc]; rfl) [] driversMax
  | beforeReload hc =>
    obtain ⟨l, hl⟩ := nfbDetachDriverBeforeReload_cases _ _ s
    rw [hl]
    exact h.reloading (by rw [hc]; rfl) l _
  | detach hc => exact h.detach hc
  | unpublish hc => exact h.unpublish hc
  | probeEndpoint endpoint _ => exact (h.endpoints _ endpoint).1
  | removeEndpoint endpoint _ => exact (h.endpoints _ endpoint).2

theorem Inv.run (h : Inv s) (hrun : Run s acts t) : Inv t := by
  induction hrun with
  | nil => exact h
  | snoc _ hstep hcalm ih => exact ih.step hstep hcalm

theorem detachAll_log : ∀ (l : List (Nat × Nat)) (s : State),
    ∃ calls, (detachAll l s).log = s.log ++ calls ∧ (calls.map Call.slot).Sublist (l.map Prod.snd)
  | [], s => ⟨[], (List.append_nil _).symm, List.Sublist.refl _⟩
  | p :: l, s => by
    obtain ⟨calls, hlog, hsub⟩ := detachAll_log l (nfbDetachDriver p.1 p.2 s)
    have hone := nfbDetachDriver_log p.1 p.2 s
    cases hkind : detachKind (s.drivers p.1 p.2).status with
    | none =>
      rw [hkind, Option.map_none, Option.toList_none, List.append_nil] at hone
      refine ⟨calls, ?_, hsub.cons _⟩
      show (detachAll l (nfbDetachDriver p.1 p.2 s)).log = _
      rw [hlog, hone]
    | some kind =>
      rw [hkind, Option.map_some, Option.toList_some] at hone
      refine ⟨⟨kind, p.1, p.2, s.registered p.2, (s.drivers p.1 p.2).priv⟩ :: calls, ?_, hsub.cons_cons _⟩
      show (detachAll l (nfbDetachDriver p.1 p.2 s)).log = _
      rw [hlog, hone, List.append_assoc]
      rfl

theorem nfbDetachDrivers_log (c : Nat) (s : State) :
    ∃ calls, (nfbDetachDrivers c s).log = s.log ++ calls ∧ (calls.map Call.slot).Pairwise (· > ·) := by
  obtain ⟨calls, hlog, hsub⟩ := detachAll_log (slotsBackwards.map (c, ·)) s
  refine ⟨calls, hlog, List.Pairwise.sublist hsub ?_⟩
  rw [List.map_map]
  show (slotsBackwards.map fun i => i).Pairwise (· > ·)
  rw [List.map_id', slotsBackwards, List.pairwise_reverse]
  exact List.pairwise_lt_range

/-- In every run the calls for a slot of a card are in order: the functions that are called are those of the driver that was attached last,
with its data, it is attached again only behind a detach, and no pointer is null. A card that is removed holds no drivers, its removal
detaches the later ones first, and on a card that runs every driver of the table has been attached, or has refused the card. -/
theorem calls_in_order (xdp pmci : Bool) (acts : List Act) (s : State) (hrun : Run (nfbInit xdp pmci) acts s) :
    (∀ c i, history c i s.log = some (s.held c i)) ∧
      (∀ c, s.phase c = .detached ∨ s.phase c = .gone → ∀ i, history c i s.log = some .vacant) ∧
      (∀ c, ∃ calls, (nfbDetachDrivers c s).log = s.log ++ calls ∧ (calls.map Call.slot).Pairwise (· > ·)) ∧
      ∀ c, s.phase c = .running → ∀ i, (s.registered i).attach.isSome → i ∉ s.clearing →
        history c i s.log = some (.refused (s.registered i)) ∨ ∃ priv, history c i s.log = some (.held (s.registered i, priv)) := by
  have h := (Inv.init xdp pmci).run hrun
  refine ⟨h.core.inOrder, ?_, fun c => nfbDetachDrivers_log c s, ?_⟩
  · intro c hc i
    have hbare : (s.phase c).bare = true := by rcases hc with hc | hc <;> rw [hc] <;> rfl
    rw [h.core.inOrder, held_of_none (h.slots.bare c hbare i)]
  · intro c hc i hattach hclear
    have htaken := h.slots.all c hc i hattach hclear
    rw [h.core.inOrder]
    cases hstatus : (s.drivers c i).status with
    | none => exact absurd hstatus htaken
    | error => exact Or.inl (by rw [held_of_error hstatus])
    | ok => exact Or.inr ⟨_, by rw [held_of_ok hstatus]⟩

end

/-! ## Two cards -/

/-- The fourth driver refuses every card. -/
def oneEnv : Attached := fun _ i => (if i = 3 then -1 else 0, i)

/-- A card `c` behind `nfb_create`, and behind each step of `nfb_probe`. -/
def created (c : Nat) (s : State) : State := { s with minor := Function.update s.minor c c }.setPhase c .created

def attachedEarly (c : Nat) (s : State) : State := (nfbAttachDriversEarly oneEnv c (created c s)).setPhase c .early

def published (c : Nat) (s : State) : State :=
  { attachedEarly c s with devices := Function.update (attachedEarly c s).devices ((attachedEarly c s).minor c) (some c) }.setPhase c .published

def running (c : Nat) (s : State) : State := (nfbAttachDrivers oneEnv c (published c s)).setPhase c .running

/-- A card behind `nfb_remove`. -/
def detached (c : Nat) (s : State) : State := (nfbDetachDrivers c s).setPhase c .detached

def removed (c : Nat) (s : State) : State :=
  { detached c s with devices := Function.update (detached c s).devices ((detached c s).minor c) none }.setPhase c .gone

theorem running_table (c : Nat) (s : State) : (running c s).registered = s.registered ∧ (running c s).clearing = s.clearing ∧
    (running c s).phase = Function.update s.phase c .running ∧ (running c s).minor = Function.update s.minor c c := by
  have hearly := (attachesTo_all oneEnv (earlySlots.map (c, ·)) (created c s)).table
  have hlate := (attachesTo_all oneEnv (lateSlots.map (c, ·)) (published c s)).table
  refine ⟨hlate.registered.trans hearly.registered, hlate.clearing.trans hearly.clearing, ?_, hlate.minor.trans hearly.minor⟩
  show Function.update (nfbAttachDrivers oneEnv c (published c s)).phase c .running = _
  rw [show (nfbAttachDrivers oneEnv c (published c s)).phase = (published c s).phase from hlate.phase]
  show Function.update (Function.update (Function.update (nfbAttachDriversEarly oneEnv c (created c s)).phase c .early) c .published) c _ = _
  rw [show (nfbAttachDriversEarly oneEnv c (created c s)).phase = (created c s).phase from hearly.phase]
  show Function.update (Function.update (Function.update (Function.update s.phase c .created) c .early) c .published) c _ = _
  rw [Function.update_idem, Function.update_idem, Function.update_idem]

theorem removed_table (c : Nat) (s : State) : (removed c s).registered = s.registered ∧ (removed c s).clearing = s.clearing ∧
    (removed c s).phase = Function.update s.phase c .gone := by
  have htable := (detachesFrom_all (slotsBackwards.map (c, ·)) s).table
  refine ⟨htable.registered, htable.clearing, ?_⟩
  show Function.update (Function.update (nfbDetachDrivers c s).phase c .detached) c .gone = _
  rw [show (nfbDetachDrivers c s).phase = s.phase from htable.phase, Function.update_idem]

theorem Run.probe {s t : State} {c : Nat} (h : Run s acts t) (hc : t.phase c = .absent) (hsmall : c < cardCountMax)
    (hfree : ∀ d, t.numbered d → t.minor d ≠ c) (hclear : t.clearing = []) :
    Run s (acts ++ [.create c c] ++ [.attachEarly c oneEnv] ++ [.charProbe c 0] ++ [.attachLate c oneEnv]) (running c t) := by
  have hcreate : Step t (.create c c) (created c t) := .create hc hsmall hfree
  have hattach : Step (created c t) (.attachEarly c oneEnv) (attachedEarly c t) := .attachEarly oneEnv (Function.update_self ..)
  have hprobe : Step (attachedEarly c t) (.charProbe c 0) (published c t) := .charProbe (Function.update_self ..)
  have hlate : Step (published c t) (.attachLate c oneEnv) (running c t) := .attachLate oneEnv (Function.update_self ..)
  have hnone : (published c t).clearing = [] := by
    rw [← hclear]
    exact (attachesTo_all oneEnv (earlySlots.map (c, ·)) (created c t)).table.clearing
  exact (((h.snoc hcreate trivial).snoc hattach trivial).snoc hprobe trivial).snoc hlate hnone

theorem Run.remove {s t : State} {c : Nat} (h : Run s acts t) (hc : (t.phase c).alive) :
    Run s (acts ++ [.detach c] ++ [.unpublish c]) (removed c t) := by
  have hdetach : Step t (.detach c) (detached c t) := .detach hc
  have hunpublish : Step (detached c t) (.unpublish c) (removed c t) := .unpublish (Function.update_self ..)
  exact (h.snoc hdetach trivial).snoc hunpublish trivial

/-- The module with one card that has been removed, and one that runs. -/
def oneRemoved : State := removed 0 (running 1 (running 0 (nfbInit false false)))

theorem run_oneRemoved : ∃ acts, Run (nfbInit false false) acts oneRemoved := by
  have habsent (c : Nat) : (nfbInit false false).phase c = .absent := by rw [nfbInit_eq]; rfl
  have hnone : (nfbInit false false).clearing = [] := by rw [nfbInit_eq]; rfl
  obtain ⟨-, hclear, hphase, hminor⟩ := running_table 0 (nfbInit false false)
  have hfirst := (Run.nil (s := nfbInit false false)).probe (habsent 0) (by decide) (fun d hd => absurd (habsent d) hd.1) hnone
  have hsecond := hfirst.probe (c := 1) (by rw [hphase]; exact habsent 1) (by decide)
    (fun d hd => by
      have hd0 : d = 0 := by
        by_contra hne
        apply hd.1
        rw [hphase, Function.update_of_ne hne]
        exact habsent d
      rw [hminor, hd0, Function.update_self]
      decide)
    (hclear.trans hnone)
  have halive : ((running 1 (running 0 (nfbInit false false))).phase 0).alive := by
    rw [(running_table 1 _).2.2.1, Function.update_of_ne (by decide), hphase, Function.update_self]
    rfl
  exact ⟨_, hsecond.remove halive⟩

theorem oneRemoved_table : oneRemoved.phase 0 = .gone ∧ oneRemoved.phase 1 = .running ∧
    oneRemoved.registered = (nfbInit false false).registered ∧ oneRemoved.clearing = [] := by
  obtain ⟨hregistered, hclear, hphase, -⟩ := running_table 0 (nfbInit false false)
  obtain ⟨hregistered', hclear', hphase', -⟩ := running_table 1 (running 0 (nfbInit false false))
  obtain ⟨hregistered'', hclear'', hphase''⟩ := removed_table 0 (running 1 (running 0 (nfbInit false false)))
  rw [oneRemoved, hphase'', hphase', Function.update_self, Function.update_of_ne (by decide), Function.update_self]
  refine ⟨rfl, rfl, ?_, ?_⟩
  · rw [hregistered'', hregistered', hregistered]
  · rw [hclear'', hclear', hclear, nfbInit_eq]
    rfl

/-- The first card is gone and nothing is left on it; on the second one the fourth driver of the table has been attached, or has refused. -/
theorem calls_in_order_removed : (∀ i, history 0 i oneRemoved.log = some .vacant) ∧ history 1 3 oneRemoved.log = some (oneRemoved.held 1 3) ∧
    (history 1 3 oneRemoved.log = some (.refused (oneRemoved.registered 3)) ∨
      ∃ priv, history 1 3 oneRemoved.log = some (.held (oneRemoved.registered 3, priv))) := by
  obtain ⟨acts, hrun⟩ := run_oneRemoved
  obtain ⟨horder, hgone, -, hrunning⟩ := calls_in_order false false acts oneRemoved hrun
  obtain ⟨hphase, hphase', hregistered, hclear⟩ := oneRemoved_table
  refine ⟨hgone 0 (Or.inr hphase), horder 1 3, hrunning 1 hphase' 3 ?_ ?_⟩
  · rw [hregistered, nfbInit_eq]
    rfl
  · rw [hclear]
    exact List.not_mem_nil

end NdkSw.Drivers

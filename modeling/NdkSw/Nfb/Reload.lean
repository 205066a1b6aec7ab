/-
Firmware reload (`boot/reload.c`): the endpoints of a card are removed and rescanned, and the errors that this raises on the bridges
above them are switched off before by requests that save the registers per endpoint. Bridges and root ports may be shared.
-/
import NdkSw.Ndp.Channel
import NdkSw.Shared.SaveRestore
import NdkSw.Shared.Words

namespace NdkSw.Reload

open Ndp Shared

/-! ## Data model -/

/-- The registers of a bridge or root port. -/
structure BridgeRegs where
  command : U16
  devctl : U16
  lnkctl : U16
  uncorMask : U32
  rootCommand : U32
  deriving DecidableEq, Repr

/-- What an endpoint's `struct nfb_pci_device` has saved. -/
structure SavedRegs where
  bridgeCommand : U16
  bridgeDevctl : U16
  bridgeRootAerMask : U32
  bridgeRootAerCmd : U32
  deriving DecidableEq, Repr

/-- The PCI hierarchy. Endpoints have numbers, and so have the buses; the bridge above a bus goes by its number. A scan of all buses
finds the endpoints in the order `scan`. -/
structure PciTopo where
  devices : List Nat
  main : Nat
  bus : Nat → Nat
  parent : Nat → Nat
  rootPort : Nat → Option Nat
  expCap : Nat → Bool
  errCap : Nat → Bool
  scan : List Nat
  nodup : devices.Nodup
  main_mem : main ∈ devices
  scan_nodup : scan.Nodup
  mem_scan : ∀ c ∈ devices, c ∈ scan

/-- An endpoint is removed, or rescanned. -/
inductive PciEvent where
  | removed (c : Nat)
  | rescanned (c : Nat)
  deriving DecidableEq, Repr

structure PciState where
  regs : Nat → BridgeRegs
  card : Nat → SavedRegs
  log : List PciEvent

/-- What the reload finds in `struct nfb_boot`, and the parameter `boot_linkdown_enable`. -/
structure BootParams where
  pmci : Bool
  m10bmcSpi : Bool
  linkdown : Bool

/-- `PCI_COMMAND_SERR`. -/
def commandSerr : U16 := 0x100

/-- `PCI_EXP_DEVCTL_NFERE | PCI_EXP_DEVCTL_FERE`. -/
def devctlErrors : U16 := 0x2 ||| 0x4

/-- `PCI_ERR_UNC_SURPDN`. -/
def uncSurpdn : U32 := 0x20

/-- `PCI_EXP_LNKCTL_LD`. -/
def lnkctlLd : U16 := 0x10

def PciState.setRegs (s : PciState) (b : Nat) (f : BridgeRegs → BridgeRegs) : PciState :=
  { s with regs := Function.update s.regs b (f (s.regs b)) }

def PciState.setCard (s : PciState) (c : Nat) (f : SavedRegs → SavedRegs) : PciState :=
  { s with card := Function.update s.card c (f (s.card c)) }

/-! ## Errors off -/

/-- The command and device control registers of the bridge. -/
def disableBridge (t : PciTopo) (c : Nat) (s : PciState) : PciState :=
  let r := s.regs (t.bus c)
  let s := s.setCard c fun card => { card with bridgeCommand := r.command, bridgeDevctl := r.devctl }
  s.setRegs (t.bus c) fun r => { r with command := r.command &&& ~~~commandSerr, devctl := r.devctl &&& ~~~devctlErrors }

/-- The AER capability of the bridge. -/
def disableUncorMask (t : PciTopo) (c : Nat) (s : PciState) : PciState :=
  if t.errCap (t.bus c) then
    let s := s.setCard c fun card => { card with bridgeRootAerMask := (s.regs (t.bus c)).uncorMask }
    s.setRegs (t.bus c) fun r => { r with uncorMask := r.uncorMask ||| uncSurpdn }
  else s

/-- The AER capability of the root port. -/
def disableRootCommand (t : PciTopo) (root : Nat) (c : Nat) (s : PciState) : PciState :=
  if t.errCap root then
    let s := s.setCard c fun card => { card with bridgeRootAerCmd := (s.regs root).rootCommand }
    s.setRegs root fun r => { r with rootCommand := 0 }
  else s

/-- `nfb_pci_errors_disable`. -/
def nfbPciErrorsDisable (t : PciTopo) (useRootPortCmds : Bool) (c : Nat) (s : PciState) : Int × PciState :=
  let bridge := t.bus c
  let root := t.rootPort bridge
  if useRootPortCmds ∧ root = none then (eNodev, s)
  else
    let s := disableBridge t c s
    let s := disableUncorMask t c s
    match useRootPortCmds, root with
    | true, some root => (0, disableRootCommand t root c s)
    | _, _ => (0, s)

/-- The loop of `nfb_boot_ioctl_error_disable`. -/
def errorDisableLoop (t : PciTopo) (useRootPortCmds : Bool) : List Nat → PciState → Int × PciState
  | [], s => (0, s)
  | c :: l, s =>
    match nfbPciErrorsDisable t useRootPortCmds c s with
    | (ret, s) => if ret ≠ 0 then (ret, s) else errorDisableLoop t useRootPortCmds l s

/-- `nfb_boot_ioctl_error_disable`. -/
def nfbBootIoctlErrorDisable (t : PciTopo) (boot : BootParams) (s : PciState) : Int × PciState :=
  errorDisableLoop t boot.m10bmcSpi t.devices s

/-! ## Reload -/

/-- `nfb_boot_reload_prepare_remove`. -/
def nfbBootReloadPrepareRemove (t : PciTopo) (c : Nat) : Int := if t.expCap (t.bus c) then 0 else eBadf

/-- `nfb_boot_reload_shutdown`. -/
def nfbBootReloadShutdown (t : PciTopo) (boot : BootParams) (s : PciState) (c : Nat) : PciState :=
  let s := { s with log := s.log ++ [PciEvent.removed c] }
  if boot.linkdown then s.setRegs (t.bus c) fun r => { r with lnkctl := r.lnkctl ||| lnkctlLd } else s

/-- `nfb_boot_reload_linkup`. -/
def nfbBootReloadLinkup (t : PciTopo) (boot : BootParams) (s : PciState) (c : Nat) : PciState :=
  if boot.linkdown then s.setRegs (t.bus c) fun r => { r with lnkctl := r.lnkctl &&& ~~~lnkctlLd } else s

def restoreBridge (t : PciTopo) (c : Nat) (s : PciState) : PciState :=
  s.setRegs (t.bus c) fun r => { r with command := (s.card c).bridgeCommand, devctl := (s.card c).bridgeDevctl }

def restoreUncorMask (t : PciTopo) (c : Nat) (s : PciState) : PciState :=
  if t.errCap (t.bus c) then s.setRegs (t.bus c) fun r => { r with uncorMask := (s.card c).bridgeRootAerMask } else s

def restoreRootCommand (t : PciTopo) (root : Nat) (c : Nat) (s : PciState) : PciState :=
  if t.errCap root then s.setRegs root fun r => { r with rootCommand := (s.card c).bridgeRootAerCmd } else s

/-- `nfb_boot_reload_rescan` of an endpoint that comes back. -/
def nfbBootReloadRescan (t : PciTopo) (s : PciState) (c : Nat) : PciState :=
  let s := { s with log := s.log ++ [PciEvent.rescanned c] }
  let s := restoreBridge t c s
  restoreUncorMask t c s

/-- `nfb_boot_n5014_reload_rescan` when all devices come back: what is below the root port is removed, and found again when all
buses are rescanned; the second rescan finds nothing new. -/
def nfbBootN5014ReloadRescan (t : PciTopo) (s : PciState) (c : Nat) : Int × PciState :=
  match t.rootPort (t.bus c) with
  | none => (eNodev, s)
  | some root =>
    let below := t.scan.filter fun c => t.rootPort (t.bus c) = some root
    let s := { s with log := s.log ++ below.map PciEvent.removed ++ below.map PciEvent.rescanned }
    let s := restoreBridge t c s
    (0, restoreRootCommand t root c s)

/-- The list `slaves` that `nfb_boot_reload` collects, the last endpoint first, or the error of the one that can't be prepared. -/
def collectSlaves (t : PciTopo) : List Nat → List Nat → Except Int (List Nat)
  | [], slaves => .ok slaves
  | c :: l, slaves =>
    if c = t.main then collectSlaves t l slaves
    else
      let slaves := c :: slaves
      let ret := nfbBootReloadPrepareRemove t c
      if ret ≠ 0 then .error ret else collectSlaves t l slaves

/-- The order in which the slaves are rescanned: those that share the parent bus of the main endpoint in a second pass. -/
def rescanOrder (t : PciTopo) (slaves : List Nat) : List Nat :=
  let shared (c : Nat) : Bool := t.parent (t.bus c) = t.parent (t.bus t.main)
  slaves.filter (fun c => !shared c) ++ slaves.filter shared

/-- `nfb_boot_reload`. -/
def nfbBootReload (t : PciTopo) (boot : BootParams) (s : PciState) : Int × PciState :=
  match collectSlaves t t.devices [] with
  | .error ret => (ret, s)
  | .ok slaves =>
    let ret := nfbBootReloadPrepareRemove t t.main
    if ret ≠ 0 then (ret, s)
    else if ¬boot.pmci ∧ boot.m10bmcSpi then nfbBootN5014ReloadRescan t s t.main
    else
      let s := nfbBootReloadShutdown t boot s t.main
      let s := slaves.foldl (nfbBootReloadShutdown t boot) s
      let s := nfbBootReloadLinkup t boot s t.main
      let s := slaves.foldl (nfbBootReloadLinkup t boot) s
      let s := (rescanOrder t slaves).foldl (nfbBootReloadRescan t) s
      (0, nfbBootReloadRescan t s t.main)

/-! ## Views of the registers that are saved -/

/-- A part of the registers as cells, and what the endpoints have saved of it. -/
def view {V : Type} (f : BridgeRegs → V) (g : SavedRegs → V) (s : PciState) : State Nat Nat V := ⟨f ∘ s.regs, g ∘ s.card⟩

def commands : PciState → State Nat Nat (U16 × U16) :=
  view (fun r => (r.command, r.devctl)) fun card => (card.bridgeCommand, card.bridgeDevctl)

def uncorMasks : PciState → State Nat Nat U32 := view BridgeRegs.uncorMask SavedRegs.bridgeRootAerMask

def rootCommands : PciState → State Nat Nat U32 := view BridgeRegs.rootCommand SavedRegs.bridgeRootAerCmd

def commandsOff (_ : Nat) (v : U16 × U16) : U16 × U16 := (v.1 &&& ~~~commandSerr, v.2 &&& ~~~devctlErrors)

def uncorMaskOff (_ : Nat) (v : U32) : U32 := v ||| uncSurpdn

def rootCommandOff (_ : Nat) (_ : U32) : U32 := 0

theorem commandsOff_idem (b : Nat) (v : U16 × U16) : commandsOff b (commandsOff b v) = commandsOff b v := by
  simp only [commandsOff, BitVec.and_assoc, BitVec.and_self]

theorem uncorMaskOff_idem (b : Nat) (v : U32) : uncorMaskOff b (uncorMaskOff b v) = uncorMaskOff b v := by
  simp only [uncorMaskOff, BitVec.or_assoc, BitVec.or_self]

theorem rootCommandOff_idem (b : Nat) (v : U32) : rootCommandOff b (rootCommandOff b v) = rootCommandOff b v := rfl

/-- The cell of the root command register; what an endpoint without a root port gets is never used. -/
def PciTopo.root (t : PciTopo) (c : Nat) : Nat := (t.rootPort (t.bus c)).getD (t.bus c)

def PciTopo.savesMask (t : PciTopo) (c : Nat) : Bool := t.errCap (t.bus c)

def PciTopo.savesRoot (t : PciTopo) (c : Nat) : Bool := (t.rootPort (t.bus c)).any t.errCap

section

variable {V : Type} (f : BridgeRegs → V) (g : SavedRegs → V) {h : BridgeRegs → BridgeRegs}

theorem view_setRegs (s : PciState) (b : Nat) (h : BridgeRegs → BridgeRegs) :
    view f g (s.setRegs b h) = { view f g s with val := Function.update (view f g s).val b (f (h (s.regs b))) } := by
  simp only [view, PciState.setRegs, Function.comp_update]

theorem view_setCard (s : PciState) (c : Nat) (h : SavedRegs → SavedRegs) :
    view f g (s.setCard c h) = { view f g s with saved := Function.update (view f g s).saved c (g (h (s.card c))) } := by
  simp only [view, PciState.setCard, Function.comp_update]

theorem view_setRegs_of_eq (s : PciState) (b : Nat) (hf : ∀ r, f (h r) = f r) : view f g (s.setRegs b h) = view f g s := by
  have hval : Function.update (view f g s).val b (f (s.regs b)) = (view f g s).val := Function.update_eq_self b _
  rw [view_setRegs, hf]
  exact congrArg (State.mk · _) hval

theorem view_of_eq (s : PciState) (c b : Nat) {k : SavedRegs → SavedRegs} (hg : ∀ r, g (k r) = g r) (hf : ∀ r, f (h r) = f r) :
    view f g ((s.setCard c k).setRegs b h) = view f g s := by
  have hsaved : Function.update (view f g s).saved c (g (s.card c)) = (view f g s).saved := Function.update_eq_self c _
  rw [view_setRegs_of_eq f g _ b hf, view_setCard, hg, hsaved]

end

/-! ## What the steps do to the views -/

theorem log_disableUncorMask (t : PciTopo) (c : Nat) (s : PciState) : (disableUncorMask t c s).log = s.log := by
  unfold disableUncorMask
  split
  · rfl
  · rfl

theorem log_disableRootCommand (t : PciTopo) (root c : Nat) (s : PciState) : (disableRootCommand t root c s).log = s.log := by
  unfold disableRootCommand
  split
  · rfl
  · rfl

theorem commands_disableBridge (t : PciTopo) (c : Nat) (s : PciState) :
    commands (disableBridge t c s) = saveOne t.bus commandsOff (commands s) c := by
  unfold commands disableBridge
  rw [view_setRegs, view_setCard]
  rfl

theorem uncorMasks_disableBridge (t : PciTopo) (c : Nat) (s : PciState) : uncorMasks (disableBridge t c s) = uncorMasks s := by
  unfold uncorMasks disableBridge
  exact view_of_eq _ _ s c _ (fun _ => rfl) fun _ => rfl

theorem rootCommands_disableBridge (t : PciTopo) (c : Nat) (s : PciState) : rootCommands (disableBridge t c s) = rootCommands s := by
  unfold rootCommands disableBridge
  exact view_of_eq _ _ s c _ (fun _ => rfl) fun _ => rfl

theorem commands_disableUncorMask (t : PciTopo) (c : Nat) (s : PciState) : commands (disableUncorMask t c s) = commands s := by
  unfold commands disableUncorMask
  split
  · exact view_of_eq _ _ s c _ (fun _ => rfl) fun _ => rfl
  · rfl

theorem uncorMasks_disableUncorMask (t : PciTopo) (c : Nat) (s : PciState) :
    uncorMasks (disableUncorMask t c s) = if t.savesMask c then saveOne t.bus uncorMaskOff (uncorMasks s) c else uncorMasks s := by
  unfold uncorMasks disableUncorMask PciTopo.savesMask
  split
  · rw [view_setRegs, view_setCard]
    rfl
  · rfl

theorem rootCommands_disableUncorMask (t : PciTopo) (c : Nat) (s : PciState) :
    rootCommands (disableUncorMask t c s) = rootCommands s := by
  unfold rootCommands disableUncorMask
  split
  · exact view_of_eq _ _ s c _ (fun _ => rfl) fun _ => rfl
  · rfl

theorem commands_disableRootCommand (t : PciTopo) (root c : Nat) (s : PciState) :
    commands (disableRootCommand t root c s) = commands s := by
  unfold commands disableRootCommand
  split
  · exact view_of_eq _ _ s c _ (fun _ => rfl) fun _ => rfl
  · rfl

theorem uncorMasks_disableRootCommand (t : PciTopo) (root c : Nat) (s : PciState) :
    uncorMasks (disableRootCommand t root c s) = uncorMasks s := by
  unfold uncorMasks disableRootCommand
  split
  · exact view_of_eq _ _ s c _ (fun _ => rfl) fun _ => rfl
  · rfl

variable {root c : Nat}

theorem rootCommands_disableRootCommand (t : PciTopo) (hroot : t.rootPort (t.bus c) = some root) (s : PciState) :
    rootCommands (disableRootCommand t root c s) =
      if t.savesRoot c then saveOne t.root rootCommandOff (rootCommands s) c else rootCommands s := by
  have hcell : t.root c = root := by simp [PciTopo.root, hroot]
  unfold rootCommands disableRootCommand PciTopo.savesRoot
  rw [hroot, Option.any_some]
  split
  · rw [view_setRegs, view_setCard, ← hcell]
    rfl
  · rfl

/-! ## Requests -/

section

variable {t : PciTopo} {useRootPortCmds : Bool}

/-- The endpoints at which a request does not fail. -/
def PciTopo.canDisable (t : PciTopo) (useRootPortCmds : Bool) (c : Nat) : Bool :=
  !useRootPortCmds || (t.rootPort (t.bus c)).isSome

theorem disable_of_not (hc : ¬t.canDisable useRootPortCmds c) (s : PciState) :
    nfbPciErrorsDisable t useRootPortCmds c s = (eNodev, s) := by
  have hroot : useRootPortCmds ∧ t.rootPort (t.bus c) = none := by simpa [PciTopo.canDisable] using hc
  unfold nfbPciErrorsDisable
  exact if_pos hroot

theorem disable_of_can (hc : t.canDisable useRootPortCmds c) (s : PciState) :
    ∃ s', nfbPciErrorsDisable t useRootPortCmds c s = (0, s') ∧ s'.log = s.log ∧
      commands s' = saveOne t.bus commandsOff (commands s) c ∧
      uncorMasks s' = (if t.savesMask c then saveOne t.bus uncorMaskOff (uncorMasks s) c else uncorMasks s) ∧
      rootCommands s' = (if useRootPortCmds && t.savesRoot c then saveOne t.root rootCommandOff (rootCommands s) c
        else rootCommands s) := by
  have hroot : ¬(useRootPortCmds ∧ t.rootPort (t.bus c) = none) := by
    rintro ⟨huse, hnone⟩
    simp [PciTopo.canDisable, huse, hnone] at hc
  have hbridge := commands_disableBridge t c s
  have hmask := uncorMasks_disableUncorMask t c (disableBridge t c s)
  rw [uncorMasks_disableBridge] at hmask
  unfold nfbPciErrorsDisable
  rw [if_neg hroot]
  cases useRootPortCmds with
  | false =>
    refine ⟨_, rfl, log_disableUncorMask t c _, ?_, hmask, ?_⟩
    · rw [commands_disableUncorMask, hbridge]
    · rw [rootCommands_disableUncorMask, rootCommands_disableBridge]
      rfl
  | true =>
    cases hport : t.rootPort (t.bus c) with
    | none => exact absurd ⟨rfl, hport⟩ hroot
    | some root =>
      refine ⟨_, rfl, ?_, ?_, ?_, ?_⟩
      · rw [log_disableRootCommand, log_disableUncorMask]
        rfl
      · rw [commands_disableRootCommand, commands_disableUncorMask, hbridge]
      · rw [uncorMasks_disableRootCommand, hmask]
      · rw [rootCommands_disableRootCommand t hport, rootCommands_disableUncorMask, rootCommands_disableBridge]
        rfl

/-- A loop saves and disables up to the first endpoint at which it fails. -/
theorem errorDisableLoop_views (l : List Nat) : ∀ s : PciState,
    (errorDisableLoop t useRootPortCmds l s).2.log = s.log ∧
      commands (errorDisableLoop t useRootPortCmds l s).2 =
        saveAll t.bus commandsOff (l.takeWhile (t.canDisable useRootPortCmds)) (commands s) ∧
      uncorMasks (errorDisableLoop t useRootPortCmds l s).2 =
        saveAll t.bus uncorMaskOff ((l.takeWhile (t.canDisable useRootPortCmds)).filter t.savesMask) (uncorMasks s) ∧
      rootCommands (errorDisableLoop t useRootPortCmds l s).2 =
        saveAll t.root rootCommandOff
          ((l.takeWhile (t.canDisable useRootPortCmds)).filter fun c => useRootPortCmds && t.savesRoot c) (rootCommands s) := by
  induction l with
  | nil => exact fun s => ⟨rfl, rfl, rfl, rfl⟩
  | cons c l ih =>
    intro s
    by_cases hc : t.canDisable useRootPortCmds c
    · obtain ⟨s', heq, hlog, hcommands, hmasks, hroots⟩ := disable_of_can hc s
      have hloop : errorDisableLoop t useRootPortCmds (c :: l) s = errorDisableLoop t useRootPortCmds l s' := by
        rw [errorDisableLoop, heq]
        exact if_neg (not_not.2 rfl)
      obtain ⟨ihlog, ihcommands, ihmasks, ihroots⟩ := ih s'
      rw [hloop, List.takeWhile_cons_of_pos hc]
      refine ⟨ihlog.trans hlog, ?_, ?_, ?_⟩
      · rw [ihcommands, hcommands]
        rfl
      · rw [ihmasks, hmasks, List.filter_cons]
        split
        · rfl
        · rfl
      · rw [ihroots, hroots, List.filter_cons]
        split
        · rfl
        · rfl
    · have hloop : errorDisableLoop t useRootPortCmds (c :: l) s = (eNodev, s) := by
        rw [errorDisableLoop, disable_of_not hc]
        exact if_pos (by decide)
      rw [hloop, List.takeWhile_cons_of_neg hc]
      exact ⟨rfl, rfl, rfl, rfl⟩

end

/-- The endpoints that a request gets to. -/
def PciTopo.disabled (t : PciTopo) (boot : BootParams) : List Nat := t.devices.takeWhile (t.canDisable boot.m10bmcSpi)

theorem PciTopo.nodup_disabled (t : PciTopo) (boot : BootParams) : (t.disabled boot).Nodup :=
  t.nodup.sublist (List.takeWhile_sublist _)

/-- The state after `n` requests. -/
def afterRequests (t : PciTopo) (boot : BootParams) (n : Nat) (s : PciState) : PciState :=
  (fun s => (nfbBootIoctlErrorDisable t boot s).2)^[n] s

section

variable (t : PciTopo) (boot : BootParams) (n : Nat) (s : PciState)

theorem afterRequests_log : (afterRequests t boot n s).log = s.log := by
  have hstep : Function.Semiconj PciState.log (fun s => (nfbBootIoctlErrorDisable t boot s).2) id := fun s =>
    (errorDisableLoop_views _ s).1
  have hrun := hstep.iterate_right n s
  rwa [Function.iterate_id] at hrun

theorem afterRequests_commands :
    commands (afterRequests t boot n s) = (saveAll t.bus commandsOff (t.disabled boot))^[n] (commands s) := by
  have hstep : Function.Semiconj commands (fun s => (nfbBootIoctlErrorDisable t boot s).2)
    (saveAll t.bus commandsOff (t.disabled boot)) := fun s => (errorDisableLoop_views _ s).2.1
  exact hstep.iterate_right n s

theorem afterRequests_uncorMasks :
    uncorMasks (afterRequests t boot n s) =
      (saveAll t.bus uncorMaskOff ((t.disabled boot).filter t.savesMask))^[n] (uncorMasks s) := by
  have hstep : Function.Semiconj uncorMasks (fun s => (nfbBootIoctlErrorDisable t boot s).2)
    (saveAll t.bus uncorMaskOff ((t.disabled boot).filter t.savesMask)) := fun s => (errorDisableLoop_views _ s).2.2.1
  exact hstep.iterate_right n s

theorem afterRequests_rootCommands :
    rootCommands (afterRequests t boot n s) =
      (saveAll t.root rootCommandOff ((t.disabled boot).filter fun c => boot.m10bmcSpi && t.savesRoot c))^[n] (rootCommands s) := by
  have hstep : Function.Semiconj rootCommands (fun s => (nfbBootIoctlErrorDisable t boot s).2)
    (saveAll t.root rootCommandOff ((t.disabled boot).filter fun c => boot.m10bmcSpi && t.savesRoot c)) := fun s =>
    (errorDisableLoop_views _ s).2.2.2
  exact hstep.iterate_right n s

end

/-! ## Steps of the reload -/

section

variable (t : PciTopo) (boot : BootParams) (s : PciState) (c : Nat)

theorem shutdown_log : (nfbBootReloadShutdown t boot s c).log = s.log ++ [.removed c] := by
  unfold nfbBootReloadShutdown
  split
  · rfl
  · rfl

theorem linkup_log : (nfbBootReloadLinkup t boot s c).log = s.log := by
  unfold nfbBootReloadLinkup
  split
  · rfl
  · rfl

/-- What does not look at the link control register. -/
def IgnoresLink {V : Type} (f : BridgeRegs → V) : Prop := ∀ r x, f { r with lnkctl := x } = f r

theorem shutdown_view {V : Type} {f : BridgeRegs → V} (hf : IgnoresLink f) (g : SavedRegs → V) :
    view f g (nfbBootReloadShutdown t boot s c) = view f g s := by
  unfold nfbBootReloadShutdown
  split
  · exact view_setRegs_of_eq f g _ _ fun r => hf r _
  · rfl

theorem linkup_view {V : Type} {f : BridgeRegs → V} (hf : IgnoresLink f) (g : SavedRegs → V) :
    view f g (nfbBootReloadLinkup t boot s c) = view f g s := by
  unfold nfbBootReloadLinkup
  split
  · exact view_setRegs_of_eq f g s _ fun r => hf r _
  · rfl

theorem restoreBridge_commands : commands (restoreBridge t c s) = restoreOne t.bus (commands s) c := view_setRegs _ _ s _ _

theorem restoreBridge_uncorMasks : uncorMasks (restoreBridge t c s) = uncorMasks s := view_setRegs_of_eq _ _ s _ fun _ => rfl

theorem restoreBridge_rootCommands : rootCommands (restoreBridge t c s) = rootCommands s := view_setRegs_of_eq _ _ s _ fun _ => rfl

theorem restoreUncorMask_commands : commands (restoreUncorMask t c s) = commands s := by
  unfold restoreUncorMask
  split
  · exact view_setRegs_of_eq _ _ s _ fun _ => rfl
  · rfl

theorem restoreUncorMask_uncorMasks :
    uncorMasks (restoreUncorMask t c s) = if t.savesMask c then restoreOne t.bus (uncorMasks s) c else uncorMasks s := by
  unfold restoreUncorMask PciTopo.savesMask
  split
  · exact view_setRegs _ _ s _ _
  · rfl

theorem restoreUncorMask_rootCommands : rootCommands (restoreUncorMask t c s) = rootCommands s := by
  unfold restoreUncorMask
  split
  · exact view_setRegs_of_eq _ _ s _ fun _ => rfl
  · rfl

theorem restoreRootCommand_commands (root : Nat) : commands (restoreRootCommand t root c s) = commands s := by
  unfold restoreRootCommand
  split
  · exact view_setRegs_of_eq _ _ s _ fun _ => rfl
  · rfl

theorem restoreRootCommand_uncorMasks (root : Nat) : uncorMasks (restoreRootCommand t root c s) = uncorMasks s := by
  unfold restoreRootCommand
  split
  · exact view_setRegs_of_eq _ _ s _ fun _ => rfl
  · rfl

theorem restoreRootCommand_rootCommands (hroot : t.rootPort (t.bus c) = some root) :
    rootCommands (restoreRootCommand t root c s) =
      if t.savesRoot c then restoreOne t.root (rootCommands s) c else rootCommands s := by
  have hcell : t.root c = root := by simp [PciTopo.root, hroot]
  unfold restoreRootCommand PciTopo.savesRoot
  rw [hroot, Option.any_some]
  split
  · rw [restoreOne, hcell]
    exact view_setRegs _ _ s _ _
  · rfl

theorem rescan_log : (nfbBootReloadRescan t s c).log = s.log ++ [.rescanned c] := by
  unfold nfbBootReloadRescan restoreUncorMask
  dsimp only
  split
  · rfl
  · rfl

theorem rescan_commands : commands (nfbBootReloadRescan t s c) = restoreOne t.bus (commands s) c :=
  (restoreUncorMask_commands ..).trans (restoreBridge_commands ..)

theorem rescan_uncorMasks :
    uncorMasks (nfbBootReloadRescan t s c) = if t.savesMask c then restoreOne t.bus (uncorMasks s) c else uncorMasks s := by
  unfold nfbBootReloadRescan
  rw [restoreUncorMask_uncorMasks, restoreBridge_uncorMasks]
  rfl

theorem rescan_rootCommands : rootCommands (nfbBootReloadRescan t s c) = rootCommands s :=
  (restoreUncorMask_rootCommands ..).trans (restoreBridge_rootCommands ..)

end

/-! ## Runs of the reload -/

/-- The other endpoints as the reload collects them, the last one first. -/
def PciTopo.slaves (t : PciTopo) : List Nat := (t.devices.filter (· ≠ t.main)).reverse

/-- The order in which the endpoints are rescanned one by one. -/
def PciTopo.rescanned (t : PciTopo) : List Nat := rescanOrder t t.slaves ++ [t.main]

/-- The removal of every endpoint can be prepared. -/
def Prepared (t : PciTopo) : Prop := ∀ c ∈ t.devices, t.expCap (t.bus c)

/-- The reload removes all that is below the root port. -/
def BootParams.n5014 (boot : BootParams) : Prop := ¬boot.pmci ∧ boot.m10bmcSpi

instance (t : PciTopo) : Decidable (Prepared t) := inferInstanceAs (Decidable (∀ c ∈ t.devices, t.expCap (t.bus c)))

instance (boot : BootParams) : Decidable boot.n5014 := inferInstanceAs (Decidable (_ ∧ _))

section

variable {t : PciTopo}

theorem prepareRemove_of_cap (hc : t.expCap (t.bus c)) : nfbBootReloadPrepareRemove t c = 0 := if_pos hc

theorem prepareRemove_of_not (hc : ¬t.expCap (t.bus c)) : nfbBootReloadPrepareRemove t c = eBadf := if_neg hc

theorem collectSlaves_ok (l : List Nat) (h : ∀ c ∈ l, t.expCap (t.bus c)) : ∀ slaves : List Nat,
    collectSlaves t l slaves = .ok ((l.filter (· ≠ t.main)).reverse ++ slaves) := by
  induction l with
  | nil => exact fun _ => rfl
  | cons c l ih =>
    intro slaves
    rw [List.forall_mem_cons] at h
    by_cases hc : c = t.main
    · rw [collectSlaves, if_pos hc, ih h.2, List.filter_cons_of_neg (by simpa using hc)]
    · rw [collectSlaves, if_neg hc, prepareRemove_of_cap h.1]
      dsimp only
      rw [if_neg (not_not.2 rfl), ih h.2, List.filter_cons_of_pos (by simpa using hc), List.reverse_cons, List.append_assoc]
      rfl

theorem collectSlaves_error (l : List Nat) (h : ∃ c ∈ l, c ≠ t.main ∧ ¬t.expCap (t.bus c)) : ∀ slaves : List Nat,
    ∃ ret, collectSlaves t l slaves = .error ret := by
  induction l with
  | nil =>
    obtain ⟨c, hc, -⟩ := h
    cases hc
  | cons c l ih =>
    intro slaves
    obtain ⟨x, hx, hmain, hcap⟩ := h
    by_cases hc : c = t.main
    · have hxl : x ∈ l := (List.mem_cons.1 hx).resolve_left fun heq => hmain (heq.trans hc)
      rw [collectSlaves, if_pos hc]
      exact ih ⟨x, hxl, hmain, hcap⟩ slaves
    · rw [collectSlaves, if_neg hc]
      dsimp only
      by_cases hcc : t.expCap (t.bus c)
      · have hxl : x ∈ l := (List.mem_cons.1 hx).resolve_left fun heq => hcap (heq ▸ hcc)
        rw [prepareRemove_of_cap hcc, if_neg (not_not.2 rfl)]
        exact ih ⟨x, hxl, hmain, hcap⟩ _
      · rw [prepareRemove_of_not hcc, if_pos (by decide)]
        exact ⟨_, rfl⟩

variable (boot : BootParams) (s : PciState)

theorem reload_of_not_prepared (h : ¬Prepared t) : (nfbBootReload t boot s).2 = s := by
  unfold Prepared at h
  push Not at h
  obtain ⟨c, hc, hcap⟩ := h
  by_cases hmain : c = t.main
  · subst hmain
    unfold nfbBootReload
    split
    · rfl
    · rw [prepareRemove_of_not (by simpa using hcap)]
      rfl
  · obtain ⟨ret, herr⟩ := collectSlaves_error (t := t) t.devices ⟨c, hc, hmain, by simpa using hcap⟩ []
    rw [nfbBootReload, herr]

theorem reload_of_n5014 (h : Prepared t) (hboot : boot.n5014) : nfbBootReload t boot s = nfbBootN5014ReloadRescan t s t.main := by
  rw [nfbBootReload, collectSlaves_ok t.devices h []]
  dsimp only
  rw [prepareRemove_of_cap (h t.main t.main_mem), if_neg (not_not.2 rfl)]
  exact if_pos hboot

theorem reload_of_not_n5014 (h : Prepared t) (hboot : ¬boot.n5014) :
    (nfbBootReload t boot s).2 = t.rescanned.foldl (nfbBootReloadRescan t)
      ((t.main :: t.slaves).foldl (nfbBootReloadLinkup t boot) ((t.main :: t.slaves).foldl (nfbBootReloadShutdown t boot) s)) := by
  have hslaves : collectSlaves t t.devices [] = .ok t.slaves := (collectSlaves_ok t.devices h []).trans (by simp [PciTopo.slaves])
  rw [nfbBootReload, hslaves]
  dsimp only
  rw [prepareRemove_of_cap (h t.main t.main_mem), if_neg (not_not.2 rfl), PciTopo.rescanned, List.foldl_append]
  exact congrArg Prod.snd (if_neg hboot)

end

theorem foldl_view {S A : Type} (v : S → A) {step : S → Nat → S} (op : A → Nat → A) (h : ∀ s c, v (step s c) = op (v s) c)
    (l : List Nat) (s : S) : v (l.foldl step s) = l.foldl op (v s) :=
  (List.foldl_hom v fun s c => (h s c).symm).symm

theorem foldl_view_of_eq {S A : Type} (v : S → A) {step : S → Nat → S} (h : ∀ s c, v (step s c) = v s) (l : List Nat) (s : S) :
    v (l.foldl step s) = v s := by
  induction l generalizing s with
  | nil => rfl
  | cons c l ih => exact (ih (step s c)).trans (h s c)

theorem foldl_concat {A : Type} (f : Nat → A) (l : List Nat) (log : List A) :
    l.foldl (fun log c => log ++ [f c]) log = log ++ l.map f := by
  induction l generalizing log with
  | nil => exact (List.append_nil log).symm
  | cons c l ih =>
    rw [List.foldl_cons, ih, List.append_assoc]
    rfl

section

variable {t : PciTopo} {boot : BootParams} (h : Prepared t) (hboot : ¬boot.n5014) (s : PciState)

include h hboot

theorem reload_log : (nfbBootReload t boot s).2.log =
    s.log ++ (t.main :: t.slaves).map PciEvent.removed ++ t.rescanned.map PciEvent.rescanned := by
  rw [reload_of_not_n5014 boot s h hboot, foldl_view PciState.log (fun log c => log ++ [.rescanned c]) (rescan_log t),
    foldl_concat, foldl_view_of_eq PciState.log (linkup_log t boot),
    foldl_view PciState.log (fun log c => log ++ [.removed c]) (shutdown_log t boot), foldl_concat]

theorem reload_view {V : Type} {f : BridgeRegs → V} (hf : IgnoresLink f) (g : SavedRegs → V) :
    ∃ s', (nfbBootReload t boot s).2 = t.rescanned.foldl (nfbBootReloadRescan t) s' ∧ view f g s' = view f g s := by
  refine ⟨_, reload_of_not_n5014 boot s h hboot, ?_⟩
  rw [foldl_view_of_eq (view f g) fun s c => linkup_view t boot s c hf g,
    foldl_view_of_eq (view f g) fun s c => shutdown_view t boot s c hf g]

theorem reload_commands : commands (nfbBootReload t boot s).2 = restoreAll t.bus t.rescanned (commands s) := by
  obtain ⟨s', heq, hs'⟩ := reload_view h hboot s (f := fun r => (r.command, r.devctl)) (fun _ _ => rfl)
    fun card => (card.bridgeCommand, card.bridgeDevctl)
  rw [heq, foldl_view commands (restoreOne t.bus) (rescan_commands t)]
  exact congrArg (restoreAll t.bus t.rescanned) hs'

theorem reload_uncorMasks :
    uncorMasks (nfbBootReload t boot s).2 = restoreAll t.bus (t.rescanned.filter t.savesMask) (uncorMasks s) := by
  obtain ⟨s', heq, hs'⟩ := reload_view h hboot s (f := BridgeRegs.uncorMask) (fun _ _ => rfl) SavedRegs.bridgeRootAerMask
  rw [heq, foldl_view uncorMasks (fun m c => if t.savesMask c then restoreOne t.bus m c else m) (rescan_uncorMasks t),
    restoreAll, List.foldl_filter]
  exact congrArg (t.rescanned.foldl _) hs'

theorem reload_rootCommands : rootCommands (nfbBootReload t boot s).2 = rootCommands s := by
  obtain ⟨s', heq, hs'⟩ := reload_view h hboot s (f := BridgeRegs.rootCommand) (fun _ _ => rfl) SavedRegs.bridgeRootAerCmd
  rw [heq, foldl_view_of_eq rootCommands (rescan_rootCommands t)]
  exact hs'

end

/-- What is below the root port, in the order of a scan. -/
def PciTopo.below (t : PciTopo) (root : Nat) : List Nat := t.scan.filter fun c => t.rootPort (t.bus c) = some root

theorem n5014_views {t : PciTopo} (hroot : t.rootPort (t.bus t.main) = some root) (s : PciState) :
    ∃ s', nfbBootN5014ReloadRescan t s t.main = (0, s') ∧
      s'.log = s.log ++ (t.below root).map PciEvent.removed ++ (t.below root).map PciEvent.rescanned ∧
      commands s' = restoreAll t.bus [t.main] (commands s) ∧ uncorMasks s' = uncorMasks s ∧
      rootCommands s' = restoreAll t.root ([t.main].filter t.savesRoot) (rootCommands s) := by
  unfold nfbBootN5014ReloadRescan
  rw [hroot]
  refine ⟨_, rfl, ?_, ?_, ?_, ?_⟩
  · unfold restoreRootCommand
    split
    · rfl
    · rfl
  · rw [restoreRootCommand_commands, restoreBridge_commands]
    rfl
  · rw [restoreRootCommand_uncorMasks, restoreBridge_uncorMasks]
    rfl
  · rw [restoreRootCommand_rootCommands _ _ _ hroot, restoreBridge_rootCommands, List.filter_cons]
    split
    · rfl
    · rfl

/-! ## What a reload owes to the card -/

def removals (log : List PciEvent) : List Nat := log.filterMap fun
  | .removed c => some c
  | .rescanned _ => none

def rescans (log : List PciEvent) : List Nat := log.filterMap fun
  | .removed _ => none
  | .rescanned c => some c

@[simp] theorem removals_append (l k : List PciEvent) : removals (l ++ k) = removals l ++ removals k := List.filterMap_append

@[simp] theorem rescans_append (l k : List PciEvent) : rescans (l ++ k) = rescans l ++ rescans k := List.filterMap_append

@[simp] theorem removals_removed (l : List Nat) : removals (l.map .removed) = l := by simp [removals, List.filterMap_map]

@[simp] theorem removals_rescanned (l : List Nat) : removals (l.map .rescanned) = [] := by simp [removals, List.filterMap_map]

@[simp] theorem rescans_removed (l : List Nat) : rescans (l.map .removed) = [] := by simp [rescans, List.filterMap_map]

@[simp] theorem rescans_rescanned (l : List Nat) : rescans (l.map .rescanned) = l := by simp [rescans, List.filterMap_map]

/-- Every endpoint has been removed once and rescanned once, the main one after the others. -/
structure AllFound (t : PciTopo) (log : List PciEvent) : Prop where
  removed : ∀ c ∈ t.devices, (removals log).count c = 1
  rescanned : ∀ c ∈ t.devices, (rescans log).count c = 1
  main_last : ∀ c ∈ t.devices, c ≠ t.main → [c, t.main].Sublist (rescans log)

/-- The error reporting of the bridges and root ports is what it was. -/
structure ErrorsRestored (before after : PciState) : Prop where
  command : ∀ b, (after.regs b).command = (before.regs b).command
  devctl : ∀ b, (after.regs b).devctl = (before.regs b).devctl
  uncorMask : ∀ b, (after.regs b).uncorMask = (before.regs b).uncorMask
  rootCommand : ∀ b, (after.regs b).rootCommand = (before.regs b).rootCommand

/-- What a reload after `n` requests has to do: with all endpoints prepared, to find them all and to restore the errors; otherwise,
nothing. -/
def ReloadKeeps (t : PciTopo) (boot : BootParams) (n : Nat) (s : PciState) : Prop :=
  let before := afterRequests t boot n s
  let after := (nfbBootReload t boot before).2
  (Prepared t → AllFound t after.log ∧ ErrorsRestored s after) ∧ (¬Prepared t → after = before)

/-- When the saved values are the right ones: see `Shared.Back`. The reload of all that is below the root port restores the main
endpoint's bridge and the root port, but no mask; the other one restores the bridge and the mask of each endpoint. -/
structure SavesSurvive (t : PciTopo) (boot : BootParams) (n : Nat) (s : PciState) : Prop where
  commands : ∀ b, Back t.bus commandsOff n (t.disabled boot) (if boot.n5014 then [t.main] else t.rescanned) (commands s) b
  uncorMasks : ∀ b, Back t.bus uncorMaskOff n ((t.disabled boot).filter t.savesMask)
    (if boot.n5014 then [] else t.rescanned.filter t.savesMask) (uncorMasks s) b
  rootCommands : ∀ b, Back t.root rootCommandOff n ((t.disabled boot).filter fun c => boot.m10bmcSpi && t.savesRoot c)
    (if boot.n5014 then [t.main].filter t.savesRoot else []) (rootCommands s) b

/-- All endpoints are below the root port of the main one, and a scan finds that one last. -/
def BelowMainRoot (t : PciTopo) : Prop :=
  (t.rootPort (t.bus t.main)).isSome ∧
    ∀ c ∈ t.devices, t.rootPort (t.bus c) = t.rootPort (t.bus t.main) ∧ (c ≠ t.main → [c, t.main].Sublist t.scan)

theorem errorsRestored_iff (before after : PciState) :
    ErrorsRestored before after ↔ (∀ b, (commands after).val b = (commands before).val b) ∧
      (∀ b, (uncorMasks after).val b = (uncorMasks before).val b) ∧
      ∀ b, (rootCommands after).val b = (rootCommands before).val b := by
  constructor
  · rintro ⟨hcommand, hdevctl, hmask, hroot⟩
    exact ⟨fun b => Prod.ext (hcommand b) (hdevctl b), hmask, hroot⟩
  · rintro ⟨hcommands, hmask, hroot⟩
    exact ⟨fun b => congrArg Prod.fst (hcommands b), fun b => congrArg Prod.snd (hcommands b), hmask, hroot⟩

section

variable {t : PciTopo} {boot : BootParams} {n : Nat} {s after : PciState}

theorem errorsRestored_iff_survive
    (hcommands : commands after =
      restoreAll t.bus (if boot.n5014 then [t.main] else t.rescanned) (commands (afterRequests t boot n s)))
    (hmasks : uncorMasks after =
      restoreAll t.bus (if boot.n5014 then [] else t.rescanned.filter t.savesMask) (uncorMasks (afterRequests t boot n s)))
    (hroots : rootCommands after =
      restoreAll t.root (if boot.n5014 then [t.main].filter t.savesRoot else []) (rootCommands (afterRequests t boot n s))) :
    ErrorsRestored s after ↔ SavesSurvive t boot n s := by
  rw [errorsRestored_iff, hcommands, hmasks, hroots, afterRequests_commands, afterRequests_uncorMasks, afterRequests_rootCommands]
  have hnodup := t.nodup_disabled boot
  constructor
  · rintro ⟨hcommand, hmask, hroot⟩
    exact ⟨fun b => (back_iff commandsOff_idem hnodup _ _ n b).1 (hcommand b),
      fun b => (back_iff uncorMaskOff_idem (hnodup.filter _) _ _ n b).1 (hmask b),
      fun b => (back_iff rootCommandOff_idem (hnodup.filter _) _ _ n b).1 (hroot b)⟩
  · rintro ⟨hcommand, hmask, hroot⟩
    exact ⟨fun b => (back_iff commandsOff_idem hnodup _ _ n b).2 (hcommand b),
      fun b => (back_iff uncorMaskOff_idem (hnodup.filter _) _ _ n b).2 (hmask b),
      fun b => (back_iff rootCommandOff_idem (hnodup.filter _) _ _ n b).2 (hroot b)⟩

end

/-! ## Every endpoint is found -/

section

variable (t : PciTopo)

theorem mem_slaves : c ∈ t.slaves ↔ c ∈ t.devices ∧ c ≠ t.main := by simp [PciTopo.slaves]

theorem nodup_slaves : t.slaves.Nodup := List.nodup_reverse.2 (t.nodup.filter _)

theorem rescanOrder_perm (l : List Nat) : (rescanOrder t l).Perm l := by
  refine List.perm_append_comm.trans ?_
  exact List.filter_append_perm (fun c => decide (t.parent (t.bus c) = t.parent (t.bus t.main))) l

theorem nodup_main_slaves : (t.main :: t.slaves).Nodup :=
  List.nodup_cons.2 ⟨fun hmem => ((mem_slaves t).1 hmem).2 rfl, nodup_slaves t⟩

theorem mem_main_slaves (hc : c ∈ t.devices) : c ∈ t.main :: t.slaves := by
  by_cases hmain : c = t.main
  · exact hmain ▸ List.mem_cons_self
  · exact List.mem_cons_of_mem _ ((mem_slaves t).2 ⟨hc, hmain⟩)

theorem rescanned_perm : t.rescanned.Perm (t.main :: t.slaves) :=
  ((rescanOrder_perm t t.slaves).append_right _).trans List.perm_append_comm

theorem allFound_rescanned :
    AllFound t ([] ++ (t.main :: t.slaves).map PciEvent.removed ++ t.rescanned.map PciEvent.rescanned) where
  removed c hc := by
    simp only [List.nil_append, removals_append, removals_removed, removals_rescanned, List.append_nil]
    exact List.count_eq_one_of_mem (nodup_main_slaves t) (mem_main_slaves t hc)
  rescanned c hc := by
    simp only [List.nil_append, rescans_append, rescans_removed, rescans_rescanned]
    rw [(rescanned_perm t).count_eq]
    exact List.count_eq_one_of_mem (nodup_main_slaves t) (mem_main_slaves t hc)
  main_last c hc hmain := by
    simp only [List.nil_append, rescans_append, rescans_removed, rescans_rescanned]
    have hmem : c ∈ rescanOrder t t.slaves := (rescanOrder_perm t t.slaves).mem_iff.2 ((mem_slaves t).2 ⟨hc, hmain⟩)
    exact (List.singleton_sublist.2 hmem).append (List.Sublist.refl [t.main])

variable {t}

/-- Below the root port, all endpoints are found if and only if they are there and the main one comes last. -/
theorem allFound_below_iff (hroot : t.rootPort (t.bus t.main) = some root) :
    AllFound t ([] ++ (t.below root).map PciEvent.removed ++ (t.below root).map PciEvent.rescanned) ↔ BelowMainRoot t := by
  have hremovals : removals ([] ++ (t.below root).map PciEvent.removed ++ (t.below root).map PciEvent.rescanned) = t.below root := by
    simp
  have hrescans : rescans ([] ++ (t.below root).map PciEvent.removed ++ (t.below root).map PciEvent.rescanned) = t.below root := by
    simp
  have hmem : ∀ c ∈ t.devices, c ∈ t.below root ↔ t.rootPort (t.bus c) = t.rootPort (t.bus t.main) := by
    intro c hc
    simp [PciTopo.below, t.mem_scan c hc, hroot]
  have hnodup : (t.below root).Nodup := t.scan_nodup.filter _
  constructor
  · rintro ⟨-, hcount, hlast⟩
    rw [hrescans] at hcount hlast
    refine ⟨by simp [hroot], fun c hc => ⟨(hmem c hc).1 ?_, fun hmain => (hlast c hc hmain).trans List.filter_sublist⟩⟩
    exact List.count_pos_iff.1 (by rw [hcount c hc]; exact Nat.one_pos)
  · rintro ⟨-, hall⟩
    have hcount : ∀ c ∈ t.devices, (t.below root).count c = 1 := fun c hc =>
      List.count_eq_one_of_mem hnodup ((hmem c hc).2 (hall c hc).1)
    refine ⟨by rwa [hremovals], by rwa [hrescans], ?_⟩
    intro c hc hmain
    rw [hrescans]
    have hsub := ((hall c hc).2 hmain).filter fun c => t.rootPort (t.bus c) = some root
    have hboth : [c, t.main].filter (fun c => t.rootPort (t.bus c) = some root) = [c, t.main] := by
      simp [(hall c hc).1, hroot]
    rwa [hboth] at hsub

end

/-! ## The reload after any number of requests -/

/-- A reload does what it has to if and only if the saved values survived, and, if it removes all that is below the root port, the
endpoints are all there. -/
theorem reload_keeps_iff (t : PciTopo) (boot : BootParams) (n : Nat) (regs : Nat → BridgeRegs) (card : Nat → SavedRegs) :
    ReloadKeeps t boot n ⟨regs, card, []⟩ ↔
      (Prepared t → SavesSurvive t boot n ⟨regs, card, []⟩ ∧ (boot.n5014 → BelowMainRoot t)) := by
  unfold ReloadKeeps
  by_cases hprep : Prepared t
  · have hlog : (afterRequests t boot n ⟨regs, card, []⟩).log = [] := afterRequests_log t boot n _
    suffices hfound : AllFound t (nfbBootReload t boot (afterRequests t boot n ⟨regs, card, []⟩)).2.log ∧
          ErrorsRestored ⟨regs, card, []⟩ (nfbBootReload t boot (afterRequests t boot n ⟨regs, card, []⟩)).2 ↔
        SavesSurvive t boot n ⟨regs, card, []⟩ ∧ (boot.n5014 → BelowMainRoot t) by
      constructor
      · exact fun hkeeps _ => hfound.1 (hkeeps.1 hprep)
      · exact fun hcond => ⟨fun _ => hfound.2 (hcond hprep), fun hnot => absurd hprep hnot⟩
    by_cases hboot : boot.n5014
    · rw [reload_of_n5014 boot _ hprep hboot]
      cases hroot : t.rootPort (t.bus t.main) with
      | none =>
        have hstay : (nfbBootN5014ReloadRescan t (afterRequests t boot n ⟨regs, card, []⟩) t.main).2.log = [] := by
          unfold nfbBootN5014ReloadRescan
          rw [hroot]
          exact hlog
        constructor
        · rintro ⟨hfound, -⟩
          -- without a root port nothing is removed at all
          have hmain := hfound.removed t.main t.main_mem
          rw [hstay] at hmain
          cases hmain
        · rintro ⟨-, hbelow⟩
          have hsome := (hbelow hboot).1
          rw [hroot] at hsome
          cases hsome
      | some root =>
        obtain ⟨after, heq, hafter, hcommands, hmasks, hroots⟩ := n5014_views hroot (afterRequests t boot n ⟨regs, card, []⟩)
        rw [heq, hafter, hlog, allFound_below_iff hroot]
        have herrors : ErrorsRestored ⟨regs, card, []⟩ after ↔ SavesSurvive t boot n ⟨regs, card, []⟩ := by
          refine errorsRestored_iff_survive ?_ ?_ ?_
          · rw [hcommands, if_pos hboot]
          · rw [hmasks, if_pos hboot]
            rfl
          · rw [hroots, if_pos hboot]
        rw [herrors]
        constructor
        · exact fun ⟨hbelow, hsurvive⟩ => ⟨hsurvive, fun _ => hbelow⟩
        · exact fun ⟨hsurvive, hbelow⟩ => ⟨hbelow hboot, hsurvive⟩
    · have herrors : ErrorsRestored ⟨regs, card, []⟩ (nfbBootReload t boot (afterRequests t boot n ⟨regs, card, []⟩)).2 ↔
          SavesSurvive t boot n ⟨regs, card, []⟩ := by
        refine errorsRestored_iff_survive ?_ ?_ ?_
        · rw [reload_commands hprep hboot, if_neg hboot]
        · rw [reload_uncorMasks hprep hboot, if_neg hboot]
        · rw [reload_rootCommands hprep hboot, if_neg hboot]
          rfl
      rw [reload_log hprep hboot, hlog, herrors]
      constructor
      · exact fun ⟨_, hsurvive⟩ => ⟨hsurvive, fun hn => absurd hn hboot⟩
      · exact fun ⟨hsurvive, _⟩ => ⟨allFound_rescanned t, hsurvive⟩
  · constructor
    · exact fun _ hnot => absurd hnot hprep
    · exact fun _ => ⟨fun h => absurd h hprep, fun _ => reload_of_not_prepared boot _ hprep⟩

/-- A card with one endpoint, whose bridge is below root port 1. -/
def oneEndpoint : PciTopo where
  devices := [0]
  main := 0
  bus _ := 0
  parent _ := 0
  rootPort _ := some 1
  expCap _ := true
  errCap _ := true
  scan := [0]
  nodup := by decide
  main_mem := by decide
  scan_nodup := by decide
  mem_scan := by decide

/-- The bridges signal system errors and report fatal ones. -/
def errorsOn : Nat → BridgeRegs := fun _ => ⟨0x147, 0x2f, 0, 0, 0x7⟩

/-- The second request saves what the first one left. -/
theorem two_requests_lost : ¬ReloadKeeps oneEndpoint ⟨false, false, false⟩ 2 ⟨errorsOn, fun _ => ⟨0, 0, 0, 0⟩, []⟩ := by
  rintro ⟨hkeeps, -⟩
  have hcommand := (hkeeps (by decide)).2.command 0
  revert hcommand
  decide

end NdkSw.Reload

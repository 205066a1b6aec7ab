/-
The PCI endpoints of a card (`pci.c`): a device that is probed as main creates an NFB device and attaches the endpoints that a scan
of the buses finds, a device that is probed later attaches itself, and a removal detaches. Each probe and each removal is one step.
-/
import NdkSw.Ndp.Channel
import NdkSw.Shared.Words

namespace NdkSw.Attach

open Ndp

/-! ## Data model -/

/-- `struct nfb_pci_device`; `nfb` is the NFB device it points to. -/
structure PciDevice where
  dsn : U64 := 0
  index : Int := 0
  cardName : Option String := none
  indexValid : Bool := false
  isProbedAsMain : Bool := false
  isProbedAsSub : Bool := false
  nfb : Option Nat := none

/-- `struct nfb_device`: its main PCI device, the serial number, the sub device id of `nfb_pci_dev` and the list `pci_devices`. -/
structure NfbDevice where
  pci : Nat
  dsn : U64
  nfbPciDev : Option U16
  pciDevices : List Nat

/-- PCI devices go by their names, NFB devices by the order in which they are created. `nfb` holds those that are created and not
destroyed, `drvdata` the PCI devices that have their driver data. -/
structure AttachState where
  global : List Nat
  device : Nat → PciDevice
  nfb : Nat → Option NfbDevice
  next : Nat
  drvdata : Nat → Bool

/-- No driver data, no NFB device. -/
def AttachState.init : AttachState := ⟨[], fun _ => {}, fun _ => none, 0, fun _ => false⟩

/-- `struct pci_bus`. -/
inductive PciBus where
  | mk (children : List PciBus) (devices : List Nat)

/-- What a probe reads of the PCI devices, and how the calls end that it makes: `create` is the result of `nfb_create`, `fdt` that of
the steps up to `nfb_fdt_fixups`, `probe` that of `nfb_probe`. -/
structure Env where
  vendor : Nat → U16
  device : Nat → U16
  dsn : Nat → U64
  endpointId : Nat → Int
  cardName : Nat → Option String
  alloc : Nat → Bool
  buses : List PciBus
  driverData : Option U16
  inject : Bool
  base : Int
  create : Int
  fdt : Int
  probe : Int

def AttachState.setDevice (s : AttachState) (c : Nat) (f : PciDevice → PciDevice) : AttachState :=
  { s with device := Function.update s.device c (f (s.device c)) }

def AttachState.setDrvdata (s : AttachState) (c : Nat) (b : Bool) : AttachState := { s with drvdata := Function.update s.drvdata c b }

def AttachState.setNfb (s : AttachState) (n : Nat) (v : Option NfbDevice) : AttachState := { s with nfb := Function.update s.nfb n v }

/-! ## Attach and detach -/

/-- `nfb_pci_is_attachable`. -/
def nfbPciIsAttachable (e : Env) (nfb : NfbDevice) (pci : Nat) (s : AttachState) : Bool :=
  if nfb.pci = pci then false
  else if e.vendor nfb.pci ≠ e.vendor pci then false
  else if nfb.nfbPciDev ≠ none ∧ nfb.nfbPciDev ≠ some 0 then nfb.nfbPciDev = some (e.device pci)
  else s.drvdata nfb.pci && s.drvdata pci && (s.device nfb.pci).cardName.isSome &&
    ((s.device nfb.pci).cardName = (s.device pci).cardName)

/-- `nfb_pci_device_is_attachable`. -/
def nfbPciDeviceIsAttachable (nfb : NfbDevice) (sub : PciDevice) : Bool :=
  if sub.nfb ≠ none then false
  else if nfb.dsn = 0 ∨ nfb.dsn ≠ sub.dsn then false
  else true

/-- `_nfb_pci_device_find` and `_nfb_pci_device_create`. -/
def findOrCreate (e : Env) (c : Nat) (s : AttachState) : Option AttachState :=
  if c ∈ s.global then some s
  else if e.alloc c then some { s.setDevice c fun _ => {} with global := c :: s.global }
  else none

/-- `nfb_pci_device_find_or_create`. -/
def nfbPciDeviceFindOrCreate (e : Env) (c : Nat) (s : AttachState) : Option AttachState :=
  (findOrCreate e c s).map fun s =>
    if (s.device c).indexValid then s
    else s.setDevice c fun d => { d with dsn := e.dsn c, index := e.endpointId c, indexValid := true, cardName := e.cardName c }

/-- `nfb_pci_attach_endpoint`. -/
def nfbPciAttachEndpoint (n c : Nat) (s : AttachState) : AttachState :=
  let s := s.setDevice c fun d => { d with nfb := some n }
  s.setNfb n ((s.nfb n).map fun v => { v with pciDevices := c :: v.pciDevices })

/-- `nfb_pci_detach_endpoint`. -/
def nfbPciDetachEndpoint (n c : Nat) (s : AttachState) : AttachState :=
  match s.nfb n with
  | none => s
  | some v =>
    if c ∈ v.pciDevices then
      let s := s.setNfb n (some { v with pciDevices := v.pciDevices.erase c })
      s.setDevice c fun d => { d with nfb := none }
    else s

/-- `nfb_pci_detach_endpoints`. -/
def nfbPciDetachEndpoints (n : Nat) (s : AttachState) : AttachState :=
  match s.nfb n with
  | none => s
  | some v => v.pciDevices.foldl (fun s c => nfbPciDetachEndpoint n c s) s

/-- An endpoint is attached to the NFB device that `nfb` points to, if both checks pass. -/
def attachIfAttachable (e : Env) (n c : Nat) (s : AttachState) : AttachState :=
  match s.nfb n with
  | none => s
  | some nfb =>
    if nfbPciIsAttachable e nfb c s ∧ nfbPciDeviceIsAttachable nfb (s.device c) then nfbPciAttachEndpoint n c s else s

/-- A device in the loop of `nfb_pci_attach_all_slaves`. -/
def attachSlave (e : Env) (n : Nat) (s : AttachState) (slave : Nat) : AttachState :=
  match s.nfb n with
  | none => s
  | some nfb =>
    if ¬nfbPciIsAttachable e nfb slave s then s
    else match nfbPciDeviceFindOrCreate e slave s with
      | none => s
      | some s => if nfbPciDeviceIsAttachable nfb (s.device slave) then nfbPciAttachEndpoint n slave s else s

mutual

/-- `nfb_pci_attach_all_slaves`. -/
def nfbPciAttachAllSlaves (e : Env) (n : Nat) : PciBus → AttachState → AttachState
  | .mk children devices, s => devices.foldl (attachSlave e n) (attachBuses e n children s)

def attachBuses (e : Env) (n : Nat) : List PciBus → AttachState → AttachState
  | [], s => s
  | bus :: buses, s => attachBuses e n buses (nfbPciAttachAllSlaves e n bus s)

end

/-- `nfb_pci_try_attach`: the attach lock of `self` is held, so the loops pass it over. -/
def nfbPciTryAttach (e : Env) (self : Nat) (s : AttachState) : AttachState :=
  if (s.device self).isProbedAsMain then
    match (s.device self).nfb with
    | none => s
    | some n => (s.global.filter (· ≠ self)).foldl
        (fun s c => if (s.device c).isProbedAsSub then attachIfAttachable e n c s else s) s
  else if (s.device self).isProbedAsSub then
    (s.global.filter (· ≠ self)).foldl
      (fun s c => match (s.device c).nfb with
        | none => s
        | some n => if (s.device c).isProbedAsMain then attachIfAttachable e n self s else s) s
  else s

/-! ## Probe and remove -/

/-- `nfb_pci_probe_main`. -/
def nfbPciProbeMain (e : Env) (c : Nat) (s : AttachState) : Int × AttachState :=
  if e.create ≠ 0 then (e.create, s)
  else
    let n := s.next
    let s := { s with next := n + 1 }
    let s := s.setNfb n (some ⟨c, (s.device c).dsn, e.driverData, []⟩)
    if e.fdt ≠ 0 then (e.fdt, s.setNfb n none)
    else
      let s := nfbPciAttachEndpoint n c s
      let s := attachBuses e n e.buses s
      if e.probe ≠ 0 then (e.probe, s.setNfb n none) else (0, s)

/-- The check of `nfb_pci_probe`. -/
def probesAsSub (e : Env) (d : PciDevice) : Prop := (e.driverData = none ∨ d.index > 0) ∧ ¬e.inject

instance (e : Env) (d : PciDevice) : Decidable (probesAsSub e d) := inferInstanceAs (Decidable (_ ∧ _))

/-- `nfb_pci_probe`. The driver data go again when it fails. -/
def nfbPciProbe (e : Env) (c : Nat) (s : AttachState) : Int × AttachState :=
  if e.base ≠ 0 then (e.base, s)
  else match nfbPciDeviceFindOrCreate e c s with
    | none => (eNomem, s)
    | some s =>
      let s := s.setDrvdata c true
      if probesAsSub e (s.device c) then
        let s := s.setDevice c fun d => { d with isProbedAsSub := true }
        (0, nfbPciTryAttach e c s)
      else
        let s := s.setDevice c fun d => { d with isProbedAsMain := true, index := if d.index < 0 then 0 else d.index }
        match nfbPciProbeMain e c s with
        | (ret, s) =>
          if ret ≠ 0 then
            let s := s.setDevice c fun d => { d with isProbedAsMain := false, indexValid := false }
            (ret, s.setDrvdata c false)
          else (0, nfbPciTryAttach e c s)

/-- `nfb_pci_remove`. -/
def nfbPciRemove (c : Nat) (s : AttachState) : AttachState :=
  let nfb := (s.device c).nfb
  let s :=
    if (s.device c).isProbedAsMain then
      let s := s.setDevice c fun d => { d with isProbedAsMain := false }
      match nfb with
      | none => s
      | some n => (nfbPciDetachEndpoints n s).setNfb n none
    else if (s.device c).isProbedAsSub then
      let s := match nfb with
        | none => s
        | some n => nfbPciDetachEndpoint n c s
      s.setDevice c fun d => { d with isProbedAsSub := false }
    else s
  let s := s.setDevice c fun d => { d with indexValid := false }
  s.setDrvdata c false

/-! ## Runs -/

inductive Call where
  | probe (c : Nat) (e : Env)
  | remove (c : Nat)

/-- A device is probed when it has no driver, and removed when it has one. -/
def Allowed (s : AttachState) : Call → Prop
  | .probe c _ => s.drvdata c = false
  | .remove c => s.drvdata c = true

def step (s : AttachState) : Call → AttachState
  | .probe c e => (nfbPciProbe e c s).2
  | .remove c => nfbPciRemove c s

/-- A run of calls that all meet the condition. -/
inductive Run (P : AttachState → Call → Prop) : List Call → AttachState → Prop where
  | init : Run P [] .init
  | step {calls : List Call} {s : AttachState} {call : Call} (run : Run P calls s) (allowed : Allowed s call) (meets : P s call) :
      Run P (calls ++ [call]) (step s call)

/-! ## The attachment -/

/-- What the attachment owes: a PCI device is in one list at most and there once, its pointer is null when it is in none, and goes to
the NFB device that has it otherwise; a device that is not the main one has the serial number. -/
structure Attached (s : AttachState) : Prop where
  one_list : ∀ c m n v w, s.nfb m = some v → s.nfb n = some w → c ∈ v.pciDevices → c ∈ w.pciDevices → m = n
  once : ∀ n v, s.nfb n = some v → v.pciDevices.Nodup
  null_iff : ∀ c, (s.device c).nfb = none ↔ ∀ n v, s.nfb n = some v → c ∉ v.pciDevices
  live : ∀ c n, (s.device c).nfb = some n → ∃ v, s.nfb n = some v ∧ c ∈ v.pciDevices
  dsn : ∀ n v, s.nfb n = some v → ∀ c ∈ v.pciDevices, c ≠ v.pci → (s.device c).dsn = v.dsn ∧ v.dsn ≠ 0

/-- After a probe that fails, no endpoint is attached to the NFB device that it created, and after a removal of a main device none to
the one that it had. -/
def Released (s : AttachState) : Call → Prop
  | .probe c e => (nfbPciProbe e c s).1 ≠ 0 → ∀ d, ((nfbPciProbe e c s).2.device d).nfb ≠ some s.next
  | .remove c => (s.device c).isProbedAsMain → ∀ n, (s.device c).nfb = some n → ∀ d, ((nfbPciRemove c s).device d).nfb ≠ some n

/-- The invariant of the runs: what the flags of a PCI device say of its attachment. -/
structure Inv (s : AttachState) : Prop where
  attached : ∀ c n, (s.device c).nfb = some n ↔ ∃ v, s.nfb n = some v ∧ c ∈ v.pciDevices
  once : ∀ n v, s.nfb n = some v → v.pciDevices.Nodup
  dsn : ∀ n v, s.nfb n = some v → ∀ c ∈ v.pciDevices, c ≠ v.pci → (s.device c).dsn = v.dsn ∧ v.dsn ≠ 0
  known : ∀ c, (s.device c).nfb ≠ none ∨ (s.device c).isProbedAsSub → c ∈ s.global
  valid : ∀ c, (s.device c).isProbedAsSub → (s.device c).indexValid
  main : ∀ c, (s.device c).isProbedAsMain → ∃ n v, (s.device c).nfb = some n ∧ s.nfb n = some v ∧ v.pci = c
  bound : ∀ c, s.drvdata c = ((s.device c).isProbedAsMain || (s.device c).isProbedAsSub)
  apart : ∀ c, (s.device c).isProbedAsMain → (s.device c).isProbedAsSub = false
  fresh : ∀ n, s.next ≤ n → s.nfb n = none

variable {s : AttachState}

theorem Inv.toAttached (h : Inv s) : Attached s where
  one_list c m n v w hm hn hv hw := by
    have hptr := (h.attached c m).2 ⟨v, hm, hv⟩
    rw [(h.attached c n).2 ⟨w, hn, hw⟩, Option.some.injEq] at hptr
    exact hptr.symm
  once := h.once
  null_iff c := by
    rw [Option.eq_none_iff_forall_ne_some]
    constructor
    · exact fun hnone n v hn hv => hnone n ((h.attached c n).2 ⟨v, hn, hv⟩)
    · intro hno n hptr
      obtain ⟨v, hn, hv⟩ := (h.attached c n).1 hptr
      exact hno n v hn hv
  live c n hptr := (h.attached c n).1 hptr
  dsn := h.dsn

theorem Inv.init : Inv .init where
  attached c n := by
    constructor
    · intro h
      cases h
    · rintro ⟨v, h, -⟩
      cases h
  once n v h := by cases h
  dsn n v h := by cases h
  known c h := by
    rcases h with h | h
    · exact absurd rfl h
    · cases h
  valid c h := by cases h
  main c h := by cases h
  bound _ := rfl
  apart c h := by cases h
  fresh _ _ := rfl

/-! ## Devices that are found or created -/

theorem setDevice_self (s : AttachState) (c : Nat) (f : PciDevice → PciDevice) : (s.setDevice c f).device c = f (s.device c) :=
  Function.update_self ..

theorem setDevice_of_ne (s : AttachState) {c d : Nat} (f : PciDevice → PciDevice) (h : d ≠ c) : (s.setDevice c f).device d = s.device d :=
  Function.update_of_ne h ..

variable {f : PciDevice → PciDevice}

theorem setDevice_keeps {A : Type} (p : PciDevice → A) {c : Nat} (hp : p (f (s.device c)) = p (s.device c)) (d : Nat) :
    p ((s.setDevice c f).device d) = p (s.device d) := by
  by_cases hd : d = c
  · rw [hd, setDevice_self, hp]
  · rw [setDevice_of_ne s f hd]

variable {s' : AttachState}

section

variable {s : AttachState} {c : Nat}

/-- A device may change in what the invariant does not speak of, in its serial number when it is free, and in what else is read of it
unless it is probed as sub. -/
theorem Inv.setDevice (h : Inv s) (hptr : (f (s.device c)).nfb = (s.device c).nfb)
    (hmain : (f (s.device c)).isProbedAsMain = (s.device c).isProbedAsMain)
    (hsub : (f (s.device c)).isProbedAsSub = (s.device c).isProbedAsSub)
    (hread : (s.device c).nfb ≠ none → (f (s.device c)).dsn = (s.device c).dsn)
    (hvalid : (s.device c).isProbedAsSub → (f (s.device c)).indexValid) : Inv (s.setDevice c f) where
  attached d n := by rw [setDevice_keeps PciDevice.nfb hptr]; exact h.attached d n
  once := h.once
  dsn n v hn d hv hd := by
    obtain ⟨hsame, hne⟩ := h.dsn n v hn d hv hd
    refine ⟨?_, hne⟩
    by_cases hdc : d = c
    · have hattached : (s.device c).nfb ≠ none := by
        rw [← hdc, (h.attached d n).2 ⟨v, hn, hv⟩]
        exact Option.some_ne_none n
      rw [hdc, setDevice_self, hread hattached, ← hdc, hsame]
    · rw [setDevice_of_ne s f hdc, hsame]
  known d hd := by
    rw [setDevice_keeps PciDevice.nfb hptr, setDevice_keeps PciDevice.isProbedAsSub hsub] at hd
    exact h.known d hd
  valid d hd := by
    rw [setDevice_keeps PciDevice.isProbedAsSub hsub] at hd
    by_cases hdc : d = c
    · subst hdc
      rw [setDevice_self]
      exact hvalid hd
    · rw [setDevice_of_ne s f hdc]
      exact h.valid d hd
  main d hd := by
    rw [setDevice_keeps PciDevice.isProbedAsMain hmain] at hd
    rw [setDevice_keeps PciDevice.nfb hptr]
    exact h.main d hd
  bound d := by
    rw [setDevice_keeps PciDevice.isProbedAsMain hmain, setDevice_keeps PciDevice.isProbedAsSub hsub]
    exact h.bound d
  apart d hd := by
    rw [setDevice_keeps PciDevice.isProbedAsMain hmain] at hd
    rw [setDevice_keeps PciDevice.isProbedAsSub hsub]
    exact h.apart d hd
  fresh := h.fresh

theorem Inv.addGlobal (h : Inv s) (c : Nat) : Inv { s with global := c :: s.global } :=
  { h with known := fun d hd => List.mem_cons_of_mem c (h.known d hd) }

theorem Inv.unknown (h : Inv s) (hc : c ∉ s.global) :
    (s.device c).nfb = none ∧ (s.device c).isProbedAsMain = false ∧ (s.device c).isProbedAsSub = false := by
  have hptr : (s.device c).nfb = none := by
    by_contra hne
    exact hc (h.known c (.inl hne))
  refine ⟨hptr, ?_, ?_⟩
  · by_contra hmain
    obtain ⟨n, -, hn, -⟩ := h.main c (by simpa using hmain)
    rw [hptr] at hn
    cases hn
  · by_contra hsub
    exact hc (h.known c (.inr (by simpa using hsub)))

/-- An attached device whose reading is void, as after a probe as main that has failed, is read with its serial number again. -/
def Rereads (e : Env) (s : AttachState) : Prop := ∀ d, (s.device d).nfb ≠ none → ¬(s.device d).indexValid → e.dsn d = (s.device d).dsn

/-- What `nfb_pci_device_find_or_create` keeps, and what it makes sure of. -/
structure Found (e : Env) (s s' : AttachState) (c : Nat) : Prop where
  inv : Inv s'
  rereads : Rereads e s'
  known : c ∈ s'.global
  valid : (s'.device c).indexValid
  nfb : s'.nfb = s.nfb
  next : s'.next = s.next
  drvdata : s'.drvdata = s.drvdata
  ptr : ∀ d, (s'.device d).nfb = (s.device d).nfb

theorem findOrCreate_found {e : Env} (h : Inv s) (hread : Rereads e s) (hs : findOrCreate e c s = some s') :
    Inv s' ∧ Rereads e s' ∧ c ∈ s'.global ∧ s'.nfb = s.nfb ∧ s'.next = s.next ∧ s'.drvdata = s.drvdata ∧
      ∀ d, (s'.device d).nfb = (s.device d).nfb := by
  unfold findOrCreate at hs
  split at hs
  · next hmem =>
    cases hs
    exact ⟨h, hread, hmem, rfl, rfl, rfl, fun _ => rfl⟩
  · next hmem =>
    split at hs
    · cases hs
      obtain ⟨hnone, hmain, hsub⟩ := h.unknown hmem
      have hinv : Inv (s.setDevice c fun _ => {}) :=
        h.setDevice hnone.symm hmain.symm hsub.symm (fun hc => absurd hnone hc) fun hc => absurd (hsub.symm.trans hc) Bool.false_ne_true
      have hptr := setDevice_keeps PciDevice.nfb (s := s) (c := c) (f := fun _ => {}) hnone.symm
      refine ⟨hinv.addGlobal c, fun d hd hvoid => ?_, List.mem_cons_self, rfl, rfl, rfl, hptr⟩
      have hdc : d ≠ c := by
        rintro rfl
        exact hd ((hptr d).trans hnone)
      have hsame : (s.setDevice c fun _ => {}).device d = s.device d := setDevice_of_ne s _ hdc
      exact (hread d (by rwa [← hptr d]) (by rwa [← hsame])).trans (congrArg PciDevice.dsn hsame).symm
    · cases hs

theorem find_or_create_found {e : Env} (h : Inv s) (hread : Rereads e s) (hs : nfbPciDeviceFindOrCreate e c s = some s') :
    Found e s s' c := by
  obtain ⟨s₁, hs₁, hs⟩ := Option.map_eq_some_iff.1 hs
  obtain ⟨hinv, hread₁, hknown, hnfb, hnext, hdrv, hptr⟩ := findOrCreate_found h hread hs₁
  split at hs
  · next hvalid =>
    subst hs
    exact ⟨hinv, hread₁, hknown, hvalid, hnfb, hnext, hdrv, hptr⟩
  · next hvalid =>
    subst hs
    refine ⟨hinv.setDevice rfl rfl rfl (fun hc => hread₁ c hc hvalid) fun _ => rfl, fun d hd hvoid => ?_, hknown, ?_, hnfb, hnext, hdrv,
      fun d => ?_⟩
    · have hdc : d ≠ c := by
        rintro rfl
        rw [setDevice_self] at hvoid
        exact hvoid rfl
      rw [setDevice_of_ne s₁ _ hdc] at hd hvoid ⊢
      exact hread₁ d hd hvoid
    · rw [setDevice_self]
    · rw [setDevice_keeps PciDevice.nfb rfl, hptr]

end

/-! ## Attach -/

variable {v : NfbDevice}

section

variable {s : AttachState} {n c : Nat} {e : Env}

theorem attach_nfb_self (s : AttachState) (n c : Nat) :
    (nfbPciAttachEndpoint n c s).nfb n = (s.nfb n).map fun v => { v with pciDevices := c :: v.pciDevices } := Function.update_self ..

theorem attach_nfb_of_ne (s : AttachState) (c : Nat) {m : Nat} (h : m ≠ n) : (nfbPciAttachEndpoint n c s).nfb m = s.nfb m :=
  Function.update_of_ne h ..

theorem attach_device (s : AttachState) (n c : Nat) :
    (nfbPciAttachEndpoint n c s).device = (s.setDevice c fun d => { d with nfb := some n }).device := rfl

theorem attach_device_of_ne (s : AttachState) (n : Nat) {d : Nat} (h : d ≠ c) : (nfbPciAttachEndpoint n c s).device d = s.device d := by
  rw [attach_device, setDevice_of_ne s _ h]

theorem attach_keeps {A : Type} (p : PciDevice → A) (s : AttachState) (n c : Nat) (hp : ∀ d, p { d with nfb := some n } = p d) (d : Nat) :
    p ((nfbPciAttachEndpoint n c s).device d) = p (s.device d) := by
  rw [attach_device]
  exact setDevice_keeps p (hp _) d

/-- An endpoint that is free, known and has the serial number is attached. -/
theorem Inv.attach (h : Inv s) (hn : s.nfb n = some v) (hfree : (s.device c).nfb = none) (hknown : c ∈ s.global)
    (hdsn : (s.device c).dsn = v.dsn) (hne : v.dsn ≠ 0) : Inv (nfbPciAttachEndpoint n c s) := by
  have hself : (nfbPciAttachEndpoint n c s).nfb n = some { v with pciDevices := c :: v.pciDevices } := by
    rw [attach_nfb_self, hn]
    rfl
  have hnew : ((nfbPciAttachEndpoint n c s).device c).nfb = some n := by rw [attach_device, setDevice_self]
  have hold : ∀ d, d ≠ c → (nfbPciAttachEndpoint n c s).device d = s.device d := fun d hd => attach_device_of_ne s n hd
  have hmain := attach_keeps PciDevice.isProbedAsMain s n c fun _ => rfl
  have hsub := attach_keeps PciDevice.isProbedAsSub s n c fun _ => rfl
  have hdsns := attach_keeps PciDevice.dsn s n c fun _ => rfl
  have hvalids := attach_keeps PciDevice.indexValid s n c fun _ => rfl
  have hout : ∀ m w, s.nfb m = some w → c ∉ w.pciDevices := by
    intro m w hm hw
    rw [(h.attached c m).2 ⟨w, hm, hw⟩] at hfree
    cases hfree
  constructor
  case attached =>
    intro d m
    by_cases hd : d = c
    · subst hd
      rw [hnew, Option.some.injEq]
      constructor
      · rintro rfl
        exact ⟨_, hself, List.mem_cons_self⟩
      · rintro ⟨w, hm, hw⟩
        by_contra hne'
        rw [attach_nfb_of_ne s d (Ne.symm hne')] at hm
        exact hout m w hm hw
    · rw [hold d hd, h.attached]
      by_cases hm : m = n
      · subst hm
        rw [hself, hn]
        simp [hd]
      · rw [attach_nfb_of_ne s c hm]
  case once =>
    intro m w hm
    by_cases hmn : m = n
    · subst hmn
      rw [hself, Option.some.injEq] at hm
      rw [← hm]
      exact List.nodup_cons.2 ⟨hout m v hn, h.once m v hn⟩
    · rw [attach_nfb_of_ne s c hmn] at hm
      exact h.once m w hm
  case dsn =>
    intro m w hm d hw hd
    rw [hdsns]
    by_cases hmn : m = n
    · subst hmn
      rw [hself, Option.some.injEq] at hm
      subst hm
      rcases List.mem_cons.1 hw with rfl | hw
      · exact ⟨hdsn, hne⟩
      · exact h.dsn m v hn d hw hd
    · rw [attach_nfb_of_ne s c hmn] at hm
      exact h.dsn m w hm d hw hd
  case known =>
    intro d hd
    by_cases hdc : d = c
    · subst hdc
      exact hknown
    · rw [hold d hdc] at hd
      exact h.known d hd
  case valid =>
    intro d hd
    rw [hvalids]
    rw [hsub] at hd
    exact h.valid d hd
  case main =>
    intro d hd
    rw [hmain] at hd
    obtain ⟨m, w, hptr, hm, hw⟩ := h.main d hd
    have hdc : d ≠ c := by
      rintro rfl
      rw [hptr] at hfree
      cases hfree
    rw [hold d hdc]
    by_cases hmn : m = n
    · subst hmn
      rw [hn, Option.some.injEq] at hm
      exact ⟨m, _, hptr, hself, by rw [← hw, ← hm]⟩
    · exact ⟨m, w, hptr, (attach_nfb_of_ne s c hmn).trans hm, hw⟩
  case bound =>
    intro d
    rw [hmain, hsub]
    exact h.bound d
  case apart =>
    intro d hd
    rw [hmain] at hd
    rw [hsub]
    exact h.apart d hd
  case fresh =>
    intro m hm
    have hmn : m ≠ n := by
      rintro rfl
      rw [h.fresh m hm] at hn
      cases hn
    rw [attach_nfb_of_ne s c hmn]
    exact h.fresh m hm

theorem Rereads.attach (h : Rereads e s) (hvalid : (s.device c).indexValid) : Rereads e (nfbPciAttachEndpoint n c s) := by
  intro d hd hvoid
  have hvalids := attach_keeps PciDevice.indexValid s n c fun _ => rfl
  have hdc : d ≠ c := by
    rintro rfl
    exact hvoid ((hvalids d).trans hvalid)
  rw [attach_device_of_ne s n hdc] at hd hvoid ⊢
  exact h d hd hvoid

theorem attachable_dsn {d : PciDevice} (h : nfbPciDeviceIsAttachable v d) : d.nfb = none ∧ d.dsn = v.dsn ∧ v.dsn ≠ 0 := by
  unfold nfbPciDeviceIsAttachable at h
  split at h
  · cases h
  · next hfree =>
    split at h
    · cases h
    · next hdsn =>
      push Not at hdsn
      exact ⟨not_not.1 hfree, hdsn.2.symm, hdsn.1⟩

theorem attachIfAttachable_inv (h : Inv s) (hsub : (s.device c).isProbedAsSub) :
    Inv (attachIfAttachable e n c s) ∧
      ∀ d, ((attachIfAttachable e n c s).device d).isProbedAsSub = (s.device d).isProbedAsSub := by
  unfold attachIfAttachable
  split
  · exact ⟨h, fun _ => rfl⟩
  · next v hn =>
    split
    · next hcheck =>
      obtain ⟨hfree, hdsn, hne⟩ := attachable_dsn hcheck.2
      exact ⟨h.attach hn hfree (h.known c (.inr hsub)) hdsn hne, attach_keeps PciDevice.isProbedAsSub s n c fun _ => rfl⟩
    · exact ⟨h, fun _ => rfl⟩

theorem attachSlave_inv (h : Inv s) (hread : Rereads e s) (slave : Nat) :
    Inv (attachSlave e n s slave) ∧ Rereads e (attachSlave e n s slave) := by
  unfold attachSlave
  split
  · exact ⟨h, hread⟩
  · next v hn =>
    split
    · exact ⟨h, hread⟩
    · split
      · exact ⟨h, hread⟩
      · next s₁ hfound =>
        have hs₁ := find_or_create_found h hread hfound
        split
        · next hcheck =>
          obtain ⟨hfree, hdsn, hne⟩ := attachable_dsn hcheck
          exact ⟨hs₁.inv.attach ((congrFun hs₁.nfb n).trans hn) hfree hs₁.known hdsn hne, hs₁.rereads.attach hs₁.valid⟩
        · exact ⟨hs₁.inv, hs₁.rereads⟩

theorem attachDevices_inv (devices : List Nat) (h : Inv s) (hread : Rereads e s) :
    Inv (devices.foldl (attachSlave e n) s) ∧ Rereads e (devices.foldl (attachSlave e n) s) := by
  induction devices generalizing s with
  | nil => exact ⟨h, hread⟩
  | cons slave devices ih =>
    obtain ⟨h', hread'⟩ := attachSlave_inv (n := n) h hread slave
    exact ih h' hread'

mutual

theorem attachAllSlaves_inv {e : Env} {n : Nat} : ∀ (bus : PciBus) {s : AttachState}, Inv s → Rereads e s →
    Inv (nfbPciAttachAllSlaves e n bus s) ∧ Rereads e (nfbPciAttachAllSlaves e n bus s)
  | .mk children devices, s, h, hread => by
    rw [nfbPciAttachAllSlaves]
    obtain ⟨h', hread'⟩ := attachBuses_inv (n := n) children h hread
    exact attachDevices_inv devices h' hread'

theorem attachBuses_inv {e : Env} {n : Nat} : ∀ (buses : List PciBus) {s : AttachState}, Inv s → Rereads e s →
    Inv (attachBuses e n buses s) ∧ Rereads e (attachBuses e n buses s)
  | [], s, h, hread => by
    rw [attachBuses]
    exact ⟨h, hread⟩
  | bus :: buses, s, h, hread => by
    rw [attachBuses]
    obtain ⟨h', hread'⟩ := attachAllSlaves_inv (n := n) bus h hread
    exact attachBuses_inv buses h' hread'

end

theorem attachSubs_inv (l : List Nat) (h : Inv s) :
    Inv (l.foldl (fun s c => if (s.device c).isProbedAsSub then attachIfAttachable e n c s else s) s) := by
  induction l generalizing s with
  | nil => exact h
  | cons c l ih =>
    rw [List.foldl_cons]
    apply ih
    split
    · next hsub => exact (attachIfAttachable_inv h hsub).1
    · exact h

theorem attachSelf_inv {self : Nat} (l : List Nat) (h : Inv s) (hsub : (s.device self).isProbedAsSub) :
    Inv (l.foldl (fun s c => match (s.device c).nfb with
      | none => s
      | some n => if (s.device c).isProbedAsMain then attachIfAttachable e n self s else s) s) := by
  induction l generalizing s with
  | nil => exact h
  | cons c l ih =>
    rw [List.foldl_cons]
    split
    · exact ih h hsub
    · next n _ =>
      split
      · obtain ⟨hinv, hkeeps⟩ := attachIfAttachable_inv (e := e) (n := n) h hsub
        exact ih hinv ((hkeeps self).trans hsub)
      · exact ih h hsub

theorem tryAttach_inv (h : Inv s) (self : Nat) : Inv (nfbPciTryAttach e self s) := by
  unfold nfbPciTryAttach
  split
  · split
    · exact h
    · exact attachSubs_inv _ h
  · split
    · next hsub => exact attachSelf_inv _ h hsub
    · exact h

end

/-! ## Probe -/

section

variable {s : AttachState} {c : Nat} {e : Env}

theorem Inv.unbound (h : Inv s) (hdrv : s.drvdata c = false) :
    (s.device c).isProbedAsMain = false ∧ (s.device c).isProbedAsSub = false := by
  have hbound := h.bound c
  rw [hdrv] at hbound
  simpa using hbound.symm

/-- A device that is probed as sub. -/
theorem Inv.probeSub (h : Inv s) (hdrv : s.drvdata c = false) (hknown : c ∈ s.global) (hvalid : (s.device c).indexValid) :
    Inv ((s.setDrvdata c true).setDevice c fun d => { d with isProbedAsSub := true }) := by
  obtain ⟨hmain, -⟩ := h.unbound hdrv
  set s' := (s.setDrvdata c true).setDevice c fun d => { d with isProbedAsSub := true } with hs'
  have hself : s'.device c = { s.device c with isProbedAsSub := true } := setDevice_self ..
  have hold : ∀ d, d ≠ c → s'.device d = s.device d := fun d hd => setDevice_of_ne (s.setDrvdata c true) _ hd
  have hptr : ∀ d, (s'.device d).nfb = (s.device d).nfb := setDevice_keeps PciDevice.nfb (s := s.setDrvdata c true) rfl
  have hmains : ∀ d, (s'.device d).isProbedAsMain = (s.device d).isProbedAsMain :=
    setDevice_keeps PciDevice.isProbedAsMain (s := s.setDrvdata c true) rfl
  have hdsn : ∀ d, (s'.device d).dsn = (s.device d).dsn := setDevice_keeps PciDevice.dsn (s := s.setDrvdata c true) rfl
  constructor
  case attached =>
    intro d n
    rw [hptr]
    exact h.attached d n
  case once => exact h.once
  case dsn =>
    intro n v hn d hv hd
    rw [hdsn]
    exact h.dsn n v hn d hv hd
  case known =>
    intro d hd
    by_cases hdc : d = c
    · subst hdc
      exact hknown
    · rw [hold d hdc] at hd
      exact h.known d hd
  case valid =>
    intro d hd
    by_cases hdc : d = c
    · subst hdc
      rw [hself]
      exact hvalid
    · rw [hold d hdc] at hd ⊢
      exact h.valid d hd
  case main =>
    intro d hd
    rw [hmains] at hd
    rw [hptr]
    exact h.main d hd
  case bound =>
    intro d
    by_cases hdc : d = c
    · subst hdc
      rw [hself, hmain]
      exact Function.update_self ..
    · rw [hold d hdc, ← h.bound d]
      exact Function.update_of_ne hdc ..
  case apart =>
    intro d hd
    have hdc : d ≠ c := by
      rintro rfl
      rw [hmains, hmain] at hd
      cases hd
    rw [hold d hdc] at hd ⊢
    exact h.apart d hd
  case fresh => exact h.fresh

/-- A free device that is probed as main, with the NFB device that it has created. -/
theorem Inv.probeMain (h : Inv s) (hdrv : s.drvdata c = false) (hknown : c ∈ s.global) (hvalid : (s.device c).indexValid)
    (hfree : (s.device c).nfb = none) (i : Int) (hpci : v.pci = c) (hv : v.pciDevices = [c]) :
    Inv { s with
      device := Function.update s.device c { s.device c with isProbedAsMain := true, index := i, nfb := some s.next }
      nfb := Function.update s.nfb s.next (some v)
      next := s.next + 1
      drvdata := Function.update s.drvdata c true } := by
  obtain ⟨-, hsub⟩ := h.unbound hdrv
  set s' : AttachState := { s with
      device := Function.update s.device c { s.device c with isProbedAsMain := true, index := i, nfb := some s.next }
      nfb := Function.update s.nfb s.next (some v)
      next := s.next + 1
      drvdata := Function.update s.drvdata c true } with hs'
  have hself : s'.device c = { s.device c with isProbedAsMain := true, index := i, nfb := some s.next } := Function.update_self ..
  have hold : ∀ d, d ≠ c → s'.device d = s.device d := fun d hd => Function.update_of_ne hd ..
  have hnew : s'.nfb s.next = some v := Function.update_self ..
  have hkeep : ∀ n, n ≠ s.next → s'.nfb n = s.nfb n := fun n hn => Function.update_of_ne hn ..
  have hlive : ∀ n w, s.nfb n = some w → n ≠ s.next := by
    rintro n w hn rfl
    rw [h.fresh _ le_rfl] at hn
    cases hn
  have hout : ∀ n w, s.nfb n = some w → c ∉ w.pciDevices := by
    intro n w hn hw
    rw [(h.attached c n).2 ⟨w, hn, hw⟩] at hfree
    cases hfree
  constructor
  case attached =>
    intro d n
    by_cases hdc : d = c
    · subst hdc
      rw [hself]
      by_cases hn : n = s.next
      · subst hn
        rw [hnew]
        simp [hv]
      · rw [hkeep n hn]
        constructor
        · intro heq
          exact absurd (Option.some.inj heq).symm hn
        · rintro ⟨w, hw, hmem⟩
          exact absurd hmem (hout n w hw)
    · rw [hold d hdc]
      by_cases hn : n = s.next
      · subst hn
        rw [hnew, h.attached, h.fresh _ le_rfl]
        simp [hv, hdc]
      · rw [hkeep n hn]
        exact h.attached d n
  case once =>
    intro n w hn
    by_cases hnn : n = s.next
    · subst hnn
      rw [hnew, Option.some.injEq] at hn
      rw [← hn, hv]
      exact List.nodup_singleton c
    · rw [hkeep n hnn] at hn
      exact h.once n w hn
  case dsn =>
    intro n w hn d hw hd
    by_cases hnn : n = s.next
    · subst hnn
      rw [hnew, Option.some.injEq] at hn
      rw [← hn, hv, List.mem_singleton] at hw
      exact absurd (hw.trans (hpci.symm.trans (congrArg NfbDevice.pci hn))) hd
    · rw [hkeep n hnn] at hn
      have hdc : d ≠ c := fun heq => hout n w hn (heq ▸ hw)
      rw [hold d hdc]
      exact h.dsn n w hn d hw hd
  case known =>
    intro d hd
    by_cases hdc : d = c
    · subst hdc
      exact hknown
    · rw [hold d hdc] at hd
      exact h.known d hd
  case valid =>
    intro d hd
    by_cases hdc : d = c
    · subst hdc
      rw [hself]
      exact hvalid
    · rw [hold d hdc] at hd ⊢
      exact h.valid d hd
  case main =>
    intro d hd
    by_cases hdc : d = c
    · subst hdc
      exact ⟨s.next, v, by rw [hself], hnew, hpci⟩
    · rw [hold d hdc] at hd ⊢
      obtain ⟨n, w, hptr, hn, hw⟩ := h.main d hd
      exact ⟨n, w, hptr, (hkeep n (hlive n w hn)).trans hn, hw⟩
  case bound =>
    intro d
    by_cases hdc : d = c
    · subst hdc
      rw [hself]
      exact Function.update_self ..
    · rw [hold d hdc, ← h.bound d]
      exact Function.update_of_ne hdc ..
  case apart =>
    intro d hd
    by_cases hdc : d = c
    · subst hdc
      rw [hself]
      exact hsub
    · rw [hold d hdc] at hd ⊢
      exact h.apart d hd
  case fresh =>
    intro n hn
    have hnn : n ≠ s.next := fun heq => absurd hn (by rw [heq]; exact Nat.not_succ_le_self _)
    rw [hkeep n hnn]
    exact h.fresh n (Nat.le_of_succ_le hn)

/-- What a probe has to meet: where it gets behind the device tree steps of a main device, this device is free and `nfb_probe` does not
fail, and attached devices keep their serial numbers where these are read again. -/
def Safe (s : AttachState) : Call → Prop
  | .probe c e => Rereads e s ∧ ∀ s₁, e.base = 0 → nfbPciDeviceFindOrCreate e c s = some s₁ → ¬probesAsSub e (s₁.device c) →
      e.create = 0 → e.fdt = 0 → (s.device c).nfb = none ∧ e.probe = 0
  | .remove _ => True

theorem Inv.skip (h : Inv s) : Inv { s with nfb := Function.update s.nfb s.next none, next := s.next + 1 } := by
  have hsame : Function.update s.nfb s.next none = s.nfb := by
    rw [← h.fresh s.next le_rfl]
    exact Function.update_eq_self _ _
  rw [hsame]
  exact { h with fresh := fun n hn => h.fresh n (Nat.le_of_succ_le hn) }

theorem Inv.failMain (h : Inv s) (hdrv : s.drvdata c = false) (i : Int) :
    Inv { s with
      device := Function.update s.device c { s.device c with isProbedAsMain := false, index := i, indexValid := false }
      drvdata := Function.update s.drvdata c false } := by
  obtain ⟨hmain, hsub⟩ := h.unbound hdrv
  have hsame : Function.update s.drvdata c false = s.drvdata := by
    rw [← hdrv]
    exact Function.update_eq_self _ _
  rw [hsame]
  refine h.setDevice (f := fun d => { d with isProbedAsMain := false, index := i, indexValid := false }) rfl hmain.symm rfl
    (fun _ => rfl) fun hc => ?_
  rw [hsub] at hc
  cases hc

theorem probeMain_inv (h : Inv s) (hread : Rereads e s) (hdrv : s.drvdata c = false) (hknown : c ∈ s.global)
    (hvalid : (s.device c).indexValid) (hprobe : e.create = 0 → e.fdt = 0 → (s.device c).nfb = none ∧ e.probe = 0) (i : Int) :
    ∃ s', nfbPciProbeMain e c ((s.setDrvdata c true).setDevice c fun d => { d with isProbedAsMain := true, index := i }) = s' ∧
      (s'.1 = 0 → Inv s'.2) ∧
      (s'.1 ≠ 0 → Inv ((s'.2.setDevice c fun d => { d with isProbedAsMain := false, indexValid := false }).setDrvdata c false) ∧
        s'.2.nfb s.next = none) := by
  refine ⟨_, rfl, ?_⟩
  unfold nfbPciProbeMain
  split
  · next hcreate =>
    refine ⟨fun h0 => absurd h0 hcreate, fun _ => ⟨?_, h.fresh _ le_rfl⟩⟩
    refine (congrArg Inv ?_).mpr (h.failMain hdrv i)
    simp [AttachState.setDevice, AttachState.setDrvdata, Function.update_idem]
  · next hcreate =>
    dsimp only
    split
    · next hfdt =>
      refine ⟨fun h0 => absurd h0 hfdt, fun _ => ⟨?_, ?_⟩⟩
      · refine (congrArg Inv ?_).mpr (h.skip.failMain hdrv i)
        simp [AttachState.setDevice, AttachState.setDrvdata, AttachState.setNfb, Function.update_idem]
      · exact Function.update_self ..
    · next hfdt =>
      obtain ⟨hfree, hzero⟩ := hprobe (not_not.1 hcreate) (not_not.1 hfdt)
      rw [if_neg (not_not.2 hzero)]
      refine ⟨fun _ => ?_, fun h0 => absurd rfl h0⟩
      have hmain := h.probeMain hdrv hknown hvalid hfree i (v := ⟨c, (s.device c).dsn, e.driverData, [c]⟩) rfl rfl
      have hreads : Rereads e { s with
          device := Function.update s.device c { s.device c with isProbedAsMain := true, index := i, nfb := some s.next }
          nfb := Function.update s.nfb s.next (some ⟨c, (s.device c).dsn, e.driverData, [c]⟩)
          next := s.next + 1
          drvdata := Function.update s.drvdata c true } := by
        intro d hd hvoid
        by_cases hdc : d = c
        · subst hdc
          simp only [Function.update_self] at hvoid
          exact absurd hvalid hvoid
        · simp only [Function.update_of_ne hdc] at hd hvoid ⊢
          exact hread d hd hvoid
      refine (congrArg Inv ?_).mpr (attachBuses_inv (n := s.next) e.buses hmain hreads).1
      simp [AttachState.setDevice, AttachState.setDrvdata, AttachState.setNfb, nfbPciAttachEndpoint, Function.update_idem]

/-- A probe that meets the condition keeps the invariant; one that fails leaves no NFB device. -/
theorem probe_inv (h : Inv s) (hdrv : s.drvdata c = false) (hsafe : Safe s (.probe c e)) :
    Inv (nfbPciProbe e c s).2 ∧ ((nfbPciProbe e c s).1 ≠ 0 → (nfbPciProbe e c s).2.nfb s.next = none) := by
  obtain ⟨hread, hsafe⟩ := hsafe
  unfold nfbPciProbe
  split
  · exact ⟨h, fun _ => h.fresh _ le_rfl⟩
  · next hbase =>
    split
    · exact ⟨h, fun _ => h.fresh _ le_rfl⟩
    · next s₁ hfound =>
      have hs₁ := find_or_create_found h hread hfound
      have hdrv₁ : s₁.drvdata c = false := (congrFun hs₁.drvdata c).trans hdrv
      dsimp only
      split
      · have hinv := hs₁.inv.probeSub hdrv₁ hs₁.known hs₁.valid
        exact ⟨tryAttach_inv hinv c, fun h0 => absurd rfl h0⟩
      · next hmain =>
        have hprobe (hcreate : e.create = 0) (hfdt : e.fdt = 0) : (s₁.device c).nfb = none ∧ e.probe = 0 := by
          rw [hs₁.ptr]
          exact hsafe s₁ (not_not.1 hbase) hfound hmain hcreate hfdt
        obtain ⟨⟨ret, s'⟩, heq, hok, hfail⟩ := probeMain_inv hs₁.inv hs₁.rereads hdrv₁ hs₁.known hs₁.valid hprobe
          (if (s₁.device c).index < 0 then 0 else (s₁.device c).index)
        have hset : (s₁.setDrvdata c true).setDevice c (fun d =>
              { d with isProbedAsMain := true, index := if d.index < 0 then 0 else d.index }) =
            (s₁.setDrvdata c true).setDevice c fun d =>
              { d with isProbedAsMain := true, index := if (s₁.device c).index < 0 then 0 else (s₁.device c).index } := rfl
        rw [hset, heq]
        dsimp only
        split
        · next hret =>
          obtain ⟨hinv, hnone⟩ := hfail hret
          refine ⟨hinv, fun _ => ?_⟩
          rw [hs₁.next] at hnone
          exact hnone
        · next hret => exact ⟨tryAttach_inv (hok (not_not.1 hret)) c, fun h0 => absurd rfl h0⟩

end

/-! ## Remove -/

section

variable {s : AttachState} {n c : Nat}

theorem detach_eq (hn : s.nfb n = some v) (hc : c ∈ v.pciDevices) :
    nfbPciDetachEndpoint n c s =
      (s.setNfb n (some { v with pciDevices := v.pciDevices.erase c })).setDevice c fun d => { d with nfb := none } := by
  rw [nfbPciDetachEndpoint, hn]
  exact if_pos hc

/-- The whole list is detached. -/
theorem detachList_eq (l : List Nat) : ∀ {s : AttachState} {v : NfbDevice}, s.nfb n = some v → v.pciDevices = l →
    ∃ s', l.foldl (fun s c => nfbPciDetachEndpoint n c s) s = s' ∧ s'.nfb = Function.update s.nfb n (some { v with pciDevices := [] }) ∧
      s'.global = s.global ∧ s'.next = s.next ∧ s'.drvdata = s.drvdata ∧
      ∀ d, s'.device d = if d ∈ l then { s.device d with nfb := none } else s.device d := by
  induction l with
  | nil =>
    intro s v hn hv
    have hsame : ({ v with pciDevices := [] } : NfbDevice) = v := by rw [← hv]
    refine ⟨s, rfl, ?_, rfl, rfl, rfl, fun d => by simp⟩
    rw [hsame, ← hn, Function.update_eq_self]
  | cons c l ih =>
    intro s v hn hv
    have hc : c ∈ v.pciDevices := by rw [hv]; exact List.mem_cons_self
    have hfirst := detach_eq hn hc
    rw [hv, List.erase_cons_head] at hfirst
    obtain ⟨s', heq, hnfb, hglobal, hnext, hdrv, hdevice⟩ := ih (s := nfbPciDetachEndpoint n c s) (v := { v with pciDevices := l })
      (by rw [hfirst]; exact Function.update_self ..) rfl
    refine ⟨s', heq, ?_, ?_, ?_, ?_, fun d => ?_⟩
    · rw [hnfb, hfirst]
      exact Function.update_idem ..
    · rw [hglobal, hfirst]
      rfl
    · rw [hnext, hfirst]
      rfl
    · rw [hdrv, hfirst]
      rfl
    · rw [hdevice, hfirst]
      by_cases hd : d = c
      · subst hd
        rw [setDevice_self, if_pos List.mem_cons_self]
        split
        · rfl
        · rfl
      · rw [setDevice_of_ne _ _ hd]
        simp only [List.mem_cons, hd, false_or]
        rfl

/-- A sub device is gone: from its list, if it was in one, and with its flags. -/
theorem Inv.removeSub (h : Inv s) (hmain : (s.device c).isProbedAsMain = false) (d' : PciDevice)
    (hnfb : ∀ m, s'.nfb m = (s.nfb m).map fun v => { v with pciDevices := v.pciDevices.erase c })
    (hdevice : s'.device = Function.update s.device c d') (hdrv : s'.drvdata = Function.update s.drvdata c false)
    (hglobal : s'.global = s.global) (hnext : s'.next = s.next) (hptr : d'.nfb = none) (hmain' : d'.isProbedAsMain = false)
    (hsub' : d'.isProbedAsSub = false) : Inv s' := by
  have hself : s'.device c = d' := by rw [hdevice, Function.update_self]
  have hold : ∀ d, d ≠ c → s'.device d = s.device d := fun d hd => by rw [hdevice, Function.update_of_ne hd]
  have hlist : ∀ m w, s'.nfb m = some w → ∃ v, s.nfb m = some v ∧ w = { v with pciDevices := v.pciDevices.erase c } := by
    intro m w hm
    rw [hnfb, Option.map_eq_some_iff] at hm
    obtain ⟨v, hv, rfl⟩ := hm
    exact ⟨v, hv, rfl⟩
  constructor
  case attached =>
    intro d m
    by_cases hdc : d = c
    · subst hdc
      rw [hself, hptr]
      constructor
      · intro hno
        cases hno
      · rintro ⟨w, hm, hw⟩
        obtain ⟨v, hv, rfl⟩ := hlist m w hm
        exact absurd hw (h.once m v hv).not_mem_erase
    · rw [hold d hdc, h.attached]
      constructor
      · rintro ⟨v, hv, hmem⟩
        exact ⟨_, by rw [hnfb, hv]; rfl, (List.mem_erase_of_ne hdc).2 hmem⟩
      · rintro ⟨w, hm, hw⟩
        obtain ⟨v, hv, rfl⟩ := hlist m w hm
        exact ⟨v, hv, List.mem_of_mem_erase hw⟩
  case once =>
    intro m w hm
    obtain ⟨v, hv, rfl⟩ := hlist m w hm
    exact (h.once m v hv).erase c
  case dsn =>
    intro m w hm d hw hd
    obtain ⟨v, hv, rfl⟩ := hlist m w hm
    have hdc : d ≠ c := by
      rintro rfl
      exact (h.once m v hv).not_mem_erase hw
    rw [hold d hdc]
    exact h.dsn m v hv d (List.mem_of_mem_erase hw) hd
  case known =>
    intro d hd
    have hdc : d ≠ c := by
      rintro rfl
      rw [hself, hptr, hsub'] at hd
      simp at hd
    rw [hold d hdc] at hd
    rw [hglobal]
    exact h.known d hd
  case valid =>
    intro d hd
    have hdc : d ≠ c := by
      rintro rfl
      rw [hself, hsub'] at hd
      cases hd
    rw [hold d hdc] at hd ⊢
    exact h.valid d hd
  case main =>
    intro d hd
    have hdc : d ≠ c := by
      rintro rfl
      rw [hself, hmain'] at hd
      cases hd
    rw [hold d hdc] at hd ⊢
    obtain ⟨m, v, hm, hv, hpci⟩ := h.main d hd
    exact ⟨m, { v with pciDevices := v.pciDevices.erase c }, hm, by rw [hnfb, hv]; rfl, hpci⟩
  case bound =>
    intro d
    rw [hdrv]
    by_cases hdc : d = c
    · subst hdc
      rw [Function.update_self, hself, hmain', hsub']
      rfl
    · rw [Function.update_of_ne hdc, hold d hdc]
      exact h.bound d
  case apart =>
    intro d hd
    have hdc : d ≠ c := by
      rintro rfl
      rw [hself, hmain'] at hd
      cases hd
    rw [hold d hdc] at hd ⊢
    exact h.apart d hd
  case fresh =>
    intro m hm
    rw [hnext] at hm
    rw [hnfb, h.fresh m hm]
    rfl

/-- A main device is gone, with its NFB device and all endpoints of this. -/
theorem Inv.removeMain (h : Inv s) (hc : (s.device c).nfb = some n) (hn : s.nfb n = some v) (hpci : v.pci = c)
    (hsub : (s.device c).isProbedAsSub = false) (hnfb : s'.nfb = Function.update s.nfb n none)
    (hdevice : ∀ d, d ≠ c → s'.device d = if d ∈ v.pciDevices then { s.device d with nfb := none } else s.device d)
    (hptr : (s'.device c).nfb = none) (hmain' : (s'.device c).isProbedAsMain = false)
    (hsub' : (s'.device c).isProbedAsSub = (s.device c).isProbedAsSub) (hdrv : s'.drvdata = Function.update s.drvdata c false)
    (hglobal : s'.global = s.global) (hnext : s'.next = s.next) : Inv s' := by
  have hin : ∀ d, d ∈ v.pciDevices ↔ (s.device d).nfb = some n := by
    intro d
    rw [h.attached]
    constructor
    · exact fun hd => ⟨v, hn, hd⟩
    · rintro ⟨w, hw, hd⟩
      rw [hn, Option.some.injEq] at hw
      exact hw ▸ hd
  have hptrs : ∀ d, (s'.device d).nfb = if d ∈ v.pciDevices then none else (s.device d).nfb := by
    intro d
    by_cases hdc : d = c
    · subst hdc
      rw [hptr, if_pos ((hin d).2 hc)]
    · rw [hdevice d hdc]
      split
      · rfl
      · rfl
  have hkeep : ∀ {A : Type} (p : PciDevice → A), (∀ d, p { d with nfb := none } = p d) → ∀ d, d ≠ c → p (s'.device d) = p (s.device d) := by
    intro A p hp d hdc
    rw [hdevice d hdc]
    split
    · exact hp _
    · rfl
  have hlive : ∀ m w, s'.nfb m = some w → m ≠ n ∧ s.nfb m = some w := by
    intro m w hm
    by_cases hmn : m = n
    · subst hmn
      rw [hnfb, Function.update_self] at hm
      cases hm
    · rw [hnfb, Function.update_of_ne hmn] at hm
      exact ⟨hmn, hm⟩
  constructor
  case attached =>
    intro d m
    rw [hptrs]
    constructor
    · intro hd
      split at hd
      · cases hd
      · next hout =>
        obtain ⟨w, hw, hmem⟩ := (h.attached d m).1 hd
        have hmn : m ≠ n := fun heq => hout ((hin d).2 (heq ▸ hd))
        exact ⟨w, by rw [hnfb, Function.update_of_ne hmn, hw], hmem⟩
    · rintro ⟨w, hm, hw⟩
      obtain ⟨hmn, hsm⟩ := hlive m w hm
      have hd := (h.attached d m).2 ⟨w, hsm, hw⟩
      have hout : d ∉ v.pciDevices := by
        rw [hin, hd, Option.some.injEq]
        exact hmn
      rw [if_neg hout, hd]
  case once => exact fun m w hm => h.once m w (hlive m w hm).2
  case dsn =>
    intro m w hm d hw hd
    obtain ⟨hmn, hsm⟩ := hlive m w hm
    have hptr_d := (h.attached d m).2 ⟨w, hsm, hw⟩
    have hdc : d ≠ c := by
      rintro rfl
      rw [hc, Option.some.injEq] at hptr_d
      exact hmn hptr_d.symm
    rw [hkeep PciDevice.dsn (fun _ => rfl) d hdc]
    exact h.dsn m w hsm d hw hd
  case known =>
    intro d hd
    have hdc : d ≠ c := by
      rintro rfl
      rw [hptr, hsub', hsub] at hd
      simp at hd
    rw [hkeep PciDevice.isProbedAsSub (fun _ => rfl) d hdc, hptrs] at hd
    rw [hglobal]
    apply h.known d
    rcases hd with hd | hd
    · split at hd
      · exact absurd rfl hd
      · exact .inl hd
    · exact .inr hd
  case valid =>
    intro d hd
    have hdc : d ≠ c := by
      rintro rfl
      rw [hsub', hsub] at hd
      cases hd
    rw [hkeep PciDevice.isProbedAsSub (fun _ => rfl) d hdc] at hd
    rw [hkeep PciDevice.indexValid (fun _ => rfl) d hdc]
    exact h.valid d hd
  case main =>
    intro d hd
    have hdc : d ≠ c := by
      rintro rfl
      rw [hmain'] at hd
      cases hd
    rw [hkeep PciDevice.isProbedAsMain (fun _ => rfl) d hdc] at hd
    obtain ⟨m, w, hm, hw, hwpci⟩ := h.main d hd
    have hmn : m ≠ n := by
      rintro rfl
      rw [hn, Option.some.injEq] at hw
      exact hdc (hwpci.symm.trans ((congrArg NfbDevice.pci hw).symm.trans hpci))
    have hout : d ∉ v.pciDevices := by
      rw [hin, hm, Option.some.injEq]
      exact hmn
    exact ⟨m, w, by rw [hptrs, if_neg hout, hm], by rw [hnfb, Function.update_of_ne hmn, hw], hwpci⟩
  case bound =>
    intro d
    rw [hdrv]
    by_cases hdc : d = c
    · subst hdc
      rw [Function.update_self, hmain', hsub', hsub]
      rfl
    · rw [Function.update_of_ne hdc, hkeep PciDevice.isProbedAsMain (fun _ => rfl) d hdc,
        hkeep PciDevice.isProbedAsSub (fun _ => rfl) d hdc]
      exact h.bound d
  case apart =>
    intro d hd
    have hdc : d ≠ c := by
      rintro rfl
      rw [hmain'] at hd
      cases hd
    rw [hkeep PciDevice.isProbedAsMain (fun _ => rfl) d hdc] at hd
    rw [hkeep PciDevice.isProbedAsSub (fun _ => rfl) d hdc]
    exact h.apart d hd
  case fresh =>
    intro m hm
    rw [hnext] at hm
    rw [hnfb]
    by_cases hmn : m = n
    · rw [hmn, Function.update_self]
    · rw [Function.update_of_ne hmn]
      exact h.fresh m hm

theorem erase_of_free (h : Inv s) {m : Nat} (hm : (s.device c).nfb ≠ some m) :
    s.nfb m = (s.nfb m).map fun v => { v with pciDevices := v.pciDevices.erase c } := by
  cases hv : s.nfb m with
  | none => rfl
  | some v =>
    have hout : c ∉ v.pciDevices := fun hmem => hm ((h.attached c m).2 ⟨v, hv, hmem⟩)
    rw [Option.map_some, List.erase_of_not_mem hout]

theorem remove_main_inv (h : Inv s) (hmain : (s.device c).isProbedAsMain) :
    Inv (nfbPciRemove c s) ∧ ∀ n, (s.device c).nfb = some n → (nfbPciRemove c s).nfb n = none := by
  obtain ⟨n, v, hptr, hn, hpci⟩ := h.main c hmain
  have hsub := h.apart c hmain
  have hmem : c ∈ v.pciDevices := by
    obtain ⟨w, hw, hmem⟩ := (h.attached c n).1 hptr
    rw [hn, Option.some.injEq] at hw
    exact hw ▸ hmem
  have hn₁ : (s.setDevice c fun d => { d with isProbedAsMain := false }).nfb n = some v := hn
  obtain ⟨s', heq, hnfb, hglobal, hnext, hdrv', hdevice⟩ := detachList_eq v.pciDevices hn₁ rfl
  have hremove : nfbPciRemove c s = ((s'.setNfb n none).setDevice c fun d => { d with indexValid := false }).setDrvdata c false := by
    unfold nfbPciRemove
    dsimp only
    rw [if_pos hmain, hptr]
    dsimp only
    rw [nfbPciDetachEndpoints, hn₁]
    dsimp only
    rw [heq]
  have hself : (nfbPciRemove c s).device c = { s.device c with isProbedAsMain := false, nfb := none, indexValid := false } := by
    rw [hremove]
    show (s'.setDevice c fun d => { d with indexValid := false }).device c = _
    rw [setDevice_self, hdevice, if_pos hmem, setDevice_self]
  have hnfb' : (nfbPciRemove c s).nfb = Function.update s.nfb n none := by
    rw [hremove]
    show Function.update s'.nfb n none = _
    rw [hnfb]
    exact Function.update_idem ..
  refine ⟨h.removeMain hptr hn hpci hsub hnfb' ?_ ?_ ?_ ?_ ?_ ?_ ?_, ?_⟩
  · intro d hd
    rw [hremove]
    show (s'.setDevice c fun d => { d with indexValid := false }).device d = _
    rw [setDevice_of_ne s' _ hd, hdevice, setDevice_of_ne s _ hd]
  · rw [hself]
  · rw [hself]
  · rw [hself]
  · rw [hremove]
    show Function.update s'.drvdata c false = _
    rw [hdrv']
    rfl
  · rw [hremove]
    exact hglobal
  · rw [hremove]
    exact hnext
  · intro m hm
    rw [hptr, Option.some.injEq] at hm
    rw [← hm, hnfb', Function.update_self]

theorem remove_sub_inv (h : Inv s) (hmain : (s.device c).isProbedAsMain = false) (hsub : (s.device c).isProbedAsSub) :
    Inv (nfbPciRemove c s) := by
  unfold nfbPciRemove
  dsimp only
  rw [if_neg (by rw [hmain]; exact Bool.noConfusion), if_pos hsub]
  cases hptr : (s.device c).nfb with
  | none =>
    refine h.removeSub hmain { s.device c with isProbedAsSub := false, indexValid := false }
      (fun m => erase_of_free h (by rw [hptr]; exact (Option.some_ne_none m).symm)) ?_ rfl rfl rfl hptr hmain rfl
    simp [AttachState.setDevice, AttachState.setDrvdata, Function.update_idem]
  | some n =>
    obtain ⟨v, hn, hmem⟩ := (h.attached c n).1 hptr
    dsimp only
    rw [detach_eq hn hmem]
    refine h.removeSub hmain { s.device c with nfb := none, isProbedAsSub := false, indexValid := false }
      (fun m => ?_) ?_ rfl rfl rfl rfl hmain rfl
    · by_cases hm : m = n
      · subst hm
        rw [hn]
        exact Function.update_self ..
      · rw [← erase_of_free h (by rw [hptr, ne_eq, Option.some.injEq]; exact Ne.symm hm)]
        exact Function.update_of_ne hm ..
    · simp [AttachState.setDevice, AttachState.setDrvdata, AttachState.setNfb, Function.update_idem]

theorem remove_inv (h : Inv s) (hdrv : s.drvdata c = true) :
    Inv (nfbPciRemove c s) ∧
      ((s.device c).isProbedAsMain → ∀ n, (s.device c).nfb = some n → (nfbPciRemove c s).nfb n = none) := by
  by_cases hmain : (s.device c).isProbedAsMain
  · exact ⟨(remove_main_inv h hmain).1, fun _ => (remove_main_inv h hmain).2⟩
  · have hsub : (s.device c).isProbedAsSub := by
      have hbound := h.bound c
      rw [hdrv] at hbound
      simpa [hmain] using hbound.symm
    exact ⟨remove_sub_inv h (by simpa using hmain) hsub, fun hm => absurd hm hmain⟩

end

/-! ## Every run -/

theorem Inv.gone (h : Inv s) {n : Nat} (hn : s.nfb n = none) (d : Nat) : (s.device d).nfb ≠ some n := by
  intro hd
  obtain ⟨v, hv, -⟩ := (h.attached d n).1 hd
  rw [hn] at hv
  cases hv

theorem step_inv (h : Inv s) {call : Call} (hallowed : Allowed s call) (hsafe : Safe s call) : Inv (step s call) ∧ Released s call := by
  cases call with
  | probe c e =>
    obtain ⟨hinv, hfail⟩ := probe_inv h hallowed hsafe
    exact ⟨hinv, fun hret d => hinv.gone (hfail hret) d⟩
  | remove c =>
    obtain ⟨hinv, hnone⟩ := remove_inv h hallowed
    exact ⟨hinv, fun hmain n hn d => hinv.gone (hnone hmain n hn) d⟩

theorem run_inv {calls : List Call} (h : Run Safe calls s) : Inv s := by
  induction h with
  | init => exact Inv.init
  | step run allowed meets ih => exact (step_inv ih allowed meets).1

/-- In a run whose calls all meet the condition the attachment is right in every state, and every call releases what it has to. -/
theorem safe_run_attached {calls : List Call} {s : AttachState} (h : Run Safe calls s) :
    Attached s ∧ ∀ call, Allowed s call → Safe s call → Released s call :=
  ⟨(run_inv h).toAttached, fun _ hallowed hsafe => (step_inv (run_inv h) hallowed hsafe).2⟩

/-- Two endpoints of one card: 0 is probed as main, 1 as sub. -/
def twoEndpoints (driverData : Option U16) (probe : Int) : Env where
  vendor _ := 0x1b26
  device c := if c = 0 then 0xc1c1 else 0xc1c0
  dsn _ := 7
  endpointId c := c
  cardName _ := none
  alloc _ := true
  buses := []
  driverData := driverData
  inject := false
  base := 0
  create := 0
  fdt := 0
  probe := probe

def mainCall : Call := .probe 0 (twoEndpoints (some 0xc1c0) 0)

def subCall : Call := .probe 1 (twoEndpoints none 0)

theorem late_endpoint_attached :
    ((step (step .init mainCall) subCall).device 1).nfb = some 0 ∧ Attached (step (step .init mainCall) subCall) := by
  have hmain : Run Safe [mainCall] (step .init mainCall) :=
    .step .init rfl ⟨fun _ hd => absurd rfl hd, fun _ _ _ _ _ _ => ⟨rfl, rfl⟩⟩
  have hread : Rereads (twoEndpoints none 0) (step .init mainCall) := by
    intro d
    cases d with
    | zero => exact fun _ hvoid => absurd (show ((step .init mainCall).device 0).indexValid by decide) hvoid
    | succ d => exact fun hd => absurd rfl hd
  have hsub : Run Safe [mainCall, subCall] (step (step .init mainCall) subCall) :=
    .step hmain (show (step .init mainCall).drvdata 1 = false by decide) ⟨hread, fun _ _ _ _ _ _ => ⟨by decide, rfl⟩⟩
  exact ⟨by decide, (safe_run_attached hsub).1⟩

/-- When `nfb_probe` fails, the NFB device is destroyed and the endpoint still points to it. -/
theorem failed_probe_dangles : ¬∀ calls s, Run (fun _ _ => True) calls s → Attached s := by
  intro hall
  have hrun : Run (fun _ _ => True) [.probe 0 (twoEndpoints (some 0xc1c0) (-5))]
    (step .init (.probe 0 (twoEndpoints (some 0xc1c0) (-5)))) := .step .init rfl trivial
  obtain ⟨v, hv, -⟩ := (hall _ _ hrun).live 0 0 (by decide)
  cases hv

end NdkSw.Attach

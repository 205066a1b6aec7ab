/-
The mappings of the MI bus (`mi.c`): every bus node of the device tree names a BAR of an endpoint. While the endpoint is
there, the BAR is mapped and applications reach it through a window of the device file, which the device tree describes.
The handler of these windows searches the nodes again, by fields that outlive the mapping: a node without a mapping
that stands in front of the right one can take its requests. An invariant ties nodes, windows, regions and device tree
together, and for every request it is said when the search ends at the right place.
-/
import Mathlib.Data.List.TakeWhile
import NdkSw.Nfb.CharMmap

namespace NdkSw.Nfb.MiMap

open Ndp Ring

/-! ## Data model -/

/-- A BAR (`pci_resource_start`, `pci_resource_len`): a range of physical addresses. -/
structure PciResource where
  start : U64
  len : U64
  fits : start.toNat + len.toNat ≤ 2 ^ 64

/-- `struct nfb_pci_device`; `pci` stands for the pointer. -/
structure NfbPciDevice where
  pci : Nat
  index : Int
  resource : Int → PciResource

/-- `struct nfb_mi_node`; `memVirt` says that the pointer is not NULL. -/
structure NfbMiNode where
  memPhys : U64
  memLen : U64
  memVirt : Bool
  pciIndex : Int
  bar : Int
  mmapOffset : U64

/-- Who has registered a window: `nfb_mi_map` for a node, or another driver. `nfb_mi_mmap` is not told the node. -/
inductive Handler
  | mi (node : Nat)
  | other
  deriving DecidableEq, Repr

/-- `struct nfb_mi` with what it shares with the device: the windows, the memory regions that the driver holds, `mmap_base` and
`mmap_size` of the nodes below `/drivers/mi`, and the endpoints. The nodes stand at addresses. -/
structure NfbMi where
  nodeList : List Nat
  node : Nat → NfbMiNode
  mmap : List (NfbCharMmapMod Handler)
  regions : List (U64 × U64)
  fdt : Int × Int → Option (U64 × U64)
  pciDevices : List NfbPciDevice

def NfbMiNode.region (n : NfbMiNode) : U64 × U64 := (n.memPhys, n.memLen)

/-- The device tree names a node by its BAR. -/
def NfbMiNode.key (n : NfbMiNode) : Int × Int := (n.pciIndex, n.bar)

def PciResource.region (r : PciResource) : U64 × U64 := (r.start, r.len)

/-- Two regions overlap. -/
def Conflicts (r x : U64 × U64) : Prop := r.1.toNat < x.1.toNat + x.2.toNat ∧ x.1.toNat < r.1.toNat + r.2.toNat

instance (r x : U64 × U64) : Decidable (Conflicts r x) := inferInstanceAs (Decidable (_ ∧ _))

/-- What fails in a mapping: the request for the region, because somebody else has it, `ioremap`, or the allocation of
the window. -/
structure MapEnv where
  region : Bool
  ioremap : Bool
  alloc : Bool

def NfbMi.setNode (s : NfbMi) (a : Nat) (n : NfbMiNode) : NfbMi := { s with node := Function.update s.node a n }

/-- `fdt_setprop_u64` of both properties, on a node that may be missing. -/
def NfbMi.setProps (s : NfbMi) (key : Int × Int) (base size : U64) : NfbMi :=
  { s with fdt := Function.update s.fdt key ((s.fdt key).map fun _ => (base, size)) }

/-! ## Calls -/

/-- `nfb_mi_map`. -/
def nfbMiMap (e : MapEnv) (s : NfbMi) (a : Nat) (dev : NfbPciDevice) : NfbMi × Int :=
  let bar := dev.resource (s.node a).bar
  let n := { s.node a with memPhys := bar.start, memLen := bar.len }
  if e.region = false ∨ ∃ x ∈ s.regions, Conflicts n.region x then (s.setNode a n, eBadf)
  else if e.ioremap = false then (s.setNode a { n with memVirt := false }, eBadf)
  else
    match nfbCharRegisterMmap e.alloc n.memLen (.mi a) s.mmap with
    | (mmap, ret, offset) =>
      let n := { n with mmapOffset := offset.getD n.mmapOffset }
      if ret ≠ 0 then (s.setNode a { n with memVirt := false }, eBadf)
      else
        ({ s with mmap, regions := n.region :: s.regions }.setNode a { n with memVirt := true }
          |>.setProps n.key n.mmapOffset n.memLen, 0)

/-- `nfb_mi_unmap`. -/
def nfbMiUnmap (s : NfbMi) (a : Nat) : NfbMi :=
  let n := s.node a
  if n.memVirt then
    { s with mmap := (nfbCharUnregisterMmap n.mmapOffset s.mmap).1, regions := s.regions.filter (· ≠ n.region) }.setNode a
      { n with memVirt := false } |>.setProps n.key 0 0
  else s

/-- The new node of `nfb_mi_attach_bus` at the head of the list, with its properties in the device tree unless these
exist. -/
def NfbMi.addNode (s : NfbMi) (pciIndex bar : Int) : NfbMi :=
  { s with
    nodeList := s.nodeList.length :: s.nodeList
    node := Function.update s.node s.nodeList.length
      { memPhys := 0, memLen := 0, memVirt := false, pciIndex, bar, mmapOffset := 0 }
    fdt := Function.update s.fdt (pciIndex, bar) (some ((s.fdt (pciIndex, bar)).getD (0, 0))) }

/-- `nfb_mi_attach_bus`; `resource` is what `sscanf` finds in the property, `alloc` and `path` say if there is memory for
the node and room for its path. -/
def nfbMiAttachBus (resource : Option (Int × Int)) (alloc path : Bool) (e : MapEnv) (s : NfbMi) : NfbMi × Int :=
  match resource with
  | none => (s, eInval)
  | some (pciIndex, bar) =>
    if alloc = false then (s, eNomem)
    else if path = false then (s, eNodev)
    else
      match s.pciDevices.find? (·.index = pciIndex) with
      | none => (s.addNode pciIndex bar, eNodev)
      | some dev => ((nfbMiMap e (s.addNode pciIndex bar) s.nodeList.length dev).1, eNodev)

/-- The body of the loop of `nfb_mi_probe_endpoint`. -/
def probeNode (e : Nat → MapEnv) (dev : NfbPciDevice) (s : NfbMi) (a : Nat) : NfbMi :=
  if (s.node a).pciIndex = dev.index then (nfbMiMap (e a) s a dev).1 else s

def nfbMiProbeEndpoint (e : Nat → MapEnv) (dev : NfbPciDevice) (s : NfbMi) : NfbMi :=
  run (probeNode e dev) s s.nodeList

/-- The body of the loop of `nfb_mi_remove_endpoint`. -/
def removeNode (dev : NfbPciDevice) (s : NfbMi) (a : Nat) : NfbMi :=
  if (s.node a).pciIndex = dev.index then nfbMiUnmap s a else s

def nfbMiRemoveEndpoint (dev : NfbPciDevice) (s : NfbMi) : NfbMi := run (removeNode dev) s s.nodeList

/-- The test of `nfb_mi_mmap` on a node. -/
def NfbMiNode.covers (n : NfbMiNode) (offset size : U64) : Bool :=
  n.mmapOffset ≤ offset ∧ n.mmapOffset + n.memLen ≥ offset + size

/-- The physical address that `nfb_mi_mmap` takes for an offset. -/
def NfbMiNode.physOf (n : NfbMiNode) (offset : U64) : U64 := n.memPhys + (offset - n.mmapOffset)

/-- `nfb_mi_mmap`: the first page frame of the range that gets mapped, if there is one. -/
def nfbMiMmap (s : NfbMi) (offset size : U64) : Option U64 :=
  (s.nodeList.find? fun a => (s.node a).covers offset size).map fun a => (s.node a).physOf offset >>> 12

/-! ## System -/

/-- `nfb_pci_attach_endpoint`. -/
def NfbMi.attachEndpoint (s : NfbMi) (dev : NfbPciDevice) : NfbMi := { s with pciDevices := dev :: s.pciDevices }

/-- `nfb_pci_detach_endpoint`. -/
def NfbMi.detachEndpoint (s : NfbMi) (dev : NfbPciDevice) : NfbMi :=
  { s with pciDevices := s.pciDevices.eraseP (·.pci = dev.pci) }

/-- An endpoint appears after it got on the list of the device, and leaves the list after it has disappeared. The windows of
other drivers come and go as well. -/
inductive Act
  | attachBus (resource : Option (Int × Int)) (alloc path : Bool) (e : MapEnv)
  | probeEndpoint (dev : NfbPciDevice) (e : Nat → MapEnv)
  | removeEndpoint (dev : NfbPciDevice)
  | register (size : U64) (alloc : Bool)
  | unregister (offset : U64)

def step (s : NfbMi) : Act → NfbMi
  | .attachBus resource alloc path e => (nfbMiAttachBus resource alloc path e s).1
  | .probeEndpoint dev e => nfbMiProbeEndpoint e dev (s.attachEndpoint dev)
  | .removeEndpoint dev => (nfbMiRemoveEndpoint dev s).detachEndpoint dev
  | .register size alloc => { s with mmap := (nfbCharRegisterMmap alloc size .other s.mmap).1 }
  | .unregister offset =>
    -- a driver gives back what it has registered
    if ∃ w ∈ s.mmap, w.offset = offset ∧ w.mmap = .other then { s with mmap := (nfbCharUnregisterMmap offset s.mmap).1 }
    else s

/-- `nfb_mi_attach` before the buses. -/
def nfbMiAttach : NfbMi where
  nodeList := []
  node _ := { memPhys := 0, memLen := 0, memVirt := false, pciIndex := 0, bar := 0, mmapOffset := 0 }
  mmap := []
  regions := []
  fdt _ := none
  pciDevices := []

/-! ## Lemmas on states -/

section States

variable (s : NfbMi) (a b : Nat) (n : NfbMiNode)

@[simp] theorem setNode_node : (s.setNode a n).node b = if b = a then n else s.node b := Function.update_apply ..
@[simp] theorem setNode_nodeList : (s.setNode a n).nodeList = s.nodeList := rfl
@[simp] theorem setNode_mmap : (s.setNode a n).mmap = s.mmap := rfl
@[simp] theorem setNode_regions : (s.setNode a n).regions = s.regions := rfl
@[simp] theorem setNode_fdt : (s.setNode a n).fdt = s.fdt := rfl

variable (key : Int × Int) (base size : U64)

@[simp] theorem setProps_node : (s.setProps key base size).node = s.node := rfl
@[simp] theorem setProps_nodeList : (s.setProps key base size).nodeList = s.nodeList := rfl
@[simp] theorem setProps_mmap : (s.setProps key base size).mmap = s.mmap := rfl
@[simp] theorem setProps_regions : (s.setProps key base size).regions = s.regions := rfl

theorem setProps_fdt (k : Int × Int) :
    (s.setProps key base size).fdt k = if k = key then (s.fdt key).map fun _ => (base, size) else s.fdt k :=
  Function.update_apply ..

end States

/-! ## Invariant -/

/-- The window that the fields of a node describe. -/
def NfbMi.window (s : NfbMi) (a : Nat) : NfbCharMmapMod Handler := ⟨(s.node a).memLen, (s.node a).mmapOffset, .mi a⟩

/-- What belongs to a node with a mapping: its window, its region and its properties. -/
structure Mapped (s : NfbMi) (a : Nat) : Prop where
  window : s.window a ∈ s.mmap
  held : (s.node a).region ∈ s.regions
  described : s.fdt (s.node a).key = some ((s.node a).mmapOffset, (s.node a).memLen)
  fits : (s.node a).memPhys.toNat + (s.node a).memLen.toNat ≤ 2 ^ 64

/-- The nodes of the list with a mapping. -/
def NfbMi.Live (s : NfbMi) (a : Nat) : Prop := a ∈ s.nodeList ∧ (s.node a).memVirt = true

structure Inv (s : NfbMi) : Prop where
  windows : Windows s.mmap
  below : ∀ a ∈ s.nodeList, a < s.nodeList.length
  mapped : ∀ a, s.Live a → Mapped s a
  owned : ∀ w ∈ s.mmap, ∀ a, w.mmap = .mi a → s.Live a ∧ w = s.window a
  regions : ∀ r ∈ s.regions, ∃ a, s.Live a ∧ (s.node a).region = r
  apart : ∀ a b, s.Live a → s.Live b → (s.node a).region = (s.node b).region → a = b
  keys : ∀ a b, s.Live a → s.Live b → (s.node a).key = (s.node b).key → a = b
  props : ∀ a ∈ s.nodeList, (s.fdt (s.node a).key).isSome = true
  idle : ∀ k, (∀ a, s.Live a → (s.node a).key ≠ k) → (s.fdt k).getD (0, 0) = (0, 0)

/-! ## Conditions -/

/-- The nodes that are mapped for the index of the endpoint are mapped to its BARs: no other endpoint with the index is
there. -/
def OneEndpoint (s : NfbMi) (dev : NfbPciDevice) : Prop :=
  ∀ b ∈ s.nodeList, (s.node b).memVirt = true → (s.node b).pciIndex = dev.index →
    (s.node b).region = (dev.resource (s.node b).bar).region

instance (s : NfbMi) (dev : NfbPciDevice) : Decidable (OneEndpoint s dev) := List.decidableBAll _ _

/-- The window of a node, if it got one, does not wrap. -/
def MapFits (s : NfbMi) (a : Nat) (dev : NfbPciDevice) : Prop :=
  NoWrap s.mmap (.register (dev.resource (s.node a).bar).len (.mi a) true)

instance (s : NfbMi) (a : Nat) (dev : NfbPciDevice) : Decidable (MapFits s a dev) := inferInstanceAs (Decidable (NoWrap _ _))

/-- No window wraps, and no two endpoints have one index at a time. -/
def Clean (s : NfbMi) : Act → Prop
  | .attachBus none _ _ _ => True
  | .attachBus (some (pciIndex, bar)) _ _ _ => ∀ dev ∈ s.pciDevices.find? (·.index = pciIndex),
      OneEndpoint s dev ∧ MapFits (s.addNode pciIndex bar) s.nodeList.length dev
  | .probeEndpoint dev e => OneEndpoint s dev ∧
      Meets (probeNode e dev) (fun s a => (s.node a).pciIndex = dev.index → MapFits s a dev) (s.attachEndpoint dev) s.nodeList
  | .removeEndpoint _ => True
  | .register size alloc => NoWrap s.mmap (.register size .other alloc)
  | .unregister _ => True

instance (s : NfbMi) : (a : Act) → Decidable (Clean s a)
  | .attachBus none _ _ _ | .removeEndpoint _ | .unregister _ => inferInstanceAs (Decidable True)
  | .attachBus (some (pciIndex, bar)) _ _ _ => inferInstanceAs (Decidable (∀ dev ∈ s.pciDevices.find? (·.index = pciIndex),
      OneEndpoint s dev ∧ MapFits (s.addNode pciIndex bar) s.nodeList.length dev))
  | .probeEndpoint dev e => inferInstanceAs (Decidable (OneEndpoint s dev ∧
      Meets (probeNode e dev) (fun s a => (s.node a).pciIndex = dev.index → MapFits s a dev) (s.attachEndpoint dev) s.nodeList))
  | .register size alloc => inferInstanceAs (Decidable (NoWrap s.mmap (.register size .other alloc)))

/-! ## Single nodes -/

theorem Inv.init : Inv nfbMiAttach := by
  constructor <;> simp [nfbMiAttach, NfbMi.Live, Windows.nil]

section Node

variable {s : NfbMi} {a : Nat} {dev : NfbPciDevice}

theorem live_setNode {n : NfbMiNode} (hv : n.memVirt = false) (b : Nat) : (s.setNode a n).Live b ↔ b ≠ a ∧ s.Live b := by
  unfold NfbMi.Live
  by_cases hb : b = a
  · simp [hb, hv]
  · simp [hb]

/-- The fields of a node without a mapping are free. -/
theorem Inv.setIdle (hI : Inv s) (ha : ¬s.Live a) {n : NfbMiNode} (hv : n.memVirt = false) (hk : n.key = (s.node a).key) :
    Inv (s.setNode a n) := by
  have hne : ∀ b, s.Live b → b ≠ a := fun b hb hba => ha (hba ▸ hb)
  have hlive : ∀ b, (s.setNode a n).Live b ↔ s.Live b := fun b => by
    rw [live_setNode hv]
    exact ⟨And.right, fun hb => ⟨hne b hb, hb⟩⟩
  have hnode : ∀ b, s.Live b → (s.setNode a n).node b = s.node b := fun b hb => by rw [setNode_node, if_neg (hne b hb)]
  have hkey : ∀ b, ((s.setNode a n).node b).key = (s.node b).key := fun b => by
    rw [setNode_node]
    split
    · next h => rw [hk, h]
    · rfl
  have hwin : ∀ b, s.Live b → (s.setNode a n).window b = s.window b := fun b hb => by
    unfold NfbMi.window
    rw [hnode b hb]
  constructor
  case windows => exact hI.windows
  case below => exact hI.below
  case mapped =>
    intro b hb
    have hb := (hlive b).1 hb
    obtain ⟨h1, h2, h3, h4⟩ := hI.mapped b hb
    refine ⟨?_, ?_, ?_, ?_⟩
    · rwa [hwin b hb]
    · rwa [hnode b hb]
    · rwa [hnode b hb]
    · rwa [hnode b hb]
  case owned =>
    intro w hw b hwb
    obtain ⟨hb, rfl⟩ := hI.owned w hw b hwb
    exact ⟨(hlive b).2 hb, (hwin b hb).symm⟩
  case regions =>
    intro r hr
    obtain ⟨b, hb, rfl⟩ := hI.regions r hr
    exact ⟨b, (hlive b).2 hb, by rw [hnode b hb]⟩
  case apart =>
    intro b c hb hc heq
    rw [hlive] at hb hc
    rw [hnode b hb, hnode c hc] at heq
    exact hI.apart b c hb hc heq
  case keys =>
    intro b c hb hc heq
    rw [hlive] at hb hc
    rw [hnode b hb, hnode c hc] at heq
    exact hI.keys b c hb hc heq
  case props =>
    intro b hb
    rw [hkey]
    exact hI.props b hb
  case idle =>
    intro k hno
    refine hI.idle k fun c hc => ?_
    rw [← hkey c]
    exact hno c ((hlive c).2 hc)

theorem nfbMiMap_live (hI : Inv s) (ha : s.Live a) (e : MapEnv) (hd : (s.node a).region = (dev.resource (s.node a).bar).region) :
    (nfbMiMap e s a dev).1 = s := by
  have hm := hI.mapped a ha
  have h0 : 0 < (s.node a).memLen.toNat := hI.windows.nonempty _ hm.window
  obtain ⟨hphys, hlen⟩ := Prod.mk.inj hd
  have hself : ({ s.node a with memPhys := (dev.resource (s.node a).bar).start
                                memLen := (dev.resource (s.node a).bar).len } : NfbMiNode) = s.node a := by
    rw [← hphys, ← hlen]
  have hconf : ∃ x ∈ s.regions, Conflicts (s.node a).region x :=
    ⟨_, hm.held, Nat.lt_add_of_pos_right h0, Nat.lt_add_of_pos_right h0⟩
  unfold nfbMiMap
  simp only [hself]
  rw [if_pos (Or.inr hconf)]
  unfold NfbMi.setNode
  rw [Function.update_eq_self]

theorem nfbMiMap_cases (e : MapEnv) (s : NfbMi) (a : Nat) (dev : NfbPciDevice) :
    (∃ n : NfbMiNode, (nfbMiMap e s a dev).1 = s.setNode a n ∧ n.key = (s.node a).key ∧
        (n.memVirt = false ∨ n.memVirt = (s.node a).memVirt)) ∨
      ∃ n : NfbMiNode, (nfbMiMap e s a dev).1 = ({ s with
          mmap := (insertMmap n.memLen (Handler.mi a) 0 s.mmap).2, regions := n.region :: s.regions }.setNode a n).setProps
            n.key n.mmapOffset n.memLen ∧
        n.key = (s.node a).key ∧ n.region = (dev.resource (s.node a).bar).region ∧ n.memVirt = true ∧ n.memLen ≠ 0 ∧
        (∀ x ∈ s.regions, ¬Conflicts n.region x) ∧ n.mmapOffset = (insertMmap n.memLen (Handler.mi a) 0 s.mmap).1 := by
  unfold nfbMiMap
  dsimp only
  split
  · exact Or.inl ⟨_, rfl, rfl, Or.inr rfl⟩
  next hreg =>
  push Not at hreg
  split
  · exact Or.inl ⟨_, rfl, rfl, Or.inl rfl⟩
  by_cases h0 : (dev.resource (s.node a).bar).len = 0
  · rw [nfbCharRegisterMmap, if_pos h0]
    exact Or.inl ⟨_, rfl, rfl, Or.inl rfl⟩
  · rw [nfbCharRegisterMmap, if_neg h0]
    cases e.alloc with
    | false => exact Or.inl ⟨_, rfl, rfl, Or.inl rfl⟩
    | true => exact Or.inr ⟨_, rfl, rfl, rfl, rfl, h0, hreg.2, rfl⟩

/-- Mapping a node that has no mapping, while no other endpoint has the index. -/
theorem Inv.map (hI : Inv s) (ha : a ∈ s.nodeList) (hv : ¬s.Live a) (e : MapEnv) (hix : (s.node a).pciIndex = dev.index)
    (hone : OneEndpoint s dev) (hfit : MapFits s a dev) : Inv (nfbMiMap e s a dev).1 := by
  have hv' : (s.node a).memVirt = false := by
    by_contra h
    exact hv ⟨ha, by simpa using h⟩
  rcases nfbMiMap_cases e s a dev with ⟨n, heq, hk, hvirt⟩ | ⟨n, heq, hk, hr, hvirt, h0, hfree, ho⟩
  · rw [heq]
    exact hI.setIdle hv (hvirt.elim id fun h => h.trans hv') hk
  rw [heq]
  obtain ⟨hphys, hlen⟩ := Prod.mk.inj hr
  have hp : Placed n.memLen (.mi a) 0 s.mmap n.mmapOffset (insertMmap n.memLen (Handler.mi a) 0 s.mmap).2 := by
    rw [ho]
    refine hI.windows.placed h0 ?_
    rw [hlen]
    exact hfit
  have hpos := hp.windows.nonempty ⟨n.memLen, n.mmapOffset, .mi a⟩ (hp.perm.mem_iff.2 List.mem_cons_self)
  generalize (insertMmap n.memLen (Handler.mi a) 0 s.mmap).2 = l' at hp
  have hne : ∀ b, s.Live b → b ≠ a := fun b hb hba => hv (hba ▸ hb)
  -- a node with the same name or the same region would have been in the way
  have hreg : ∀ b, s.Live b → (s.node b).region ≠ n.region := fun b hb hbr => by
    refine hfree _ (hI.mapped b hb).held ?_
    rw [hbr]
    exact ⟨Nat.lt_add_of_pos_right hpos, Nat.lt_add_of_pos_right hpos⟩
  have hkey : ∀ b, s.Live b → (s.node b).key ≠ (s.node a).key := fun b hb hbk => by
    obtain ⟨hbi, hbb⟩ := Prod.mk.inj hbk
    refine hreg b hb ?_
    rw [hone b hb.1 hb.2 (hbi.trans hix), hbb, hr]
  obtain ⟨u, hu⟩ := Option.isSome_iff_exists.1 (hI.props a ha)
  rw [← hk] at hu
  generalize hs' : NfbMi.setProps _ _ _ _ = s'
  have hself : s'.node a = n := by rw [← hs', setProps_node, setNode_node, if_pos rfl]
  have hnode : ∀ b, b ≠ a → s'.node b = s.node b := fun b hb => by rw [← hs', setProps_node, setNode_node, if_neg hb]
  have hlist : s'.nodeList = s.nodeList := by rw [← hs']; rfl
  have hmmap : s'.mmap = l' := by rw [← hs']; rfl
  have hregs : s'.regions = n.region :: s.regions := by rw [← hs']; rfl
  have hfdt : ∀ k, s'.fdt k = if k = n.key then some (n.mmapOffset, n.memLen) else s.fdt k := fun k => by
    rw [← hs', setProps_fdt]
    show (if k = n.key then (s.fdt n.key).map _ else _) = _
    rw [hu]
    rfl
  have hlive : ∀ b, s'.Live b ↔ b = a ∨ s.Live b := fun b => by
    unfold NfbMi.Live
    rw [hlist]
    by_cases hb : b = a
    · simp [hb, hself, ha, hvirt]
    · simp [hb, hnode b hb]
  have hkeyEq : ∀ b, (s'.node b).key = (s.node b).key := fun b => by
    by_cases hb : b = a
    · rw [hb, hself, hk]
    · rw [hnode b hb]
  have hwself : s'.window a = ⟨n.memLen, n.mmapOffset, .mi a⟩ := by unfold NfbMi.window; rw [hself]
  have hwin : ∀ b, b ≠ a → s'.window b = s.window b := fun b hb => by unfold NfbMi.window; rw [hnode b hb]
  constructor
  case windows => exact hmmap ▸ hp.windows
  case below => exact hlist ▸ hI.below
  case mapped =>
    intro b hb
    rcases (hlive b).1 hb with rfl | hb
    · refine ⟨?_, ?_, ?_, ?_⟩
      · rw [hwself, hmmap]
        exact hp.perm.mem_iff.2 List.mem_cons_self
      · rw [hself, hregs]
        exact List.mem_cons_self
      · rw [hself, hfdt, if_pos rfl]
      · rw [hself, hphys, hlen]
        exact (dev.resource _).fits
    · obtain ⟨h1, h2, h3, h4⟩ := hI.mapped b hb
      refine ⟨?_, ?_, ?_, ?_⟩
      · rw [hwin b (hne b hb), hmmap]
        exact hp.perm.mem_iff.2 (List.mem_cons_of_mem _ h1)
      · rw [hnode b (hne b hb), hregs]
        exact List.mem_cons_of_mem _ h2
      · rw [hnode b (hne b hb), hfdt, if_neg (fun h => hkey b hb (h.trans hk)), h3]
      · rwa [hnode b (hne b hb)]
  case owned =>
    intro w hw b hwb
    rw [hmmap] at hw
    rcases List.mem_cons.1 (hp.perm.mem_iff.1 hw) with rfl | hw
    · cases hwb
      exact ⟨(hlive a).2 (Or.inl rfl), hwself.symm⟩
    · obtain ⟨hb, rfl⟩ := hI.owned w hw b hwb
      exact ⟨(hlive b).2 (Or.inr hb), (hwin b (hne b hb)).symm⟩
  case regions =>
    intro r hr
    rw [hregs] at hr
    rcases List.mem_cons.1 hr with rfl | hr
    · exact ⟨a, (hlive a).2 (Or.inl rfl), by rw [hself]⟩
    · obtain ⟨b, hb, rfl⟩ := hI.regions r hr
      exact ⟨b, (hlive b).2 (Or.inr hb), by rw [hnode b (hne b hb)]⟩
  case apart =>
    intro b c hb hc hbc
    rcases (hlive b).1 hb with rfl | hb <;> rcases (hlive c).1 hc with rfl | hc
    · rfl
    · rw [hself, hnode c (hne c hc)] at hbc
      exact absurd hbc.symm (hreg c hc)
    · rw [hself, hnode b (hne b hb)] at hbc
      exact absurd hbc (hreg b hb)
    · rw [hnode b (hne b hb), hnode c (hne c hc)] at hbc
      exact hI.apart b c hb hc hbc
  case keys =>
    intro b c hb hc hbc
    rw [hkeyEq, hkeyEq] at hbc
    rcases (hlive b).1 hb with rfl | hb <;> rcases (hlive c).1 hc with rfl | hc
    · rfl
    · exact absurd hbc.symm (hkey c hc)
    · exact absurd hbc (hkey b hb)
    · exact hI.keys b c hb hc hbc
  case props =>
    intro b hb
    rw [hkeyEq, hfdt]
    split
    · rfl
    · exact hI.props b (hlist ▸ hb)
  case idle =>
    intro k hno
    rw [hfdt, if_neg]
    · refine hI.idle k fun c hc => ?_
      rw [← hkeyEq c]
      exact hno c ((hlive c).2 (Or.inr hc))
    · intro h
      refine hno a ((hlive a).2 (Or.inl rfl)) ?_
      rw [hself, h]

/-- Taking the mapping away. -/
theorem Inv.unmap (hI : Inv s) (ha : a ∈ s.nodeList) : Inv (nfbMiUnmap s a) := by
  by_cases hv : (s.node a).memVirt = true
  · have hla : s.Live a := ⟨ha, hv⟩
    have hma := hI.mapped a hla
    unfold nfbMiUnmap
    dsimp only
    rw [if_pos hv, nfbCharUnregisterMmap_eq hI.windows]
    generalize hs' : NfbMi.setProps _ _ _ _ = s'
    have hnode : ∀ b, b ≠ a → s'.node b = s.node b := fun b hb => by rw [← hs', setProps_node, setNode_node, if_neg hb]
    have hlist : s'.nodeList = s.nodeList := by rw [← hs']; rfl
    have hmmap : s'.mmap = s.mmap.filter (·.offset ≠ (s.node a).mmapOffset) := by rw [← hs']; rfl
    have hregs : s'.regions = s.regions.filter (· ≠ (s.node a).region) := by rw [← hs']; rfl
    have hfdt : ∀ k, s'.fdt k = if k = (s.node a).key then some (0, 0) else s.fdt k := fun k => by
      rw [← hs', setProps_fdt]
      show (if k = (s.node a).key then (s.fdt (s.node a).key).map _ else _) = _
      rw [hma.described]
      rfl
    have hlive : ∀ b, s'.Live b ↔ b ≠ a ∧ s.Live b := fun b => by
      unfold NfbMi.Live
      rw [hlist]
      by_cases hb : b = a
      · simp [hb, ← hs']
      · simp [hb, hnode b hb]
    have hkeyEq : ∀ b, (s'.node b).key = (s.node b).key := fun b => by
      by_cases hb : b = a
      · rw [hb, ← hs', setProps_node, setNode_node, if_pos rfl]
        rfl
      · rw [hnode b hb]
    have hwin : ∀ b, b ≠ a → s'.window b = s.window b := fun b hb => by unfold NfbMi.window; rw [hnode b hb]
    -- the window with the offset is that of the node
    have hoff : ∀ w ∈ s.mmap, w.offset = (s.node a).mmapOffset → w = s.window a := fun w hw hwo => by
      have hrange := hI.windows.mem_range hma.window
      refine hI.windows.eq_of_common hw hma.window (hI.windows.mem_range hw) ?_
      rw [hwo]
      exact hrange
    have hkeep : ∀ b, s.Live b → b ≠ a → s.window b ∈ s'.mmap := fun b hb hba => by
      rw [hmmap, List.mem_filter]
      refine ⟨(hI.mapped b hb).window, decide_eq_true fun ho => hba ?_⟩
      have heq := congrArg NfbCharMmapMod.mmap (hoff _ (hI.mapped b hb).window ho)
      exact Handler.mi.inj heq
    constructor
    case windows =>
      have h := hI.windows.unregister (s.node a).mmapOffset
      rw [nfbCharUnregisterMmap_eq hI.windows] at h
      rwa [hmmap]
    case below => exact hlist ▸ hI.below
    case mapped =>
      intro b hb
      obtain ⟨hba, hb⟩ := (hlive b).1 hb
      obtain ⟨-, h2, h3, h4⟩ := hI.mapped b hb
      refine ⟨?_, ?_, ?_, ?_⟩
      · rw [hwin b hba]
        exact hkeep b hb hba
      · rw [hnode b hba, hregs, List.mem_filter]
        exact ⟨h2, decide_eq_true fun h => hba (hI.apart b a hb hla h)⟩
      · rw [hnode b hba, hfdt, if_neg (fun h => hba (hI.keys b a hb hla h)), h3]
      · rwa [hnode b hba]
    case owned =>
      intro w hw b hwb
      rw [hmmap, List.mem_filter] at hw
      obtain ⟨hb, rfl⟩ := hI.owned w hw.1 b hwb
      have hba : b ≠ a := by
        rintro rfl
        exact absurd rfl (of_decide_eq_true hw.2)
      exact ⟨(hlive b).2 ⟨hba, hb⟩, (hwin b hba).symm⟩
    case regions =>
      intro r hr
      rw [hregs, List.mem_filter] at hr
      obtain ⟨b, hb, rfl⟩ := hI.regions r hr.1
      have hba : b ≠ a := by
        rintro rfl
        exact absurd rfl (of_decide_eq_true hr.2)
      exact ⟨b, (hlive b).2 ⟨hba, hb⟩, by rw [hnode b hba]⟩
    case apart =>
      intro b c hb hc hbc
      obtain ⟨hba, hb⟩ := (hlive b).1 hb
      obtain ⟨hca, hc⟩ := (hlive c).1 hc
      rw [hnode b hba, hnode c hca] at hbc
      exact hI.apart b c hb hc hbc
    case keys =>
      intro b c hb hc hbc
      obtain ⟨hba, hb⟩ := (hlive b).1 hb
      obtain ⟨hca, hc⟩ := (hlive c).1 hc
      rw [hnode b hba, hnode c hca] at hbc
      exact hI.keys b c hb hc hbc
    case props =>
      intro b hb
      rw [hkeyEq, hfdt]
      split
      · rfl
      · exact hI.props b (hlist ▸ hb)
    case idle =>
      intro k hno
      rw [hfdt]
      split
      · rfl
      next hk =>
        refine hI.idle k fun c hc hck => ?_
        have hca : c ≠ a := by
          rintro rfl
          exact hk hck.symm
        refine hno c ((hlive c).2 ⟨hca, hc⟩) ?_
        rw [hkeyEq, hck]
  · unfold nfbMiUnmap
    dsimp only
    rw [if_neg hv]
    exact hI

theorem nfbMiMap_nodeList (e : MapEnv) (s : NfbMi) (a : Nat) (dev : NfbPciDevice) : (nfbMiMap e s a dev).1.nodeList = s.nodeList := by
  rcases nfbMiMap_cases e s a dev with ⟨n, heq, -⟩ | ⟨n, heq, -⟩
  · rw [heq]
    rfl
  · rw [heq]
    rfl

theorem OneEndpoint.map (hone : OneEndpoint s dev) (hv : ¬s.Live a) (e : MapEnv) : OneEndpoint (nfbMiMap e s a dev).1 dev := by
  intro b hb hbv hbi
  rw [nfbMiMap_nodeList] at hb
  by_cases hba : b = a
  · subst hba
    have hv' : (s.node b).memVirt = false := by
      by_contra h
      exact hv ⟨hb, by simpa using h⟩
    rcases nfbMiMap_cases e s b dev with ⟨n, heq, hk, hvirt⟩ | ⟨n, heq, hk, hr, -⟩
    · rw [heq, setNode_node, if_pos rfl] at hbv
      rw [hv', or_self] at hvirt
      rw [hvirt] at hbv
      cases hbv
    · rw [heq, setProps_node, setNode_node, if_pos rfl, hr, (Prod.mk.inj hk).2]
  · have hnode : (nfbMiMap e s a dev).1.node b = s.node b := by
      rcases nfbMiMap_cases e s a dev with ⟨n, heq, -⟩ | ⟨n, heq, -⟩
      · rw [heq, setNode_node, if_neg hba]
      · rw [heq, setProps_node, setNode_node, if_neg hba]
    rw [hnode] at hbv hbi ⊢
    exact hone b hb hbv hbi

end Node

/-! ## Calls keep the invariant -/

section Calls

variable {s : NfbMi} {dev : NfbPciDevice}

theorem Inv.addNode (hI : Inv s) (pciIndex bar : Int) :
    Inv (s.addNode pciIndex bar) ∧ s.nodeList.length ∈ (s.addNode pciIndex bar).nodeList ∧
      ¬(s.addNode pciIndex bar).Live s.nodeList.length ∧
      ((s.addNode pciIndex bar).node s.nodeList.length).pciIndex = pciIndex := by
  generalize hs' : s.addNode pciIndex bar = s'
  have hself : s'.node s.nodeList.length = ⟨0, 0, false, pciIndex, bar, 0⟩ := by
    rw [← hs']
    exact Function.update_self ..
  have hlist : s'.nodeList = s.nodeList.length :: s.nodeList := by rw [← hs']; rfl
  have hold : ∀ b ∈ s.nodeList, b ≠ s.nodeList.length := fun b hb => Nat.ne_of_lt (hI.below b hb)
  have hnode : ∀ b, b ≠ s.nodeList.length → s'.node b = s.node b := fun b hb => by
    rw [← hs']
    exact Function.update_of_ne hb ..
  have hfdt : ∀ k, s'.fdt k = if k = (pciIndex, bar) then some ((s.fdt k).getD (0, 0)) else s.fdt k := fun k => by
    rw [← hs']
    show Function.update _ _ _ _ = _
    rw [Function.update_apply]
    split
    · next h => rw [h]
    · rfl
  have hdead : ¬s'.Live s.nodeList.length := by
    rintro ⟨-, h⟩
    rw [hself] at h
    cases h
  have hlive : ∀ b, s'.Live b ↔ s.Live b := fun b => by
    constructor
    · intro hb
      have hne : b ≠ s.nodeList.length := fun h => hdead (h ▸ hb)
      have hmem := hb.1
      rw [hlist] at hmem
      exact ⟨(List.mem_cons.1 hmem).resolve_left hne, by rw [← hnode b hne]; exact hb.2⟩
    · rintro ⟨hb, hv⟩
      exact ⟨hlist ▸ List.mem_cons_of_mem _ hb, by rwa [hnode b (hold b hb)]⟩
  have hnodeL : ∀ b, s.Live b → s'.node b = s.node b := fun b hb => hnode b (hold b hb.1)
  have hwin : ∀ b, s.Live b → s'.window b = s.window b := fun b hb => by unfold NfbMi.window; rw [hnodeL b hb]
  have hmmap : s'.mmap = s.mmap := by rw [← hs']; rfl
  have hregs : s'.regions = s.regions := by rw [← hs']; rfl
  refine ⟨?_, hlist ▸ List.mem_cons_self, hdead, by rw [hself]⟩
  constructor
  case windows => exact hmmap ▸ hI.windows
  case below =>
    intro b hb
    rw [hlist] at hb ⊢
    rw [List.length_cons]
    rcases List.mem_cons.1 hb with rfl | hb
    · exact Nat.lt_succ_self _
    · exact Nat.lt_succ_of_lt (hI.below b hb)
  case mapped =>
    intro b hb
    rw [hlive] at hb
    obtain ⟨h1, h2, h3, h4⟩ := hI.mapped b hb
    refine ⟨?_, ?_, ?_, ?_⟩
    · rwa [hwin b hb, hmmap]
    · rwa [hnodeL b hb, hregs]
    · rw [hnodeL b hb, hfdt, h3]
      split
      · rfl
      · rfl
    · rwa [hnodeL b hb]
  case owned =>
    intro w hw b hwb
    obtain ⟨hb, rfl⟩ := hI.owned w (hmmap ▸ hw) b hwb
    exact ⟨(hlive b).2 hb, (hwin b hb).symm⟩
  case regions =>
    intro r hr
    obtain ⟨b, hb, rfl⟩ := hI.regions r (hregs ▸ hr)
    exact ⟨b, (hlive b).2 hb, by rw [hnodeL b hb]⟩
  case apart =>
    intro b c hb hc hbc
    rw [hlive] at hb hc
    rw [hnodeL b hb, hnodeL c hc] at hbc
    exact hI.apart b c hb hc hbc
  case keys =>
    intro b c hb hc hbc
    rw [hlive] at hb hc
    rw [hnodeL b hb, hnodeL c hc] at hbc
    exact hI.keys b c hb hc hbc
  case props =>
    intro b hb
    rw [hfdt]
    split
    · rfl
    next hk =>
      rw [hlist] at hb
      rcases List.mem_cons.1 hb with rfl | hb
      · exact absurd (by rw [hself]; rfl) hk
      · rw [hnode b (hold b hb)]
        exact hI.props b hb
  case idle =>
    intro k hno
    have hno' := hI.idle k fun c hc => by
      rw [← hnodeL c hc]
      exact hno c ((hlive c).2 hc)
    rw [hfdt]
    split
    · exact hno'
    · exact hno'

theorem OneEndpoint.addNode (hone : OneEndpoint s dev) (hI : Inv s) (pciIndex bar : Int) :
    OneEndpoint (s.addNode pciIndex bar) dev := by
  intro b hb hv hi
  rcases List.mem_cons.1 hb with rfl | hb
  · have hself : ((s.addNode pciIndex bar).node s.nodeList.length) = ⟨0, 0, false, pciIndex, bar, 0⟩ := Function.update_self ..
    rw [hself] at hv
    cases hv
  · have hnode : (s.addNode pciIndex bar).node b = s.node b := Function.update_of_ne (Nat.ne_of_lt (hI.below b hb)) ..
    rw [hnode] at hv hi ⊢
    exact hone b hb hv hi

theorem Inv.attachBus (hI : Inv s) {resource : Option (Int × Int)} {alloc path : Bool} {e : MapEnv}
    (hc : Clean s (.attachBus resource alloc path e)) : Inv (nfbMiAttachBus resource alloc path e s).1 := by
  unfold nfbMiAttachBus
  cases resource with
  | none => exact hI
  | some r =>
    obtain ⟨pciIndex, bar⟩ := r
    dsimp only
    split
    · exact hI
    split
    · exact hI
    cases hf : s.pciDevices.find? (·.index = pciIndex) with
    | none => exact (hI.addNode pciIndex bar).1
    | some dev =>
      obtain ⟨hI', hmem, hdead, hix⟩ := hI.addNode pciIndex bar
      obtain ⟨h1, h2⟩ := hc dev hf
      have hdev : dev.index = pciIndex := by simpa using List.find?_some hf
      exact hI'.map hmem hdead e (hix.trans hdev.symm) (h1.addNode hI pciIndex bar) h2

theorem probeNode_inv (hI : Inv s) (hone : OneEndpoint s dev) (e : Nat → MapEnv) {a : Nat} (ha : a ∈ s.nodeList)
    (hfit : (s.node a).pciIndex = dev.index → MapFits s a dev) :
    Inv (probeNode e dev s a) ∧ OneEndpoint (probeNode e dev s a) dev ∧ (probeNode e dev s a).nodeList = s.nodeList := by
  unfold probeNode
  by_cases hix : (s.node a).pciIndex = dev.index
  · rw [if_pos hix]
    by_cases hl : s.Live a
    · rw [nfbMiMap_live hI hl (e a) (hone a ha hl.2 hix)]
      exact ⟨hI, hone, rfl⟩
    · exact ⟨hI.map ha hl (e a) hix hone (hfit hix), hone.map hl (e a), nfbMiMap_nodeList ..⟩
  · rw [if_neg hix]
    exact ⟨hI, hone, rfl⟩

theorem probe_inv (e : Nat → MapEnv) : ∀ (l : List Nat) (s : NfbMi), Inv s → OneEndpoint s dev → (∀ a ∈ l, a ∈ s.nodeList) →
    Meets (probeNode e dev) (fun s a => (s.node a).pciIndex = dev.index → MapFits s a dev) s l →
    Inv (run (probeNode e dev) s l)
  | [], _, hI, _, _, _ => hI
  | a :: l, s, hI, hone, hl, hm => by
    obtain ⟨hI', hone', hlist⟩ := probeNode_inv hI hone e (hl a List.mem_cons_self) hm.1
    exact probe_inv e l _ hI' hone' (fun b hb => hlist ▸ hl b (List.mem_cons_of_mem _ hb)) hm.2

theorem removeNode_nodeList (dev : NfbPciDevice) (s : NfbMi) (a : Nat) : (removeNode dev s a).nodeList = s.nodeList := by
  unfold removeNode nfbMiUnmap
  split
  · dsimp only
    split
    · rfl
    · rfl
  · rfl

theorem remove_inv (dev : NfbPciDevice) : ∀ (l : List Nat) (s : NfbMi), Inv s → (∀ a ∈ l, a ∈ s.nodeList) →
    Inv (run (removeNode dev) s l)
  | [], _, hI, _ => hI
  | a :: l, s, hI, hl => by
    refine remove_inv dev l _ ?_ fun b hb => removeNode_nodeList dev s a ▸ hl b (List.mem_cons_of_mem _ hb)
    unfold removeNode
    split
    · exact hI.unmap (hl a List.mem_cons_self)
    · exact hI

theorem Inv.others (hI : Inv s) {l : List (NfbCharMmapMod Handler)} (hw : Windows l)
    (hsame : ∀ w : NfbCharMmapMod Handler, w.mmap ≠ .other → (w ∈ l ↔ w ∈ s.mmap)) : Inv { s with mmap := l } :=
  ⟨hw, hI.below, fun a ha => ⟨(hsame _ (by simp [NfbMi.window])).2 (hI.mapped a ha).window, (hI.mapped a ha).held,
    (hI.mapped a ha).described, (hI.mapped a ha).fits⟩,
    fun w hwl a hwa => hI.owned w ((hsame w (by simp [hwa])).1 hwl) a hwa, hI.regions, hI.apart, hI.keys, hI.props, hI.idle⟩

theorem step_inv (s : NfbMi) (a : Act) (hc : Clean s a) (hI : Inv s) : Inv (step s a) := by
  cases a with
  | attachBus resource alloc path e => exact hI.attachBus hc
  | probeEndpoint dev e =>
    have hI' : Inv (s.attachEndpoint dev) :=
      ⟨hI.windows, hI.below, fun a ha => ⟨(hI.mapped a ha).window, (hI.mapped a ha).held, (hI.mapped a ha).described,
        (hI.mapped a ha).fits⟩, hI.owned, hI.regions, hI.apart, hI.keys, hI.props, hI.idle⟩
    exact probe_inv e _ _ hI' hc.1 (fun _ h => h) hc.2
  | removeEndpoint dev =>
    have h := remove_inv dev s.nodeList s hI fun _ h => h
    exact ⟨h.windows, h.below, fun a ha => ⟨(h.mapped a ha).window, (h.mapped a ha).held, (h.mapped a ha).described,
      (h.mapped a ha).fits⟩, h.owned, h.regions, h.apart, h.keys, h.props, h.idle⟩
  | register size alloc =>
    have hw := mmapStep_windows s.mmap (.register size .other alloc) hc hI.windows
    refine hI.others hw fun w hwo => ?_
    unfold nfbCharRegisterMmap
    split
    · rfl
    next h0 =>
      have hp := hI.windows.placed h0 hc
      cases alloc with
      | false => rfl
      | true =>
        show w ∈ (insertMmap size Handler.other 0 s.mmap).2 ↔ _
        rw [hp.perm.mem_iff, List.mem_cons]
        refine or_iff_right fun h => hwo ?_
        rw [h]
  | unregister offset =>
    show Inv (if _ then _ else _)
    split
    next hex =>
      obtain ⟨x, hx, hxo, hxm⟩ := hex
      refine hI.others (hI.windows.unregister offset) fun w hwo => ?_
      rw [nfbCharUnregisterMmap_eq hI.windows, List.mem_filter]
      refine and_iff_left_of_imp fun hw => decide_eq_true fun hwx => hwo ?_
      have hrange := hI.windows.mem_range hx
      have heq : w = x := by
        refine hI.windows.eq_of_common hw hx (hI.windows.mem_range hw) ?_
        rw [hwx, ← hxo]
        exact hrange
      rw [heq, hxm]
    · exact hI

theorem run_inv_clean {acts : List Act} (hc : Meets step Clean nfbMiAttach acts) : Inv (run step nfbMiAttach acts) :=
  run_inv_of step_inv acts nfbMiAttach hc Inv.init

end Calls

/-! ## Requests -/

/-- A request of an application: whole pages, and `mmap` has checked that the range does not wrap. -/
structure MmapRequest where
  offset : U64
  size : U64
  nonempty : 0 < size.toNat
  noWrap : offset.toNat + size.toNat < 2 ^ 64
  page : offset.toNat % 2 ^ 12 = 0

/-- The window to which `nfb_char_mmap` routes the request. -/
def NfbMi.route (s : NfbMi) (r : MmapRequest) : Option Handler := nfbCharMmap s.mmap r.offset r.size

/-- The range that gets mapped is the requested part of the node's BAR. -/
def MapsRight (s : NfbMi) (a : Nat) (r : MmapRequest) : Prop :=
  ∃ pfn, nfbMiMmap s r.offset r.size = some pfn ∧
    pfn.toNat * 2 ^ 12 = (s.node a).memPhys.toNat + (r.offset.toNat - (s.node a).mmapOffset.toNat)

/-- The window of the node and its BAR lie at the same place in a page, and the first node without a mapping that stands in front
of it and has a range with the request in its fields, if there is one, leads to the same page. -/
structure Unshadowed (s : NfbMi) (a : Nat) (r : MmapRequest) : Prop where
  aligned : (s.node a).memPhys.toNat % 2 ^ 12 = (s.node a).mmapOffset.toNat % 2 ^ 12
  front : ∀ b ∈ (s.nodeList.takeWhile (· ≠ a)).find? fun b => (s.node b).memVirt = false ∧ (s.node b).covers r.offset r.size,
    ((s.node b).physOf r.offset).toNat / 2 ^ 12 = ((s.node a).physOf r.offset).toNat / 2 ^ 12

theorem find?_takeWhile {p : Nat → Bool} {a : Nat} (ha : p a = true) : ∀ {l : List Nat}, a ∈ l →
    l.find? p = some (((l.takeWhile (· ≠ a)).find? p).getD a)
  | [], h => absurd h List.not_mem_nil
  | b :: l, h => by
    by_cases hb : b = a
    · rw [List.takeWhile_cons_of_neg (by simpa using hb), hb, List.find?_cons_of_pos ha]
      rfl
    · rw [List.takeWhile_cons_of_pos (by simpa using hb)]
      cases hp : p b with
      | true => rw [List.find?_cons_of_pos hp, List.find?_cons_of_pos hp]; rfl
      | false =>
        rw [List.find?_cons_of_neg (by simp [hp]), List.find?_cons_of_neg (by simp [hp])]
        exact find?_takeWhile ha ((List.mem_cons.1 h).resolve_left (Ne.symm hb))

section Requests

variable {s : NfbMi} {a : Nat} {r : MmapRequest}

theorem covers_contains (hI : Inv s) {b : Nat} (hb : s.Live b) (h : (s.node b).covers r.offset r.size = true) :
    (s.window b).Contains r.offset.toNat r.size.toNat := by
  have hstop : (s.node b).mmapOffset.toNat + (s.node b).memLen.toNat < 2 ^ 64 := hI.windows.noWrap _ (hI.mapped b hb).window
  unfold NfbMiNode.covers at h
  obtain ⟨h1, h2⟩ := of_decide_eq_true h
  rw [ge_iff_le, BitVec.le_def, BitVec.toNat_add, BitVec.toNat_add, Nat.mod_eq_of_lt r.noWrap, Nat.mod_eq_of_lt hstop] at h2
  exact (NfbCharMmapMod.contains_iff r.nonempty).2 ⟨BitVec.le_def.1 h1, h2⟩

theorem route_contains (hI : Inv s) (h : s.route r = some (.mi a)) :
    s.Live a ∧ (s.node a).covers r.offset r.size = true ∧ (s.window a).Contains r.offset.toNat r.size.toNat := by
  unfold NfbMi.route nfbCharMmap at h
  obtain ⟨w, hw, hwa⟩ := Option.map_eq_some_iff.1 h
  obtain ⟨hl, rfl⟩ := hI.owned w (List.mem_of_find?_eq_some hw) a hwa
  have hcov := List.find?_some (p := fun x : NfbCharMmapMod Handler => x.covers r.offset r.size) hw
  have hcov' : (s.node a).covers r.offset r.size = true := by
    unfold NfbCharMmapMod.covers at hcov
    obtain ⟨h1, -, h3⟩ := of_decide_eq_true hcov
    exact decide_eq_true ⟨h1, h3⟩
  exact ⟨hl, hcov', covers_contains hI hl hcov'⟩

theorem nfbMiMmap_eq (hI : Inv s) (h : s.route r = some (.mi a)) :
    nfbMiMmap s r.offset r.size = some ((s.node (((s.nodeList.takeWhile (· ≠ a)).find? fun b =>
      (s.node b).memVirt = false ∧ (s.node b).covers r.offset r.size).getD a)).physOf r.offset >>> 12) := by
  obtain ⟨hl, hcov, hin⟩ := route_contains hI h
  unfold nfbMiMmap
  rw [find?_takeWhile hcov hl.1, Option.map_some]
  refine congrArg (fun o : Option Nat => some ((s.node (o.getD a)).physOf r.offset >>> 12)) (List.find?_congr fun b hb => ?_)
  have hba : b ≠ a := by simpa using List.mem_takeWhile_imp hb
  have hbl := List.takeWhile_subset _ hb
  cases hc : (s.node b).covers r.offset r.size with
  | false => simp
  | true =>
    have hv : (s.node b).memVirt = false := by
      by_contra hv
      have hlb : s.Live b := ⟨hbl, by simpa using hv⟩
      have hinb := covers_contains hI hlb hc
      have hpos := r.nonempty
      have heq := hI.windows.eq_of_common (hI.mapped b hlb).window (hI.mapped a hl).window
        (hinb r.offset.toNat le_rfl (by omega)) (hin r.offset.toNat le_rfl (by omega))
      exact hba (Handler.mi.inj (congrArg NfbCharMmapMod.mmap heq))
    simp [hv]

theorem mapsRight_iff (hI : Inv s) (h : s.route r = some (.mi a)) : MapsRight s a r ↔ Unshadowed s a r := by
  obtain ⟨hl, -, hin⟩ := route_contains hI h
  have hfits := (hI.mapped a hl).fits
  have hpage := r.page
  obtain ⟨hle, hstop⟩ := (NfbCharMmapMod.contains_iff r.nonempty).1 hin
  have hpos := r.nonempty
  replace hle : (s.node a).mmapOffset.toNat ≤ r.offset.toNat := hle
  replace hstop : r.offset.toNat + r.size.toNat ≤ (s.node a).mmapOffset.toNat + (s.node a).memLen.toNat := hstop
  have hphys : ((s.node a).physOf r.offset).toNat = (s.node a).memPhys.toNat + (r.offset.toNat - (s.node a).mmapOffset.toNat) := by
    unfold NfbMiNode.physOf
    rw [BitVec.toNat_add, BitVec.toNat_sub_of_le (BitVec.le_def.2 hle), Nat.mod_eq_of_lt (by omega)]
  have halign : ((s.node a).physOf r.offset).toNat % 2 ^ 12 = 0 ↔
      (s.node a).memPhys.toNat % 2 ^ 12 = (s.node a).mmapOffset.toNat % 2 ^ 12 := by omega
  have hright : MapsRight s a r ↔ ∃ pfn, nfbMiMmap s r.offset r.size = some pfn ∧
      pfn.toNat * 2 ^ 12 = ((s.node a).physOf r.offset).toNat := by rw [hphys]; rfl
  have hpages : ∀ x A : Nat, x / 2 ^ 12 * 2 ^ 12 = A ↔ A % 2 ^ 12 = 0 ∧ x / 2 ^ 12 = A / 2 ^ 12 := fun x A => by omega
  rw [hright, nfbMiMmap_eq hI h]
  constructor
  · rintro ⟨pfn, hpfn, heq⟩
    have hpfn := Option.some.inj hpfn
    rw [← hpfn, BitVec.toNat_ushiftRight, Nat.shiftRight_eq_div_pow, hpages] at heq
    refine ⟨halign.1 heq.1, fun b hb => ?_⟩
    have hpg := heq.2
    rw [Option.mem_def.1 hb] at hpg
    exact hpg
  · rintro ⟨hal, hfront⟩
    refine ⟨_, rfl, ?_⟩
    rw [BitVec.toNat_ushiftRight, Nat.shiftRight_eq_div_pow, hpages]
    refine ⟨halign.2 hal, ?_⟩
    generalize List.find? _ _ = o at hfront ⊢
    cases o with
    | none => rfl
    | some b => exact hfront b rfl

end Requests

/-! ## Runs -/

/-- A node has a mapping exactly when its window is registered, its region is held and the device tree describes the window, and
no window and no region is left over from another mapping. -/
structure NodesRight (s : NfbMi) : Prop where
  mapped : ∀ a ∈ s.nodeList, (s.node a).memVirt = true ↔
    s.window a ∈ s.mmap ∧ (s.node a).region ∈ s.regions ∧
      s.fdt (s.node a).key = some ((s.node a).mmapOffset, (s.node a).memLen)
  windows : ∀ w ∈ s.mmap, ∀ a, w.mmap = .mi a → s.Live a ∧ w = s.window a
  regions : ∀ r ∈ s.regions, ∃ a, s.Live a ∧ (s.node a).region = r

theorem Inv.nodesRight {s : NfbMi} (hI : Inv s) : NodesRight s := by
  refine ⟨fun a ha => ⟨fun hv => ?_, ?_⟩, hI.owned, hI.regions⟩
  · obtain ⟨h1, h2, h3, -⟩ := hI.mapped a ⟨ha, hv⟩
    exact ⟨h1, h2, h3⟩
  · rintro ⟨hw, -, -⟩
    exact (hI.owned _ hw a rfl).1.2

/-- After every run without windows that wrap and without two endpoints of one index, the mappings of all nodes are right, and a
request gets the part of the BAR it asks for exactly when no node without a mapping shadows the right one. -/
theorem mi_mmap_right_iff {acts : List Act} (hc : Meets step Clean nfbMiAttach acts) :
    NodesRight (run step nfbMiAttach acts) ∧
      ∀ (r : MmapRequest) (a : Nat), (run step nfbMiAttach acts).route r = some (.mi a) →
        (MapsRight (run step nfbMiAttach acts) a r ↔ Unshadowed (run step nfbMiAttach acts) a r) :=
  have hI := run_inv_clean hc
  ⟨hI.nodesRight, fun _ _ h => mapsRight_iff hI h⟩

/-! ## Two endpoints -/

/-- Endpoint `i`, whose BARs have 64 KiB and lie at `i + 1` MiB. -/
def endpoint (i : Nat) : NfbPciDevice where
  pci := i
  index := i
  resource _ := ⟨BitVec.ofNat 64 ((i % 1024 + 1) * 2 ^ 20), 0x10000, by
    rw [BitVec.toNat_ofNat]
    have := Nat.mod_le ((i % 1024 + 1) * 2 ^ 20) (2 ^ 64)
    have : (0x10000 : U64).toNat = 0x10000 := rfl
    omega⟩

def good : MapEnv := ⟨true, true, true⟩

/-- Two buses, one on each endpoint; the second endpoint comes first and goes before the first one comes. -/
def comesAndGoes : List Act :=
  [.attachBus (some (0, 0)) true true good, .attachBus (some (1, 0)) true true good, .probeEndpoint (endpoint 1) fun _ => good,
    .removeEndpoint (endpoint 1), .probeEndpoint (endpoint 0) fun _ => good]

theorem page_nonempty : 0 < (0x1000 : U64).toNat := by decide

def firstPage : MmapRequest := ⟨0, 0x1000, page_nonempty, by decide, by decide⟩

/-- The bus of the endpoint that is gone takes the request for the other one, which got the same window: the application sees
the BAR of the former. -/
theorem stale_node_shadows :
    Meets step Clean nfbMiAttach comesAndGoes ∧ (run step nfbMiAttach comesAndGoes).route firstPage = some (.mi 0) ∧
      ((run step nfbMiAttach comesAndGoes).node 0).memPhys = 0x100000 ∧
      nfbMiMmap (run step nfbMiAttach comesAndGoes) 0 0x1000 = some 0x200 ∧
      ¬MapsRight (run step nfbMiAttach comesAndGoes) 0 firstPage := by
  refine ⟨by decide +kernel, by decide +kernel, by decide +kernel, by decide +kernel, ?_⟩
  rintro ⟨pfn, hpfn, heq⟩
  have hshown : nfbMiMmap (run step nfbMiAttach comesAndGoes) 0 0x1000 = some 0x200 := by decide +kernel
  rw [show pfn = 0x200 from Option.some.inj (hpfn.symm.trans hshown)] at heq
  exact absurd heq (by decide +kernel)

/-- The endpoints that stay: both windows lead to the right BARs, at either end of the list. -/
theorem mi_mmap_right_iff_both :
    (run step nfbMiAttach [.attachBus (some (0, 0)) true true good, .attachBus (some (1, 0)) true true good,
      .probeEndpoint (endpoint 1) fun _ => good, .probeEndpoint (endpoint 0) fun _ => good]).route firstPage = some (.mi 1) ∧
      MapsRight (run step nfbMiAttach [.attachBus (some (0, 0)) true true good, .attachBus (some (1, 0)) true true good,
        .probeEndpoint (endpoint 1) fun _ => good, .probeEndpoint (endpoint 0) fun _ => good]) 1 firstPage := by
  refine ⟨by decide +kernel, ((mi_mmap_right_iff (by decide +kernel)).2 firstPage 1 (by decide +kernel)).2 ⟨?_, ?_⟩⟩
  · decide +kernel
  · decide +kernel

end NdkSw.Nfb.MiMap

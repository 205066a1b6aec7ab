/-
The map of network interfaces (`nc_ifc_map_info_create_ordinary` of `netcope/info.h`): each Ethernet channel is an interface, the queues
are divided among the interfaces, and interfaces and queues among the endpoints.
-/
import NdkSw.Shared.EvenShare
import NdkSw.Shared.Words

namespace NdkSw.IfcMap

open Shared

/-! ## The map -/

/-- What the device tree says of an Ethernet channel. The references give the offset of a node, or an error below zero. -/
structure EthNode where
  node : Int
  pmd : Int
  rxmac : Int
  txmac : Int
  rxStream : Option Int

/-- What the function reads: the Ethernet channels in the order of the device tree, the PCI slots of the endpoints, and the numbers of
queues. -/
structure Card where
  eth : List EthNode
  endpoints : List (Option String)
  rxQueueCount : Nat
  txQueueCount : Nat

def flagActive : Nat := 1

/-- `struct nc_ifc_info`. `ep` is none as long as it is not set. -/
structure Ifc where
  id : Nat
  subid : Int
  ep : Option Nat
  flags : Nat
  rxqCnt : Nat
  txqCnt : Nat
  ethCnt : Nat

/-- `struct nc_ifc_queue_map_info`. -/
structure QueueMap where
  id : Nat
  ifc : Nat
  ep : Nat

/-- `struct nc_ifc_eth_map_info`. -/
structure EthMap where
  id : Nat
  ifc : Nat
  nodeEth : Int
  nodePort : Int
  nodeRxmac : Int
  nodeTxmac : Int
  rxStream : Int
  port : Int
  channel : Int
  lane : Int
  config : Nat
  flags : Nat

/-- `struct nc_ifc_map_info`. -/
structure MapInfo where
  ifc : List Ifc
  rxq : List QueueMap
  txq : List QueueMap
  eth : List EthMap

/-- The loop over the endpoints: `ep_index`, `ep_count` and `device_found`. -/
def countEndpoints (pciname : Option String) : List (Option String) → Int × Nat × Bool
  | slots => slots.foldl (fun r slot =>
      if r.2.2 then (r.1, r.2.1 + 1, true)
      else (r.1 + 1, r.2.1 + 1, pciname.isSome && slot.isSome && slot == pciname)) (-1, 0, false)

/-- `nc_get_composed_device_info_by_pci` of a device: the result, and the number of endpoints. -/
def ncGetComposedDeviceInfoByPci (endpoints : List (Option String)) (pciname : Option String) : Int × Nat :=
  let r := countEndpoints pciname endpoints
  (if pciname.isSome && r.2.2 = false then eNodev else 0, r.2.1)

/-- The port and the channel of a node, by the entry before it. -/
def portChannel (before : Option EthMap) (pmd : Int) : Int × Int :=
  if 0 ≤ pmd then
    match before with
    | none => (0, 0)
    | some e => if pmd = e.nodePort then (e.port, e.channel + 1) else (e.port + 1, 0)
  else (-1, -1)

/-- The entry of a node. -/
def ethEntry (eth : List EthMap) (ifc : Nat) (n : EthNode) : EthMap :=
  let pc := portChannel eth.getLast? n.pmd
  { id := eth.length
    ifc := ifc
    nodeEth := n.node
    nodePort := n.pmd
    nodeRxmac := n.rxmac
    nodeTxmac := n.txmac
    rxStream := n.rxStream.getD pc.1
    port := pc.1
    channel := pc.2
    lane := -1
    config := 0
    flags := 0 }

/-- An interface as it is made, in memory that `realloc` leaves unset; `ep` is set later. -/
def newIfc (id ethCnt : Nat) : Ifc := ⟨id, -1, none, flagActive, 0, 0, ethCnt⟩

/-- The allocations: for an interface, for an Ethernet channel, and for all queues. -/
inductive Alloc where
  | ifc (n : Nat)
  | eth (n : Nat)
  | queues

/-- The loop over the Ethernet channels; none if an allocation fails. -/
def ethLoop (alloc : Alloc → Bool) : List Ifc → List EthMap → List EthNode → Option (List Ifc × List EthMap)
  | ifc, eth, [] => some (ifc, eth)
  | ifc, eth, n :: nodes =>
    if alloc (.ifc ifc.length) && alloc (.eth eth.length) then
      ethLoop alloc (ifc ++ [newIfc ifc.length 1]) (eth ++ [ethEntry eth ifc.length n]) nodes
    else none

/-- `a * b / c` of `int`s; undefined if the product is not an `int`. -/
def mulDiv (a b c : Nat) : Option Nat := if a * b < 2 ^ 31 then some (a * b / c) else none

/-- The endpoints of the interfaces. -/
def ifcEndpoints (epCount ifcCount : Nat) : List Ifc → Option (List Ifc)
  | [] => some []
  | i :: ifc => (mulDiv i.id epCount ifcCount).bind fun ep => (ifcEndpoints epCount ifcCount ifc).map ({ i with ep := some ep } :: ·)

/-- A loop over the queues of a direction, from `q` on, which counts them in the interfaces; undefined where an interface does not exist. -/
def queueLoop (epCount ifcCount count : Nat) (counted : Ifc → Ifc) :
    Nat → Nat → List Ifc → Option (List Ifc × List QueueMap)
  | 0, _, ifc => some (ifc, [])
  | n + 1, q, ifc =>
    (mulDiv q epCount count).bind fun ep => (mulDiv q ifcCount count).bind fun i =>
      if i < ifc.length then
        (queueLoop epCount ifcCount count counted n (q + 1) (ifc.modify i counted)).map fun r => (r.1, ⟨q, i, ep⟩ :: r.2)
      else none

def Ifc.countRxq (i : Ifc) : Ifc := { i with rxqCnt := i.rxqCnt + 1 }

def Ifc.countTxq (i : Ifc) : Ifc := { i with txqCnt := i.txqCnt + 1 }

/-- `nc_ifc_map_info_create_ordinary`: the result and the map. No run where the code is undefined. -/
def ncIfcMapInfoCreateOrdinary (alloc : Alloc → Bool) (card : Card) : Option (Int × Option MapInfo) :=
  let info := ncGetComposedDeviceInfoByPci card.endpoints none
  if info.1 ≠ 0 then some (info.1, none)
  else
    match ethLoop alloc [] [] card.eth with
    | none => some (eNomem, none)
    | some (ifc, eth) =>
      if ifc.isEmpty && !alloc (.ifc 0) then some (eNomem, none)
      else
        -- without a channel there is one interface all the same
        let ifc := if ifc.isEmpty then [newIfc 0 0] else ifc
        (ifcEndpoints info.2 ifc.length ifc).bind fun ifc =>
          if alloc .queues = false then some (eNomem, none)
          else
            (queueLoop info.2 ifc.length card.rxQueueCount Ifc.countRxq card.rxQueueCount 0 ifc).bind fun r =>
              (queueLoop info.2 ifc.length card.txQueueCount Ifc.countTxq card.txQueueCount 0 r.1).map fun t =>
                (0, some ⟨t.1, r.2, t.2, eth⟩)

/-! ## What a map is for -/

/-- The queues of a direction: each is in an interface and at an endpoint, in their order; the interfaces know how many they have, which
are as many in each, or one more. -/
structure QueuesRight (epCount count : Nat) (ifc : List Ifc) (cnt : Ifc → Nat) (queues : List QueueMap) : Prop where
  all : queues.map QueueMap.id = List.range count
  exist : ∀ q ∈ queues, q.ifc < ifc.length ∧ q.ep < epCount
  ordered : queues.Pairwise fun a b => a.ifc ≤ b.ifc ∧ a.ep ≤ b.ep
  counted : ∀ i ∈ ifc, cnt i = queues.countP fun q => q.ifc = i.id
  even : ∀ i ∈ ifc, ∀ j ∈ ifc, cnt i ≤ cnt j + 1

/-- The interfaces of a card. -/
def Card.ifcCount (card : Card) : Nat := if card.eth.isEmpty then 1 else card.eth.length

/-- A map of a card. -/
structure MapRight (card : Card) (mi : MapInfo) : Prop where
  ids : mi.ifc.map Ifc.id = List.range card.ifcCount
  rxq : QueuesRight card.endpoints.length card.rxQueueCount mi.ifc Ifc.rxqCnt mi.rxq
  txq : QueuesRight card.endpoints.length card.txQueueCount mi.ifc Ifc.txqCnt mi.txq
  eth : mi.eth.map EthMap.nodeEth = card.eth.map EthNode.node
  ethIfc : ∀ e ∈ mi.eth, e.ifc < mi.ifc.length
  ethCounted : ∀ i ∈ mi.ifc, i.ethCnt = mi.eth.countP fun e => e.ifc = i.id
  endpoints : ∀ i ∈ mi.ifc, ∃ ep < card.endpoints.length, i.ep = some ep

/-- All products are `int`s. -/
structure ProductsFit (card : Card) : Prop where
  ifcEp : ∀ i < card.ifcCount, i * card.endpoints.length < 2 ^ 31
  rxEp : ∀ q < card.rxQueueCount, q * card.endpoints.length < 2 ^ 31
  rxIfc : ∀ q < card.rxQueueCount, q * card.ifcCount < 2 ^ 31
  txEp : ∀ q < card.txQueueCount, q * card.endpoints.length < 2 ^ 31
  txIfc : ∀ q < card.txQueueCount, q * card.ifcCount < 2 ^ 31

/-! ## The loops -/

theorem ncGetComposedDeviceInfoByPci_none (endpoints : List (Option String)) :
    ncGetComposedDeviceInfoByPci endpoints none = (0, endpoints.length) := by
  have hfold : ∀ (i : Int) (n : Nat), (endpoints.foldl (fun (r : Int × Nat × Bool) slot =>
      if r.2.2 then (r.1, r.2.1 + 1, true)
      else (r.1 + 1, r.2.1 + 1, (none : Option String).isSome && slot.isSome && slot == none)) (i, n, false)) =
        (i + endpoints.length, n + endpoints.length, false) := by
    induction endpoints with
    | nil => intro i n; simp
    | cons slot endpoints ih =>
      intro i n
      rw [List.foldl_cons, if_neg Bool.false_ne_true]
      show List.foldl _ (i + 1, n + 1, false) endpoints = _
      rw [ih, List.length_cons]
      simp only [Prod.mk.injEq, and_true]
      constructor
      · push_cast
        ring
      · ring
  rw [ncGetComposedDeviceInfoByPci, countEndpoints, hfold, Nat.zero_add]
  rfl

/-- The entries of the nodes. -/
def ethEntries (nodes : List EthNode) : List EthMap :=
  nodes.foldl (fun eth n => eth ++ [ethEntry eth eth.length n]) []

theorem ethEntries_append (nodes : List EthNode) (n : EthNode) :
    ethEntries (nodes ++ [n]) = ethEntries nodes ++ [ethEntry (ethEntries nodes) (ethEntries nodes).length n] := by
  rw [ethEntries, List.foldl_append]
  rfl

variable {alloc : Alloc → Bool} {card : Card}

theorem ethLoop_eq (halloc : ∀ a, alloc a = true) (nodes : List EthNode) :
    ethLoop alloc [] [] nodes = some ((List.range nodes.length).map fun i => newIfc i 1, ethEntries nodes) := by
  have hloop : ∀ (nodes : List EthNode) (eth : List EthMap),
      ethLoop alloc ((List.range eth.length).map fun i => newIfc i 1) eth nodes =
        some ((List.range (eth.length + nodes.length)).map fun i => newIfc i 1,
          nodes.foldl (fun eth n => eth ++ [ethEntry eth eth.length n]) eth) := by
    intro nodes
    induction nodes with
    | nil => exact fun eth => rfl
    | cons n nodes ih =>
      intro eth
      have hnext := ih (eth ++ [ethEntry eth eth.length n])
      rw [List.length_append, List.length_singleton, List.range_succ, List.map_append, List.map_singleton] at hnext
      rw [ethLoop, if_pos (by simp [halloc]), List.length_map, List.length_range, hnext, List.foldl_cons, List.length_cons,
        Nat.add_assoc, Nat.add_comm 1]
  have hall := hloop nodes []
  rwa [List.length_nil, Nat.zero_add] at hall

theorem length_ethEntries (nodes : List EthNode) : (ethEntries nodes).length = nodes.length := by
  induction nodes using List.reverseRecOn with
  | nil => rfl
  | append_singleton nodes n ih => rw [ethEntries_append, List.length_append, List.length_append, ih]; rfl

theorem nodeEth_ethEntries (nodes : List EthNode) : (ethEntries nodes).map EthMap.nodeEth = nodes.map EthNode.node := by
  induction nodes using List.reverseRecOn with
  | nil => rfl
  | append_singleton nodes n ih => rw [ethEntries_append, List.map_append, List.map_append, ih]; rfl

theorem ifc_ethEntries (nodes : List EthNode) : (ethEntries nodes).map EthMap.ifc = List.range nodes.length := by
  induction nodes using List.reverseRecOn with
  | nil => rfl
  | append_singleton nodes n ih =>
    rw [ethEntries_append, List.map_append, ih, List.length_append, List.length_singleton, List.range_succ, length_ethEntries]
    rfl

theorem nodePort_ethEntries (nodes : List EthNode) : (ethEntries nodes).map EthMap.nodePort = nodes.map EthNode.pmd := by
  induction nodes using List.reverseRecOn with
  | nil => rfl
  | append_singleton nodes n ih => rw [ethEntries_append, List.map_append, List.map_append, ih]; rfl

theorem mulDiv_eq {a b c : Nat} (h : a * b < 2 ^ 31) : mulDiv a b c = some (share c b a) := if_pos h

theorem ifcEndpoints_eq {epCount ifcCount : Nat} {ifc : List Ifc} (h : ∀ i ∈ ifc, i.id * epCount < 2 ^ 31) :
    ifcEndpoints epCount ifcCount ifc = some (ifc.map fun i => { i with ep := some (share ifcCount epCount i.id) }) := by
  induction ifc with
  | nil => rfl
  | cons i ifc ih =>
    rw [ifcEndpoints, mulDiv_eq (h i List.mem_cons_self), Option.bind_some, ih fun j hj => h j (List.mem_cons_of_mem i hj)]
    rfl

/-- The entry of a queue. -/
def queueEntry (epCount ifcCount count q : Nat) : QueueMap := ⟨q, share count ifcCount q, share count epCount q⟩

/-- The interfaces after the queues are counted. -/
def countAll (counted : Ifc → Ifc) (queues : List QueueMap) (ifc : List Ifc) : List Ifc :=
  queues.foldl (fun ifc q => ifc.modify q.ifc counted) ifc

section

variable {epCount ifcCount count n q : Nat} {counted : Ifc → Ifc} {ifc : List Ifc} {queues : List QueueMap}

theorem length_countAll : (countAll counted queues ifc).length = ifc.length := by
  induction queues generalizing ifc with
  | nil => rfl
  | cons q queues ih =>
    show (countAll counted queues (ifc.modify q.ifc counted)).length = ifc.length
    rw [ih, List.length_modify]

theorem getElem?_countAll (k : Nat) :
    (countAll counted queues ifc)[k]? = ifc[k]?.map counted^[queues.countP fun q => q.ifc = k] := by
  induction queues generalizing ifc with
  | nil => exact (congrFun Option.map_id ifc[k]?).symm
  | cons q queues ih =>
    show (countAll counted queues (ifc.modify q.ifc counted))[k]? = _
    rw [ih, List.getElem?_modify, List.countP_cons]
    cases ifc[k]? with
    | none => rfl
    | some i =>
      by_cases hk : q.ifc = k
      · simp [hk]
      · simp [hk]

theorem queueLoop_eq (hep : ∀ k < q + n, k * epCount < 2 ^ 31) (hifc : ∀ k < q + n, k * ifcCount < 2 ^ 31)
    (hlt : ∀ k < q + n, share count ifcCount k < ifc.length) :
    queueLoop epCount ifcCount count counted n q ifc =
      some (countAll counted ((List.range' q n).map (queueEntry epCount ifcCount count)) ifc,
        (List.range' q n).map (queueEntry epCount ifcCount count)) := by
  induction n generalizing q ifc with
  | zero => rfl
  | succ n ih =>
    have hnext : queueLoop epCount ifcCount count counted n (q + 1) (ifc.modify (share count ifcCount q) counted) = _ :=
      ih (fun k hk => hep k (by omega)) (fun k hk => hifc k (by omega)) fun k hk => by
        rw [List.length_modify]
        exact hlt k (by omega)
    rw [queueLoop, mulDiv_eq (hep q (by omega)), Option.bind_some, mulDiv_eq (hifc q (by omega)), Option.bind_some,
      if_pos (hlt q (by omega)), hnext, Option.map_some]
    rfl

theorem iterate_countRxq (i : Ifc) : Ifc.countRxq^[n] i = { i with rxqCnt := i.rxqCnt + n } := by
  induction n generalizing i with
  | zero => rfl
  | succ n ih =>
    rw [Function.iterate_succ_apply, ih, Ifc.countRxq, Nat.add_assoc, Nat.add_comm 1]

theorem iterate_countTxq (i : Ifc) : Ifc.countTxq^[n] i = { i with txqCnt := i.txqCnt + n } := by
  induction n generalizing i with
  | zero => rfl
  | succ n ih =>
    rw [Function.iterate_succ_apply, ih, Ifc.countTxq, Nat.add_assoc, Nat.add_comm 1]

theorem countP_queueEntry (k : Nat) :
    ((List.range count).map (queueEntry epCount ifcCount count)).countP (fun q => q.ifc = k) =
      (List.range count).countP fun q => share count ifcCount q = k := by
  rw [List.countP_map]
  rfl

end

/-! ## The map of a card -/

/-- How many queues are in an interface. -/
def shareCount (count n k : Nat) : Nat := (List.range count).countP fun q => share count n q = k

/-- The interfaces of a card. -/
def ifcsOf (card : Card) : List Ifc :=
  (List.range card.ifcCount).map fun k =>
    { id := k
      subid := -1
      ep := some (share card.ifcCount card.endpoints.length k)
      flags := flagActive
      rxqCnt := shareCount card.rxQueueCount card.ifcCount k
      txqCnt := shareCount card.txQueueCount card.ifcCount k
      ethCnt := if card.eth.isEmpty then 0 else 1 }

/-- The queues of a direction. -/
def queuesOf (card : Card) (count : Nat) : List QueueMap :=
  (List.range count).map (queueEntry card.endpoints.length card.ifcCount count)

/-- The map that is made. -/
def mapOf (card : Card) : MapInfo :=
  ⟨ifcsOf card, queuesOf card card.rxQueueCount, queuesOf card card.txQueueCount, ethEntries card.eth⟩

theorem ifcCount_pos (card : Card) : 0 < card.ifcCount := by
  rw [Card.ifcCount]
  cases card.eth with
  | nil => exact Nat.one_pos
  | cons n nodes => exact Nat.succ_pos _

theorem create_eq {alloc : Alloc → Bool} {card : Card} (halloc : ∀ a, alloc a = true) (hfit : ProductsFit card) :
    ncIfcMapInfoCreateOrdinary alloc card = some (0, some (mapOf card)) := by
  have hpos := ifcCount_pos card
  have hifcs : (if ((List.range card.eth.length).map fun i => newIfc i 1).isEmpty then [newIfc 0 0]
      else (List.range card.eth.length).map fun i => newIfc i 1) =
        (List.range card.ifcCount).map fun i => newIfc i (if card.eth.isEmpty then 0 else 1) := by
    rw [Card.ifcCount]
    cases card.eth with
    | nil => rfl
    | cons n nodes => simp
  have hep : ∀ i ∈ (List.range card.ifcCount).map fun i => newIfc i (if card.eth.isEmpty then 0 else 1),
      i.id * card.endpoints.length < 2 ^ 31 := by
    intro i hi
    obtain ⟨k, hk, rfl⟩ := List.mem_map.1 hi
    exact hfit.ifcEp k (List.mem_range.1 hk)
  rw [ncIfcMapInfoCreateOrdinary, ncGetComposedDeviceInfoByPci_none]
  dsimp only
  rw [if_neg (by decide), ethLoop_eq halloc]
  dsimp only
  rw [if_neg (by simp [halloc]), hifcs, ifcEndpoints_eq hep, Option.bind_some, if_neg (by simp [halloc])]
  simp only [List.length_map, List.length_range]
  rw [queueLoop_eq (by simpa using hfit.rxEp) (by simpa using hfit.rxIfc) (by
      intro k hk
      simp only [List.length_map, List.length_range]
      exact share_lt (by simpa using hk) hpos), Option.bind_some,
    queueLoop_eq (by simpa using hfit.txEp) (by simpa using hfit.txIfc) (by
      intro k hk
      simp only [length_countAll, List.length_map, List.length_range]
      exact share_lt (by simpa using hk) hpos), Option.map_some]
  rw [← List.range_eq_range', ← List.range_eq_range']
  congr 4
  apply List.ext_getElem?
  intro k
  rw [getElem?_countAll, getElem?_countAll, countP_queueEntry, countP_queueEntry, ifcsOf]
  simp only [List.getElem?_map, Option.map_map]
  rcases Nat.lt_or_ge k card.ifcCount with hk | hk
  · rw [List.getElem?_range hk, Option.map_some, Option.map_some]
    simp only [Function.comp_apply, iterate_countRxq, iterate_countTxq, newIfc, Nat.zero_add]
    rfl
  · rw [List.getElem?_eq_none_iff.2 (by rw [List.length_range]; exact hk)]
    rfl

theorem mem_ifcsOf {i : Ifc} (hi : i ∈ ifcsOf card) :
    i.id < card.ifcCount ∧ i.ep = some (share card.ifcCount card.endpoints.length i.id) ∧
      i.rxqCnt = shareCount card.rxQueueCount card.ifcCount i.id ∧ i.txqCnt = shareCount card.txQueueCount card.ifcCount i.id ∧
      i.ethCnt = if card.eth.isEmpty then 0 else 1 := by
  obtain ⟨k, hk, rfl⟩ := List.mem_map.1 hi
  exact ⟨List.mem_range.1 hk, rfl, rfl, rfl, rfl⟩

theorem length_ifcsOf (card : Card) : (ifcsOf card).length = card.ifcCount := by
  rw [ifcsOf, List.length_map, List.length_range]

theorem queuesRight {count : Nat} {cnt : Ifc → Nat} (hep : 0 < card.endpoints.length)
    (hcnt : ∀ i ∈ ifcsOf card, cnt i = shareCount count card.ifcCount i.id) :
    QueuesRight card.endpoints.length count (ifcsOf card) cnt (queuesOf card count) where
  all := by
    rw [queuesOf, List.map_map]
    exact List.map_id (List.range count)
  exist := by
    intro q hq
    obtain ⟨k, hk, rfl⟩ := List.mem_map.1 hq
    rw [length_ifcsOf]
    exact ⟨share_lt (List.mem_range.1 hk) (ifcCount_pos card), share_lt (List.mem_range.1 hk) hep⟩
  ordered := by
    rw [queuesOf, List.pairwise_map]
    exact List.Pairwise.imp (fun {a b : Nat} (hlt : a < b) => ⟨share_mono hlt.le, share_mono hlt.le⟩) List.pairwise_lt_range
  counted := by
    intro i hi
    rw [hcnt i hi, queuesOf, countP_queueEntry]
    rfl
  even := by
    intro i hi j hj
    rw [hcnt i hi, hcnt j hj]
    exact shares_even (ifcCount_pos card) (mem_ifcsOf hi).1 (mem_ifcsOf hj).1

theorem countP_eq_range {n k : Nat} (hk : k < n) : (List.range n).countP (fun i => i = k) = 1 := by
  rw [← List.count_eq_one_of_mem List.nodup_range (List.mem_range.2 hk), List.count]
  exact List.countP_congr fun i _ => by simp

theorem ethRight (card : Card) :
    (∀ e ∈ ethEntries card.eth, e.ifc < card.ifcCount) ∧
      ∀ k < card.ifcCount, (if card.eth.isEmpty then 0 else 1) = (ethEntries card.eth).countP fun e => e.ifc = k := by
  have hcount : ∀ k, (ethEntries card.eth).countP (fun e => e.ifc = k) = (List.range card.eth.length).countP fun i => i = k := by
    intro k
    rw [← ifc_ethEntries, List.countP_map]
    rfl
  cases heth : card.eth with
  | nil => exact ⟨fun e he => absurd he List.not_mem_nil, fun k _ => rfl⟩
  | cons n nodes =>
    have hifc : card.ifcCount = card.eth.length := by rw [Card.ifcCount, heth]; rfl
    rw [← heth, hifc]
    constructor
    · intro e he
      have hmem := List.mem_map_of_mem (f := EthMap.ifc) he
      rw [ifc_ethEntries] at hmem
      exact List.mem_range.1 hmem
    · intro k hk
      rw [hcount k, countP_eq_range hk, heth]
      rfl

theorem mapOf_right (hep : 0 < card.endpoints.length) : MapRight card (mapOf card) := by
  obtain ⟨hexist, hcounted⟩ := ethRight card
  constructor
  case ids =>
    show (ifcsOf card).map Ifc.id = List.range card.ifcCount
    rw [ifcsOf, List.map_map]
    exact List.map_id _
  case rxq => exact queuesRight hep fun i hi => (mem_ifcsOf hi).2.2.1
  case txq => exact queuesRight hep fun i hi => (mem_ifcsOf hi).2.2.2.1
  case eth => exact nodeEth_ethEntries card.eth
  case ethIfc =>
    intro e he
    show e.ifc < (ifcsOf card).length
    rw [length_ifcsOf]
    exact hexist e he
  case ethCounted =>
    intro i hi
    rw [(mem_ifcsOf hi).2.2.2.2]
    exact hcounted i.id (mem_ifcsOf hi).1
  case endpoints =>
    intro i hi
    obtain ⟨hid, hiep, -⟩ := mem_ifcsOf hi
    exact ⟨_, share_lt hid hep, hiep⟩

theorem ethLoop_mono {nodes : List EthNode} {ifc : List Ifc} {eth : List EthMap} {r : List Ifc × List EthMap}
    (h : ethLoop alloc ifc eth nodes = some r) : ethLoop (fun _ => true) ifc eth nodes = some r := by
  induction nodes generalizing ifc eth with
  | nil => exact h
  | cons n nodes ih =>
    rw [ethLoop] at h ⊢
    split at h
    · exact ih h
    · exact nomatch h

theorem create_mono {mi : MapInfo} (h : ncIfcMapInfoCreateOrdinary alloc card = some (0, some mi)) :
    ncIfcMapInfoCreateOrdinary (fun _ => true) card = some (0, some mi) := by
  rw [ncIfcMapInfoCreateOrdinary, ncGetComposedDeviceInfoByPci_none] at h ⊢
  dsimp only at h ⊢
  rw [if_neg (by decide)] at h ⊢
  cases heth : ethLoop alloc [] [] card.eth with
  | none => rw [heth] at h; exact nomatch h
  | some r =>
    obtain ⟨ifc, eth⟩ := r
    rw [heth] at h
    rw [ethLoop_mono heth]
    dsimp only at h ⊢
    split at h
    · exact nomatch h
    · rw [Option.bind_eq_some_iff] at h
      obtain ⟨ifc', hifc, h⟩ := h
      split at h
      · exact nomatch h
      · rw [if_neg (by simp), hifc, Option.bind_some, if_neg (by simp)]
        exact h

/-- A map divides the queues evenly among the interfaces, and everything in it exists. It is only missing without memory. -/
theorem map_even {alloc : Alloc → Bool} {card : Card} (hep : 0 < card.endpoints.length) (hfit : ProductsFit card) :
    (∀ mi, ncIfcMapInfoCreateOrdinary alloc card = some (0, some mi) → MapRight card mi) ∧
      ((∀ a, alloc a = true) → ∃ mi, ncIfcMapInfoCreateOrdinary alloc card = some (0, some mi)) := by
  constructor
  · intro mi hmi
    have hall := create_mono hmi
    rw [create_eq (fun _ => rfl) hfit] at hall
    obtain rfl : mapOf card = mi := Option.some.inj (Prod.mk.inj (Option.some.inj hall)).2
    exact mapOf_right hep
  · exact fun halloc => ⟨mapOf card, create_eq halloc hfit⟩

/-- Two channels, one endpoint, three RX queues and two TX queues. -/
def twoChannels : Card := ⟨[⟨64, 128, 256, 320, none⟩, ⟨96, 160, 288, 352, none⟩], [some "0000:01:00.0"], 3, 2⟩

theorem two_channels_even :
    ∃ mi, ncIfcMapInfoCreateOrdinary (fun _ => true) twoChannels = some (0, some mi) ∧ MapRight twoChannels mi := by
  have heven := @map_even (fun _ => true) twoChannels (by decide) ⟨by decide, by decide, by decide, by decide, by decide⟩
  obtain ⟨mi, hmi⟩ := heven.2 fun _ => rfl
  exact ⟨mi, hmi, heven.1 mi hmi⟩

/-! ## Ports -/

/-- The channels with a port. -/
def withPort (eth : List EthMap) : List EthMap := eth.filter fun e => 0 ≤ e.nodePort

/-- The channels of one port. -/
def ofPort (eth : List EthMap) (port : Int) : List EthMap := eth.filter fun e => e.nodePort = port

/-- Ports are told apart by their nodes, the channels of a port are numbered in their order, and no two channels have the same numbers. -/
structure PortsRight (eth : List EthMap) : Prop where
  same : ∀ a ∈ withPort eth, ∀ b ∈ withPort eth, a.port = b.port ↔ a.nodePort = b.nodePort
  numbered : ∀ p, 0 ≤ p → (ofPort eth p).map EthMap.channel = (List.range (ofPort eth p).length).map fun (k : Nat) => (k : Int)
  distinct : ((withPort eth).map fun e => (e.port, e.channel)).Nodup

/-- Between two channels with a port each one has a port, and the channels of one port stand together. -/
def Grouped (pmds : List Int) : Prop :=
  ∀ (i j k : Nat) (a b c : Int), i < j → j < k → pmds[i]? = some a → pmds[j]? = some b → pmds[k]? = some c → 0 ≤ a → 0 ≤ c →
    0 ≤ b ∧ (a = c → b = a)

section

variable {eth : List EthMap} {x : EthMap} {p : Int}

theorem mem_withPort {e : EthMap} : e ∈ withPort eth ↔ e ∈ eth ∧ 0 ≤ e.nodePort := by simp [withPort]

theorem mem_ofPort {e : EthMap} : e ∈ ofPort eth p ↔ e ∈ eth ∧ e.nodePort = p := by simp [ofPort]

theorem withPort_append (hx : 0 ≤ x.nodePort) : withPort (eth ++ [x]) = withPort eth ++ [x] := by simp [withPort, hx]

theorem withPort_append_none (hx : ¬0 ≤ x.nodePort) : withPort (eth ++ [x]) = withPort eth := by simp [withPort, hx]

theorem ofPort_append (hx : x.nodePort = p) : ofPort (eth ++ [x]) p = ofPort eth p ++ [x] := by simp [ofPort, hx]

theorem ofPort_append_other (hx : x.nodePort ≠ p) : ofPort (eth ++ [x]) p = ofPort eth p := by simp [ofPort, hx]

/-- What the entries so far tell of the next one. -/
structure Numbered (eth : List EthMap) : Prop where
  right : PortsRight eth
  bound : ∀ l, eth.getLast? = some l → 0 ≤ l.nodePort → ∀ a ∈ withPort eth, a.port ≤ l.port
  count : ∀ l, eth.getLast? = some l → 0 ≤ l.nodePort → l.channel + 1 = (ofPort eth l.nodePort).length
  last : ∀ l, eth.getLast? = some l → ¬0 ≤ l.nodePort → l.port = -1
  first : withPort eth ≠ [] → ∃ a ∈ withPort eth, (a.port, a.channel) = (0, 0)

theorem distinct_append (h : ((withPort eth).map fun e => (e.port, e.channel)).Nodup) (hx : 0 ≤ x.nodePort)
    (hnew : ∀ a ∈ withPort eth, a.port = x.port → a.channel ≠ x.channel) :
    ((withPort (eth ++ [x])).map fun e => (e.port, e.channel)).Nodup := by
  rw [withPort_append hx, List.map_append, List.nodup_append]
  refine ⟨h, List.nodup_singleton _, ?_⟩
  intro q hq q' hq' heq
  obtain ⟨a, ha, rfl⟩ := List.mem_map.1 hq
  rw [List.map_singleton, List.mem_singleton] at hq'
  rw [hq'] at heq
  exact hnew a ha (Prod.mk.inj heq).1 (Prod.mk.inj heq).2

/-- An entry whose port is new. -/
theorem Numbered.newPort (h : Numbered eth) (hx : 0 ≤ x.nodePort) (hport : ∀ a ∈ withPort eth, a.port < x.port)
    (hnode : ∀ a ∈ withPort eth, a.nodePort ≠ x.nodePort) (hchannel : x.channel = 0)
    (hfirst : withPort eth = [] → x.port = 0) : Numbered (eth ++ [x]) := by
  have hnil : ofPort eth x.nodePort = [] := by
    rw [List.eq_nil_iff_forall_not_mem]
    intro a ha
    obtain ⟨hmem, heq⟩ := mem_ofPort.1 ha
    exact hnode a (mem_withPort.2 ⟨hmem, heq ▸ hx⟩) heq
  constructor
  case right =>
    constructor
    case same =>
      rw [withPort_append hx]
      intro a ha b hb
      rcases List.mem_append.1 ha with ha | ha <;> rcases List.mem_append.1 hb with hb | hb
      · exact h.right.same a ha b hb
      · rw [List.mem_singleton.1 hb]
        exact ⟨fun he => absurd he (hport a ha).ne, fun he => absurd he (hnode a ha)⟩
      · rw [List.mem_singleton.1 ha]
        exact ⟨fun he => absurd he.symm (hport b hb).ne, fun he => absurd he.symm (hnode b hb)⟩
      · rw [List.mem_singleton.1 ha, List.mem_singleton.1 hb]
        exact ⟨fun _ => rfl, fun _ => rfl⟩
    case numbered =>
      intro p hp
      by_cases hxp : x.nodePort = p
      · rw [ofPort_append hxp, ← hxp, hnil, List.nil_append, List.map_singleton, hchannel]
        rfl
      · rw [ofPort_append_other hxp]
        exact h.right.numbered p hp
    case distinct => exact distinct_append h.right.distinct hx fun a ha hap _ => (hport a ha).ne hap
  case bound =>
    intro l hl _
    obtain rfl : x = l := by simpa using hl
    rw [withPort_append hx]
    intro a ha
    rcases List.mem_append.1 ha with ha | ha
    · exact (hport a ha).le
    · rw [List.mem_singleton.1 ha]
  case count =>
    intro l hl _
    obtain rfl : x = l := by simpa using hl
    rw [ofPort_append rfl, hnil, hchannel]
    rfl
  case last =>
    intro l hl hneg
    obtain rfl : x = l := by simpa using hl
    exact absurd hx hneg
  case first =>
    intro _
    rw [withPort_append hx]
    by_cases hempty : withPort eth = []
    · refine ⟨x, List.mem_append_right _ List.mem_cons_self, ?_⟩
      rw [hfirst hempty, hchannel]
    · obtain ⟨a, ha, hzero⟩ := h.first hempty
      exact ⟨a, List.mem_append_left _ ha, hzero⟩

/-- An entry of the same port as the last one. -/
theorem Numbered.samePort {l : EthMap} (h : Numbered eth) (hl : eth.getLast? = some l) (hx : 0 ≤ x.nodePort)
    (hnode : x.nodePort = l.nodePort) (hport : x.port = l.port) (hchannel : x.channel = l.channel + 1) : Numbered (eth ++ [x]) := by
  have hlvalid : 0 ≤ l.nodePort := hnode ▸ hx
  have hlmem : l ∈ withPort eth := mem_withPort.2 ⟨List.mem_of_getLast? hl, hlvalid⟩
  have hcount := h.count l hl hlvalid
  constructor
  case right =>
    constructor
    case same =>
      rw [withPort_append hx]
      intro a ha b hb
      rcases List.mem_append.1 ha with ha | ha <;> rcases List.mem_append.1 hb with hb | hb
      · exact h.right.same a ha b hb
      · rw [List.mem_singleton.1 hb, hport, hnode]
        exact h.right.same a ha l hlmem
      · rw [List.mem_singleton.1 ha, hport, hnode]
        exact h.right.same l hlmem b hb
      · rw [List.mem_singleton.1 ha, List.mem_singleton.1 hb]
        exact ⟨fun _ => rfl, fun _ => rfl⟩
    case numbered =>
      intro p hp
      by_cases hxp : x.nodePort = p
      · have hlast : x.channel = (ofPort eth p).length := by rw [hchannel, hcount, ← hnode, hxp]
        rw [ofPort_append hxp, List.map_append, h.right.numbered p hp, List.length_append, List.length_singleton, List.range_succ,
          List.map_append, List.map_singleton, hlast]
        rfl
      · rw [ofPort_append_other hxp]
        exact h.right.numbered p hp
    case distinct =>
      refine distinct_append h.right.distinct hx fun a ha hap hac => ?_
      -- an entry with this port is numbered below
      have hanode : a.nodePort = l.nodePort := (h.right.same a ha l hlmem).1 (hap.trans hport)
      have hachan : a.channel ∈ (ofPort eth l.nodePort).map EthMap.channel :=
        List.mem_map_of_mem (mem_ofPort.2 ⟨(mem_withPort.1 ha).1, hanode⟩)
      rw [h.right.numbered _ hlvalid] at hachan
      obtain ⟨k, hk, hkeq⟩ := List.mem_map.1 hachan
      have hklt := List.mem_range.1 hk
      omega
  case bound =>
    intro m hm _
    obtain rfl : x = m := by simpa using hm
    rw [withPort_append hx]
    intro a ha
    rcases List.mem_append.1 ha with ha | ha
    · rw [hport]
      exact h.bound l hl hlvalid a ha
    · rw [List.mem_singleton.1 ha]
  case count =>
    intro m hm _
    obtain rfl : x = m := by simpa using hm
    rw [ofPort_append rfl, List.length_append, List.length_singleton, hchannel, hcount, hnode]
    push_cast
    rfl
  case last =>
    intro m hm hneg
    obtain rfl : x = m := by simpa using hm
    exact absurd hx hneg
  case first =>
    intro _
    rw [withPort_append hx]
    obtain ⟨a, ha, hzero⟩ := h.first (List.ne_nil_of_mem hlmem)
    exact ⟨a, List.mem_append_left _ ha, hzero⟩

theorem Numbered.noPort (h : Numbered eth) (hx : ¬0 ≤ x.nodePort) (hport : x.port = -1) : Numbered (eth ++ [x]) := by
  have hof : ∀ p, 0 ≤ p → ofPort (eth ++ [x]) p = ofPort eth p := fun p hp => ofPort_append_other fun he => hx (he ▸ hp)
  have hlast : ∀ l, (eth ++ [x]).getLast? = some l → x = l := fun l hl => by simpa using hl
  constructor
  case right =>
    constructor
    case same =>
      rw [withPort_append_none hx]
      exact h.right.same
    case numbered =>
      intro p hp
      rw [hof p hp]
      exact h.right.numbered p hp
    case distinct =>
      rw [withPort_append_none hx]
      exact h.right.distinct
  case bound =>
    intro l hl hpos
    exact absurd (hlast l hl ▸ hpos) hx
  case count =>
    intro l hl hpos
    exact absurd (hlast l hl ▸ hpos) hx
  case last =>
    intro l hl _
    rw [← hlast l hl, hport]
  case first =>
    rw [withPort_append_none hx]
    exact h.first

end

theorem grouped_of_sorted {pmds : List Int} (h : pmds.Pairwise (· ≤ ·)) : Grouped pmds := by
  intro i j k a b c hij hjk ha hb hc hpos _
  obtain ⟨hi, rfl⟩ := List.getElem?_eq_some_iff.1 ha
  obtain ⟨hj, rfl⟩ := List.getElem?_eq_some_iff.1 hb
  obtain ⟨hk, rfl⟩ := List.getElem?_eq_some_iff.1 hc
  have hab : pmds[i] ≤ pmds[j] := List.pairwise_iff_getElem.1 h i j hi hj hij
  have hbc : pmds[j] ≤ pmds[k] := List.pairwise_iff_getElem.1 h j k hj hk hjk
  exact ⟨hpos.trans hab, fun hac => le_antisymm (hbc.trans hac.ge) hab⟩

theorem Grouped.of_append {pmds more : List Int} (h : Grouped (pmds ++ more)) : Grouped pmds := by
  have hleft : ∀ {i : Nat} {a : Int}, pmds[i]? = some a → (pmds ++ more)[i]? = some a := by
    intro i a ha
    rw [List.getElem?_append_left (List.getElem?_eq_some_iff.1 ha).1, ha]
  intro i j k a b c hij hjk ha hb hc
  exact h i j k a b c hij hjk (hleft ha) (hleft hb) (hleft hc)

section

variable {nodes : List EthNode} {n : EthNode}

theorem pmd_of_mem {a : EthMap} (ha : a ∈ ethEntries nodes) : ∃ i, i < nodes.length ∧ (nodes.map EthNode.pmd)[i]? = some a.nodePort := by
  obtain ⟨i, hi⟩ := List.getElem?_of_mem ha
  refine ⟨i, ?_, ?_⟩
  · rw [← length_ethEntries]
    exact (List.getElem?_eq_some_iff.1 hi).1
  · rw [← nodePort_ethEntries, List.getElem?_map, hi]
    rfl

theorem pmd_of_last {l : EthMap} (hl : (ethEntries nodes).getLast? = some l) :
    (nodes.map EthNode.pmd)[nodes.length - 1]? = some l.nodePort := by
  rw [← nodePort_ethEntries, List.getElem?_map, ← length_ethEntries, ← List.getLast?_eq_getElem?, hl]
  rfl

theorem pmd_append : (nodes ++ [n]).map EthNode.pmd = nodes.map EthNode.pmd ++ [n.pmd] := by rw [List.map_append, List.map_singleton]

theorem pmd_new : ((nodes ++ [n]).map EthNode.pmd)[nodes.length]? = some n.pmd := by
  rw [pmd_append, ← List.length_map (f := EthNode.pmd), List.getElem?_concat_length]

/-- The entry that a node adds. -/
theorem numbered_next (h : Numbered (ethEntries nodes)) (hg : Grouped ((nodes ++ [n]).map EthNode.pmd)) :
    Numbered (ethEntries (nodes ++ [n])) := by
  have hold : ∀ {i : Nat} {a : Int}, (nodes.map EthNode.pmd)[i]? = some a → ((nodes ++ [n]).map EthNode.pmd)[i]? = some a := by
    intro i a ha
    rw [pmd_append, List.getElem?_append_left (List.getElem?_eq_some_iff.1 ha).1, ha]
  -- an entry with a port, the last one, and the new one
  have hbetween : ∀ {a l : EthMap}, a ∈ withPort (ethEntries nodes) → (ethEntries nodes).getLast? = some l → 0 ≤ n.pmd →
      0 ≤ l.nodePort ∧ (a.nodePort = n.pmd → l.nodePort = n.pmd) := by
    intro a l ha hl hn
    obtain ⟨hmem, hpos⟩ := mem_withPort.1 ha
    obtain ⟨i, hi, hai⟩ := pmd_of_mem hmem
    have hlast := pmd_of_last hl
    rcases Nat.lt_or_ge i (nodes.length - 1) with hlt | hge
    · obtain ⟨hl₀, heq⟩ := hg i (nodes.length - 1) nodes.length _ _ _ hlt (by omega) (hold hai) (hold hlast) pmd_new hpos hn
      exact ⟨hl₀, fun he => (heq he).trans he⟩
    · obtain rfl : i = nodes.length - 1 := by omega
      have heq : a.nodePort = l.nodePort := Option.some.inj (hai.symm.trans hlast)
      exact ⟨heq ▸ hpos, fun he => heq ▸ he⟩
  rw [ethEntries_append]
  by_cases hn : 0 ≤ n.pmd
  · cases hl : (ethEntries nodes).getLast? with
    | none =>
      have hempty : ethEntries nodes = [] := List.getLast?_eq_none_iff.1 hl
      have hpc : portChannel (ethEntries nodes).getLast? n.pmd = (0, 0) := by rw [hl, portChannel, if_pos hn]
      have hno : ∀ a, a ∉ withPort (ethEntries nodes) := by rw [hempty]; exact fun a => List.not_mem_nil
      refine h.newPort hn (fun a ha => absurd ha (hno a)) (fun a ha => absurd ha (hno a)) ?_ fun _ => ?_
      · exact congrArg Prod.snd hpc
      · exact congrArg Prod.fst hpc
    | some l =>
      by_cases hsame : n.pmd = l.nodePort
      · have hpc : portChannel (ethEntries nodes).getLast? n.pmd = (l.port, l.channel + 1) := by
          rw [hl, portChannel, if_pos hn, if_pos hsame]
        exact h.samePort hl hn hsame (congrArg Prod.fst hpc) (congrArg Prod.snd hpc)
      · have hpc : portChannel (ethEntries nodes).getLast? n.pmd = (l.port + 1, 0) := by
          rw [hl, portChannel, if_pos hn, if_neg hsame]
        have hport : (ethEntry (ethEntries nodes) (ethEntries nodes).length n).port = l.port + 1 := congrArg Prod.fst hpc
        refine h.newPort hn (fun a ha => ?_) (fun a ha he => ?_) (congrArg Prod.snd hpc) fun hempty => ?_
        · rw [hport]
          exact Int.lt_add_one_of_le (h.bound l hl (hbetween ha hl hn).1 a ha)
        · exact hsame ((hbetween ha hl hn).2 he).symm
        · have hneg : ¬0 ≤ l.nodePort := by
            intro hpos
            have hmem : l ∈ withPort (ethEntries nodes) := mem_withPort.2 ⟨List.mem_of_getLast? hl, hpos⟩
            rw [hempty] at hmem
            exact absurd hmem List.not_mem_nil
          rw [hport, h.last l hl hneg]
          rfl
  · have hpc : portChannel (ethEntries nodes).getLast? n.pmd = (-1, -1) := if_neg hn
    exact h.noPort hn (congrArg Prod.fst hpc)

theorem numbered_of_grouped (hg : Grouped (nodes.map EthNode.pmd)) : Numbered (ethEntries nodes) := by
  induction nodes using List.reverseRecOn with
  | nil =>
    constructor
    case right =>
      constructor
      case same => exact fun a ha => absurd ha List.not_mem_nil
      case numbered => exact fun p _ => rfl
      case distinct => exact List.nodup_nil
    case bound => exact fun l hl => nomatch hl
    case count => exact fun l hl => nomatch hl
    case last => exact fun l hl => nomatch hl
    case first => exact fun hne => absurd rfl hne
  | append_singleton nodes n ih =>
    have hpre : Grouped (nodes.map EthNode.pmd) := by
      rw [pmd_append] at hg
      exact hg.of_append
    exact numbered_next (ih hpre) hg

theorem PortsRight.of_append {eth : List EthMap} {x : EthMap} (h : PortsRight (eth ++ [x])) : PortsRight eth := by
  have hsub : ∀ a ∈ withPort eth, a ∈ withPort (eth ++ [x]) := fun a ha => by
    rw [mem_withPort] at ha ⊢
    exact ⟨List.mem_append_left _ ha.1, ha.2⟩
  refine ⟨fun a ha b hb => h.same a (hsub a ha) b (hsub b hb), fun p hp => ?_, ?_⟩
  · have hnum := h.numbered p hp
    by_cases hx : x.nodePort = p
    · rw [ofPort_append hx, List.map_append, List.length_append, List.length_singleton, List.range_succ, List.map_append] at hnum
      exact (List.append_inj hnum (by simp)).1
    · rwa [ofPort_append_other hx] at hnum
  · have hnodup := h.distinct
    by_cases hx : 0 ≤ x.nodePort
    · rw [withPort_append hx, List.map_append] at hnodup
      exact hnodup.of_append_left
    · rwa [withPort_append_none hx] at hnodup

theorem grouped_of_right (hr : PortsRight (ethEntries nodes)) : Grouped (nodes.map EthNode.pmd) := by
  induction nodes using List.reverseRecOn with
  | nil => exact fun i j k a b c _ _ ha => nomatch ha
  | append_singleton nodes n ih =>
    rw [ethEntries_append] at hr
    have hpre := ih hr.of_append
    have h := numbered_of_grouped hpre
    intro i j k a b c hij hjk ha hb hc hapos hcpos
    have hk : k < (nodes ++ [n]).length := by
      rw [← List.length_map (f := EthNode.pmd)]
      exact (List.getElem?_eq_some_iff.1 hc).1
    rw [List.length_append, List.length_singleton] at hk
    have hleft : ∀ {i : Nat} {a : Int}, i < nodes.length → ((nodes ++ [n]).map EthNode.pmd)[i]? = some a →
        (nodes.map EthNode.pmd)[i]? = some a := by
      intro i a hi ha
      rwa [pmd_append, List.getElem?_append_left (by rw [List.length_map]; exact hi)] at ha
    rcases Nat.lt_or_ge k nodes.length with hlt | hge
    · exact hpre i j k a b c hij hjk (hleft (by omega) ha) (hleft (by omega) hb) (hleft hlt hc) hapos hcpos
    · obtain rfl : k = nodes.length := by omega
      obtain rfl : n.pmd = c := Option.some.inj (pmd_new.symm.trans hc)
      have ha' := hleft (by omega) ha
      have hb' := hleft (by omega) hb
      -- the entry of the first of the three
      obtain ⟨e, he, hea⟩ : ∃ e ∈ ethEntries nodes, e.nodePort = a := by
        rw [← nodePort_ethEntries, List.getElem?_map, Option.map_eq_some_iff] at ha'
        obtain ⟨e, he, hea⟩ := ha'
        exact ⟨e, List.mem_of_getElem? he, hea⟩
      have hewith : e ∈ withPort (ethEntries nodes) := mem_withPort.2 ⟨he, hea ▸ hapos⟩
      obtain ⟨l, hl⟩ : ∃ l, (ethEntries nodes).getLast? = some l := by
        cases hl : (ethEntries nodes).getLast? with
        | none =>
          rw [List.getLast?_eq_none_iff.1 hl] at he
          exact absurd he List.not_mem_nil
        | some l => exact ⟨l, rfl⟩
      have hlast := pmd_of_last hl
      have hxwith : ethEntry (ethEntries nodes) (ethEntries nodes).length n ∈
          withPort (ethEntries nodes ++ [ethEntry (ethEntries nodes) (ethEntries nodes).length n]) :=
        mem_withPort.2 ⟨List.mem_append_right _ List.mem_cons_self, hcpos⟩
      have hwith := @withPort_append (ethEntries nodes) (ethEntry (ethEntries nodes) (ethEntries nodes).length n) hcpos
      by_cases hlpos : 0 ≤ l.nodePort
      · have hj : 0 ≤ b ∧ (a = l.nodePort → b = a) := by
          rcases Nat.lt_or_ge j (nodes.length - 1) with hlt | hge
          · exact hpre i j (nodes.length - 1) a b _ hij hlt ha' hb' hlast hapos hlpos
          · obtain rfl : j = nodes.length - 1 := by omega
            obtain rfl : b = l.nodePort := Option.some.inj (hb'.symm.trans hlast)
            exact ⟨hlpos, fun heq => heq.symm⟩
        refine ⟨hj.1, fun hac => ?_⟩
        by_cases hsame : n.pmd = l.nodePort
        · exact hj.2 (hac.trans hsame)
        · -- the new entry has a new port, but the node of an old one
          have hpc : portChannel (ethEntries nodes).getLast? n.pmd = (l.port + 1, 0) := by
            rw [hl, portChannel, if_pos hcpos, if_neg hsame]
          have hport : (ethEntry (ethEntries nodes) (ethEntries nodes).length n).port = l.port + 1 := congrArg Prod.fst hpc
          have heq := (hr.same e (hwith ▸ List.mem_append_left _ hewith) _ hxwith).2 (hea.trans hac)
          have hbound := h.bound l hl hlpos e hewith
          rw [heq, hport] at hbound
          omega
      · -- the new entry starts again with the first numbers
        have hpc : portChannel (ethEntries nodes).getLast? n.pmd = (0, 0) := by
          have hother : n.pmd ≠ l.nodePort := fun hs => hlpos (hs ▸ hcpos)
          rw [hl, portChannel, if_pos hcpos, if_neg hother, h.last l hl hlpos]
          rfl
        obtain ⟨z, hz, hzero⟩ := h.first (List.ne_nil_of_mem hewith)
        have hnodup := hr.distinct
        rw [hwith, List.map_append, List.nodup_append] at hnodup
        exact absurd (hzero.trans hpc.symm) (hnodup.2.2 _ (List.mem_map_of_mem hz) _ List.mem_cons_self)

end

theorem eth_of_create {mi : MapInfo} (h : ncIfcMapInfoCreateOrdinary alloc card = some (0, some mi)) : mi.eth = ethEntries card.eth := by
  have hall := create_mono h
  rw [ncIfcMapInfoCreateOrdinary, ncGetComposedDeviceInfoByPci_none] at hall
  dsimp only at hall
  rw [if_neg (by decide), ethLoop_eq (fun _ => rfl)] at hall
  dsimp only at hall
  rw [if_neg (by simp), Option.bind_eq_some_iff] at hall
  obtain ⟨ifc, -, hall⟩ := hall
  rw [if_neg (by simp), Option.bind_eq_some_iff] at hall
  obtain ⟨r, -, hall⟩ := hall
  rw [Option.map_eq_some_iff] at hall
  obtain ⟨t, -, heq⟩ := hall
  exact (congrArg MapInfo.eth (Option.some.inj (Prod.mk.inj heq).2)).symm

/-- The ports and channels of a map are right exactly if the device tree groups them. -/
theorem ports_right_iff {alloc : Alloc → Bool} {card : Card} {mi : MapInfo}
    (h : ncIfcMapInfoCreateOrdinary alloc card = some (0, some mi)) : PortsRight mi.eth ↔ Grouped (card.eth.map EthNode.pmd) := by
  rw [eth_of_create h]
  exact ⟨grouped_of_right, fun hg => (numbered_of_grouped hg).right⟩

/-- Two channels on each of two ports, one port behind the other. -/
def twoPorts : Card :=
  ⟨[⟨64, 128, 256, 320, none⟩, ⟨72, 128, 256, 320, none⟩, ⟨80, 160, 256, 320, none⟩, ⟨88, 160, 256, 320, none⟩], [some "0000:01:00.0"], 4, 4⟩

theorem twoPorts_fit : ProductsFit twoPorts := ⟨by decide, by decide, by decide, by decide, by decide⟩

theorem two_ports_right :
    ncIfcMapInfoCreateOrdinary (fun _ => true) twoPorts = some (0, some (mapOf twoPorts)) ∧ PortsRight (mapOf twoPorts).eth := by
  have hcreate := @create_eq (fun _ => true) twoPorts (fun _ => rfl) twoPorts_fit
  exact ⟨hcreate, (ports_right_iff hcreate).2 (grouped_of_sorted (by decide))⟩

/-- The channels of two ports by turns. -/
def turns : Card :=
  ⟨[⟨64, 128, 256, 320, none⟩, ⟨72, 160, 256, 320, none⟩, ⟨80, 128, 256, 320, none⟩], [some "0000:01:00.0"], 4, 4⟩

/-- The third channel is at the port of the first one, and gets another number. -/
theorem turns_not_right :
    ∃ mi, ncIfcMapInfoCreateOrdinary (fun _ => true) turns = some (0, some mi) ∧
      mi.eth.map (fun e => (e.nodePort, e.port, e.channel)) = [(128, 0, 0), (160, 1, 0), (128, 2, 0)] ∧ ¬PortsRight mi.eth := by
  refine ⟨mapOf turns, create_eq (fun _ => rfl) ⟨by decide, by decide, by decide, by decide, by decide⟩, by decide, ?_⟩
  intro h
  have hsame := h.same _ (List.mem_cons_self) _ (List.mem_cons_of_mem _ (List.mem_cons_of_mem _ List.mem_cons_self))
  exact absurd (hsame.2 rfl) (by decide)

end NdkSw.IfcMap

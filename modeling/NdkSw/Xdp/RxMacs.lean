/-
The RX MACs of an XDP device (`create_ethdev` of `xdp/ethdev.c`), which its link state is taken from: one for each port that owns a
channel. The comparison in the search for a MAC is made before the assignment, so that every MAC is opened at offset 0; and a MAC that
cannot be opened is a null pointer, which the test for an error lets pass.
-/
import NdkSw.Xdp.Ethdev

namespace NdkSw.Xdp

open Ndp Ring

/-! ## Data model -/

/-- The number of ports, and what the device tree has: the offset of an RX MAC with some index, which nodes are RX MACs, and which
components can be opened. -/
structure RxMacs where
  ethc : U16
  nfbCompFind : Nat → Int
  isRxmac : Int → Bool
  compOpen : Int → Bool

/-- The array `nc_rxmacs` with the offsets that its MACs are opened at, and the offsets of those that are closed again. -/
structure MacTable where
  ncRxmacs : List (Option Int)
  closed : List Int
  deriving DecidableEq, Repr

/-! ## Opening -/

/-- `nc_rxmac_open`; no MAC is a null pointer. -/
def ncRxmacOpen (rx : RxMacs) (fdtOffset : Int) : Option Int :=
  if rx.isRxmac fdtOffset = false then none else if rx.compOpen fdtOffset = false then none else some fdtOffset

/-- `IS_ERR`; a null pointer is no error. -/
def isErr (_ : Option Int) : Bool := false

/-- The port of a channel. -/
def portOf (channelc ethc : U16) (channelIndex : U32) : Nat := channelIndex.toNat / (channelc.toNat / ethc.toNat)

/-- The loop over the ports: the MACs so far, and zero or an error. -/
def openMacsLoop (rx : RxMacs) (channelc : U16) (l : List U32) : List Nat → List (Option Int) → List (Option Int) × Int
  | [], macs => (macs, 0)
  | macIdx :: rest, macs =>
    if l.any fun q => macIdx = portOf channelc rx.ethc q then
      -- `fdt_offset = nfb_comp_find(..) < 0`
      let fdtOffset : Int := if rx.nfbCompFind macIdx < 0 then 1 else 0
      if fdtOffset ≠ 0 then (macs, eNodev)
      else
        let mac := ncRxmacOpen rx fdtOffset
        if isErr mac then (macs, eNodev) else openMacsLoop rx channelc l rest (macs ++ [mac])
    else openMacsLoop rx channelc l rest macs

/-- What `create_ethdev` does with the MACs of a new device. -/
def openMacs (rx : RxMacs) (channelc : U16) (l : List U32) : List (Option Int) × Int :=
  openMacsLoop rx channelc l (List.range rx.ethc.toNat) []

/-- `create_ethdev` does not get to the MACs. -/
def StopsBefore (env : AddEnv) (index : U16) (l : List U32) (m : NfbXdp) : Prop :=
  m.listDevices.any (·.conflicts index l) = true ∨ l.length = 0 ∨ 0xffff < l.length ∨ env.etherdev = false ∨ env.channels = false ∨
    env.macs = false

instance (env : AddEnv) (index : U16) (l : List U32) (m : NfbXdp) : Decidable (StopsBefore env index l m) :=
  inferInstanceAs (Decidable (_ ∨ _))

/-- `create_ethdev` with its MACs; what `createEthdev` leaves open, if they can be opened, comes from the device tree. -/
def createEthdevMacs (env : AddEnv) (rx : RxMacs) (index : U16) (l : List U32) (m : NfbXdp) : NfbXdp × Int × MacTable :=
  let run := openMacs rx m.channelc l
  let r := createEthdev { env with openMacs := run.2 = 0 } index l m
  let table : MacTable :=
    if StopsBefore env index l m then ⟨[], []⟩
    -- the loop at `macs_open_error`
    else if r.2 ≠ 0 then ⟨run.1, run.1.reduceOption⟩
    else ⟨run.1, []⟩
  (r.1, r.2, table)

/-- `link_work_handler`: the carrier, with the links of the MACs. -/
def linkWorkHandler (ncRxmacGetLink : Int → Bool) (macs : List (Option Int)) (carrier : Bool) : Bool :=
  if macs.length = 0 then carrier
  else macs.all fun mac =>
    match mac with
    | some o => ncRxmacGetLink o
    | none => true

/-! ## What is asked of the MACs -/

/-- A port that owns one of the channels. -/
def Owned (channelc ethc : U16) (l : List U32) (p : Nat) : Prop := ∃ q ∈ l, portOf channelc ethc q = p

/-- A new device has the MAC of every port that owns a channel, in the order of the ports; without one of these MACs there is no device,
and what was opened is closed. -/
structure MacsRight (rx : RxMacs) (channelc : U16) (l : List U32) (ret : Int) (table : MacTable) : Prop where
  created : ret = 0 → ∃ ports : List Nat, ports.Pairwise (· < ·) ∧ (∀ p, p ∈ ports ↔ Owned channelc rx.ethc l p) ∧
    (∀ p ∈ ports, 0 ≤ rx.nfbCompFind p) ∧ table = ⟨ports.map fun p => some (rx.nfbCompFind p), []⟩
  missing : ∀ p, Owned channelc rx.ethc l p → rx.nfbCompFind p < 0 → ret ≠ 0 ∧ table.closed = table.ncRxmacs.reduceOption

/-! ## What the loop opens -/

section

variable {rx : RxMacs} {channelc : U16} {l : List U32}

/-- The ports that the loop stops at. -/
def ownedPorts (rx : RxMacs) (channelc : U16) (l : List U32) (ports : List Nat) : List Nat :=
  ports.filter fun p => l.any fun q => p = portOf channelc rx.ethc q

theorem openMacsLoop_spec (rx : RxMacs) (channelc : U16) (l : List U32) : ∀ ports macs,
    (∀ p ∈ ownedPorts rx channelc l ports, 0 ≤ rx.nfbCompFind p) ∧ openMacsLoop rx channelc l ports macs =
        (macs ++ List.replicate (ownedPorts rx channelc l ports).length (ncRxmacOpen rx 0), 0) ∨
      (∃ p ∈ ownedPorts rx channelc l ports, rx.nfbCompFind p < 0) ∧ (openMacsLoop rx channelc l ports macs).2 = eNodev := by
  intro ports
  induction ports with
  | nil =>
    intro macs
    left
    refine ⟨fun p hp => absurd hp List.not_mem_nil, ?_⟩
    rw [openMacsLoop, ownedPorts, List.filter_nil, List.length_nil, List.replicate_zero, List.append_nil]
  | cons p ports ih =>
    intro macs
    unfold openMacsLoop
    by_cases hp : (l.any fun q => p = portOf channelc rx.ethc q) = true
    · have hcons : ownedPorts rx channelc l (p :: ports) = p :: ownedPorts rx channelc l ports := List.filter_cons_of_pos hp
      rw [if_pos hp, hcons]
      dsimp only
      by_cases hneg : rx.nfbCompFind p < 0
      · rw [if_pos hneg, if_pos one_ne_zero]
        exact Or.inr ⟨⟨p, List.mem_cons_self, hneg⟩, rfl⟩
      · rw [if_neg hneg, if_neg (not_not_intro rfl), isErr, if_neg Bool.false_ne_true]
        rcases ih (macs ++ [ncRxmacOpen rx 0]) with ⟨hall, hrun⟩ | ⟨⟨q, hq, hqneg⟩, hrun⟩
        · left
          constructor
          · intro q hq
            rcases List.mem_cons.1 hq with rfl | hq
            · omega
            · exact hall q hq
          · rw [hrun, List.length_cons, List.replicate_succ, List.append_assoc, List.singleton_append]
        · exact Or.inr ⟨⟨q, List.mem_cons_of_mem p hq, hqneg⟩, hrun⟩
    · have hcons : ownedPorts rx channelc l (p :: ports) = ownedPorts rx channelc l ports := List.filter_cons_of_neg hp
      rw [if_neg hp, hcons]
      exact ih macs

theorem mem_ownedPorts (hl : ∀ q ∈ l, q.toNat < channelc.toNat) (hdvd : rx.ethc.toNat ∣ channelc.toNat) (p : Nat) :
    p ∈ ownedPorts rx channelc l (List.range rx.ethc.toNat) ↔ Owned channelc rx.ethc l p := by
  unfold ownedPorts Owned
  rw [List.mem_filter, List.mem_range, List.any_eq_true]
  constructor
  · rintro ⟨-, q, hq, hp⟩
    exact ⟨q, hq, (of_decide_eq_true hp).symm⟩
  · rintro ⟨q, hq, rfl⟩
    refine ⟨?_, q, hq, decide_eq_true rfl⟩
    have hlt := hl q hq
    obtain ⟨k, hk⟩ := hdvd
    have hethc : 0 < rx.ethc.toNat := by
      rcases Nat.eq_zero_or_pos rx.ethc.toNat with hzero | hpos
      · rw [hzero, Nat.zero_mul] at hk
        omega
      · exact hpos
    have hper : channelc.toNat / rx.ethc.toNat = k := by rw [hk, Nat.mul_div_cancel_left k hethc]
    unfold portOf
    rw [hper]
    exact Nat.div_lt_of_lt_mul (by rw [Nat.mul_comm, ← hk]; exact hlt)

theorem ownedPorts_sorted (rx : RxMacs) (channelc : U16) (l : List U32) (n : Nat) : (ownedPorts rx channelc l (List.range n)).Pairwise (· < ·) :=
  List.Pairwise.filter _ List.pairwise_lt_range

theorem ports_unique {a b : List Nat} (ha : a.Pairwise (· < ·)) (hb : b.Pairwise (· < ·)) (h : ∀ p, p ∈ a ↔ p ∈ b) : a = b := by
  have hperm : a.Perm b := (List.perm_ext_iff_of_nodup (ha.imp Nat.ne_of_lt) (hb.imp Nat.ne_of_lt)).2 h
  exact hperm.eq_of_pairwise (fun x y _ _ hxy hyx => absurd hxy (Nat.lt_asymm hyx)) ha hb

/-! ## When the MACs are right -/

variable {index : U16} {m : NfbXdp}

theorem createEthdev_ret (env : AddEnv) (h : ¬ StopsBefore env index l m) : (createEthdev env index l m).2 =
    if env.openMacs = false then eNodev else env.register := by
  unfold StopsBefore at h
  push Not at h
  obtain ⟨hfresh, hsome, hfits, hetherdev, hchannels, hmacs⟩ := h
  unfold createEthdev
  rw [if_neg hfresh, if_neg (by simp only [not_or, not_not]; exact ⟨hsome, by omega, by simpa using hetherdev⟩), if_neg (by simpa using hchannels),
    if_neg (by simpa using hmacs)]
  cases env.openMacs with
  | false => rfl
  | true =>
    by_cases hreg : env.register = 0
    · simp [hreg]
    · simp [hreg]

theorem createEthdev_ret_of_stops (env : AddEnv) (h : StopsBefore env index l m) : (createEthdev env index l m).2 ≠ 0 := by
  have hinval : eInval ≠ 0 := by decide
  have hnomem : eNomem ≠ 0 := by decide
  unfold createEthdev
  split
  · exact hinval
  · split
    · exact hnomem
    · split
      · exact hnomem
      · split
        · exact hnomem
        · rename_i h₁ h₂ h₃ h₄
          simp only [not_or, Bool.not_eq_true] at h₁ h₂ h₃ h₄
          exfalso
          rcases h with h | h | h | h | h | h
          · exact Bool.noConfusion (h₁.symm.trans h)
          · exact h₂.1 h
          · exact h₂.2.1 h
          · exact h₂.2.2 h
          · exact h₃ h
          · exact h₄ h

/-- There is a reason for which no device is created. -/
def Fails (env : AddEnv) (rx : RxMacs) (index : U16) (l : List U32) (m : NfbXdp) : Prop :=
  StopsBefore env index l m ∨ env.register ≠ 0 ∨ ∃ p, Owned m.channelc rx.ethc l p ∧ rx.nfbCompFind p < 0

/-- A new device has what is opened at offset 0 once for each of its ports; or there is none, and what was opened is closed. -/
theorem createEthdevMacs_cases (env : AddEnv) (index : U16) (hl : ∀ q ∈ l, q.toNat < m.channelc.toNat) (hdvd : rx.ethc.toNat ∣ m.channelc.toNat) :
    (¬ Fails env rx index l m ∧ (createEthdevMacs env rx index l m).2 =
        (0, ⟨List.replicate (ownedPorts rx m.channelc l (List.range rx.ethc.toNat)).length (ncRxmacOpen rx 0), []⟩)) ∨
      (Fails env rx index l m ∧ ∃ ret table, (createEthdevMacs env rx index l m).2 = (ret, table) ∧ ret ≠ 0 ∧
        table.closed = table.ncRxmacs.reduceOption) := by
  have hports := mem_ownedPorts hl hdvd
  have hne : eNodev ≠ 0 := by decide
  unfold createEthdevMacs
  dsimp only
  by_cases hstop : StopsBefore env index l m
  · have hret := createEthdev_ret_of_stops { env with openMacs := (openMacs rx m.channelc l).2 = 0 } hstop
    rw [if_pos hstop]
    exact Or.inr ⟨Or.inl hstop, _, _, rfl, hret, rfl⟩
  · have hret := createEthdev_ret { env with openMacs := (openMacs rx m.channelc l).2 = 0 } hstop
    rw [if_neg hstop, hret]
    dsimp only
    rcases openMacsLoop_spec rx m.channelc l (List.range rx.ethc.toNat) [] with ⟨hall, hrun⟩ | ⟨⟨p, hp, hneg⟩, hrun⟩
    · have hopen : openMacs rx m.channelc l = (List.replicate (ownedPorts rx m.channelc l (List.range rx.ethc.toNat)).length (ncRxmacOpen rx 0), 0) :=
        hrun
      rw [hopen, decide_eq_true rfl, if_neg (by decide)]
      by_cases hreg : env.register = 0
      · rw [hreg, if_neg (not_not_intro rfl)]
        refine Or.inl ⟨?_, rfl⟩
        rintro (h | h | ⟨p, hp, hneg⟩)
        · exact hstop h
        · exact h hreg
        · have hle := hall p ((hports p).2 hp)
          omega
      · rw [if_pos hreg]
        exact Or.inr ⟨Or.inr (Or.inl hreg), _, _, rfl, hreg, rfl⟩
    · have hfail : (openMacs rx m.channelc l).2 = eNodev := hrun
      rw [hfail, decide_eq_false hne, if_pos rfl, if_pos hne]
      exact Or.inr ⟨Or.inr (Or.inr ⟨p, (hports p).1 hp, hneg⟩), _, _, rfl, hne, rfl⟩

/-- The MACs are right if and only if there is a reason for which no device is created, or the root of the device tree is all the MACs that
are needed. -/
theorem macs_right_iff (env : AddEnv) (rx : RxMacs) (index : U16) (l : List U32) (m : NfbXdp) (hl : ∀ q ∈ l, q.toNat < m.channelc.toNat)
    (hdvd : rx.ethc.toNat ∣ m.channelc.toNat) :
    MacsRight rx m.channelc l (createEthdevMacs env rx index l m).2.1 (createEthdevMacs env rx index l m).2.2 ↔
      Fails env rx index l m ∨ ∀ p, Owned m.channelc rx.ethc l p → rx.nfbCompFind p = 0 ∧ ncRxmacOpen rx 0 = some 0 := by
  have hports := mem_ownedPorts hl hdvd
  have hsorted := ownedPorts_sorted rx m.channelc l rx.ethc.toNat
  rcases createEthdevMacs_cases env index hl hdvd with ⟨hok, hrun⟩ | ⟨hfail, ret, table, hrun, hret, hclosed⟩
  · rw [hrun]
    constructor
    · intro hright
      obtain ⟨ports, hps, hmem, -, htable⟩ := hright.created rfl
      obtain rfl := ports_unique hps hsorted fun p => (hmem p).trans (hports p).symm
      refine Or.inr fun p hp => ?_
      have hmacs : List.replicate (ownedPorts rx m.channelc l (List.range rx.ethc.toNat)).length (ncRxmacOpen rx 0) =
          (ownedPorts rx m.channelc l (List.range rx.ethc.toNat)).map fun p => some (rx.nfbCompFind p) := congrArg MacTable.ncRxmacs htable
      have hin : some (rx.nfbCompFind p) ∈ List.replicate (ownedPorts rx m.channelc l (List.range rx.ethc.toNat)).length (ncRxmacOpen rx 0) := by
        rw [hmacs]
        exact List.mem_map_of_mem ((hmem p).2 hp)
      have heq := List.eq_of_mem_replicate hin
      unfold ncRxmacOpen at heq ⊢
      split_ifs at heq ⊢ with h₁ h₂
      exact ⟨Option.some.inj heq, rfl⟩
    · rintro (h | h)
      · exact absurd h hok
      · have hmissing : ∀ p, Owned m.channelc rx.ethc l p → ¬ rx.nfbCompFind p < 0 := fun p hp hneg => hok (Or.inr (Or.inr ⟨p, hp, hneg⟩))
        refine ⟨fun _ => ⟨ownedPorts rx m.channelc l (List.range rx.ethc.toNat), hsorted, hports,
          fun p hp => Int.not_lt.1 (hmissing p ((hports p).1 hp)), ?_⟩, fun p hp hneg => absurd hneg (hmissing p hp)⟩
        refine congrArg (fun macs => MacTable.mk macs []) (Eq.symm (List.eq_replicate_iff.2 ⟨List.length_map _, fun mac hmac => ?_⟩))
        obtain ⟨p, hp, rfl⟩ := List.mem_map.1 hmac
        obtain ⟨hzero, hroot⟩ := h p ((hports p).1 hp)
        rw [hzero, hroot]
  · rw [hrun]
    exact ⟨fun _ => Or.inl hfail, fun _ => ⟨fun h => absurd h hret, fun _ _ _ => ⟨hret, hclosed⟩⟩⟩

/-! ## The carrier -/

theorem MacsRight.carrier {table : MacTable} (h : MacsRight rx channelc l 0 table) (hsome : l ≠ []) (ncRxmacGetLink : Int → Bool) (carrier : Bool) :
    linkWorkHandler ncRxmacGetLink table.ncRxmacs carrier = true ↔
      ∀ p, Owned channelc rx.ethc l p → ncRxmacGetLink (rx.nfbCompFind p) = true := by
  obtain ⟨ports, -, hmem, -, rfl⟩ := h.created rfl
  obtain ⟨q, hq⟩ := List.exists_mem_of_ne_nil l hsome
  have hne : ports.length ≠ 0 := Nat.ne_of_gt (List.length_pos_of_mem ((hmem _).2 ⟨q, hq, rfl⟩))
  unfold linkWorkHandler
  rw [List.length_map, if_neg hne, List.all_map, List.all_eq_true]
  exact forall_congr' fun p => imp_congr (hmem p) Iff.rfl

end

/-! ## A card -/

/-- Two ports with two channels each, and their MACs. -/
def twoPorts : RxMacs where
  ethc := 2
  nfbCompFind p := if p = 0 then 100 else if p = 1 then 200 else -1
  isRxmac o := o = 100 ∨ o = 200
  compOpen _ := true

/-- A card whose second MAC is missing. -/
def onePort : RxMacs := { twoPorts with nfbCompFind := fun p => if p = 0 then 100 else -1 }

theorem missing_mac_right : MacsRight onePort 4 [0, 3] (createEthdevMacs fineEnv onePort 0 [0, 3] ⟨4, []⟩).2.1
    (createEthdevMacs fineEnv onePort 0 [0, 3] ⟨4, []⟩).2.2 :=
  (macs_right_iff fineEnv onePort 0 [0, 3] ⟨4, []⟩ (by simp) (by decide)).2
    (Or.inl (Or.inr (Or.inr ⟨1, ⟨3, by decide, by decide⟩, by decide⟩)))

/-- A device with the first channel: it is created, and its MAC is a null pointer. -/
theorem mac_never_open : ¬ MacsRight twoPorts 4 [0] (createEthdevMacs fineEnv twoPorts 0 [0] ⟨4, []⟩).2.1
    (createEthdevMacs fineEnv twoPorts 0 [0] ⟨4, []⟩).2.2 := by
  intro h
  have hl : ∀ q ∈ ([0] : List U32), q.toNat < (⟨4, []⟩ : NfbXdp).channelc.toNat := by simp
  have hdvd : twoPorts.ethc.toNat ∣ (⟨4, []⟩ : NfbXdp).channelc.toNat := by decide
  have hfine : ¬ Fails fineEnv twoPorts 0 [0] ⟨4, []⟩ := by
    rintro (h | h | ⟨p, ⟨q, hq, rfl⟩, hneg⟩)
    · exact absurd h (by simp [StopsBefore, fineEnv])
    · exact absurd rfl h
    · obtain rfl := List.mem_singleton.1 hq
      exact absurd hneg (by decide)
  have hrun : (createEthdevMacs fineEnv twoPorts 0 [0] ⟨4, []⟩).2 = (0, ⟨[none], []⟩) := by
    rcases createEthdevMacs_cases fineEnv 0 hl hdvd with ⟨-, hrun⟩ | ⟨hfail, -⟩
    · exact hrun
    · exact absurd hfail hfine
  rw [hrun] at h
  obtain ⟨ports, -, -, -, htable⟩ := h.created rfl
  have hmacs : [none] = ports.map fun p => some (twoPorts.nfbCompFind p) := congrArg MacTable.ncRxmacs htable
  obtain ⟨p, -, hp⟩ := List.mem_map.1 (hmacs ▸ List.mem_singleton.2 rfl : none ∈ ports.map fun p => some (twoPorts.nfbCompFind p))
  cases hp

end NdkSw.Xdp

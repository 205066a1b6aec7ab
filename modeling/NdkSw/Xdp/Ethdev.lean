/-
The XDP devices of a card (`xdp/ethdev.c`) and the file that adds and removes them (`xdp/sysfs.c`): which hardware
queues belong to which device. A new list of queues is compared with those of the other devices only. The loop that
maps queues to channels walks the hardware queues, so that it passes over queues which the card does not have and
takes a queue as often as it is listed.
-/
import NdkSw.Ndp.Channel
import NdkSw.Shared.Words

namespace NdkSw.Xdp

open Ndp Ring

/-! ## Data model -/

/-- `struct nfb_xdp_channel`. `ethdev` is the index of the device it points to, if it points to one. -/
structure NfbXdpChannel where
  ethdev : Option Int
  index : U16
  nfbIndex : U16
  deriving DecidableEq, Repr

/-- A channel in zeroed memory. -/
def NfbXdpChannel.zero : NfbXdpChannel := { ethdev := none, index := 0, nfbIndex := 0 }

/-- `struct nfb_ethdev`. `requested` is the list of queues it was added with, which the driver does not keep. -/
structure NfbEthdev where
  index : Int
  channelCount : U16
  channels : List NfbXdpChannel
  requested : List U32
  deriving DecidableEq, Repr

/-- `struct nfb_xdp`. -/
structure NfbXdp where
  channelc : U16
  listDevices : List NfbEthdev
  deriving DecidableEq, Repr

/-- What adding a device meets outside: if there is memory for the list of queues, the network device, its channels
and its MACs, if these can be opened, and the result of the registration. -/
structure AddEnv where
  queues : Bool
  etherdev : Bool
  channels : Bool
  macs : Bool
  openMacs : Bool
  register : Int
  deriving DecidableEq, Repr

/-! ## Adding and removing -/

/-- The two loops of `nfb_xdp_channels_init`: the queues of the list in the order of the hardware. -/
def mappedQueues (channelc : Nat) (l : List U32) : List U32 :=
  (List.range channelc).flatMap fun nfbIdx => l.filter fun q => q.toNat = nfbIdx

/-- `nfb_xdp_channels_init`: the channels of a device with index `index`, in an array of zeroed memory. -/
def nfbXdpChannelsInit (channelc : U16) (index : Int) (l : List U32) : List NfbXdpChannel :=
  let mapped := mappedQueues channelc.toNat l
  (mapped.zipIdx.map fun (q, i) => { ethdev := some index, index := BitVec.ofNat 16 i, nfbIndex := q.setWidth 16 }) ++
    List.replicate (l.length - mapped.length) NfbXdpChannel.zero

/-- The check of `create_ethdev` against a device. -/
def NfbEthdev.conflicts (d : NfbEthdev) (index : U16) (l : List U32) : Bool :=
  d.index = index.toNat ∨ l.any fun q => d.channels.any fun c => q = c.nfbIndex.setWidth 32

/-- `create_ethdev`. A network device has between 1 and 0xffff queues. -/
def createEthdev (env : AddEnv) (index : U16) (l : List U32) (m : NfbXdp) : NfbXdp × Int :=
  if m.listDevices.any (·.conflicts index l) then (m, eInval)
  else if l.length = 0 ∨ 0xffff < l.length ∨ ¬ env.etherdev then (m, eNomem)
  else if ¬ env.channels then (m, eNomem)
  else if ¬ env.macs then (m, eNomem)
  else if ¬ env.openMacs then (m, eNodev)
  else if env.register ≠ 0 then (m, env.register)
  else
    ({ m with listDevices := m.listDevices ++ [
        { index := index.toNat
          channelCount := BitVec.ofNat 16 l.length
          channels := nfbXdpChannelsInit m.channelc index.toNat l
          requested := l }] }, 0)

/-- `destroy_ethdev`; index -1 stands for all devices. -/
def destroyEthdev (index : Int) (m : NfbXdp) : NfbXdp × Int :=
  let hit (d : NfbEthdev) : Bool := index = d.index ∨ index = -1
  ({ m with listDevices := m.listDevices.filter (!hit ·) }, if m.listDevices.any hit then 0 else eNodev)

/-! ## The command file -/

inductive CmdWord
  | add
  | del
  | other
  deriving DecidableEq, Repr

/-- A word between the colons of `qidxs`: nothing, no number, or a number. -/
inductive QueueWord
  | empty
  | bad
  | num (q : U32)
  deriving DecidableEq, Repr

/-- A write to the file, with its options as they were parsed: `index` is an `int`, -1 if there is no `id`. -/
structure CmdWrite where
  cmd : Option CmdWord
  index : Int
  queueString : Option (List QueueWord)
  env : AddEnv
  deriving DecidableEq, Repr

/-- The queues of a list, which ends with an empty word. -/
def parseQueues : List QueueWord → Option (List U32)
  | [] => some []
  | .empty :: _ => some []
  | .bad :: _ => none
  | .num q :: l => (parseQueues l).map (q :: ·)

/-- `cmd_store` behind the parser of its options. The index of a new device is narrowed to 16 bits. -/
def cmdStore (w : CmdWrite) (m : NfbXdp) : NfbXdp × Int :=
  if w.cmd = none ∨ w.index = -1 then (m, eInval)
  else
    match w.cmd with
    | some .add =>
      match w.queueString with
      | some words =>
        match parseQueues words with
        | none => (m, eInval)
        | some l => if ¬ w.env.queues ∧ l ≠ [] then (m, eNomem) else createEthdev w.env (BitVec.ofInt 16 w.index) l m
      | none =>
        if ¬ w.env.queues then (m, eNomem)
        else
          createEthdev w.env (BitVec.ofInt 16 w.index) ((List.range m.channelc.toNat).map (BitVec.ofNat 32)) m
    | some .del => destroyEthdev w.index m
    | _ => (m, eNxio)

def cmdStep (m : NfbXdp) (w : CmdWrite) : NfbXdp := (cmdStore w m).1

/-! ## The assignment -/

/-- The hardware queues of the channels of a device. -/
def NfbEthdev.queues (d : NfbEthdev) : List U16 := d.channels.map (·.nfbIndex)

/-- A device has one channel for each queue that was asked for, and all of them are set up. -/
structure NfbEthdev.Complete (d : NfbEthdev) : Prop where
  count : d.channels.length = d.channelCount.toNat
  setUp : ∀ c ∈ d.channels, c.ethdev = some d.index
  queues : (d.queues.map (BitVec.setWidth 32)).Perm d.requested

/-- The assignment of queues to devices. -/
structure Assigned (m : NfbXdp) : Prop where
  indexes : (m.listDevices.map (·.index)).Nodup
  queues : (m.listDevices.flatMap (·.queues)).Nodup
  below : ∀ d ∈ m.listDevices, ∀ q ∈ d.queues, q < m.channelc
  complete : ∀ d ∈ m.listDevices, d.Complete

theorem mappedQueues_perm (n : Nat) (l : List U32) : (mappedQueues n l).Perm (l.filter fun q => q.toNat < n) := by
  induction n with
  | zero =>
    have hnil : l.filter (fun q => q.toNat < 0) = [] := List.filter_eq_nil_iff.2 (by simp)
    rw [hnil]
    exact List.Perm.refl _
  | succ n ih =>
    have hsucc : mappedQueues (n + 1) l = mappedQueues n l ++ l.filter fun q => q.toNat = n := by
      unfold mappedQueues
      rw [List.range_succ, List.flatMap_append]
      simp
    have hlow : (l.filter fun q => q.toNat < n + 1).filter (fun q => q.toNat < n) = l.filter fun q => q.toNat < n := by
      rw [List.filter_filter]
      exact List.filter_congr fun q _ => by simp; omega
    have hhigh : (l.filter fun q => q.toNat < n + 1).filter (fun q => !decide (q.toNat < n)) = l.filter fun q => q.toNat = n := by
      rw [List.filter_filter]
      refine List.filter_congr fun q _ => ?_
      rw [← decide_not, ← Bool.decide_and]
      exact decide_eq_decide.2 (by omega)
    rw [hsucc]
    refine (ih.append_right _).trans ?_
    rw [← hlow, ← hhigh]
    exact List.filter_append_perm _ _

theorem nfbXdpChannelsInit_eq {channelc : U16} {index : Int} {l : List U32} (h : ∀ q ∈ l, q.toNat < channelc.toNat) :
    (nfbXdpChannelsInit channelc index l).length = l.length ∧
      (∀ c ∈ nfbXdpChannelsInit channelc index l, c.ethdev = some index) ∧
      (nfbXdpChannelsInit channelc index l).map (·.nfbIndex) = (mappedQueues channelc.toNat l).map (BitVec.setWidth 16) ∧
      (mappedQueues channelc.toNat l).Perm l := by
  have hperm : (mappedQueues channelc.toNat l).Perm l := by
    have hall : l.filter (fun q => q.toNat < channelc.toNat) = l := List.filter_eq_self.2 fun q hq => decide_eq_true (h q hq)
    rw [← hall]
    nth_rewrite 1 [hall]
    exact mappedQueues_perm _ _
  unfold nfbXdpChannelsInit
  simp only [hperm.length_eq, Nat.sub_self, List.replicate_zero, List.append_nil]
  refine ⟨by simp [hperm.length_eq], ?_, ?_, hperm⟩
  · intro c hc
    obtain ⟨x, _, rfl⟩ := List.mem_map.1 hc
    rfl
  · rw [List.map_map]
    show (mappedQueues channelc.toNat l).zipIdx.map (BitVec.setWidth 16 ∘ Prod.fst) = _
    rw [← List.map_map, List.zipIdx_map_fst]

/-! ## Commands -/

/-- The list of queues with which a command calls `create_ethdev`, if it does. -/
def CmdWrite.adds (w : CmdWrite) (m : NfbXdp) : Option (List U32) :=
  if w.cmd ≠ some .add ∨ w.index = -1 then none
  else
    match w.queueString with
    | some words => (parseQueues words).bind fun l => if ¬ w.env.queues ∧ l ≠ [] then none else some l
    | none => if w.env.queues then some ((List.range m.channelc.toNat).map (BitVec.ofNat 32)) else none

/-- The index of a new device. -/
def CmdWrite.newIndex (w : CmdWrite) : U16 := BitVec.ofInt 16 w.index

/-- `create_ethdev` finds no conflict and nothing fails. -/
structure Creates (env : AddEnv) (index : U16) (l : List U32) (m : NfbXdp) : Prop where
  fresh : m.listDevices.any (·.conflicts index l) = false
  some : l.length ≠ 0
  fits : l.length ≤ 0xffff
  etherdev : env.etherdev = true
  channels : env.channels = true
  macs : env.macs = true
  openMacs : env.openMacs = true
  register : env.register = 0

/-- The module with one more device. -/
def NfbXdp.with (m : NfbXdp) (index : U16) (l : List U32) : NfbXdp :=
  { m with listDevices := m.listDevices ++ [
      { index := index.toNat
        channelCount := BitVec.ofNat 16 l.length
        channels := nfbXdpChannelsInit m.channelc index.toNat l
        requested := l }] }

variable {m : NfbXdp} {l : List U32} {index : U16}

theorem createEthdev_pos {env : AddEnv} (h : Creates env index l m) : (createEthdev env index l m).1 = m.with index l := by
  have h1 := h.fresh
  have h2 := h.some
  have h3 := h.fits
  unfold createEthdev
  rw [if_neg (by rw [h1]; simp), if_neg (by rw [h.etherdev]; push Not; exact ⟨h2, h3, rfl⟩), if_neg (by rw [h.channels]; simp),
    if_neg (by rw [h.macs]; simp), if_neg (by rw [h.openMacs]; simp), if_neg (by rw [h.register]; simp)]
  rfl

theorem createEthdev_neg {env : AddEnv} (h : ¬ Creates env index l m) : (createEthdev env index l m).1 = m := by
  unfold createEthdev
  split
  · rfl
  · split
    · rfl
    · split
      · rfl
      · split
        · rfl
        · split
          · rfl
          · split
            · rfl
            · rename_i h1 h2 h3 h4 h5 h6
              refine absurd ⟨?_, ?_, ?_, ?_, ?_, ?_, ?_, ?_⟩ h
              · simpa using h1
              · exact fun h0 => h2 (Or.inl h0)
              · exact Nat.le_of_not_lt fun hlt => h2 (Or.inr (Or.inl hlt))
              · by_contra he
                exact h2 (Or.inr (Or.inr he))
              · simpa using h3
              · simpa using h4
              · simpa using h5
              · simpa using h6

theorem cmdStep_eq (m : NfbXdp) (w : CmdWrite) :
    cmdStep m w = match w.adds m with
      | some l => (createEthdev w.env w.newIndex l m).1
      | none => if w.cmd = some .del ∧ w.index ≠ -1 then (destroyEthdev w.index m).1 else m := by
  obtain ⟨cmd, index, queueString, env⟩ := w
  unfold cmdStep cmdStore CmdWrite.adds CmdWrite.newIndex
  simp only
  by_cases hidx : index = -1
  · simp [hidx]
  · rcases cmd with _ | (_ | _ | _)
    · simp
    · rcases queueString with _ | words
      · simp only [hidx]
        cases env.queues <;> simp
      · rcases hp : parseQueues words with _ | l
        · simp [hidx, hp]
        · by_cases hmem : env.queues = false ∧ ¬ l = []
          · simp [hidx, hp, hmem]
          · simp [hidx, hp, hmem]
    · simp [hidx]
    · simp [hidx]

theorem Assigned.filter (h : Assigned m) (hit : NfbEthdev → Bool) : Assigned { m with listDevices := m.listDevices.filter hit } := by
  have hsub : (m.listDevices.filter hit).Sublist m.listDevices := List.filter_sublist
  refine ⟨h.indexes.sublist (hsub.map _), h.queues.sublist ?_, ?_, ?_⟩
  · exact hsub.flatMap _
  · exact fun d hd => h.below d (List.mem_of_mem_filter hd)
  · exact fun d hd => h.complete d (List.mem_of_mem_filter hd)

theorem fresh_iff :
    m.listDevices.any (·.conflicts index l) = false ↔
      ∀ d ∈ m.listDevices, d.index ≠ index.toNat ∧ ∀ q ∈ l, ∀ q' ∈ d.queues, q ≠ q'.setWidth 32 := by
  rw [List.any_eq_false]
  refine forall_congr' fun d => forall_congr' fun _ => ?_
  unfold NfbEthdev.conflicts NfbEthdev.queues
  simp only [decide_eq_true_iff, not_or, List.any_eq_true, not_exists, not_and, List.mem_map, forall_exists_index, and_imp,
    forall_apply_eq_imp_iff₂]

theorem setWidth_injOn {x y : U32} (hx : x.toNat < 2 ^ 16) (hy : y.toNat < 2 ^ 16) (h : x.setWidth 16 = y.setWidth 16) :
    x = y := by
  have := congrArg BitVec.toNat h
  rw [BitVec.toNat_setWidth, BitVec.toNat_setWidth, Nat.mod_eq_of_lt hx, Nat.mod_eq_of_lt hy] at this
  exact BitVec.eq_of_toNat_eq this

theorem setWidth_roundtrip {x : U32} (hx : x.toNat < 2 ^ 16) : (x.setWidth 16).setWidth 32 = x := by
  apply BitVec.eq_of_toNat_eq
  rw [BitVec.toNat_setWidth, BitVec.toNat_setWidth, Nat.mod_eq_of_lt hx, Nat.mod_eq_of_lt x.isLt]

/-- A new device with distinct queues of the card. -/
theorem Assigned.with {m : NfbXdp} (h : Assigned m) {env : AddEnv} {index : U16} {l : List U32} (hc : Creates env index l m)
    (hnd : l.Nodup) (hlt : ∀ q ∈ l, q.toNat < m.channelc.toNat) : Assigned (m.with index l) := by
  have hfresh := fresh_iff.1 hc.fresh
  obtain ⟨hlen, hset, hmap, hperm⟩ := @nfbXdpChannelsInit_eq m.channelc (index.toNat : Int) l hlt
  have h16 : ∀ q ∈ l, q.toNat < 2 ^ 16 := fun q hq => lt_trans (hlt q hq) m.channelc.isLt
  have hmem : ∀ q' ∈ (nfbXdpChannelsInit m.channelc index.toNat l).map (·.nfbIndex), ∃ q ∈ l, q.setWidth 16 = q' := by
    intro q' hq'
    rw [hmap] at hq'
    obtain ⟨q, hq, rfl⟩ := List.mem_map.1 hq'
    exact ⟨q, hperm.mem_iff.1 hq, rfl⟩
  constructor
  case indexes =>
    show ((m.listDevices ++ _).map _).Nodup
    rw [List.map_append]
    refine List.nodup_append.2 ⟨h.indexes, List.nodup_singleton _, ?_⟩
    intro a ha b hb hab
    obtain ⟨d, hd, rfl⟩ := List.mem_map.1 ha
    rw [List.mem_singleton.1 hb] at hab
    exact (hfresh d hd).1 hab
  case queues =>
    show ((m.listDevices ++ _).flatMap _).Nodup
    rw [List.flatMap_append, List.flatMap_singleton]
    refine List.nodup_append.2 ⟨h.queues, ?_, ?_⟩
    · show ((nfbXdpChannelsInit m.channelc index.toNat l).map (·.nfbIndex)).Nodup
      rw [hmap]
      refine List.Nodup.map_on ?_ (hperm.nodup_iff.2 hnd)
      exact fun x hx y hy => setWidth_injOn (h16 x (hperm.mem_iff.1 hx)) (h16 y (hperm.mem_iff.1 hy))
    · rintro a ha b hb rfl
      obtain ⟨d, hd, had⟩ := List.mem_flatMap.1 ha
      obtain ⟨q, hq, rfl⟩ := hmem a hb
      exact (hfresh d hd).2 q hq _ had (setWidth_roundtrip (h16 q hq)).symm
  case below =>
    intro d hd
    rcases List.mem_append.1 hd with hd | hd
    · exact h.below d hd
    · rw [List.mem_singleton.1 hd]
      intro q' hq'
      obtain ⟨q, hq, rfl⟩ := hmem q' hq'
      refine BitVec.lt_def.2 ?_
      rw [BitVec.toNat_setWidth, Nat.mod_eq_of_lt (h16 q hq)]
      exact hlt q hq
  case complete =>
    intro d hd
    rcases List.mem_append.1 hd with hd | hd
    · exact h.complete d hd
    · rw [List.mem_singleton.1 hd]
      refine ⟨?_, hset, ?_⟩
      · show (nfbXdpChannelsInit m.channelc index.toNat l).length = (BitVec.ofNat 16 l.length).toNat
        have hfits := hc.fits
        rw [hlen, BitVec.toNat_ofNat, Nat.mod_eq_of_lt (by omega)]
      · show (((nfbXdpChannelsInit m.channelc index.toNat l).map (·.nfbIndex)).map (BitVec.setWidth 32)).Perm l
        have hback : ((mappedQueues m.channelc.toNat l).map (BitVec.setWidth 16)).map (BitVec.setWidth 32) =
            mappedQueues m.channelc.toNat l := by
          rw [List.map_map]
          refine (List.map_congr_left fun q hq => ?_).trans (List.map_id _)
          exact setWidth_roundtrip (h16 q (hperm.mem_iff.1 hq))
        rw [hmap, hback]
        exact hperm

theorem Assigned.distinct (h : Assigned m) {d : NfbEthdev} (hd : d ∈ m.listDevices) :
    d.requested.Nodup ∧ ∀ q ∈ d.requested, q.toNat < m.channelc.toNat := by
  have hperm := (h.complete d hd).queues
  have hinj : Function.Injective (BitVec.setWidth 32 : U16 → U32) := by
    intro x y hxy
    have := congrArg BitVec.toNat hxy
    rw [BitVec.toNat_setWidth, BitVec.toNat_setWidth, Nat.mod_eq_of_lt (lt_trans x.isLt (by norm_num)),
      Nat.mod_eq_of_lt (lt_trans y.isLt (by norm_num))] at this
    exact BitVec.eq_of_toNat_eq this
  have hnd : d.queues.Nodup := (List.nodup_flatMap.1 h.queues).1 d hd
  refine ⟨hperm.nodup_iff.1 (hnd.map hinj), fun q hq => ?_⟩
  obtain ⟨q', hq', rfl⟩ := List.mem_map.1 (hperm.mem_iff.2 hq)
  rw [BitVec.toNat_setWidth, Nat.mod_eq_of_lt (lt_trans q'.isLt (by norm_num))]
  exact BitVec.lt_def.1 (h.below d hd q' hq')

/-! ## Runs -/

/-- The condition: the queues of a device that a command adds are distinct, and the card has them. -/
def DistinctQueues (m : NfbXdp) (w : CmdWrite) : Prop :=
  ∀ l, w.adds m = some l → Creates w.env w.newIndex l m → l.Nodup ∧ ∀ q ∈ l, q.toNat < m.channelc.toNat

theorem assigned_iff (m : NfbXdp) (w : CmdWrite) (h : Assigned m) : Assigned (cmdStep m w) ↔ DistinctQueues m w := by
  rw [cmdStep_eq]
  rcases hadds : w.adds m with _ | l
  · refine iff_of_true ?_ fun l hl => ?_
    · simp only
      split
      · exact h.filter _
      · exact h
    · rw [hadds] at hl
      cases hl
  · simp only
    constructor
    · intro ha l' hl' hc
      rw [hadds] at hl'
      cases hl'
      rw [createEthdev_pos hc] at ha
      exact ha.distinct (List.mem_append_right _ (List.mem_singleton.2 rfl))
    · intro hdist
      by_cases hc : Creates w.env w.newIndex l m
      · obtain ⟨hnd, hlt⟩ := hdist l hadds hc
        rw [createEthdev_pos hc]
        exact h.with hc hnd hlt
      · rw [createEthdev_neg hc]
        exact h

/-- In a run of commands, the assignment is right behind every command exactly if every device that is added gets
distinct queues of the card. -/
theorem xdp_assigned_iff (channelc : U16) (ws : List CmdWrite) :
    Meets cmdStep (fun m w => Assigned (cmdStep m w)) { channelc, listDevices := [] } ws ↔
      Meets cmdStep DistinctQueues { channelc, listDevices := [] } ws := by
  refine meets_iff assigned_iff (fun m w ha _ => ha) ws _ ⟨List.nodup_nil, List.nodup_nil, ?_, ?_⟩
  · exact fun d hd => absurd hd List.not_mem_nil
  · exact fun d hd => absurd hd List.not_mem_nil

def fineEnv : AddEnv := { queues := true, etherdev := true, channels := true, macs := true, openMacs := true, register := 0 }

/-- A card with four queues: a device that is added with queue 1 twice, and one with a queue that the card does not
have. -/
theorem xdp_assigned_twice :
    ¬ Assigned (cmdStep { channelc := 4, listDevices := [] } ⟨some .add, 0, some [.num 1, .num 1], fineEnv⟩) ∧
      ¬ Assigned (cmdStep { channelc := 4, listDevices := [] } ⟨some .add, 0, some [.num 7], fineEnv⟩) := by
  refine ⟨fun h => ?_, fun h => ?_⟩
  · exact absurd h.queues (by decide)
  · exact absurd ((h.complete _ List.mem_cons_self).setUp _ List.mem_cons_self) (by decide)

end NdkSw.Xdp

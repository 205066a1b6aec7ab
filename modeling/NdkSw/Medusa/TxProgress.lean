/-
When publishing TX headers ends. The loop of `set_swptr` flushes SDP only behind its last packet, so
the descriptors it has written itself are never completed while it waits: it ends exactly if all
packets but the last, and two descriptors more, fit into the ring at once.
-/
import NdkSw.Medusa.TxInv

namespace NdkSw.Medusa

open Ndp Ring

variable {pageSize : U32} {k d f : Nat} {ctrl ctrl' : TxCtrl}

/-! ## Hardware that keeps going -/

/-- The first `n` looks at hardware that completes `e i` more descriptors until the `i`-th one; no kill
signal is pending. -/
def looks (e : Nat → Nat) (n : Nat) : List Poll := (List.range n).map fun i => { hw := e i, kill := false }

/-- The hardware completes every flushed descriptor in the end. -/
def Completes (e : Nat → Nat) : Prop := ∀ b, ∃ n, b ≤ ((looks e n).map (·.hw)).sum

/-- Publishing up to `ptr` ends on all hardware that keeps completing descriptors. -/
def Terminates (pageSize : U32) (ctrl : TxCtrl) (ptr : U64) : Prop :=
  ∀ e, Completes e → ∃ n, (ndpCtrlMedusaTxSetSwptr pageSize ctrl ptr (looks e n)).isSome

theorem looks_noKill (e : Nat → Nat) (n : Nat) : ∀ p ∈ looks e n, p.kill = false := by
  intro p hp
  obtain ⟨i, _, rfl⟩ := List.mem_map.1 hp
  rfl

/-! ## Descriptors a list of packets needs -/

/-- How often the upper address changes along the addresses, `last` being the one before. -/
def upperChanges (last : U64) : List U64 → Nat
  | [] => 0
  | a :: l => (if ndpCtrlDescUpperAddr a ≠ last then 1 else 0) + upperChanges (ndpCtrlDescUpperAddr a) l

theorem upperChanges_le (last : U64) (l : List U64) : upperChanges last l ≤ l.length := by
  induction l generalizing last with
  | nil => exact le_rfl
  | cons a l ih =>
    have := ih (ndpCtrlDescUpperAddr a)
    rw [upperChanges, List.length_cons]
    split <;> omega

/-- The descriptors of the next `n` packets: one for each, and one for each change of the upper address. -/
def descsFor (pageSize : U32) (ctrl : TxCtrl) (shp n : Nat) : Nat :=
  n + upperChanges ctrl.c.lastUpperAddr ((List.range n).map fun j => (conversion pageSize ctrl shp j).buffer.addr)

theorem Round.written {shp : Nat} {sdp' : U32} (hst : TxStream ctrl) (hr : Round pageSize k d f ctrl shp ctrl' sdp') :
    ctrl'.written = ctrl.written ++ (conversion pageSize ctrl shp 0).buffer.descs ctrl.c.lastUpperAddr ∧
      ctrl'.c.lastUpperAddr = ndpCtrlDescUpperAddr (conversion pageSize ctrl shp 0).buffer.addr := by
  constructor
  · rw [hr.stream.written, hr.converted, List.map_append, List.map_singleton, encode_concat, ← hst.last, ← hst.written]
  · rw [hr.stream.last, hr.converted, List.map_append, upperAfter_append]
    rfl

theorem Round.descsFor {shp : Nat} {sdp' : U32} (hst : TxStream ctrl) (hr : Round pageSize k d f ctrl shp ctrl' sdp') (n : Nat) :
    ctrl'.written.length + descsFor pageSize ctrl' (shp + 1) n = ctrl.written.length + descsFor pageSize ctrl shp (n + 1) := by
  obtain ⟨hw, hl⟩ := hr.written hst
  have hnext : (List.range n).map (fun j => (conversion pageSize ctrl' (shp + 1) j).buffer.addr) =
      (List.range n).map (fun j => (conversion pageSize ctrl shp (j + 1)).buffer.addr) :=
    List.map_congr_left fun j _ => by rw [conversion_next hr.same hr.mps]
  unfold Medusa.descsFor
  rw [hw, hl, hnext, List.length_append, DmaBuffer.length_descs, List.range_succ_eq_map, List.map_cons, List.map_map,
    upperChanges]
  simp only [Function.comp_def, Nat.succ_eq_add_one]
  split <;> omega

/-- Room in the ring for converting `n` packets without a further flush. -/
def Room (pageSize : U32) (k f : Nat) (ctrl : TxCtrl) (shp n : Nat) : Prop :=
  n = 0 ∨ ctrl.written.length + descsFor pageSize ctrl shp (n - 1) + 2 ≤ f + (2 ^ k - 1)

theorem room_succ {shp : Nat} {sdp' : U32} (hst : TxStream ctrl) (hr : Round pageSize k d f ctrl shp ctrl' sdp') (n : Nat) :
    Room pageSize k f ctrl shp (n + 1) ↔ Room pageSize k f ctrl' (shp + 1) n := by
  unfold Room
  cases n with
  | zero =>
    have hroom := hr.room
    simp [Medusa.descsFor, upperChanges, hroom]
  | succ n =>
    rw [Nat.add_sub_cancel, Nat.add_sub_cancel, hr.descsFor hst]
    simp

/-! ## The wait and the loop -/

/-- The wait ends at the latest when everything flushed is completed, if that frees two descriptors;
`rest` still suffices for what is not completed then. -/
theorem TxDescs.wait_ends (f : Nat) : ∀ (polls : List Poll) {ctrl : TxCtrl} {d : Nat}, TxDescs k d f ctrl →
    (∀ p ∈ polls, p.kill = false) → ctrl.written.length + 2 ≤ f + (2 ^ k - 1) → f ≤ d + (polls.map (·.hw)).sum →
    ∃ ctrl' d' rest, ndpCtrlMedusaTxWaitForFreeDesc 2 ctrl polls = some (ctrl', false, rest) ∧ TxDescs k d' f ctrl' ∧
      Looked ctrl ctrl' ∧ 2 ≤ ctrl'.freeDesc.toNat ∧ (∀ p ∈ rest, p.kill = false) ∧ f ≤ d' + (rest.map (·.hw)).sum
  | [], ctrl, d, h, hnk, hroom, hsum => by
    have hfree := h.free
    have hle := h.le
    have hfl := h.flushed
    have hge : 2 ≤ ctrl.freeDesc.toNat := by
      rw [List.map_nil, List.sum_nil] at hsum
      omega
    have hlt : ¬ ctrl.freeDesc < 2 := fun hlt => Nat.not_lt.2 hge (BitVec.lt_def.1 hlt)
    exact ⟨ctrl, d, [], by rw [ndpCtrlMedusaTxWaitForFreeDesc, if_neg hlt], h, Looked.refl _, hge, hnk, hsum⟩
  | p :: polls, ctrl, d, h, hnk, hroom, hsum => by
    rw [ndpCtrlMedusaTxWaitForFreeDesc]
    by_cases hlt : ctrl.freeDesc < 2
    · have hle := h.le
      rw [List.map_cons, List.sum_cons] at hsum
      obtain ⟨ctrl', d', rest, hw, hD, hL, hf, hr, hs⟩ := TxDescs.wait_ends f polls (h.getHwptr p.hw)
        (fun q hq => hnk q (List.mem_cons_of_mem _ hq)) hroom (by omega)
      refine ⟨ctrl', d', rest, ?_, hD, (getHwptr_looked _ _).trans hL, hf, hr, hs⟩
      rw [if_pos hlt]
      simp only [hnk p List.mem_cons_self]
      exact hw
    · refine ⟨ctrl, d, p :: polls, by rw [if_neg hlt], h, Looked.refl _, ?_, hnk, hsum⟩
      exact BitVec.le_def.1 (BitVec.not_lt.1 hlt)

theorem txConvert_ends (shp : U32) : ∀ (n i : Nat) {ctrl : TxCtrl} {sdp : U32} {polls : List Poll} {d : Nat},
    TxDescs k d f ctrl → At k sdp ctrl.written.length → TxStream ctrl → (∀ p ∈ polls, p.kill = false) →
    f ≤ d + (polls.map (·.hw)).sum → Room pageSize k f ctrl (shp.toNat + i) n →
    (txConvert pageSize shp n i ctrl sdp polls).isSome
  | 0, _, _, _, _, _, _, _, _, _, _, _ => rfl
  | n + 1, i, ctrl, sdp, polls, d, h, hs, hst, hnk, hsum, hroom => by
    have hfirst : ctrl.written.length + 2 ≤ f + (2 ^ k - 1) := by
      rcases hroom with h0 | hroom
      · omega
      · omega
    obtain ⟨ctrl₁, d₁, rest, hw, h₁, hL, hfree, hnk₁, hsum₁⟩ := h.wait_ends f polls hnk hfirst hsum
    obtain ⟨ctrl₂, sdp₂, hr, hnext⟩ := txConvert_round pageSize shp i hs hst h₁ hL hfree hw
    rw [hnext]
    exact txConvert_ends shp n (i + 1) hr.descs hr.sdp hr.stream hnk₁ hsum₁ ((room_succ hst hr n).1 hroom)

theorem txConvert_room (shp : U32) : ∀ (n i : Nat) {ctrl ctrl' : TxCtrl} {sdp sdp' : U32} {polls rest : List Poll} {d : Nat},
    TxDescs k d f ctrl → At k sdp ctrl.written.length → TxStream ctrl →
    txConvert pageSize shp n i ctrl sdp polls = some (ctrl', sdp', false, rest) →
    Room pageSize k f ctrl (shp.toNat + i) n
  | 0, _, _, _, _, _, _, _, _, _, _, _, _ => Or.inl rfl
  | n + 1, i, ctrl, ctrl', sdp, sdp', polls, rest, d, h, hs, hst, hc => by
    rcases hw : ndpCtrlMedusaTxWaitForFreeDesc 2 ctrl polls with _ | ⟨ctrl₁, killed₁, polls₁⟩
    · rw [txConvert, hw] at hc; cases hc
    cases killed₁ with
    | true => rw [txConvert, hw] at hc; cases hc
    | false =>
      obtain ⟨d₁, _, h₁, hL, hfree, _, _⟩ := TxDescs.wait polls h hw
      obtain ⟨ctrl₂, sdp₂, hr, hnext⟩ := txConvert_round pageSize shp i hs hst h₁ hL (hfree rfl) hw
      rw [hnext] at hc
      exact (room_succ hst hr n).2 (txConvert_room shp n (i + 1) hr.descs hr.sdp hr.stream hc)

/-! ## Publishing -/

variable {R : MpsRing}

theorem setSwptr_isSome (h : TxDescs k d f ctrl) {n : Nat} (hn : n < 2 ^ k) (polls : List Poll) :
    (ndpCtrlMedusaTxSetSwptr pageSize ctrl (ctrl.ptrAfter n) polls).isSome =
      (txConvert pageSize ctrl.c.shp n 0 ctrl ctrl.c.sdp polls).isSome := by
  unfold ndpCtrlMedusaTxSetSwptr
  simp only [h.publish_count hn]
  cases txConvert pageSize ctrl.c.shp n 0 ctrl ctrl.c.sdp polls with
  | none => rfl
  | some r => rfl

theorem txConvert_not_killed {shp : U32} {n i : Nat} {sdp sdp' : U32} {polls rest : List Poll} {killed : Bool}
    (h : TxDescs k d f ctrl) (hs : At k sdp ctrl.written.length) (hst : TxStream ctrl) (hnk : ∀ p ∈ polls, p.kill = false)
    (hc : txConvert pageSize shp n i ctrl sdp polls = some (ctrl', sdp', killed, rest)) : killed = false := by
  cases killed with
  | false => rfl
  | true =>
    obtain ⟨_, _, _, hkill⟩ := txConvert_spec shp n i h hs hst hc
    obtain ⟨_, p, hp, hpk⟩ := hkill rfl
    rw [hnk p hp] at hpk
    cases hpk

theorem TxLive.terminates_iff (h : TxLive R k d ctrl) {n : Nat} (hn : n < 2 ^ k) :
    Terminates R.pageSize ctrl (ctrl.ptrAfter n) ↔ Room R.pageSize k ctrl.written.length ctrl ctrl.c.shp.toNat n := by
  unfold Terminates
  simp only [setSwptr_isSome h.descs hn]
  constructor
  · intro ht
    -- hardware that completes one descriptor until each look
    obtain ⟨m, hm⟩ := ht (fun _ => 1) fun b => ⟨b, by simp [looks]⟩
    obtain ⟨⟨ctrl', sdp', killed, rest⟩, hc⟩ := Option.isSome_iff_exists.1 hm
    obtain rfl := txConvert_not_killed h.descs (at_of_mod h.sdp) h.stream (looks_noKill _ m) hc
    exact txConvert_room ctrl.c.shp n 0 h.descs (at_of_mod h.sdp) h.stream hc
  · intro hroom e he
    obtain ⟨m, hm⟩ := he ctrl.written.length
    exact ⟨m, txConvert_ends ctrl.c.shp n 0 h.descs (at_of_mod h.sdp) h.stream (looks_noKill e m) (by omega) hroom⟩

/-- The DMA addresses of the next `n` packets. -/
def TxCtrl.nextAddrs (pageSize : U32) (ctrl : TxCtrl) (n : Nat) : List U64 :=
  (List.range n).map fun j => (mpsWalk pageSize ctrl.mps j).addr ctrl.blocks

theorem TxLive.descsFor (h : TxLive R k d ctrl) (shp n : Nat) :
    descsFor R.pageSize ctrl shp n = n + upperChanges ctrl.c.lastUpperAddr (ctrl.nextAddrs R.pageSize n) := by
  unfold Medusa.descsFor TxCtrl.nextAddrs Medusa.conversion
  simp [h.mode]

/-- In every reachable state and for every pointer in the granted window, publishing `n` headers ends
exactly if the descriptors of all of them but the last, and two more, fit into the ring at once. -/
theorem tx_publish_terminates_iff (R : MpsRing) (hcount : 0 < R.cfg.bufferCount.toNat) (s₀ : TxSys)
    (hcfg : s₀.ctrl.mps.cfg = R.cfg) (hblocks : s₀.ctrl.blocks = R.blocks) (hstop : s₀.running = false) (acts : List TxAct)
    (s : TxSys) (hrun : runM (TxSys.step R.pageSize) s₀ acts = some s) (hs : s.running = true) (hdr : Nat → NcNdpHdr) (n : Nat)
    (hn : n ≤ s.ctrl.freeSlots) :
    Terminates R.pageSize { s.ctrl with hdr } (s.ctrl.ptrAfter n) ↔
      n = 0 ∨ n - 1 + upperChanges s.ctrl.c.lastUpperAddr (s.ctrl.nextAddrs R.pageSize (n - 1)) + 2 ≤ s.ctrl.c.mdp.toNat := by
  have h₀ : TxInv R False s₀ := ⟨hcfg, hblocks, fun h => absurd h (by simp [hstop])⟩
  obtain ⟨k, d, hl, _⟩ := (runM_inv (TxInv.step hcount) acts s₀ s (fun _ _ h => h.elim) h₀ hrun).running hs
  have hlt : n < 2 ^ k := lt_of_le_of_lt hn (TxCtrl.freeSlots_lt hl.descs.mhp)
  refine ((hl.setHdr hdr).terminates_iff hlt).trans ?_
  unfold Room
  rw [(hl.setHdr hdr).descsFor, hl.descs.mdp.toNat_eq]
  show n = 0 ∨ s.ctrl.written.length + (n - 1 + upperChanges _ _) + 2 ≤ s.ctrl.written.length + (2 ^ k - 1) ↔ _
  rw [Nat.add_assoc s.ctrl.written.length, Nat.add_le_add_iff_left]
  rfl

/-- A TX channel on a ring of 1024 buffers in one block, before its first start. -/
def wholeRing : MpsRing where
  pageSize := 4096
  cfg := { bufferCount := 1024, bufferSize := 2048, blockCount := 1, blockSize := 0x400000, initialOffset := 0 }
  blocks _ := 0x1234400000

def wholeSys : TxSys where
  ctrl :=
    { c := ⟨0, 0, 0, 0, 0, 0, 0⟩, freeDesc := 0, mode := .packetSimple, mps := wholeRing.cfg.first, blocks := wholeRing.blocks
      desc := fun _ => 0, off := fun _ => 0, hdr := fun _ => ⟨0, 0, 0, 0, 0⟩, regSdp := 0, written := [], converted := [] }
  running := false

def wholeEnv : StartEnv := ⟨0, false, 0xFFFF, 0xFFFF⟩

theorem wholeSys_starts : (ndpCtrlMedusaTxStart 4096 wholeEnv wholeEnv wholeSys.ctrl).2 = 0 := by decide +kernel

theorem wholeSys_start : ∃ ctrl, wholeSys.step 4096 (.start wholeEnv wholeEnv) = some ⟨ctrl, true⟩ ∧
    TxLive wholeRing 10 0 ctrl ∧ InStep 10 ctrl ∧ ctrl.written = [] ∧ ctrl.c.mdp = 1023 ∧ ctrl.freeSlots = 1023 := by
  have hs := eq_of_ret wholeSys_starts
  obtain ⟨k, hl, hi, hw, _, hc⟩ := TxLive.start (R := wholeRing) (by decide) rfl rfl hs
  have hk : 2 ^ k = 2 ^ 10 := hl.size.symm
  obtain rfl := Nat.pow_right_injective le_rfl hk
  refine ⟨_, TxSys.step_start hs, hl, hi, hw, by rw [hc]; rfl, ?_⟩
  unfold TxCtrl.freeSlots
  rw [hc]
  decide

theorem tx_publish_terminates_three : ∃ s, runM (TxSys.step 4096) wholeSys [.start wholeEnv wholeEnv] = some s ∧
    Terminates 4096 { s.ctrl with hdr := fun _ => ⟨60, 0, 0, 0, 0⟩ } (s.ctrl.ptrAfter 3) := by
  obtain ⟨ctrl, hstart, _, _, _, hmdp, hfree⟩ := wholeSys_start
  have hrun := runM_cons hstart (runM_nil _)
  refine ⟨_, hrun, (tx_publish_terminates_iff wholeRing (by decide) wholeSys rfl rfl rfl _ _ hrun rfl _ 3
    (by rw [hfree]; decide)).2 (Or.inr ?_)⟩
  have hle := upperChanges_le ctrl.c.lastUpperAddr (ctrl.nextAddrs 4096 2)
  have hlen : (ctrl.nextAddrs 4096 2).length = 2 := by simp [TxCtrl.nextAddrs]
  rw [hmdp]
  show 2 + upperChanges ctrl.c.lastUpperAddr (ctrl.nextAddrs 4096 2) + 2 ≤ 1023
  omega

/-- The whole window a fresh channel grants cannot be published at once. -/
theorem whole_window_waits_for_itself : ∃ s, runM (TxSys.step 4096) wholeSys [.start wholeEnv wholeEnv] = some s ∧
    s.ctrl.freeSlots = 1023 ∧ ¬ Terminates 4096 s.ctrl (s.ctrl.ptrAfter 1023) := by
  obtain ⟨ctrl, hstart, hl, _, _, _, hfree⟩ := wholeSys_start
  refine ⟨_, runM_cons hstart (runM_nil _), hfree, fun ht => ?_⟩
  rcases (hl.terminates_iff (by norm_num)).1 ht with h | h
  · omega
  · unfold descsFor at h
    omega

end NdkSw.Medusa

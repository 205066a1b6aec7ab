/-
The descriptor streams of both directions as the hardware reads them: whatever happened before the
last start, and however the buffers are split into fills and calls after it, decoding the stream gives
the buffers the driver described, in order.
-/
import NdkSw.Medusa.RxInv
import NdkSw.Medusa.TxProgress

namespace NdkSw.Medusa

open Ndp Ring

/-! ## What a stream stands for -/

/-- The stream `written`, of which the ring `desc` of `n` slots holds the end, stands for `buffers`
whatever upper address the hardware had before. -/
structure StandsFor (n : Nat) (desc : Nat → U64) (written : List U64) (buffers : List (U64 × U16)) : Prop where
  decode : ∀ up, decode up written = buffers
  head : ∀ d, written.head? = some d → descType d = 0
  chain : written.IsChain fun d e => ¬ BothType0 d e
  ring : HoldsLast n desc written

/-- The address and the length of a buffer. -/
def DmaBuffer.pair (b : DmaBuffer) : U64 × U16 := (b.addr, b.len)

theorem Filled.standsFor {R : MpsRing} {ctrl : RxCtrl} {t : Nat} {pend : Bool} (h : Filled R ctrl t pend) :
    StandsFor R.cfg.bufferCount.toNat ctrl.desc ctrl.written ((R.buffers t).map DmaBuffer.pair) :=
  ⟨h.decode, fun _ hd => h.head hd, h.chain, h.ring⟩

theorem TxFlushed.standsFor {k d : Nat} {ctrl : TxCtrl} (h : TxFlushed k d ctrl) :
    StandsFor ctrl.count.toNat ctrl.desc ctrl.written (ctrl.converted.map (·.buffer.pair)) := by
  have hw : ctrl.written = encode noUpperAddr (ctrl.converted.map (·.buffer)) ++ [] := by
    rw [List.append_nil]; exact h.stream.written
  refine ⟨fun up => ?_, fun d hd => ?_, ?_, ?_⟩
  · rw [hw, decode_encode _ _ _ _ (Or.inr upperAddr_ne_noUpperAddr), List.map_map, Medusa.decode, List.append_nil]
    rfl
  · rw [hw] at hd
    exact head_encode _ (fun e he => by cases he) hd
  · rw [hw]
    exact encode_chain _ _ _ List.isChain_nil
  · rw [h.descs.count]
    exact h.descs.ring

/-! ## Fills and calls after a start -/

theorem Ready.fills {R : MpsRing} {k : Nat} (counts : List U64) {ctrl : RxCtrl} {t : Nat} {pend : Bool}
    (h : Ready R k ctrl t pend) :
    ∃ t' pend', Ready R k (counts.foldl (ndpCtrlMpsFillRxDescs R.pageSize) ctrl) t' pend' ∧
      (counts.foldl (ndpCtrlMpsFillRxDescs R.pageSize) ctrl).written.length =
        ctrl.written.length + (counts.map BitVec.toNat).sum := by
  induction counts generalizing ctrl t pend with
  | nil => exact ⟨t, pend, h, rfl⟩
  | cons count counts ih =>
    obtain ⟨t₁, pend₁, _, h₁, hlen₁, _⟩ := h.fill count
    obtain ⟨t₂, pend₂, h₂, hlen₂⟩ := ih h₁
    refine ⟨t₂, pend₂, h₂, ?_⟩
    rw [List.foldl_cons, hlen₂, hlen₁, List.map_cons, List.sum_cons, Nat.add_assoc]

/-- A call on a TX controller; what the users have written to the offset and header memory by then is
part of it. -/
inductive TxCall
  | setSwptr (off : Nat → U64) (hdr : Nat → NcNdpHdr) (ptr : U64) (polls : List Poll)
  | getHwptr (hw : Nat)

/-- The controller after a call that returns. -/
def TxCtrl.call (pageSize : U32) (ctrl : TxCtrl) : TxCall → Option TxCtrl
  | .setSwptr off hdr ptr polls => (ndpCtrlMedusaTxSetSwptr pageSize { ctrl with off, hdr } ptr polls).map Prod.fst
  | .getHwptr hw => some (ndpCtrlMedusaTxGetHwptr ctrl hw).1

theorem TxFlushed.call {pageSize : U32} {k : Nat} (ctrl : TxCtrl) (a : TxCall) (ctrl' : TxCtrl)
    (h : ∃ d, TxFlushed k d ctrl) (hc : ctrl.call pageSize a = some ctrl') : ∃ d, TxFlushed k d ctrl' := by
  obtain ⟨d, h⟩ := h
  cases a with
  | setSwptr off hdr ptr polls =>
    obtain ⟨⟨ctrl₁, rest⟩, hset, rfl⟩ := Option.map_eq_some_iff.1 hc
    obtain ⟨_, m, killed, hp⟩ := (h.setMem ctrl.mode off hdr).setSwptr hset
    obtain ⟨d', _, h'⟩ := hp.flushed
    exact ⟨d', h'⟩
  | getHwptr hw =>
    cases hc
    exact ⟨_, h.getHwptr hw⟩

theorem TxFlushed.converts {pageSize : U32} {k d : Nat} {ctrl ctrl' : TxCtrl} (h : TxFlushed k d ctrl) {ptr : U64}
    {polls rest : List Poll} (hc : ndpCtrlMedusaTxSetSwptr pageSize ctrl ptr polls = some (ctrl', rest)) :
    ∃ m ≤ ((ptr - ctrl.c.shp.setWidth 64) &&& ctrl.c.mhp.setWidth 64).toNat,
      ctrl'.converted = ctrl.converted ++ (List.range m).map (conversion pageSize ctrl ctrl.c.shp.toNat) ∧
      ((∀ p ∈ polls, p.kill = false) → m = ((ptr - ctrl.c.shp.setWidth 64) &&& ctrl.c.mhp.setWidth 64).toNat) := by
  obtain ⟨_, m, killed, hp⟩ := h.setSwptr hc
  refine ⟨m, ?_, hp.converted, fun hnk => ?_⟩
  · cases killed with
    | false => exact (hp.all rfl).le
    | true => exact (hp.abort rfl).1.le
  · cases killed with
    | false => exact hp.all rfl
    | true =>
      obtain ⟨_, p, hmem, hpk⟩ := hp.abort rfl
      rw [hnk p hmem] at hpk
      cases hpk

/-- RX: after a start and any fills the stream stands for the buffers of the walk. TX, in any mode: after a
start and any calls it stands for the packets converted, and a further call appends those it publishes. -/
theorem desc_stream_roundtrip (pageSize : U32) (env₁ env₂ : StartEnv) :
    (∀ rx rx' : RxCtrl, 0 < rx.count.toNat → ndpCtrlMedusaRxStart pageSize env₁ env₂ rx = (rx', 0) → ∀ counts : List U64,
      ∃ t, (counts.foldl (ndpCtrlMpsFillRxDescs pageSize) rx').mps = mpsWalk pageSize rx.mps.cfg.first t ∧
        (counts.foldl (ndpCtrlMpsFillRxDescs pageSize) rx').written.length =
          (rx.count - ndpCtrlRxDescBurst).toNat + (counts.map BitVec.toNat).sum ∧
        StandsFor rx.count.toNat (counts.foldl (ndpCtrlMpsFillRxDescs pageSize) rx').desc
          (counts.foldl (ndpCtrlMpsFillRxDescs pageSize) rx').written
          ((List.range t).map fun j =>
            ((mpsWalk pageSize rx.mps.cfg.first j).addr rx.blocks, rx.mps.cfg.bufferSize.setWidth 16))) ∧
    ∀ tx tx' : TxCtrl, 0 < tx.count.toNat → ndpCtrlMedusaTxStart pageSize env₁ env₂ tx = (tx', 0) → tx'.converted = [] ∧
      ∀ (mode : CtrlMode) (calls : List TxCall) (ctrl : TxCtrl),
        runM (TxCtrl.call pageSize) { tx' with mode } calls = some ctrl →
        StandsFor ctrl.count.toNat ctrl.desc ctrl.written (ctrl.converted.map (·.buffer.pair)) ∧
        ∀ (off : Nat → U64) (hdr : Nat → NcNdpHdr) (ptr : U64) (polls rest : List Poll) (ctrl' : TxCtrl),
          ndpCtrlMedusaTxSetSwptr pageSize { ctrl with off, hdr } ptr polls = some (ctrl', rest) →
          ∃ m ≤ ((ptr - ctrl.c.shp.setWidth 64) &&& ctrl.c.mhp.setWidth 64).toNat,
            ctrl'.converted = ctrl.converted ++
              (List.range m).map (conversion pageSize { ctrl with off, hdr } ctrl.c.shp.toNat) ∧
            ((∀ p ∈ polls, p.kill = false) → m = ((ptr - ctrl.c.shp.setWidth 64) &&& ctrl.c.mhp.setWidth 64).toNat) := by
  constructor
  · intro rx rx' hn hs counts
    obtain ⟨k, t, pend, hr, _, _, _, _, _, hlen⟩ := Ready.start (R := ⟨pageSize, rx.mps.cfg, rx.blocks⟩) hn rfl rfl hs
    obtain ⟨t', pend', hr', hlen'⟩ := hr.fills counts
    have hS := hr'.toFilled.standsFor
    rw [MpsRing.buffers, List.map_map] at hS
    exact ⟨t', hr'.mps, by rw [hlen', hlen]; rfl, hS⟩
  · intro tx tx' hn hs
    obtain ⟨k, hl, _, _, hnone, _⟩ := TxLive.start (R := ⟨pageSize, tx.mps.cfg, tx.blocks⟩) hn rfl rfl hs
    refine ⟨hnone, fun mode calls ctrl hrun => ?_⟩
    have h₀ : ∃ d, TxFlushed k d { tx' with mode } := ⟨0, hl.toTxFlushed.setMem mode tx'.off tx'.hdr⟩
    obtain ⟨d, h⟩ := runM_inv (C := fun _ => True) (fun ctrl a ctrl' _ => TxFlushed.call ctrl a ctrl') calls _ ctrl
      (fun _ _ => trivial) h₀ hrun
    refine ⟨h.standsFor, fun off hdr ptr polls rest ctrl' hc => ?_⟩
    exact (h.setMem ctrl.mode off hdr).converts hc

theorem desc_stream_roundtrip_user_packets :
    (∃ rx, ndpCtrlMedusaRxStart 4096 wholeEnv wholeEnv oneBlockSys.ctrl = (rx, 0) ∧ ∃ t, StandsFor 128
      (ndpCtrlMpsFillRxDescs 4096 rx 3).desc (ndpCtrlMpsFillRxDescs 4096 rx 3).written
      ((List.range t).map fun j => ((mpsWalk 4096 oneBlockRing.cfg.first j).addr oneBlockRing.blocks, 4096))) ∧
    ∃ tx ctrl, ndpCtrlMedusaTxStart 4096 wholeEnv wholeEnv wholeSys.ctrl = (tx, 0) ∧
      runM (TxCtrl.call 4096) { tx with mode := .user }
        [.setSwptr (fun j => BitVec.ofNat 64 j <<< 29) (fun _ => ⟨60, 0, 0, 0, 0⟩) 3 []] = some ctrl ∧
      StandsFor ctrl.count.toNat ctrl.desc ctrl.written (ctrl.converted.map (·.buffer.pair)) := by
  obtain ⟨hrx, htx⟩ := desc_stream_roundtrip 4096 wholeEnv wholeEnv
  constructor
  · have hret : (ndpCtrlMedusaRxStart 4096 wholeEnv wholeEnv oneBlockSys.ctrl).2 = 0 := by decide +kernel
    have hs := eq_of_ret hret
    obtain ⟨t, _, _, h⟩ := hrx oneBlockSys.ctrl _ (by decide) hs [3]
    exact ⟨_, hs, t, h⟩
  · have hs := eq_of_ret wholeSys_starts
    have hsome : (runM (TxCtrl.call 4096) { (ndpCtrlMedusaTxStart 4096 wholeEnv wholeEnv wholeSys.ctrl).1 with mode := .user }
        [.setSwptr (fun j => BitVec.ofNat 64 j <<< 29) (fun _ => ⟨60, 0, 0, 0, 0⟩) 3 []]).isSome := by decide +kernel
    obtain ⟨ctrl, hrun⟩ := Option.isSome_iff_exists.1 hsome
    exact ⟨_, ctrl, hs, hrun, ((htx wholeSys.ctrl _ (by decide) hs).2 .user _ ctrl hrun).1⟩

end NdkSw.Medusa

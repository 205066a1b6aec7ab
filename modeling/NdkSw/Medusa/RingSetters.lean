/-
Writes of the ring attributes come to an end. The search of `ndp_ctrl_set_ring_size` doubles a 64-bit count, the walk of
`ndp_ctrl_medusa_req_block_update` counts its buffers with 32 bits: both end within the number of buffers that is asked for, or
never.
-/
import NdkSw.Medusa.Reconf

namespace NdkSw.Medusa

open Ndp

/-! ## The search -/

/-- The search stops at a power of two, the largest within the limit. -/
structure Doubled (limit : U64) (k : Nat) (count : U64) (m : Nat) : Prop where
  pow : count.toNat = 2 ^ m
  start : k ≤ m
  above : limit.toNat < 2 ^ (m + 1)
  within : m = k ∨ 2 ^ m ≤ limit.toNat

theorem toNat_double {count : U64} {k : Nat} (hk : k < 63) (hc : count.toNat = 2 ^ k) : (count * 2).toNat = 2 ^ (k + 1) := by
  have hlt : 2 ^ (k + 1) < 2 ^ 64 := (Nat.pow_lt_pow_iff_right (by norm_num)).2 (by omega)
  rw [BitVec.toNat_mul, hc]
  show 2 ^ k * 2 % 2 ^ 64 = _
  rw [← pow_succ, Nat.mod_eq_of_lt hlt]

variable {limit : U64}

theorem ringSizeCount_doubled (hl : limit.toNat < 2 ^ 63) : ∀ fuel k (count : U64), k < 63 → count.toNat = 2 ^ k →
    limit.toNat < 2 ^ (k + fuel + 1) → ∃ count' m, ringSizeCount limit fuel count = some count' ∧ Doubled limit k count' m := by
  intro fuel
  induction fuel with
  | zero =>
    intro k count hk hc hf
    have hstop : ¬count * 2 ≤ limit := by
      rw [BitVec.le_def, toNat_double hk hc]
      exact Nat.not_le_of_lt hf
    exact ⟨count, k, by rw [ringSizeCount, if_neg hstop], hc, le_rfl, hf, .inl rfl⟩
  | succ fuel ih =>
    intro k count hk hc hf
    rw [ringSizeCount]
    by_cases hgo : count * 2 ≤ limit
    · have hle : 2 ^ (k + 1) ≤ limit.toNat := by
        rw [← toNat_double hk hc]
        exact BitVec.le_def.1 hgo
      have hk' : k + 1 < 63 := (Nat.pow_lt_pow_iff_right (by norm_num)).1 (lt_of_le_of_lt hle hl)
      obtain ⟨count', m, hcount, hd⟩ := ih (k + 1) (count * 2) hk' (toNat_double hk hc)
        (by rw [show k + 1 + fuel + 1 = k + (fuel + 1) + 1 by omega]; exact hf)
      refine ⟨count', m, by rw [if_pos hgo, hcount], hd.pow, by have := hd.start; omega, hd.above, .inr ?_⟩
      rcases hd.within with rfl | hw
      · exact hle
      · exact hw
    · have habove : limit.toNat < 2 ^ (k + 1) := by
        rw [← toNat_double hk hc]
        exact Nat.lt_of_not_le fun h => hgo (BitVec.le_def.2 h)
      exact ⟨count, k, by rw [if_neg hgo], hc, le_rfl, habove, .inl rfl⟩

theorem ringSizeCount_ends (hl : limit.toNat < 2 ^ 63) (fuel : Nat) (hf : limit.toNat < 2 ^ (fuel + 1)) :
    ∃ count m, ringSizeCount limit fuel 1 = some count ∧ Doubled limit 0 count m :=
  ringSizeCount_doubled hl fuel 0 1 (by norm_num) rfl (by rwa [Nat.zero_add])

theorem ringSizeCount_endless (hl : 2 ^ 63 ≤ limit.toNat) : ∀ fuel (count : U64),
    (count = 0 ∨ ∃ k ≤ 63, count.toNat = 2 ^ k) → ringSizeCount limit fuel count = none := by
  have hgo : ∀ count : U64, (count = 0 ∨ ∃ k ≤ 63, count.toNat = 2 ^ k) →
      count * 2 ≤ limit ∧ (count * 2 = 0 ∨ ∃ k ≤ 63, (count * 2).toNat = 2 ^ k) := by
    rintro count (rfl | ⟨k, hk, hc⟩)
    · exact ⟨by rw [BitVec.le_def]; exact Nat.zero_le _, .inl rfl⟩
    · rcases Nat.lt_or_ge k 63 with hlt | hge
      · have hpow := toNat_double hlt hc
        refine ⟨?_, .inr ⟨k + 1, hlt, hpow⟩⟩
        rw [BitVec.le_def, hpow]
        exact le_trans (Nat.pow_le_pow_right (by norm_num) hlt) hl
      · have hzero : count * 2 = 0 := by
          apply BitVec.eq_of_toNat_eq
          rw [BitVec.toNat_mul, hc, show k = 63 by omega]
          rfl
        rw [hzero]
        exact ⟨by rw [BitVec.le_def]; exact Nat.zero_le _, .inl rfl⟩
  intro fuel
  induction fuel with
  | zero =>
    intro count hc
    rw [ringSizeCount, if_pos (hgo count hc).1]
  | succ fuel ih =>
    intro count hc
    rw [ringSizeCount, if_pos (hgo count hc).1]
    exact ih (count * 2) (hgo count hc).2

/-! ## The walk -/

section

variable {pageSize : U32} {bufferCount : U64}

theorem minBufferItems_lt (h : bufferCount < (minBufferItems pageSize).setWidth 64) : bufferCount.toNat < 2 ^ 32 := by
  have hlt := BitVec.lt_def.1 h
  rw [toNat_setWidth64] at hlt
  exact lt_trans hlt (minBufferItems pageSize).isLt

theorem storeRequest_ends_iff (req : RingRequest) (initialOffset : U64) {bufferSize : U64} :
    (∃ r, storeRequest pageSize req bufferSize bufferCount initialOffset = some r) ↔
      bufferSize = 0 ∨ bufferCount.toNat < 2 ^ 32 := by
  unfold storeRequest ndpCtrlMedusaReqBlockUpdate
  by_cases hrefused : bufferSize = 0 ∨ bufferCount < (minBufferItems pageSize).setWidth 64
  · rw [if_pos hrefused]
    refine ⟨fun _ => ?_, fun _ => ⟨_, rfl⟩⟩
    exact hrefused.imp_right minBufferItems_lt
  · rw [if_neg hrefused]
    constructor
    · rintro ⟨r, hr⟩
      obtain ⟨cfg, hcfg, -⟩ := Option.map_eq_some_iff.1 hr
      exact .inr (mpsRequestCfg_eq_some.1 hcfg).1
    · rintro (hsize | hcount)
      · exact absurd (.inl hsize) hrefused
      · exact ⟨_, by rw [mpsRequestCfg_eq_some.2 ⟨hcount, le_rfl, rfl⟩]; rfl⟩

/-! ## Writes -/

/-- The number of buffers that a write asks for. -/
def askedCount (cfg : NdpCtrlCfg) (attr : RingAttr) (value : U64) : U64 :=
  match attr with
  | .bufferSize | .initialOffset => cfg.bufferCount.setWidth 64
  | .bufferCount => value
  | .ringSize => value / cfg.bufferSize.setWidth 64

/-- A write ends: the search within the number of buffers asked for, the walk within the number that comes out of it. -/
structure SetterEnds (pageSize : U32) (env : ResizeEnv) (s : MpsChannel) (attr : RingAttr) (value : U64) : Prop where
  search : attr = .ringSize → s.req.cfg.bufferSize ≠ 0 → ∃ count,
    ringSizeCount (askedCount s.req.cfg attr value) (askedCount s.req.cfg attr value).toNat 1 = some count
  walk : ∃ r, ndpCtrlSet pageSize env s attr value = some r

/-- The condition: the request is refused at once, or asks for less than 2^32 buffers. -/
def CountFits (cfg : NdpCtrlCfg) (attr : RingAttr) (value : U64) : Prop :=
  match attr with
  | .bufferSize | .initialOffset => True
  | .bufferCount | .ringSize => cfg.bufferSize = 0 ∨ (askedCount cfg attr value).toNat < 2 ^ 32

instance (cfg : NdpCtrlCfg) (attr : RingAttr) (value : U64) : Decidable (CountFits cfg attr value) := by
  unfold CountFits
  cases attr with
  | bufferSize => exact inferInstanceAs (Decidable True)
  | initialOffset => exact inferInstanceAs (Decidable True)
  | bufferCount => exact inferInstanceAs (Decidable (_ ∨ _))
  | ringSize => exact inferInstanceAs (Decidable (_ ∨ _))

variable {env : ResizeEnv} {s : MpsChannel} {attr : RingAttr} {value : U64}

theorem reqBlockResize_ends_iff {bufferSize initialOffset : U64} :
    (∃ r, reqBlockResize pageSize env s bufferSize bufferCount initialOffset = some r) ↔
      bufferSize = 0 ∨ bufferCount.toNat < 2 ^ 32 := by
  rw [← storeRequest_ends_iff s.req initialOffset]
  unfold reqBlockResize
  simp only [Option.map_eq_some_iff]
  constructor
  · rintro ⟨_, r, hr, -⟩
    exact ⟨r, hr⟩
  · rintro ⟨r, hr⟩
    exact ⟨_, r, hr, rfl⟩

theorem ndpCtrlSet_ends_iff (hattr : attr ≠ .ringSize) : (∃ r, ndpCtrlSet pageSize env s attr value = some r) ↔
    (match attr with
      | .bufferSize => value = 0
      | _ => s.req.cfg.bufferSize.setWidth 64 = (0 : U64)) ∨ (askedCount s.req.cfg attr value).toNat < 2 ^ 32 := by
  unfold ndpCtrlSet
  rw [if_neg fun h => hattr h.1]
  cases attr with
  | ringSize => exact absurd rfl hattr
  | bufferSize => exact reqBlockResize_ends_iff
  | bufferCount => exact reqBlockResize_ends_iff
  | initialOffset => exact reqBlockResize_ends_iff

theorem setWidth64_eq_zero {r : U32} : (r.setWidth 64 : U64) = 0 ↔ r = 0 := by
  rw [BitVec.toNat_eq, toNat_setWidth64, BitVec.toNat_eq]
  rfl

/-- The search of `set_ring_size` ends within its limit and the walk after it, for less than 2^32 buffers only. -/
theorem ringSize_ends_iff (hsize : s.req.cfg.bufferSize ≠ 0) :
    SetterEnds pageSize env s .ringSize value ↔ (askedCount s.req.cfg .ringSize value).toNat < 2 ^ 32 := by
  have hne : (s.req.cfg.bufferSize.setWidth 64 : U64) ≠ 0 := fun h => hsize (setWidth64_eq_zero.1 h)
  have hset : ndpCtrlSet pageSize env s .ringSize value =
      (ringSizeCount (askedCount s.req.cfg .ringSize value) 64 1).bind fun count =>
        reqBlockResize pageSize env s (s.req.cfg.bufferSize.setWidth 64) count (s.req.cfg.initialOffset.setWidth 64) := by
    unfold ndpCtrlSet askedSizes
    rw [if_neg fun h => hsize h.2]
    show (Option.map _ _).bind _ = _
    rw [Option.bind_map]
    rfl
  generalize hlimit : askedCount s.req.cfg .ringSize value = limit at hset
  by_cases hl : limit.toNat < 2 ^ 63
  · obtain ⟨count, m, hcount, hd⟩ := ringSizeCount_ends hl 64 (lt_trans limit.isLt (by norm_num))
    have hwalk : (∃ r, ndpCtrlSet pageSize env s .ringSize value = some r) ↔ count.toNat < 2 ^ 32 := by
      rw [hset, hcount, Option.bind_some, reqBlockResize_ends_iff, or_iff_right hne]
    have hsearch : ∃ count, ringSizeCount limit limit.toNat 1 = some count := by
      obtain ⟨count', m', h, -⟩ := ringSizeCount_ends hl limit.toNat (lt_trans (Nat.lt_succ_self _) Nat.lt_two_pow_self)
      exact ⟨count', h⟩
    have hcut : count.toNat < 2 ^ 32 ↔ limit.toNat < 2 ^ 32 := by
      rw [hd.pow]
      constructor
      · intro hm
        have hm32 : m + 1 ≤ 32 := (Nat.pow_lt_pow_iff_right (by norm_num)).1 hm
        exact lt_of_lt_of_le hd.above (Nat.pow_le_pow_right (by norm_num) hm32)
      · intro hm
        rcases hd.within with rfl | hw
        · norm_num
        · exact lt_of_le_of_lt hw hm
    constructor
    · rintro ⟨-, hw⟩
      exact hcut.1 (hwalk.1 hw)
    · intro hm
      exact ⟨fun _ _ => by rw [hlimit]; exact hsearch, hwalk.2 (hcut.2 hm)⟩
  · have hnone : ∀ fuel, ringSizeCount limit fuel 1 = none := fun fuel =>
      ringSizeCount_endless (Nat.le_of_not_lt hl) fuel 1 (.inr ⟨0, by norm_num, rfl⟩)
    constructor
    · rintro ⟨-, r, hr⟩
      rw [hset, hnone] at hr
      cases hr
    · intro hm
      omega

/-- What does not end within these rounds does not end at all. -/
theorem setter_endless (h : ¬CountFits s.req.cfg attr value) :
    (attr = .ringSize ∧ ∀ fuel, ringSizeCount (askedCount s.req.cfg attr value) fuel 1 = none) ∨
      ∃ bufferSize bufferCount initialOffset, askedSizes s.req.cfg attr value = some (bufferSize, bufferCount, initialOffset) ∧
        ∀ fuel w, mpsWalkUntil pageSize bufferCount fuel w = none := by
  cases attr with
  | bufferSize => exact absurd trivial h
  | initialOffset => exact absurd trivial h
  | bufferCount =>
    obtain ⟨-, hcount⟩ := not_or.1 h
    exact .inr ⟨_, _, _, rfl, fun fuel w => mpsWalkUntil_endless (Nat.le_of_not_lt hcount) fuel w⟩
  | ringSize =>
    obtain ⟨-, hcount⟩ := not_or.1 h
    generalize hlimit : askedCount s.req.cfg .ringSize value = limit at hcount
    by_cases hl : limit.toNat < 2 ^ 63
    · obtain ⟨count, m, hd, hdoubled⟩ := ringSizeCount_ends hl 64 (lt_trans limit.isLt (by norm_num))
      have hm : 32 < m + 1 := (Nat.pow_lt_pow_iff_right (by norm_num)).1
        (lt_of_le_of_lt (Nat.le_of_not_lt hcount) hdoubled.above)
      have hbig : 2 ^ 32 ≤ count.toNat := by
        rw [hdoubled.pow]
        exact Nat.pow_le_pow_right (by norm_num) (Nat.lt_succ_iff.1 hm)
      refine .inr ⟨s.req.cfg.bufferSize.setWidth 64, count, s.req.cfg.initialOffset.setWidth 64, ?_,
        fun fuel w => mpsWalkUntil_endless hbig fuel w⟩
      show Option.map _ (ringSizeCount (askedCount s.req.cfg .ringSize value) 64 1) = _
      rw [hlimit, hd]
      rfl
    · exact .inl ⟨rfl, fun fuel => ringSizeCount_endless (Nat.le_of_not_lt hl) fuel 1 (.inr ⟨0, by norm_num, rfl⟩)⟩

end

/-- For every value written to an attribute and every configuration: search and walk end within the number of buffers asked for
if and only if the request is refused at once or that number is below 2^32. -/
theorem setter_ends_iff (pageSize : U32) (env : ResizeEnv) (s : MpsChannel) (attr : RingAttr) (value : U64) :
    SetterEnds pageSize env s attr value ↔ CountFits s.req.cfg attr value := by
  have hplain : attr ≠ .ringSize → (SetterEnds pageSize env s attr value ↔ ∃ r, ndpCtrlSet pageSize env s attr value = some r) :=
    fun hattr => ⟨fun h => h.walk, fun h => ⟨fun ha => absurd ha hattr, h⟩⟩
  cases attr with
  | bufferSize =>
    rw [hplain (by decide), ndpCtrlSet_ends_iff (by decide)]
    refine iff_of_true (.inr ?_) trivial
    show (s.req.cfg.bufferCount.setWidth 64 : U64).toNat < 2 ^ 32
    rw [toNat_setWidth64]
    exact s.req.cfg.bufferCount.isLt
  | initialOffset =>
    rw [hplain (by decide), ndpCtrlSet_ends_iff (by decide)]
    refine iff_of_true (.inr ?_) trivial
    show (s.req.cfg.bufferCount.setWidth 64 : U64).toNat < 2 ^ 32
    rw [toNat_setWidth64]
    exact s.req.cfg.bufferCount.isLt
  | bufferCount =>
    rw [hplain (by decide), ndpCtrlSet_ends_iff (by decide)]
    exact or_congr_left setWidth64_eq_zero
  | ringSize =>
    by_cases hsize : s.req.cfg.bufferSize = 0
    · refine iff_of_true ⟨fun _ hne => absurd hsize hne, ?_⟩ (.inl hsize)
      exact ⟨(s, eInval), by rw [ndpCtrlSet, if_pos ⟨rfl, hsize⟩]⟩
    · rw [ringSize_ends_iff hsize]
      exact (or_iff_right hsize).symm

/-- A channel without a ring, with buffers of one byte. -/
def byteChannel : MpsChannel :=
  { req := { cfg := ⟨4096, 1, 2, 8192, 64⟩, reqBlockCount := 2, reqBlockSize := 8192 }
    mpsCfg := ⟨4096, 1, 2, 8192, 64⟩, ring := none, startCount := 0, dev := true }

def noMemory : ResizeEnv := ⟨⟨false, 0, 0⟩, ⟨false, 0, 0⟩⟩

/-- The walk never gets to 2^32 buffers, nor the search to a ring of 2^63 bytes. -/
theorem four_billion_buffers : ¬SetterEnds 4096 noMemory byteChannel .bufferCount 0x100000000 ∧
    (∀ fuel w, mpsWalkUntil 4096 0x100000000 fuel w = none) ∧
    ¬SetterEnds 4096 noMemory byteChannel .ringSize 0x8000000000000000 ∧
    ∀ fuel, ringSizeCount (askedCount byteChannel.req.cfg .ringSize 0x8000000000000000) fuel 1 = none := by
  refine ⟨fun h => ?_, fun fuel w => mpsWalkUntil_endless (by decide) fuel w, fun h => ?_, fun fuel => ?_⟩
  · exact absurd ((ndpCtrlSet_ends_iff (by decide)).1 h.walk) (by decide)
  · exact absurd ((ringSize_ends_iff (by decide)).1 h) (by decide)
  · exact ringSizeCount_endless (by decide) fuel 1 (.inr ⟨0, by norm_num, rfl⟩)

end NdkSw.Medusa

/-
The clock of the timestamping unit (`netcope/tsu.h` and the clock operations of `net/driver.c`): its registers, the time they carry and
the increment.
-/
import NdkSw.Net.QueueConfig

namespace NdkSw.Net

open Ndp

/-! ## The unit -/

abbrev S64 := BitVec 64

/-- The unit: the three words of data, the time it counts in seconds and a binary fraction, and what it adds in a tick. -/
structure Tsu where
  dataLow : U32
  dataMiddle : U32
  dataHigh : U32
  sec : U32
  fraction : U64
  inc : BitVec 39

/-- `struct nc_tsu_time`. -/
structure NcTsuTime where
  sec : U32
  fraction : U64
  deriving DecidableEq

/-- The registers. -/
inductive TsuReg where
  | miDataLow
  | miDataMiddle
  | miDataHigh
  | control
  deriving DecidableEq

def tsuCmdWriteInc : U32 := 0x00

def tsuCmdWriteRt : U32 := 0x01

def tsuCmdReadInc : U32 := 0x04

def tsuCmdReadRt : U32 := 0x05

/-- Two words as a number of 64 bits. -/
def joined (middle low : U32) : U64 := (middle.setWidth 64 <<< 32) ||| low.setWidth 64

/-- A write into a register; the control register moves the time or the increment from or into the words of data. -/
def Tsu.write32 (t : Tsu) : TsuReg → U32 → Tsu
  | .miDataLow, v => { t with dataLow := v }
  | .miDataMiddle, v => { t with dataMiddle := v }
  | .miDataHigh, v => { t with dataHigh := v }
  | .control, v =>
    if v = tsuCmdWriteInc then { t with inc := (joined t.dataMiddle t.dataLow).setWidth 39 }
    else if v = tsuCmdWriteRt then { t with sec := t.dataHigh, fraction := joined t.dataMiddle t.dataLow }
    else if v = tsuCmdReadInc then
      { t with dataLow := t.inc.setWidth 32, dataMiddle := (t.inc >>> 32).setWidth 32, dataHigh := 0 }
    else if v = tsuCmdReadRt then
      { t with dataLow := t.fraction.setWidth 32, dataMiddle := (t.fraction >>> 32).setWidth 32, dataHigh := t.sec }
    else t

/-- A read of a word of data; what the control register reads as is not used. -/
def Tsu.read32 (t : Tsu) : TsuReg → U32
  | .miDataLow => t.dataLow
  | .miDataMiddle => t.dataMiddle
  | .miDataHigh => t.dataHigh
  | .control => 0

/-- `nc_tsu_get_rtr`. -/
def ncTsuGetRtr (t : Tsu) : Tsu × NcTsuTime :=
  let t := t.write32 .control tsuCmdReadRt
  (t, { sec := t.read32 .miDataHigh, fraction := joined (t.read32 .miDataMiddle) (t.read32 .miDataLow) })

/-- `nc_tsu_set_rtr`. -/
def ncTsuSetRtr (t : Tsu) (rtr : NcTsuTime) : Tsu :=
  let t := t.write32 .miDataHigh rtr.sec
  let t := t.write32 .miDataMiddle ((rtr.fraction >>> 32).setWidth 32)
  let t := t.write32 .miDataLow ((rtr.fraction &&& 0xFFFFFFFF#64).setWidth 32)
  t.write32 .control tsuCmdWriteRt

/-- `nc_tsu_get_inc`. -/
def ncTsuGetInc (t : Tsu) : Tsu × U64 :=
  let t := t.write32 .control tsuCmdReadInc
  -- The increment is 39 bits long, the middle word has 7 of them.
  (t, joined (t.read32 .miDataMiddle &&& 0x7F#32) (t.read32 .miDataLow))

/-- `nc_tsu_set_inc`. -/
def ncTsuSetInc (t : Tsu) (frac : U64) : Tsu :=
  let t := t.write32 .miDataHigh 0
  let t := t.write32 .miDataMiddle (((frac >>> 32) &&& 0x7F#64).setWidth 32)
  let t := t.write32 .miDataLow (frac.setWidth 32)
  t.write32 .control tsuCmdWriteInc

/-! ### What they do -/

theorem joined_split (x : U64) : joined ((x >>> 32).setWidth 32) (x.setWidth 32) = x := by
  unfold joined
  ext i hi
  simp only [BitVec.getElem_or, BitVec.getElem_shiftLeft, BitVec.getElem_setWidth, BitVec.getLsbD_setWidth,
    BitVec.getLsbD_ushiftRight]
  by_cases h : i < 32
  · simp [h, BitVec.getLsbD_eq_getElem hi]
  · have hle : 32 ≤ i := Nat.le_of_not_lt h
    simp [h, Nat.add_sub_cancel' hle, BitVec.getLsbD_eq_getElem hi]
    omega

theorem low_word (x : U64) : (x &&& 0xFFFFFFFF#64).setWidth 32 = x.setWidth 32 := by
  ext i hi
  have h : (0xFFFFFFFF#64).getLsbD i = true := by
    rw [show (0xFFFFFFFF#64 : U64) = (BitVec.allOnes 32).setWidth 64 from rfl, BitVec.getLsbD_setWidth, BitVec.getLsbD_allOnes]
    simp [hi]
    omega
  rw [BitVec.getElem_setWidth, BitVec.getElem_setWidth, BitVec.getLsbD_and, h, Bool.and_true]

theorem getRtr_spec (t : Tsu) : (ncTsuGetRtr t).2 = { sec := t.sec, fraction := t.fraction } := by
  simp only [ncTsuGetRtr, Tsu.write32, Tsu.read32]
  exact congrArg (NcTsuTime.mk t.sec) (joined_split t.fraction)

theorem setRtr_sec (t : Tsu) (rtr : NcTsuTime) : (ncTsuSetRtr t rtr).sec = rtr.sec := rfl

theorem setRtr_fraction (t : Tsu) (rtr : NcTsuTime) : (ncTsuSetRtr t rtr).fraction = rtr.fraction := by
  show joined ((rtr.fraction >>> 32).setWidth 32) ((rtr.fraction &&& 0xFFFFFFFF#64).setWidth 32) = rtr.fraction
  rw [low_word, joined_split]

theorem setInc_inc (t : Tsu) (frac : U64) : (ncTsuSetInc t frac).inc = frac.setWidth 39 := by
  show (joined (((frac >>> 32) &&& 0x7F#64).setWidth 32) (frac.setWidth 32)).setWidth 39 = frac.setWidth 39
  unfold joined
  ext i hi
  have h7 : ∀ j, (0x7F#64 : U64).getLsbD j = decide (j < 7) := by
    intro j
    rw [show (0x7F#64 : U64) = (BitVec.allOnes 7).setWidth 64 from rfl, BitVec.getLsbD_setWidth, BitVec.getLsbD_allOnes]
    by_cases hj : j < 7
    · simp [hj]
      omega
    · simp [hj]
  simp only [BitVec.getElem_setWidth, BitVec.getLsbD_or, BitVec.getLsbD_shiftLeft, BitVec.getLsbD_setWidth,
    BitVec.getLsbD_and, BitVec.getLsbD_ushiftRight, h7]
  by_cases h : i < 32
  · simp [h]
    omega
  · have hle : 32 ≤ i := Nat.le_of_not_lt h
    have h64 : i < 64 := by omega
    have h39 : i - 32 < 7 := by omega
    have h32 : i - 32 < 32 := by omega
    simp [h, h64, h39, h32, Nat.add_sub_cancel' hle]
    omega

/-! ## The clock operations -/

/-- A `struct timespec64`. -/
structure Timespec64 where
  tvSec : S64
  tvNsec : S64
  deriving DecidableEq

/-- How many units of the fraction a nanosecond has. -/
def nsUnits : U64 := 18446744073#64

/-- `ns_to_64b_fr`. -/
def nsTo64bFr (ns : U64) : U64 := ns * nsUnits

/-- `fr_64b_to_ns`. -/
def fr64bToNs (fr : U64) : U64 := fr / nsUnits

/-- `nfb_tsu_gettimex64`. -/
def nfbTsuGettimex64 (t : Tsu) : Tsu × Timespec64 :=
  let t := t.write32 .control tsuCmdReadRt
  let nsFr := joined (t.read32 .miDataMiddle) (t.read32 .miDataLow)
  (t, { tvSec := (t.read32 .miDataHigh).setWidth 64, tvNsec := fr64bToNs nsFr })

/-- `nfb_tsu_settime64`. -/
def nfbTsuSettime64 (t : Tsu) (ts : Timespec64) : Tsu :=
  ncTsuSetRtr t { sec := ts.tvSec.setWidth 32, fraction := nsTo64bFr ts.tvNsec }

/-- `nfb_tsu_adjtime`. -/
def nfbTsuAdjtime (t : Tsu) (delta : S64) : Tsu :=
  let (t, rtr) := ncTsuGetRtr t
  let ns := delta.srem 1000000000#64
  ncTsuSetRtr t
    { sec := rtr.sec + (delta.sdiv 1000000000#64).setWidth 32
      fraction := rtr.fraction + nsTo64bFr ns }

/-- `4294967ll * 65536 / 1000`: what a scaled ppm is multiplied with. -/
def ppmUnits : S64 := (4294967#64 * 65536#64).sdiv 1000#64

/-- What `nfb_tsu_adjfine` writes as the increment. -/
def fineInc (freq : U32) (scaledPpm : S64) : U64 :=
  let offset := (scaledPpm * ppmUnits).sdiv (freq.setWidth 64)
  BitVec.allOnes 64 / freq.setWidth 64 + offset

/-- `nfb_tsu_adjfine`. -/
def nfbTsuAdjfine (freq : U32) (t : Tsu) (scaledPpm : S64) : Tsu := ncTsuSetInc (ncTsuGetInc t).1 (fineInc freq scaledPpm)

/-- The `max_adj` that `nfb_net_attach` announces, a signed number of 32 bits; a unit whose frequency reads as zero faults there. -/
def maxAdj (freq : U32) : Option Int :=
  if freq = 0 then none else some ((BitVec.allOnes 64 / freq.setWidth 64 / 64#64 / 2#64).setWidth 32).toInt

/-! ## The time as a number -/

/-- The time, in units of the fraction. -/
def Tsu.time (t : Tsu) : Int := t.sec.toNat * 2 ^ 64 + t.fraction.toNat

/-- The time that is `delta` nanoseconds later, in parts of a thousand million of a unit, so that it is exact. -/
def Tsu.later (t : Tsu) (delta : S64) : Int := t.time * 1000000000 + delta.toInt * 2 ^ 64

/-- The later time is one that the unit can hold. -/
def Tsu.InRange (t : Tsu) (delta : S64) : Prop := 0 ≤ t.later delta ∧ t.later delta < 2 ^ 96 * 1000000000

/-- What adding the part of a second to the fraction gives. -/
def Tsu.fractionSum (t : Tsu) (delta : S64) : Int := t.fraction.toNat + delta.toInt.tmod 1000000000 * nsUnits.toNat

theorem settime_fraction {ts : Timespec64} (hn : ts.tvNsec.toNat < 1000000000) :
    (nsTo64bFr ts.tvNsec).toNat = ts.tvNsec.toNat * 18446744073 := by
  unfold nsTo64bFr nsUnits
  rw [BitVec.toNat_mul]
  have hK : (18446744073#64).toNat = 18446744073 := rfl
  rw [hK]
  omega

theorem gettimex_time (t : Tsu) :
    (nfbTsuGettimex64 t).2 = { tvSec := t.sec.setWidth 64, tvNsec := fr64bToNs t.fraction } := by
  show Timespec64.mk (t.sec.setWidth 64)
    (fr64bToNs (joined ((t.fraction >>> 32).setWidth 32) (t.fraction.setWidth 32))) = _
  rw [joined_split]

theorem gettimex_settime (t : Tsu) {ts : Timespec64} (hs : ts.tvSec.toNat < 2 ^ 32) (hn : ts.tvNsec.toNat < 1000000000) :
    (nfbTsuGettimex64 (nfbTsuSettime64 t ts)).2 = ts := by
  have hsec : (ts.tvSec.setWidth 32).setWidth 64 = ts.tvSec := by
    apply BitVec.eq_of_toNat_eq
    rw [BitVec.toNat_setWidth, BitVec.toNat_setWidth]
    omega
  have hnsec : fr64bToNs (nsTo64bFr ts.tvNsec) = ts.tvNsec := by
    apply BitVec.eq_of_toNat_eq
    rw [fr64bToNs, BitVec.toNat_udiv, settime_fraction hn]
    exact Nat.mul_div_cancel _ (by decide)
  unfold nfbTsuSettime64
  rw [gettimex_time, setRtr_sec, setRtr_fraction]
  dsimp only
  rw [hsec, hnsec]

theorem gettimex_nsec (t : Tsu) :
    (nfbTsuGettimex64 t).2.tvNsec.toNat < 1000000000 ↔ t.fraction.toNat < nsUnits.toNat * 1000000000 := by
  rw [gettimex_time]
  show (t.fraction / nsUnits).toNat < 1000000000 ↔ _
  rw [BitVec.toNat_udiv]
  exact Nat.div_lt_iff_lt_mul (by decide) |>.trans (by rw [Nat.mul_comm])

/-! ### A shift -/

theorem delta_parts (delta : S64) :
    (delta.sdiv 1000000000#64).toInt = delta.toInt.tdiv 1000000000 ∧
      (delta.srem 1000000000#64).toInt = delta.toInt.tmod 1000000000 := by
  have hd : (1000000000#64).toInt = 1000000000 := rfl
  constructor
  · rw [BitVec.toInt_sdiv_of_ne_or_ne _ _ (Or.inr (by decide)), hd]
  · rw [BitVec.toInt_srem, hd]

theorem adjtime_sec (t : Tsu) (delta : S64) :
    ((nfbTsuAdjtime t delta).sec.toNat : Int) = (t.sec.toNat + delta.toInt.tdiv 1000000000) % 2 ^ 32 := by
  have hs : (nfbTsuAdjtime t delta).sec = t.sec + (delta.sdiv 1000000000#64).setWidth 32 := by
    show (ncTsuGetRtr t).2.sec + _ = _
    rw [getRtr_spec]
  have hq := (delta_parts delta).1
  rw [BitVec.toInt_eq_toNat_cond] at hq
  rw [hs, BitVec.toNat_add, BitVec.toNat_setWidth]
  split at hq <;> omega

theorem adjtime_fraction (t : Tsu) (delta : S64) :
    ((nfbTsuAdjtime t delta).fraction.toNat : Int) = t.fractionSum delta % 2 ^ 64 := by
  have hf : (nfbTsuAdjtime t delta).fraction = t.fraction + nsTo64bFr (delta.srem 1000000000#64) := by
    have hset : (nfbTsuAdjtime t delta).fraction = (ncTsuGetRtr t).2.fraction + nsTo64bFr (delta.srem 1000000000#64) :=
      setRtr_fraction _ _
    rw [hset, getRtr_spec]
  have hr := (delta_parts delta).2
  have hK : nsUnits.toNat = 18446744073 := rfl
  rw [BitVec.toInt_eq_toNat_cond] at hr
  unfold Tsu.fractionSum
  rw [hf, BitVec.toNat_add, nsTo64bFr, BitVec.toNat_mul, hK]
  split at hr <;> omega

/-- The time after the shift, without the limits of the two counters. -/
def Tsu.sum (t : Tsu) (delta : S64) : Int :=
  (t.sec.toNat + delta.toInt.tdiv 1000000000) * 2 ^ 64 + t.fractionSum delta

theorem parts_sign (z : Int) :
    0 ≤ z.tdiv 1000000000 ∧ 0 ≤ z.tmod 1000000000 ∧ z.tmod 1000000000 < 1000000000 ∨
      z.tdiv 1000000000 ≤ 0 ∧ z.tmod 1000000000 ≤ 0 ∧ -1000000000 < z.tmod 1000000000 := by
  have h0 : (0 : Int) < 1000000000 := by decide
  rcases Int.le_total 0 z with h | h
  · exact Or.inl ⟨Int.tdiv_nonneg h (Int.le_of_lt h0), Int.tmod_nonneg _ h, Int.tmod_lt_of_pos z h0⟩
  · have hn : 0 ≤ -z := Int.neg_nonneg_of_nonpos h
    have hq := Int.tdiv_nonneg hn (Int.le_of_lt h0)
    have hr := Int.tmod_nonneg 1000000000 hn
    have hlt := Int.tmod_lt_of_pos (-z) h0
    rw [Int.neg_tdiv] at hq
    rw [Int.neg_tmod] at hr hlt
    exact Or.inr ⟨by omega, by omega, by omega⟩

theorem sum_close (t : Tsu) (delta : S64) : |t.sum delta * 1000000000 - t.later delta| < 2 ^ 63 := by
  have hq := Int.mul_tdiv_add_tmod delta.toInt 1000000000
  have hs := parts_sign delta.toInt
  have hK : nsUnits.toNat = 18446744073 := rfl
  unfold Tsu.sum Tsu.later Tsu.fractionSum Tsu.time
  rw [hK, abs_lt]
  omega

theorem sum_inRange {t : Tsu} {delta : S64} (hin : t.InRange delta) : 0 ≤ t.sum delta ∧ t.sum delta < 2 ^ 96 := by
  have hq := Int.mul_tdiv_add_tmod delta.toInt 1000000000
  have hs := parts_sign delta.toInt
  have hK : nsUnits.toNat = 18446744073 := rfl
  have hsec := t.sec.isLt
  have hfr := t.fraction.isLt
  unfold Tsu.InRange Tsu.later Tsu.time at hin
  unfold Tsu.sum Tsu.fractionSum
  rw [hK]
  omega

theorem adjtime_right_iff {t : Tsu} {delta : S64} (hin : t.InRange delta) :
    |(nfbTsuAdjtime t delta).time * 1000000000 - t.later delta| < 2 ^ 64 ↔
      0 ≤ t.fractionSum delta ∧ t.fractionSum delta < 2 ^ 64 := by
  have hsec := adjtime_sec t delta
  have hfr := adjtime_fraction t delta
  have hclose := sum_close t delta
  have hrange := sum_inRange hin
  unfold Tsu.sum at hclose hrange
  have hsmall : -(2 ^ 64) < t.fractionSum delta ∧ t.fractionSum delta < 2 ^ 65 := by
    have hs := parts_sign delta.toInt
    have hf := t.fraction.isLt
    have hK : nsUnits.toNat = 18446744073 := rfl
    unfold Tsu.fractionSum
    rw [hK]
    omega
  show |(((nfbTsuAdjtime t delta).sec.toNat : Int) * 2 ^ 64 + (nfbTsuAdjtime t delta).fraction.toNat) * 1000000000 -
    t.later delta| < 2 ^ 64 ↔ _
  rw [hsec, hfr]
  rw [abs_lt] at hclose ⊢
  generalize (t.sec.toNat : Int) + delta.toInt.tdiv 1000000000 = m at *
  generalize t.fractionSum delta = f at *
  generalize t.later delta = l at *
  constructor
  · intro h
    omega
  · rintro ⟨h0, h1⟩
    omega

/-! ### The increment -/

/-- The product of `nfb_tsu_adjfine` as a number without limits. -/
def fineProduct (scaledPpm : S64) : Int := scaledPpm.toInt * ppmUnits.toInt

/-- The product fits a signed number of 64 bits. -/
def ProductFits (scaledPpm : S64) : Prop := -2 ^ 63 ≤ fineProduct scaledPpm ∧ fineProduct scaledPpm < 2 ^ 63

/-- The largest multiple of the frequency up to the largest number of 64 bits. -/
def wholeTicks (freq : U32) : Int := 2 ^ 64 - 1 - (2 ^ 64 - 1) % (freq.toNat : Int)

/-- The correction takes the ticks neither below zero nor to what has 40 bits. -/
def CorrectionFits (freq : U32) (scaledPpm : S64) : Prop :=
  (0 ≤ fineProduct scaledPpm → wholeTicks freq + fineProduct scaledPpm < 2 ^ 39 * freq.toNat) ∧
    (fineProduct scaledPpm < 0 →
      0 < wholeTicks freq + freq.toNat + fineProduct scaledPpm ∧
        wholeTicks freq + fineProduct scaledPpm ≤ (2 ^ 39 - 1) * freq.toNat)

theorem freq_toInt (freq : U32) : (freq.setWidth 64).toInt = (freq.toNat : Int) := by
  have h := freq.isLt
  rw [BitVec.toInt_eq_toNat_cond, BitVec.toNat_setWidth]
  split <;> omega

variable {scaledPpm : S64}

theorem product_toInt (hfit : ProductFits scaledPpm) : (scaledPpm * ppmUnits).toInt = fineProduct scaledPpm := by
  unfold ProductFits fineProduct at *
  rw [BitVec.toInt_mul]
  exact Int.bmod_eq_of_le (by omega) (by omega)

theorem offset_toInt {freq : U32} {scaledPpm : S64} (hfit : ProductFits scaledPpm) :
    ((scaledPpm * ppmUnits).sdiv (freq.setWidth 64)).toInt = (fineProduct scaledPpm).tdiv freq.toNat := by
  have hpos : freq.setWidth 64 ≠ -1#64 := by
    intro h
    have := congrArg BitVec.toInt h
    rw [freq_toInt] at this
    have hm : (-1#64).toInt = -1 := rfl
    omega
  rw [BitVec.toInt_sdiv_of_ne_or_ne _ _ (Or.inr hpos), freq_toInt, product_toInt hfit]

theorem ticks_toNat (freq : U32) : ((BitVec.allOnes 64 / freq.setWidth 64).toNat : Int) = (2 ^ 64 - 1) / (freq.toNat : Int) := by
  have h := freq.isLt
  rw [BitVec.toNat_udiv, BitVec.toNat_setWidth, Nat.mod_eq_of_lt (by omega)]
  rfl

theorem fineInc_toNat {freq : U32} {scaledPpm : S64} (hfit : ProductFits scaledPpm) :
    ((fineInc freq scaledPpm).toNat : Int) =
      ((2 ^ 64 - 1) / (freq.toNat : Int) + (fineProduct scaledPpm).tdiv freq.toNat) % 2 ^ 64 := by
  have ht := ticks_toNat freq
  have ho := @offset_toInt freq _ hfit
  rw [BitVec.toInt_eq_toNat_cond] at ho
  unfold fineInc
  rw [BitVec.toNat_add]
  split at ho <;> omega

theorem ticks_fit_iff {f q b limit : Int} (hf : 0 < f) :
    0 ≤ q + b.tdiv f ∧ q + b.tdiv f < limit ↔
      (0 ≤ b → 0 ≤ q + b / f ∧ q * f + b < limit * f) ∧
        (b < 0 → 0 < q * f + f + b ∧ q * f + b ≤ (limit - 1) * f) := by
  rcases Int.lt_or_le b 0 with hb | hb
  · have hneg : b.tdiv f = -((-b) / f) := by
      rw [← Int.tdiv_eq_ediv_of_nonneg (by omega : 0 ≤ -b), Int.neg_tdiv, Int.neg_neg]
    have hlow : (-b) / f < q + 1 ↔ -b < (q + 1) * f := Int.ediv_lt_iff_lt_mul hf
    have hhigh : q - limit + 1 ≤ (-b) / f ↔ (q - limit + 1) * f ≤ -b := Int.le_ediv_iff_mul_le hf
    have e1 : (q + 1) * f = q * f + f := by rw [Int.add_mul, Int.one_mul]
    have e2 : (q - limit + 1) * f = q * f - (limit - 1) * f := by ring
    rw [hneg]
    constructor
    · rintro ⟨h0, h1⟩
      exact ⟨fun h => absurd h (by omega), fun _ => ⟨by omega, by omega⟩⟩
    · rintro ⟨-, h⟩
      obtain ⟨h0, h1⟩ := h hb
      exact ⟨by omega, by omega⟩
  · have hsum : q + b / f < limit ↔ q * f + b < limit * f := by
      rw [← Int.ediv_lt_iff_lt_mul hf, Int.add_comm (q * f), Int.add_mul_ediv_right _ _ (by omega), Int.add_comm]
    rw [Int.tdiv_eq_ediv_of_nonneg hb]
    constructor
    · rintro ⟨h0, h1⟩
      exact ⟨fun _ => ⟨h0, hsum.1 h1⟩, fun h => absurd h (by omega)⟩
    · rintro ⟨h, -⟩
      exact ⟨(h hb).1, hsum.2 (h hb).2⟩

/-- The increment fits its register exactly if the correction fits. -/
theorem fineInc_fits_iff {freq : U32} (htwo : 2 ≤ freq.toNat) (hfit : ProductFits scaledPpm) :
    (fineInc freq scaledPpm).toNat < 2 ^ 39 ↔ CorrectionFits freq scaledPpm := by
  have hinc := @fineInc_toNat freq _ hfit
  have hf : (2 : Int) ≤ freq.toNat := Int.ofNat_le.2 htwo
  have hwhole : (2 ^ 64 - 1) / (freq.toNat : Int) * freq.toNat = wholeTicks freq := by
    have := Int.mul_ediv_add_emod (2 ^ 64 - 1) freq.toNat
    unfold wholeTicks
    rw [Int.mul_comm]
    omega
  have hq0 : 0 ≤ (2 ^ 64 - 1) / (freq.toNat : Int) := Int.ediv_nonneg (by decide) (by omega)
  have hq : (2 ^ 64 - 1) / (freq.toNat : Int) < 2 ^ 63 := by
    rw [Int.ediv_lt_iff_lt_mul (by omega)]
    omega
  -- The rest of the division keeps the sum from turning over.
  have hoff : -2 ^ 63 ≤ (fineProduct scaledPpm).tdiv freq.toNat ∧ (fineProduct scaledPpm).tdiv freq.toNat ≤ 2 ^ 63 := by
    have := Int.natAbs_tdiv_le_natAbs (fineProduct scaledPpm) freq.toNat
    have h1 := hfit.1
    have h2 := hfit.2
    omega
  have hiff := @ticks_fit_iff freq.toNat ((2 ^ 64 - 1) / (freq.toNat : Int)) (fineProduct scaledPpm) (2 ^ 39) (by omega)
  have hb : 0 ≤ fineProduct scaledPpm → 0 ≤ (2 ^ 64 - 1) / (freq.toNat : Int) + fineProduct scaledPpm / freq.toNat := by
    intro h
    exact Int.add_nonneg hq0 (Int.ediv_nonneg h (by omega))
  rw [hwhole] at hiff
  unfold CorrectionFits
  constructor
  · intro h
    obtain ⟨h0, h1⟩ := hiff.1 ⟨by omega, by omega⟩
    exact ⟨fun hb => (h0 hb).2, h1⟩
  · rintro ⟨h0, h1⟩
    obtain ⟨h2, h3⟩ := hiff.2 ⟨fun h => ⟨hb h, h0 h⟩, h1⟩
    omega

theorem adjfine_inc_iff (freq : U32) (t : Tsu) (scaledPpm : S64) :
    (nfbTsuAdjfine freq t scaledPpm).inc.toNat = (fineInc freq scaledPpm).toNat ↔ (fineInc freq scaledPpm).toNat < 2 ^ 39 := by
  unfold nfbTsuAdjfine
  rw [setInc_inc, BitVec.toNat_setWidth]
  generalize (fineInc freq scaledPpm).toNat = n
  omega

/-! ## The clock -/

section

-- The clock subsystem turns the scaled correction into parts per thousand million before it compares it with the maximum.
variable (toPpb : S64 → Int)

/-- The correction reaches the driver: it is not beyond the announced maximum to either side. -/
def Accepted (freq : U32) (scaledPpm : S64) : Prop :=
  ∃ m, maxAdj freq = some m ∧ -m ≤ toPpb scaledPpm ∧ toPpb scaledPpm ≤ m

/-- The clock operations are right at a state of the unit: a set time `ts` is read back, what is read is a time of day, a shift is right to
a nanosecond, and the increment of an accepted correction fits. -/
structure PtpRight (t : Tsu) (ts : Timespec64) (delta : S64) (freq : U32) (scaledPpm : S64) : Prop where
  readBack : ts.tvSec.toNat < 2 ^ 32 → ts.tvNsec.toNat < 1000000000 → (nfbTsuGettimex64 (nfbTsuSettime64 t ts)).2 = ts
  nsec : (nfbTsuGettimex64 t).2.tvNsec.toNat < 1000000000
  shift : t.InRange delta → |(nfbTsuAdjtime t delta).time * 1000000000 - t.later delta| < 2 ^ 64
  fine : Accepted toPpb freq scaledPpm →
    ProductFits scaledPpm ∧ (nfbTsuAdjfine freq t scaledPpm).inc.toNat = (fineInc freq scaledPpm).toNat

/-- The fraction is below a whole second of nanoseconds, the part of a second neither carries nor borrows, and an accepted correction
overflows neither the product nor the increment. -/
structure PtpFits (t : Tsu) (delta : S64) (freq : U32) (scaledPpm : S64) : Prop where
  fraction : t.fraction.toNat < nsUnits.toNat * 1000000000
  noCarry : t.InRange delta → 0 ≤ t.fractionSum delta ∧ t.fractionSum delta < 2 ^ 64
  correction : Accepted toPpb freq scaledPpm → ProductFits scaledPpm ∧ CorrectionFits freq scaledPpm

variable {toPpb}

theorem two_le_of_accepted {freq : U32} (h : Accepted toPpb freq scaledPpm) : 2 ≤ freq.toNat := by
  obtain ⟨m, hm, hlow, hhigh⟩ := h
  have hne0 : freq ≠ 0 := by
    rintro rfl
    cases hm
  have hne1 : freq ≠ 1 := by
    rintro rfl
    have hm1 : maxAdj 1 = some (-1) := rfl
    rw [hm1] at hm
    cases hm
    omega
  have h0 : freq.toNat ≠ 0 := fun h => hne0 (BitVec.eq_of_toNat_eq h)
  have h1 : freq.toNat ≠ 1 := fun h => hne1 (BitVec.eq_of_toNat_eq h)
  omega

variable (toPpb)

/-- The clock is right exactly where the fraction and the correction fit. -/
theorem ptp_right_iff (t : Tsu) (ts : Timespec64) (delta : S64) (freq : U32) (scaledPpm : S64) :
    PtpRight toPpb t ts delta freq scaledPpm ↔ PtpFits toPpb t delta freq scaledPpm := by
  constructor
  · intro h
    refine ⟨(gettimex_nsec t).1 h.nsec, fun hin => (adjtime_right_iff hin).1 (h.shift hin), fun hacc => ?_⟩
    obtain ⟨hfit, hinc⟩ := h.fine hacc
    rw [adjfine_inc_iff] at hinc
    exact ⟨hfit, (fineInc_fits_iff (two_le_of_accepted hacc) hfit).1 hinc⟩
  · intro h
    refine ⟨gettimex_settime t, (gettimex_nsec t).2 h.fraction, fun hin => (adjtime_right_iff hin).2 (h.noCarry hin), fun hacc => ?_⟩
    obtain ⟨hfit, hcorr⟩ := h.correction hacc
    rw [adjfine_inc_iff]
    exact ⟨hfit, (fineInc_fits_iff (two_le_of_accepted hacc) hfit).2 hcorr⟩

end

/-- A unit at 999999999 nanoseconds after its first second. -/
def lastNanosecond : Tsu where
  dataLow := 0
  dataMiddle := 0
  dataHigh := 0
  sec := 1
  fraction := nsTo64bFr 999999999#64
  inc := 0

/-- Two nanoseconds more carry into the next second; the clock goes back by a second instead. -/
theorem carry_is_lost :
    ¬ PtpRight (fun s => (1 + s.toInt) * 125 / 2 ^ 13) lastNanosecond ⟨0, 0⟩ 2 200000000 0 := by
  intro h
  have hin : lastNanosecond.InRange 2 := by unfold Tsu.InRange; decide
  have hsum := (adjtime_right_iff hin).1 (h.shift hin)
  exact absurd hsum.2 (by decide)

end NdkSw.Net

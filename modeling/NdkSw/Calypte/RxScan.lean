/-
The valid bits of a protocol 3 RX ring: both scans for the hardware pointer stop exactly behind the
last header written, as long as their flag is that of the lap they start in, and so does the loop
that fills in packets.
-/
import NdkSw.Calypte.Rx

namespace NdkSw.Calypte

open Ndp Ring

variable {k : Nat}

/-! ## Flags and headers -/

/-- The valid flag of a lap. -/
def lapFlag (b : Bool) : U8 := (BitVec.ofBool b).setWidth 8

def validBit (hdr : V3PacketHdr) : Bool := decide (hdr.valid = 1)

theorem invalid_lapFlag (hdr : V3PacketHdr) (b : Bool) : invalid hdr (lapFlag b) = (validBit hdr == !b) := by
  unfold invalid validBit lapFlag
  rcases BitVec.eq_zero_or_eq_one hdr.valid with h | h <;> rw [h] <;> cases b <;> rfl

theorem lapFlag_flip (b : Bool) : lapFlag b ^^^ 1 = lapFlag (!b) := by
  cases b <;> rfl

/-- The header ring after the hardware wrote the headers `log`. -/
structure Written (k : Nat) (hdr : Nat → V3PacketHdr) (log : List V3PacketHdr) : Prop where
  last : HoldsLast (2 ^ k) hdr log
  bits : Toggled (2 ^ k) (fun j => validBit (hdr j)) log.length

section Written

variable {hdr : Nat → V3PacketHdr} {log : List V3PacketHdr}

theorem Written.cleared (h : ∀ j, j < 2 ^ k → (hdr j).valid = 0) : Written k hdr [] :=
  ⟨HoldsLast.nil _ _, toggled_zero fun j hj => by simp [validBit, h j hj]⟩

theorem Written.receive (h : Written k hdr log) (d : V3PacketHdr)
    (hd : d.valid = BitVec.ofBool (lapBit (2 ^ k) log.length)) :
    Written k (Function.update hdr (log.length % 2 ^ k) d) (log ++ [d]) := by
  refine ⟨h.last.write rfl, ?_⟩
  rw [List.length_append, List.length_singleton]
  refine h.bits.write ?_ fun j hj => ?_
  · rw [Function.update_self, validBit, hd]
    cases lapBit (2 ^ k) log.length <;> rfl
  · rw [Function.update_of_ne hj]

theorem Written.seen (h : Written k hdr log) {p : Nat} (hp : p < log.length) (hlap : log.length ≤ p + 2 ^ k) (b : Bool) :
    invalid (hdr (p % 2 ^ k)) (lapFlag b) = (lapBit (2 ^ k) p == !b) := by
  rw [invalid_lapFlag]
  congr 1
  exact h.bits.written p hp hlap

theorem Written.unseen (h : Written k hdr log) :
    invalid (hdr (log.length % 2 ^ k)) (lapFlag (lapBit (2 ^ k) log.length)) = true := by
  rw [invalid_lapFlag, beq_iff_eq]
  exact h.bits.next (by positivity)

theorem Written.header (h : Written k hdr log) {p : Nat} (hp : p < log.length) (hlap : log.length ≤ p + 2 ^ k) :
    hdr (p % 2 ^ k) = log.get ⟨p, hp⟩ :=
  h.last p _ (List.getElem?_eq_getElem hp) hlap

end Written

theorem lapFlag_succ (p : Nat) :
    lapFlag (lapBit (2 ^ k) (p + 1)) =
      if (p + 1) % 2 ^ k = 0 then lapFlag (lapBit (2 ^ k) p) ^^^ 1 else lapFlag (lapBit (2 ^ k) p) := by
  rw [lapBit_succ, lapFlag_flip]
  split <;> rfl

/-! ## The driver's scan -/

section Scan

variable {c : RxCtrl}

/-- The driver's scan with `d` headers to find. -/
theorem scan_spec (hW : Written k c.hdr c.log) (hm : IsMask c.ptrmask k) (hk : k ≤ 31) (bound : Nat) :
    ∀ (d fuel p : Nat) (hwptr : U32), At k hwptr p → p + d = c.log.length → d ≤ 2 ^ k → d < fuel →
      hwptr.toNat + d < bound → hwptr.toNat + d < 2 ^ 32 →
      c.scan bound fuel hwptr (lapFlag (lapBit (2 ^ k) p)) =
        (hwptr + BitVec.ofNat 32 d, lapFlag (lapBit (2 ^ k) c.log.length))
  | 0, fuel + 1, p, hwptr, hat, hd, _, _, _, _ => by
    obtain rfl : p = c.log.length := by omega
    have hslot : hwptr.toNat % c.hdrCount = c.log.length % 2 ^ k := by rw [RxCtrl.hdrCount, hm]; exact hat
    rw [RxCtrl.scan, hslot, hW.unseen]
    simp
  | d + 1, fuel + 1, p, hwptr, hat, hd, hle, hfuel, hbound, hword => by
    have hslot : hwptr.toNat % c.hdrCount = p % 2 ^ k := by rw [RxCtrl.hdrCount, hm]; exact hat
    have hseen := hW.seen (p := p) (by omega) (by omega) (lapBit (2 ^ k) p)
    have hone : (hwptr + 1).toNat = hwptr.toNat + 1 := by
      rw [BitVec.toNat_add, show (1 : U32).toNat = 1 from rfl, Nat.mod_eq_of_lt (by omega)]
    have hat' : At k (hwptr + 1) (p + 1) := At.add (by omega) hat (Nat.ModEq.refl 1)
    have hflag : (hwptr + 1).setWidth 64 &&& c.ptrmask = 0 ↔ (p + 1) % 2 ^ k = 0 := by
      rw [← BitVec.toNat_inj, (hat'.setWidth (v := 64) (by omega)).toNat_and hm]
      rfl
    rw [RxCtrl.scan, hslot, hseen]
    simp only [hflag, ← lapFlag_succ, hone]
    rw [if_neg (by simp), if_pos (by omega), scan_spec hW hm hk bound d fuel (p + 1) (hwptr + 1) hat' (by omega) (by omega) (by omega)
      (by omega) (by omega)]
    congr 1
    rw [BitVec.add_assoc]
    congr 1
    rw [Nat.add_comm d 1, BitVec.ofNat_add]
    rfl

/-- `get_hwptr` finds everything received. -/
theorem ndpCtrlRxGetHwptr_spec (hW : Written k c.hdr c.log) (hm : IsMask c.ptrmask k) (hk : k ≤ 31)
    (hsize : 2 ^ k ≤ c.hdrBufferSize) {p : Nat} (hhp : c.hhp.toNat = p % 2 ^ k)
    (hflag : c.validFlag = lapFlag (lapBit (2 ^ k) p)) (hp : p ≤ c.log.length) (hlap : c.log.length < p + 2 ^ k) :
    ∃ hhp, hhp.toNat = c.log.length % 2 ^ k ∧ ndpCtrlRxGetHwptr c =
      ({ c with hhp, validFlag := lapFlag (lapBit (2 ^ k) c.log.length) }, hhp.setWidth 64) := by
  have hlt : c.hhp.toNat < 2 ^ k := by rw [hhp]; exact Nat.mod_lt _ (by positivity)
  have h31 : 2 ^ k ≤ 2 ^ 31 := Nat.pow_le_pow_right (by norm_num) hk
  have hscan := scan_spec hW hm hk (c.hdrBufferSize * 2) (c.log.length - p) (c.hdrBufferSize * 2) p c.hhp (at_of_mod hhp)
    (by omega) (by omega) (by omega) (by omega) (by omega)
  have hat : At k (c.hhp + BitVec.ofNat 32 (c.log.length - p)) c.log.length := by
    have h1 := At.add (by omega) (at_of_mod hhp) (at_ofNat (w := 32) (by omega) (c.log.length - p))
    rwa [Nat.add_sub_cancel' hp] at h1
  unfold ndpCtrlRxGetHwptr
  rw [hflag]
  simp only [hscan]
  refine ⟨_, ?_, rfl⟩
  rw [BitVec.toNat_setWidth, (hat.setWidth (v := 64) (by omega)).toNat_and hm]
  exact Nat.mod_eq_of_lt (lt_of_lt_of_le (Nat.mod_lt _ (by positivity)) (by omega))

end Scan

/-! ## The scan in userspace -/

section Uspace

variable {hdr : Nat → V3PacketHdr} {log : List V3PacketHdr} {q : RxQueue}

/-- The library's own scan with `d` headers to find, at most a whole lap. -/
theorem uspaceScan_spec (hW : Written k hdr log) (hq : IsMask q.hdrPtrMask k) (hm : IsMask q.uspaceMhp k) :
    ∀ (d fuel p : Nat) (hhp : U32), hhp.toNat = p % 2 ^ k → p + d = log.length → d ≤ 2 ^ k → d < fuel →
      (uspaceScan hdr q fuel hhp (lapFlag (lapBit (2 ^ k) p))).toNat = log.length % 2 ^ k
  | 0, fuel + 1, p, hhp, hhhp, hd, _, _ => by
    obtain rfl : p = log.length := by omega
    have hslot : q.slot hhp.toNat = log.length % 2 ^ k := by rw [RxQueue.slot, hq, hhhp, Nat.mod_mod]
    rw [uspaceScan, hslot, hW.unseen, if_pos rfl]
    exact hhhp
  | d + 1, fuel + 1, p, hhp, hhhp, hd, hle, hfuel => by
    have hslot : q.slot hhp.toNat = p % 2 ^ k := by rw [RxQueue.slot, hq, hhhp, Nat.mod_mod]
    have hseen := hW.seen (p := p) (by omega) (by omega) (lapBit (2 ^ k) p)
    have hone : At k (1 : U32) 1 := Nat.ModEq.refl 1
    have hnext : ((hhp + 1) &&& q.uspaceMhp).toNat = (p + 1) % 2 ^ k :=
      (At.add hm.le_width (at_of_mod hhhp) hone).toNat_and hm
    have hflag : (hhp + 1) &&& q.uspaceMhp = 0 ↔ (p + 1) % 2 ^ k = 0 := by
      rw [← BitVec.toNat_inj, hnext]
      rfl
    rw [uspaceScan, hslot, hseen]
    simp only [hflag, ← lapFlag_succ]
    rw [if_neg (by simp)]
    exact uspaceScan_spec hW hq hm d fuel (p + 1) _ hnext (by omega) (by omega) (by omega)

/-- The scan with the flag of a lap in which `rel` lies: from the same lap it finds everything, from the
next one it finds nothing. -/
theorem uspaceScan_from (hW : Written k hdr log) (hq : IsMask q.hdrPtrMask k) (hm : IsMask q.uspaceMhp k) {rel h fuel : Nat}
    {hhp : U32} (hhhp : hhp.toNat = h % 2 ^ k) (hrel : rel ≤ h) (hh : h ≤ log.length) (hlap : log.length < rel + 2 ^ k)
    (hfuel : 2 ^ k < fuel) : ∃ h', h ≤ h' ∧ h' ≤ log.length ∧ (rel % 2 ^ k ≤ h % 2 ^ k → h' = log.length) ∧
      (¬ rel % 2 ^ k ≤ h % 2 ^ k → h' = h) ∧
      (uspaceScan hdr q fuel hhp (lapFlag (lapBit (2 ^ k) rel))).toNat = h' % 2 ^ k := by
  by_cases hsame : rel % 2 ^ k ≤ h % 2 ^ k
  · refine ⟨log.length, hh, le_rfl, fun _ => rfl, fun hne => absurd hsame hne, ?_⟩
    rw [(lapBit_eq_iff hrel (by omega)).2 hsame]
    exact uspaceScan_spec hW hq hm (log.length - h) fuel h hhp hhhp (by omega) (by omega) (by omega)
  · refine ⟨h, le_rfl, hh, fun hc => absurd hc hsame, fun _ => rfl, ?_⟩
    have hflip : lapBit (2 ^ k) rel = !lapBit (2 ^ k) h := lapBit_eq_not hrel (by omega) hsame
    rcases Nat.lt_or_ge h log.length with hlt | hge
    · -- the next header is of the wrong lap
      have hslot : q.slot hhp.toNat = h % 2 ^ k := by rw [RxQueue.slot, hq, hhhp, Nat.mod_mod]
      obtain ⟨fuel, rfl⟩ : ∃ f, fuel = f + 1 := ⟨fuel - 1, by omega⟩
      rw [uspaceScan, hslot, hW.seen hlt (by omega), hflip, if_pos (by simp)]
      exact hhhp
    · -- nothing is written behind `h`: the scan goes once around, over the headers of the last lap
      obtain rfl : h = log.length := by omega
      have hge : 2 ^ k ≤ log.length := by
        by_contra hlt
        rw [Nat.mod_eq_of_lt (by omega : rel < 2 ^ k), Nat.mod_eq_of_lt (by omega : log.length < 2 ^ k)] at hsame
        omega
      have hback : lapBit (2 ^ k) rel = lapBit (2 ^ k) (log.length - 2 ^ k) := by
        rw [hflip, ← Nat.sub_add_cancel hge, lapBit_add (by positivity), Nat.add_sub_cancel, Bool.not_not]
      rw [hback]
      refine uspaceScan_spec hW hq hm (2 ^ k) fuel (log.length - 2 ^ k) hhp ?_ (by omega) le_rfl hfuel
      rw [hhhp, Nat.mod_eq_sub_mod hge]

end Uspace

/-! ## Filling in packets -/

section Fill

variable {hdr : Nat → V3PacketHdr} {log : List V3PacketHdr} {q : RxQueue}

/-- The loop of a get with `n` rounds to go fills in all of them, if its flag is right for the first. -/
theorem v3RxFill_spec (hW : Written k hdr log) (hq : IsMask q.hdrPtrMask k) (hk : k ≤ 31) {r : Nat}
    (hshp : q.shp.toNat = r % 2 ^ k) (hlap : log.length ≤ r + 2 ^ k) :
    ∀ (n i : Nat) (flag : U8) (sdp : U32), r + i + n ≤ log.length →
      (if q.shp + BitVec.ofNat 32 i = q.hdrPtrMask + 1 then flag ^^^ 1 else flag) = lapFlag (lapBit (2 ^ k) (r + i)) →
      (v3RxFill hdr q n i flag sdp).1 =
        (List.range n).map fun j => v3RxPacket q.buffer (hdr ((r + i + j) % 2 ^ k))
  | 0, _, _, _, _, _ => rfl
  | n + 1, i, flag, sdp, hn, hflag => by
    have h31 : 2 ^ k ≤ 2 ^ 31 := Nat.pow_le_pow_right (by norm_num) hk
    have hlt : r % 2 ^ k < 2 ^ k := Nat.mod_lt _ (by positivity)
    have hslot : q.slot (q.shp.toNat + i) = (r + i) % 2 ^ k := by rw [RxQueue.slot, hq, hshp, Nat.mod_add_mod]
    have hseen := hW.seen (p := r + i) (by omega) (by omega) (lapBit (2 ^ k) (r + i))
    -- the flag flips where the pointer leaves the ring
    have hwrap : q.shp + BitVec.ofNat 32 (i + 1) = q.hdrPtrMask + 1 ↔ (r + i + 1) % 2 ^ k = 0 := by
      have h1 : (q.shp + BitVec.ofNat 32 (i + 1)).toNat = r % 2 ^ k + (i + 1) := by
        rw [BitVec.toNat_add, BitVec.toNat_ofNat, hshp, Nat.mod_eq_of_lt (by omega : i + 1 < 2 ^ 32), Nat.mod_eq_of_lt (by omega)]
      have h2 : (q.hdrPtrMask + 1).toNat = 2 ^ k := by
        rw [BitVec.toNat_add, show (1 : U32).toNat = 1 from rfl, hq, Nat.mod_eq_of_lt (by omega)]
      have h3 : (r + i + 1) % 2 ^ k = (r % 2 ^ k + (i + 1)) % 2 ^ k := by rw [Nat.mod_add_mod, Nat.add_assoc]
      rw [← BitVec.toNat_inj, h1, h2, h3]
      constructor
      · intro h
        rw [h, Nat.mod_self]
      · intro h
        have hd := Nat.dvd_of_mod_eq_zero h
        obtain ⟨m, hm⟩ := hd
        have hm0 : m ≠ 0 := by
          rintro rfl
          omega
        have hlast : 2 ^ k * m < 2 ^ k * 2 := by omega
        have hm2 : m < 2 := Nat.lt_of_mul_lt_mul_left hlast
        have hm1 : m = 1 := by omega
        rw [hm, hm1, Nat.mul_one]
    have hrec := v3RxFill_spec hW hq hk hshp hlap n (i + 1) (lapFlag (lapBit (2 ^ k) (r + i)))
      (sdp + BitVec.ofNat 32 (blocks (hdr ((r + i) % 2 ^ k)))) (by omega)
      (by simp only [hwrap]; rw [← Nat.add_assoc, lapFlag_succ])
    rw [v3RxFill]
    simp only [hslot, hflag, hseen]
    rw [if_neg (by simp)]
    rcases hres : v3RxFill hdr q n (i + 1) (lapFlag (lapBit (2 ^ k) (r + i)))
      (sdp + BitVec.ofNat 32 (blocks (hdr ((r + i) % 2 ^ k)))) with ⟨packets, sdp'⟩
    rw [hres] at hrec
    simp only at hrec ⊢
    rw [hrec, List.range_succ_eq_map, List.map_cons, List.map_map]
    refine congrArg₂ _ (by rw [Nat.add_zero]) (List.map_congr_left fun j _ => ?_)
    show _ = v3RxPacket q.buffer (hdr ((r + i + (j + 1)) % 2 ^ k))
    rw [show r + (i + 1) + j = r + i + (j + 1) by omega]

theorem v3RxFill_stale (hW : Written k hdr log) (hq : IsMask q.hdrPtrMask k) (hk : k ≤ 31) {r : Nat}
    (hshp : q.shp.toNat = r % 2 ^ k) (hlap : log.length ≤ r + 2 ^ k) (hr : r < log.length) (n : Nat) (sdp : U32) :
    (v3RxFill hdr q n 0 (lapFlag (!lapBit (2 ^ k) r)) sdp).1 = [] := by
  cases n with
  | zero => rfl
  | succ n =>
    have h31 : 2 ^ k ≤ 2 ^ 31 := Nat.pow_le_pow_right (by norm_num) hk
    have hlt : r % 2 ^ k < 2 ^ k := Nat.mod_lt _ (by positivity)
    have hslot : q.slot (q.shp.toNat + 0) = r % 2 ^ k := by rw [Nat.add_zero, RxQueue.slot, hq, hshp, Nat.mod_mod]
    have hne : ¬ q.shp + BitVec.ofNat 32 0 = q.hdrPtrMask + 1 := by
      have h2 : (q.hdrPtrMask + 1).toNat = 2 ^ k := by
        rw [BitVec.toNat_add, show (1 : U32).toNat = 1 from rfl, hq, Nat.mod_eq_of_lt (by omega)]
      intro h
      have := congrArg BitVec.toNat h
      rw [h2, BitVec.add_zero, hshp] at this
      omega
    rw [v3RxFill]
    simp only [hslot, if_neg hne, hW.seen hr hlap]
    rw [if_pos (by simp)]

end Fill

end NdkSw.Calypte

/-
No loss and no overlap on a protocol 2 TX channel. The invariant counts ring positions without
bound: `p` positions are published, the hardware has completed `h` of them, and only the holder of
the lock has a window, `[p, p + len)`, of which it has handed out the first `u` positions.
-/
import NdkSw.Ndp.TxV2

namespace NdkSw.Ndp

open Ring

variable {k p h i : Nat} {held : List (List Nat)} {ch ch' : Channel HdrCtrl} {q q' : QueueV2}

/-! ## Word arithmetic of the calls -/

theorem toNat_setWidth32 {x : U64} (hx : x.toNat < 2 ^ 31) : (x.setWidth 32 : U32).toNat = x.toNat := by
  rw [BitVec.toNat_setWidth]; exact Nat.mod_eq_of_lt (by omega)

/-- The `signed offset` of a lock moves a read pointer to the driver's pointer. -/
theorem rebase_offset (hw : U64) (rhp : U32) (hhw : hw.toNat < 2 ^ 31) (hr : rhp.toNat < 2 ^ 31) :
    (rhp + (hw - rhp.setWidth 64).setWidth 32).toNat = hw.toNat ∧
      ((hw - rhp.setWidth 64).setWidth 32 : U32).toInt = (hw.toNat : Int) - rhp.toNat := by
  have ho : ((hw - rhp.setWidth 64).setWidth 32 : U32).toNat = (2 ^ 32 + hw.toNat - rhp.toNat) % 2 ^ 32 := by
    simp only [BitVec.toNat_setWidth, BitVec.toNat_sub]
    omega
  constructor
  · rw [BitVec.toNat_add, ho]; omega
  · rw [BitVec.toInt_eq_toNat_cond, ho]; split <;> omega

/-! ## The queues -/

/-- The queue of `i`: the header and offset pointers follow `rhp`; with the lock it has handed out
the first `u` positions of its window, and holds exactly these; without it, it has none. -/
structure QueueInv (k p h : Nat) (ch : Channel HdrCtrl) (i : Nat) (q : QueueV2) (held : List (List Nat)) :
    Prop where
  k31 : k ≤ 31
  items : q.hdrItems.toNat = 2 ^ k
  hdr : q.hdr = q.hdrBase + q.rhp.toNat
  off : q.off = q.offBase + q.rhp.toNat
  nonempty : ∀ b ∈ held, b ≠ []
  locked : ch.lockedSub = some i → ∃ len u, p + len < h + 2 ^ k ∧ u ≤ len ∧ 0 < len ∧ q.sync.hwptr = ch.swptr ∧
    q.sync.swptr.toNat = (p + len) % 2 ^ k ∧ q.rhp.toNat = p % 2 ^ k + u ∧ q.pktsAvailable.toNat = len - u ∧
    held.flatten = slots k p u
  free : ch.lockedSub ≠ some i → q.sync.swptr = q.sync.hwptr ∧ q.rhp.toNat < 2 ^ k ∧ q.pktsAvailable = 0 ∧ held = []

theorem QueueInv.lt_half (hq : QueueInv k p h ch i q held) (n : Nat) : n % 2 ^ k < 2 ^ 31 :=
  lt_of_lt_of_le (Nat.mod_lt _ (by positivity)) (Nat.pow_le_pow_right (by norm_num) hq.k31)

theorem QueueInv.mask (hq : QueueInv k p h ch i q held) : IsMask q.mask k := by
  have hk := hq.k31
  have hle : 2 ^ k ≤ 2 ^ 31 := Nat.pow_le_pow_right (by norm_num) hk
  have hpos : 0 < 2 ^ k := by positivity
  refine IsMask.setWidth (w := 32) ?_ (by omega)
  unfold IsMask
  rw [BitVec.toNat_sub, hq.items, show (1 : U32).toNat = 1 from rfl]
  omega

/-- The queue's position lies in the window `[hwptr, swptr]` of its last sync. -/
def QueueV2.RhpInWindow (q : QueueV2) : Prop :=
  (q.rhp.setWidth 64 - q.sync.hwptr) &&& q.mask ≤ (q.sync.swptr - q.sync.hwptr) &&& q.mask

instance (q : QueueV2) : Decidable q.RhpInWindow := inferInstanceAs (Decidable (_ ≤ _))

theorem at_rhp {rhp : U32} {u : Nat} (hrhp : rhp.toNat = p % 2 ^ k + u) : At k (rhp.setWidth 64 : U64) (p + u) := by
  unfold At
  rw [toNat_setWidth64, hrhp]
  exact Nat.ModEq.add_right u (Nat.mod_modEq p _)

theorem rhpInWindow_of {u len : Nat} (hm : IsMask q.mask k) (hhw : At k q.sync.hwptr p) (hsw : At k q.sync.swptr (p + len))
    (hrhp : q.rhp.toNat = p % 2 ^ k + u) (hu : u ≤ len) (hlen : len < 2 ^ k) : q.RhpInWindow := by
  refine BitVec.le_def.2 ?_
  rw [(at_rhp hrhp).toNat_sub_and hm hhw (by omega) (by omega), hsw.toNat_sub_and hm hhw (by omega) (by omega)]
  omega

/-- A window that is not empty is the holder's: its position lies inside, and the packets
available are the rest of it. -/
theorem QueueInv.inWindow (hI : ChanInv k p h ch) (hq : QueueInv k p h ch i q held) (hne : q.sync.swptr ≠ q.sync.hwptr) :
    q.RhpInWindow ∧ q.pktsAvailable.toNat = ((q.sync.swptr - q.rhp.setWidth 64) &&& q.mask).toNat := by
  have hl : ch.lockedSub = some i := by
    by_contra hl; exact hne (hq.free hl).1
  obtain ⟨len, u, hlap, hu, _, hh, hsw, hrh, hpk, _⟩ := hq.locked hl
  have hm := hq.mask
  have hle := hI.le
  have hbase : At k q.sync.hwptr p := by rw [hh]; exact at_of_mod hI.swptr
  have hav := (at_of_mod hsw).toNat_sub_and hm (at_rhp hrh) (by omega) (by omega)
  exact ⟨rhpInWindow_of hm hbase (at_of_mod hsw) hrh hu (by omega), by omega⟩

/-- A call of another subscription leaves the queue of `j` alone. -/
theorem QueueInv.other {j p' h' : Nat} (hq : QueueInv k p h ch j q held) (hs : Synced k p h ch i p' h' ch') (hj : j ≠ i) :
    QueueInv k p' h' ch' j q held := by
  rcases hs.other with hs | ⟨rfl, rfl, hsw, hl, _⟩
  · obtain ⟨h1, h2⟩ := hs j hj
    exact ⟨hq.k31, hq.items, hq.hdr, hq.off, hq.nonempty, fun hl => absurd hl h2, fun _ => hq.free h1⟩
  · exact ⟨hq.k31, hq.items, hq.hdr, hq.off, hq.nonempty, fun h => by rw [hsw]; exact hq.locked (hl ▸ h),
      fun h => hq.free (hl ▸ h)⟩

/-- What a call of `i` that ends in state `(ch', q')` has done: it published `u` positions, all
that `i` held unless `u = 0`, and left the queue in order. -/
structure Called (k p h : Nat) (ch : Channel HdrCtrl) (i : Nat) (held : List (List Nat)) (ch' : Channel HdrCtrl)
    (q' : QueueV2) (u h' : Nat) : Prop where
  synced : Synced k p h ch i (p + u) h' ch'
  lap : u < 2 ^ k
  sent : u ≠ 0 → held.flatten = slots k p u
  queue : QueueInv k (p + u) h' ch' i q' (if u = 0 then held else [])

theorem flatten_eq_nil (hne : ∀ b ∈ held, b ≠ []) (h : held.flatten = []) : held = [] := by
  cases held with
  | nil => rfl
  | cons b l =>
    have := (List.append_eq_nil_iff.1 (List.flatten_cons ▸ h)).1
    exact absurd this (hne b (List.mem_cons_self ..))

/-! ## Flush and put -/

theorem wrapRhp_spec (hitems : q.hdrItems.toNat = 2 ^ k) (hr : q.rhp.toNat < 2 * 2 ^ k) (hhdr : q.hdr = q.hdrBase + q.rhp.toNat)
    (hoff : q.off = q.offBase + q.rhp.toNat) :
    ∃ r : U32, q.wrapRhp = { q with rhp := r, hdr := q.hdrBase + r.toNat, off := q.offBase + r.toNat } ∧
      r.toNat = q.rhp.toNat % 2 ^ k := by
  unfold QueueV2.wrapRhp
  split
  · rename_i hge
    have hge' : 2 ^ k ≤ q.rhp.toNat := by rw [← hitems]; exact BitVec.le_def.1 hge
    have hsub : (q.rhp - q.hdrItems).toNat = q.rhp.toNat - 2 ^ k := by
      rw [BitVec.toNat_sub_of_le (BitVec.le_def.2 (by rw [hitems]; exact hge')), hitems]
    refine ⟨q.rhp - q.hdrItems, ?_, ?_⟩
    · rw [hsub, hhdr, hoff, hitems]
      congr 1 <;> omega
    · rw [hsub, Nat.mod_eq_sub_mod hge', Nat.mod_eq_of_lt (by omega)]
  · rename_i hlt
    have hlt' : q.rhp.toNat < 2 ^ k := by
      rw [← hitems]; exact Nat.lt_of_not_le fun hc => hlt (BitVec.le_def.2 hc)
    exact ⟨q.rhp, by rw [← hhdr, ← hoff], (Nat.mod_eq_of_lt hlt').symm⟩

/-- A flush publishes all that the subscription holds, and gives the lock back. -/
theorem flush_called (hI : ChanInv k p h ch) (hq : QueueInv k p h ch i q held) (hr : (ch.sub i).status = .running) (e : Nat) :
    ∃ u h', Called k p h ch i held (ncNdpV2TxBurstFlush hdrOps e i ch q).1 (ncNdpV2TxBurstFlush hdrOps e i ch q).2 u h' := by
  have hpos : 0 < 2 ^ k := by positivity
  have hlap := hI.lap
  have hle := hI.le
  -- `u` positions are handed out, and `rhp` wraps to the slot behind them
  obtain ⟨u, hu, hrhp, hhold, hflat⟩ : ∃ u, p + u < h + 2 ^ k ∧ q.rhp.toNat < 2 * 2 ^ k ∧
      (ch.lockedSub = some i → q.rhp.toNat = p % 2 ^ k + u) ∧
      ((ch.lockedSub ≠ some i → u = 0) ∧ held.flatten = slots k p u) := by
    by_cases hl : ch.lockedSub = some i
    · obtain ⟨len, u, h1, h2, _, _, _, hrh, _, hf⟩ := hq.locked hl
      have := Nat.mod_lt p hpos
      exact ⟨u, by omega, by omega, fun _ => hrh, fun hn => absurd hl hn, hf⟩
    · obtain ⟨_, hlt, _, hnil⟩ := hq.free hl
      exact ⟨0, by omega, by omega, fun hc => absurd hc hl, fun _ => rfl, by simp [hnil]⟩
  obtain ⟨r, hw, hrn⟩ := wrapRhp_spec hq.items hrhp hq.hdr hq.off
  have hrlt : r.toNat < 2 ^ k := by rw [hrn]; exact Nat.mod_lt _ hpos
  have hptr : ch.lockedSub = some i → r.toNat = (p + u) % 2 ^ k := by
    intro hl
    rw [hrn, hhold hl, Nat.mod_add_mod]
  unfold ncNdpV2TxBurstFlush
  simp only [hw, ndpSubscriptionSync_running hr]
  obtain ⟨h', len, h1, hs, hwin, hlen⟩ := txsync_synced (n := 0) (u := u) hI e i
    { q.sync with hwptr := r.setWidth 64, swptr := r.setWidth 64 } (by simp) hu
    (fun hl => by rw [toNat_setWidth64]; exact hptr hl) hflat.1
  have hlen0 : len = 0 := by
    rcases hlen with hlen | ⟨hlen, _⟩
    · simpa using hlen
    · exact hlen
  subst hlen0
  have hnl : ¬ (ndpChannelTxsync hdrOps e ch i
      { q.sync with hwptr := r.setWidth 64, swptr := r.setWidth 64 }).1.lockedSub = some i := by
    rw [hwin.locked]; simp
  refine ⟨u, h', hs, by omega, fun _ => hflat.2, ⟨hq.k31, hq.items, rfl, rfl, ?_, fun hl => absurd hl hnl, fun _ => ⟨?_, hrlt, rfl, ?_⟩⟩⟩
  · split
    · exact hq.nonempty
    · simp
  · apply BitVec.eq_of_toNat_eq
    rw [hwin.swptr, hwin.hwptr, hs.inv.swptr, Nat.add_zero]
  · split
    · rename_i hu0
      subst hu0
      exact flatten_eq_nil hq.nonempty (by simpa using hflat.2)
    · rfl

theorem Called.none (hI : ChanInv k p h ch) (hq : QueueInv k p h ch i q' held) : Called k p h ch i held ch q' 0 h :=
  ⟨⟨hI, rfl, fun _ => rfl, by
    by_cases hl : ch.lockedSub = some i
    · refine Or.inl fun j hj => ?_
      rw [hl]; simpa using Ne.symm hj
    · exact Or.inr ⟨rfl, rfl, rfl, rfl, hl⟩⟩, by positivity, fun h => absurd rfl h, hq⟩

theorem put_called (hI : ChanInv k p h ch) (hq : QueueInv k p h ch i q held) (hr : (ch.sub i).status = .running) (e : Nat) :
    ∃ u h', Called k p h ch i held (ncNdpV2TxBurstPut hdrOps e i ch q).1 (ncNdpV2TxBurstPut hdrOps e i ch q).2 u h' := by
  unfold ncNdpV2TxBurstPut
  split
  · exact flush_called hI hq hr e
  · exact ⟨0, h, Called.none hI hq⟩

/-! ## Lock and get -/

/-- The packets a window of `len` positions leaves to a queue that has handed out `u` of them. -/
theorem toNat_available {m sw : U64} {rhp : U32} {u len : Nat} (hk : k ≤ 31) (hm : IsMask m k)
    (hsw : sw.toNat = (p + len) % 2 ^ k) (hrhp : rhp.toNat = p % 2 ^ k + u) (hul : u ≤ len) (hlen : len < 2 ^ k) :
    (((sw - rhp.setWidth 64) &&& m).setWidth 32 : U32).toNat = len - u := by
  have hd := (at_of_mod hsw).toNat_sub_and hm (at_rhp hrhp) (by omega) (by omega)
  have hpow : 2 ^ k ≤ 2 ^ 31 := Nat.pow_le_pow_right (by norm_num) hk
  rw [toNat_setWidth32 (by omega), hd]
  omega

/-- A lock publishes nothing; the holder's window only grows, and another subscription that gets
it starts over at the published position. -/
theorem lock_called (hI : ChanInv k p h ch) (hq : QueueInv k p h ch i q held) (hr : (ch.sub i).status = .running) (e : Nat) :
    ∃ h', Called k p h ch i held (ncNdpV2TxLock hdrOps e i ch q).1 (ncNdpV2TxLock hdrOps e i ch q).2 0 h' ∧
      (ncNdpV2TxLock hdrOps e i ch q).2.RhpInWindow := by
  have hpos : 0 < 2 ^ k := by positivity
  have hqm := hq.mask
  have hmask : q.mask = ch.ptrmask := hqm.unique hI.mask
  obtain ⟨h', len, h1, hs, hwin, hlen⟩ := txsync_synced (n := 2 ^ k - 1) (u := 0) hI e i
    { q.sync with swptr := (q.sync.hwptr - 1) &&& q.mask } (by rw [hmask]; exact toNat_lapRequest hI.mask)
    hI.lap (fun hl => by obtain ⟨_, _, _, _, _, hh, _⟩ := hq.locked hl; rw [hh]; exact hI.swptr) (fun _ => rfl)
  have hle := hs.inv.le
  have hlap := hwin.lap
  unfold ncNdpV2TxLock
  simp only [ndpSubscriptionSync_running hr]
  generalize ndpChannelTxsync hdrOps e ch i { q.sync with swptr := (q.sync.hwptr - 1) &&& q.mask } = r at hs hwin
  obtain ⟨ch', sync'⟩ := r
  simp only [ne_eq, not_true_eq_false, if_false]
  suffices hnew : QueueInv k p h' ch' i _ held ∧ QueueV2.RhpInWindow _ from
    ⟨h', ⟨hs, hpos, fun h => absurd rfl h, by rw [if_pos rfl]; exact hnew.1⟩, hnew.2⟩
  by_cases hl : ch.lockedSub = some i
  · -- the lock is valid: keep `rhp`, the window is at least as long as before
    obtain ⟨len₀, u, hlap₀, hu, hlen₀, hh, hsw, hrh, _, hflat⟩ := hq.locked hl
    have hvalid : ¬ q.sync.swptr = q.sync.hwptr := by
      rw [hh]
      intro heq
      have h2 : At k ch.swptr p := at_of_mod hI.swptr
      have hb : ∀ n, n % 2 ^ k < 2 ^ k := fun n => Nat.mod_lt _ hpos
      have hle₀ := hI.le
      have := ((at_of_mod hsw).eq_iff h2 (by rw [hsw]; exact hb _) (by rw [hI.swptr]; exact hb _) (by omega)
        (by omega)).1 heq
      omega
    have hlen' : len = h' + 2 ^ k - 1 - p := by
      rcases hlen with hlen | ⟨_, j, hj, hlj⟩
      · omega
      · rw [hl] at hlj; exact absurd (Option.some.inj hlj).symm hj
    simp only [if_pos hvalid]
    have hav := toNat_available hq.k31 hqm hwin.swptr hrh (by omega) (by omega)
    refine ⟨⟨hq.k31, hq.items, hq.hdr, hq.off, hq.nonempty, fun _ => ?_, fun hn => absurd (hwin.locked.2 (by omega)) hn⟩, ?_⟩
    · exact ⟨len, u, hlap, by omega, by omega, hwin.hwptr, hwin.swptr, hrh, hav, hflat⟩
    · have hbase : At k sync'.hwptr p := by rw [hwin.hwptr]; exact at_of_mod hs.inv.swptr
      exact rhpInWindow_of hqm hbase (at_of_mod hwin.swptr) hrh (by omega) (by omega)
  · -- no valid lock: move to the published position
    obtain ⟨hsw, hrl, _, hnil⟩ := hq.free hl
    have hhw : sync'.hwptr.toNat = p % 2 ^ k := by rw [hwin.hwptr]; exact hs.inv.swptr
    obtain ⟨hr1, hr2⟩ := rebase_offset sync'.hwptr q.rhp (by rw [hhw]; exact hq.lt_half p)
      (by have := hq.lt_half q.rhp.toNat; rwa [Nat.mod_eq_of_lt hrl] at this)
    have hrlt : p % 2 ^ k < 2 ^ k := Nat.mod_lt _ hpos
    simp only [if_neg (not_not.2 hsw)]
    have hrp : (q.rhp + (sync'.hwptr - q.rhp.setWidth 64).setWidth 32).toNat = p % 2 ^ k + 0 := by rw [hr1, hhw]; rfl
    have hav := toNat_available hq.k31 hqm hwin.swptr hrp (Nat.zero_le _) (by omega)
    refine ⟨⟨hq.k31, hq.items, ?_, ?_, hq.nonempty, fun hl' => ?_, fun hl' => ?_⟩, ?_⟩
    · show q.hdr + _ = q.hdrBase + _
      rw [hr1, hr2, hq.hdr]; omega
    · show q.off + _ = q.offBase + _
      rw [hr1, hr2, hq.off]; omega
    · exact ⟨len, 0, hlap, Nat.zero_le _, Nat.pos_of_ne_zero (hwin.locked.1 hl'), hwin.hwptr, hwin.swptr,
        by rw [hr1, hhw]; rfl, hav, by simp [hnil]⟩
    · have hlen0 : len = 0 := by by_contra hne; exact hl' (hwin.locked.2 hne)
      refine ⟨?_, ?_, ?_, hnil⟩
      · apply BitVec.eq_of_toNat_eq
        rw [hwin.swptr, hhw, hlen0]; rfl
      · show (q.rhp + _).toNat < _
        rw [hr1, hhw]; exact hrlt
      · exact BitVec.eq_of_toNat_eq (hav.trans (by rw [hlen0]; rfl))
    · have heq : ((q.rhp + (sync'.hwptr - q.rhp.setWidth 64).setWidth 32).setWidth 64 : U64) = sync'.hwptr :=
        BitVec.eq_of_toNat_eq (by rw [toNat_setWidth64, hr1])
      unfold QueueV2.RhpInWindow
      simp only [heq, BitVec.sub_self, BitVec.zero_and]
      exact BitVec.le_def.2 (Nat.zero_le _)

/-- Handing out `n` available positions. -/
theorem QueueInv.advance (hI : ChanInv k p h ch) (hq : QueueInv k p h ch i q held) {count : U32} (hc : count ≠ 0)
    (hav : ¬ q.pktsAvailable < count) : QueueInv k p h ch i (q.advance count) (held ++ [q.itemSlots count.toNat]) := by
  have hpos : 0 < 2 ^ k := by positivity
  have hc' : 0 < count.toNat := Nat.pos_of_ne_zero fun h0 => hc (BitVec.eq_of_toNat_eq h0)
  have hav' : count.toNat ≤ q.pktsAvailable.toNat := Nat.le_of_not_lt fun h => hav (BitVec.lt_def.2 h)
  have hl : ch.lockedSub = some i := by
    by_contra hl
    obtain ⟨_, _, h0, _⟩ := hq.free hl
    rw [h0] at hav'
    simp at hav'; omega
  obtain ⟨len, u, hlap, hu, hlen, hh, hsw, hrh, hpk, hflat⟩ := hq.locked hl
  have hle := hI.le
  have hmod := Nat.mod_lt p hpos
  have hpow : 2 ^ k ≤ 2 ^ 31 := Nat.pow_le_pow_right (by norm_num) hq.k31
  have hrhp : (q.rhp + count).toNat = q.rhp.toNat + count.toNat := by
    rw [BitVec.toNat_add, Nat.mod_eq_of_lt (by omega)]
  have hburst : q.itemSlots count.toNat = slots k (p + u) count.toNat := by
    unfold QueueV2.itemSlots slots
    refine List.map_congr_left fun j _ => ?_
    have hx : q.hdr - q.hdrBase + (j : Int) = ((q.rhp.toNat + j : Nat) : Int) := by rw [hq.hdr]; push_cast; ring
    unfold shadowSlot slot
    rw [hx, hq.items, ← Int.natCast_emod, Int.toNat_natCast, hrh, Nat.add_assoc, Nat.mod_add_mod, ← Nat.add_assoc]
  constructor
  case k31 => exact hq.k31
  case items => exact hq.items
  case hdr =>
    show q.hdr + _ = q.hdrBase + ((q.rhp + count).toNat : Int)
    rw [hrhp, hq.hdr]; push_cast; ring
  case off =>
    show q.off + _ = q.offBase + ((q.rhp + count).toNat : Int)
    rw [hrhp, hq.off]; push_cast; ring
  case nonempty =>
    intro b hb
    rcases List.mem_append.1 hb with hb | hb
    · exact hq.nonempty b hb
    · rw [List.mem_singleton.1 hb, hburst]
      intro h0
      have := congrArg List.length h0
      rw [length_slots] at this
      simp at this; omega
  case locked =>
    intro _
    refine ⟨len, u + count.toNat, hlap, by omega, hlen, hh, hsw, ?_, ?_, ?_⟩
    · show (q.rhp + count).toNat = _
      rw [hrhp, hrh]; omega
    · show (q.pktsAvailable - count).toNat = _
      rw [BitVec.toNat_sub_of_le (BitVec.le_def.2 hav')]; omega
    · rw [List.flatten_append, hflat, hburst]
      simp only [List.flatten_cons, List.flatten_nil, List.append_nil]
      exact slots_append k p u count.toNat
  case free => exact fun hn => absurd hl hn

/-- A get publishes nothing; on success it adds the burst in front of the queue's new position. -/
theorem get_called (hI : ChanInv k p h ch) (hq : QueueInv k p h ch i q held) (hr : (ch.sub i).status = .running) (e : Nat) (mem : V2Mem)
    (packets : Nat → NdpPacket) (count : U32) {mem' : V2Mem} {packets' : Nat → NdpPacket} {ret : U32}
    (hg : ncNdpV2TxBurstGet hdrOps e i ch mem q packets count = (ch', mem', q', packets', ret)) :
    ∃ h', Synced k p h ch i p h' ch' ∧ (ret = 0 → QueueInv k p h' ch' i q' held) ∧
      (ret ≠ 0 → QueueInv k p h' ch' i q' (held ++ [{ q' with hdr := q'.hdr - ret.toNat }.itemSlots ret.toNat])) := by
  unfold ncNdpV2TxBurstGet at hg
  obtain ⟨h', hc⟩ : ∃ h', Called k p h ch i held (if q.pktsAvailable < count then ncNdpV2TxLock hdrOps e i ch q else (ch, q)).1
      (if q.pktsAvailable < count then ncNdpV2TxLock hdrOps e i ch q else (ch, q)).2 0 h' := by
    split
    · obtain ⟨h', hc, _⟩ := lock_called hI hq hr e
      exact ⟨h', hc⟩
    · exact ⟨h, Called.none hI hq⟩
  have hshort : ∀ x, (if q.pktsAvailable < count then ncNdpV2TxLock hdrOps e i ch q else (ch, q)) = x →
      ¬ q.pktsAvailable < count → x.2.pktsAvailable = q.pktsAvailable := by
    rintro x rfl hn; rw [if_neg hn]
  simp only at hg
  generalize (if q.pktsAvailable < count then ncNdpV2TxLock hdrOps e i ch q else (ch, q)) = x at hg hc hshort
  obtain ⟨ch₁, q₁⟩ := x
  have hs := hc.synced
  have hq₁ := hc.queue
  rw [if_pos rfl] at hq₁
  rw [Nat.add_zero] at hs hq₁
  simp only at hg
  split at hg
  · cases hg
    exact ⟨h', hs, fun _ => hq₁, fun h => absurd rfl h⟩
  · rename_i hok
    have hav : ¬ q₁.pktsAvailable < count := by
      by_cases hsh : q.pktsAvailable < count
      · exact fun h => hok ⟨hsh, Or.inl h⟩
      · rw [hshort _ rfl hsh]; exact hsh
    split at hg
    · cases hg
      exact ⟨h', hs, fun _ => hq₁, fun h => absurd rfl h⟩
    · cases hg
      refine ⟨h', hs, fun h0 => ?_, fun h0 => ?_⟩
      · -- an empty get moves nothing
        have hn : count.toNat = 0 := by rw [h0]; rfl
        have hz : ∀ x : U32, x + count = x := fun x => by rw [h0]; exact BitVec.add_zero x
        have hz' : ∀ x : U32, x - count = x := fun x => by rw [h0]; exact BitVec.sub_zero x
        have hq0 : q₁.advance count = q₁ := by
          unfold QueueV2.advance
          simp only [hn, hz, hz', Nat.cast_zero, add_zero]
        rw [hq0]; exact hq₁
      · have hb : ({ q₁.advance count with hdr := (q₁.advance count).hdr - count.toNat } : QueueV2).itemSlots count.toNat =
            q₁.itemSlots count.toNat := by
          unfold QueueV2.itemSlots QueueV2.advance; simp only [add_sub_cancel_right]
        rw [hb]; exact hq₁.advance hs.inv h0 hav

/-! ## Runs -/

namespace TxV2

/-- The invariant of the system. -/
structure InvAt (k p h : Nat) (s : TxV2) : Prop where
  chan : ChanInv k p h s.ch
  queue : ∀ i, QueueInv k p h s.ch i (s.q i) (s.held i)
  account : Accounted s.ch.ctrl.pushed s.got s.sent s.held
  fresh : s.ch.startCount = 0 → p = 0 ∧ h = 0 ∧ s.ch.lockedSub = none
  running : ∀ i, (s.ch.sub i).status = .running → s.ch.startCount ≠ 0

def Inv (k : Nat) (s : TxV2) : Prop := ∃ p h, InvAt k p h s

theorem opened_inv (hk : k ≤ 31) (mem : V2Mem) (o : Nat → V2Open) : Inv k (opened k mem o) := by
  have hpow : 2 ^ k ≤ 2 ^ 31 := Nat.pow_le_pow_right (by norm_num) hk
  have hpos : 0 < 2 ^ k := by positivity
  refine ⟨0, 0, ⟨isMask_ofNat (by omega), rfl, by simp [opened], rfl, by simp [opened], le_rfl, by omega, rfl⟩, fun i => ?_,
    ⟨rfl, fun i => rfl⟩, fun _ => ⟨rfl, rfl, rfl⟩, fun _ h => nomatch h⟩
  refine ⟨hk, ?_, by simp [opened, ncNdpV2OpenQueue], by simp [opened, ncNdpV2OpenQueue], by simp [opened], fun h => ?_,
    fun _ => ⟨rfl, by simp [opened, ncNdpV2OpenQueue], rfl, rfl⟩⟩
  · show (BitVec.ofNat 32 (2 ^ k)).toNat = _
    rw [BitVec.toNat_ofNat, Nat.mod_eq_of_lt (by omega)]
  · cases h

variable {s : TxV2}

theorem InvAt.called (hI : InvAt k p h s) {p' h' : Nat} (hr : (s.ch.sub i).status = .running) (hs : Synced k p h s.ch i p' h' ch')
    (mem : V2Mem) {got sent : List (Nat × List Nat)} {held : Nat → List (List Nat)} (hq : QueueInv k p' h' ch' i q' (held i))
    (hheld : ∀ j, j ≠ i → held j = s.held j) (ha : Accounted ch'.ctrl.pushed got sent held) :
    InvAt k p' h' { ch := ch', mem, q := Function.update s.q i q', got, held, sent } := by
  refine ⟨hs.inv, fun j => ?_, ha, fun h0 => absurd (hs.startCount ▸ h0) (hI.running i hr), fun j hj => ?_⟩
  · by_cases hji : j = i
    · subst hji
      simpa using hq
    · simpa [hji, hheld j hji] using (hI.queue j).other hs hji
  · show ch'.startCount ≠ 0
    rw [hs.startCount]
    exact hI.running j (hs.status j ▸ hj)

theorem after_inv (hI : InvAt k p h s) {u h' : Nat} (hr : (s.ch.sub i).status = .running)
    (hc : Called k p h s.ch i (s.held i) ch' q' u h') : InvAt k (p + u) h' (s.after i ch' q') := by
  have hs := hc.synced
  have hlap := hc.lap
  have hb : ∀ n, n % 2 ^ k < 2 ^ k := fun n => Nat.mod_lt _ (by positivity)
  have hmoved : ch'.swptr = s.ch.swptr ↔ u = 0 := by
    rw [(at_of_mod hs.inv.swptr).eq_iff (at_of_mod hI.chan.swptr) (by rw [hs.inv.swptr]; exact hb _)
      (by rw [hI.chan.swptr]; exact hb _) (by omega) (by omega)]
    omega
  have hq := hc.queue
  have hpushed : ch'.ctrl.pushed = s.ch.ctrl.pushed ++ slots k p u := by
    have happ := slots_append k 0 p u
    rw [Nat.zero_add] at happ
    rw [hI.chan.pushed, hs.inv.pushed, happ]
  unfold after
  by_cases hu : u = 0
  · rw [if_neg (not_not.2 (hmoved.2 hu))]
    rw [if_pos hu] at hq
    refine hI.called hr hs s.mem hq (fun _ _ => rfl) ?_
    rw [hpushed, hu, slots_zero, List.append_nil]
    exact hI.account
  · rw [if_pos (mt hmoved.1 hu)]
    rw [if_neg hu] at hq
    refine hI.called hr hs s.mem (by rw [Function.update_self]; exact hq) (fun j hj => Function.update_of_ne hj _ _) ?_
    rw [hpushed, ← hc.sent hu]
    exact hI.account.send i

/-- After a call that publishes nothing and hands out the bursts `bs`. -/
theorem handed_inv (hI : InvAt k p h s) (hr : (s.ch.sub i).status = .running) {h' : Nat} (hs : Synced k p h s.ch i p h' ch') (mem : V2Mem)
    (bs : List (List Nat)) (hq : QueueInv k p h' ch' i q' (s.held i ++ bs)) :
    InvAt k p h' { s with ch := ch', mem, q := Function.update s.q i q', got := s.got ++ bs.map (i, ·)
                          held := Function.update s.held i (s.held i ++ bs) } := by
  refine hI.called hr hs mem (by rw [Function.update_self]; exact hq) (fun j hj => Function.update_of_ne hj _ _) ?_
  rw [hs.inv.pushed, ← hI.chan.pushed]
  exact hI.account.hand i bs

theorem start_inv (hI : InvAt k p h s) (i hw : Nat) : InvAt k p h (s.step (.start i hw)) := by
  have hq0 : Function.update s.q i { s.q i with sync := (s.q i).sync } = s.q := Function.update_eq_self i s.q
  have hC := hI.chan
  unfold step ndpSubscriptionStart ndpChannelStart
  by_cases hst : (s.ch.sub i).status ≠ .subscribed
  · simp only [if_pos hst, hq0]
    exact hI
  simp only [if_neg hst]
  by_cases hc : s.ch.startCount = 0
  · obtain ⟨rfl, rfl, hl⟩ := hI.fresh hc
    have hsw : s.ch.swptr = 0 := BitVec.eq_of_toNat_eq (by rw [hC.swptr]; simp)
    have hhp : s.ch.ctrl.hhp = 0 := BitVec.eq_of_toNat_eq (by rw [hC.hhp]; simp)
    simp only [if_pos hc, hdrOps, ne_eq, not_true_eq_false, if_false, hq0]
    refine ⟨⟨hC.mask, hC.mhp, by simp, rfl, by simp, le_rfl, hC.lap, hC.pushed⟩, fun j => ?_, hI.account,
      fun h0 => absurd h0 (Nat.succ_ne_zero _), fun _ _ => Nat.succ_ne_zero _⟩
    have hj := hI.queue j
    exact ⟨hj.k31, hj.items, hj.hdr, hj.off, hj.nonempty, fun h => by simp [hl] at h,
      fun _ => hj.free (by rw [hl]; simp)⟩
  · simp only [if_neg hc, ne_eq, not_true_eq_false, if_false, hq0]
    refine ⟨⟨hC.mask, hC.mhp, hC.swptr, hC.shp, hC.hhp, hC.le, hC.lap, hC.pushed⟩, fun j => ?_, hI.account,
      fun h0 => absurd h0 (Nat.succ_ne_zero _), fun _ _ => Nat.succ_ne_zero _⟩
    have hj := hI.queue j
    exact ⟨hj.k31, hj.items, hj.hdr, hj.off, hj.nonempty, hj.locked, hj.free⟩

theorem get_inv (hI : InvAt k p h s) (i hw : Nat) (packets : Nat → NdpPacket) (count : U32) :
    ∃ h', InvAt k p h' (s.step (.get i hw packets count)) := by
  unfold step
  by_cases hr : (s.ch.sub i).status = .running
  · simp only [hr, ne_eq, not_true_eq_false, if_false]
    rcases hg : ncNdpV2TxBurstGet hdrOps hw i s.ch s.mem (s.q i) packets count with ⟨ch', mem', q', packets', ret⟩
    obtain ⟨h', hs, h0, h1⟩ := get_called hI.chan (hI.queue i) hr hw s.mem packets count hg
    have hsw : ch'.swptr = s.ch.swptr := BitVec.eq_of_toNat_eq (by rw [hs.inv.swptr, hI.chan.swptr])
    refine ⟨h', ?_⟩
    unfold after
    simp only [hsw, ne_eq, not_true_eq_false, if_false]
    split
    · rename_i hz
      have hv := handed_inv hI hr hs mem' [] (by rw [List.append_nil]; exact h0 hz)
      simpa [Function.update_eq_self] using hv
    · rename_i hz
      have hv := handed_inv hI hr hs mem' _ (h1 hz)
      unfold hand
      simpa using hv
  · simp only [ne_eq, hr, not_false_eq_true, if_true]
    exact ⟨h, hI⟩

theorem step_inv (s : TxV2) (a : TxV2Act) (hI : Inv k s) : Inv k (s.step a) := by
  obtain ⟨p, h, hI⟩ := hI
  cases a with
  | start i hw => exact ⟨p, h, start_inv hI i hw⟩
  | get i hw packets count =>
    obtain ⟨h', hg⟩ := get_inv hI i hw packets count
    exact ⟨p, h', hg⟩
  | put i hw =>
    unfold step
    by_cases hr : (s.ch.sub i).status = .running
    · simp only [hr, ne_eq, not_true_eq_false, if_false]
      obtain ⟨u, h', hc⟩ := put_called hI.chan (hI.queue i) hr hw
      exact ⟨p + u, h', after_inv hI hr hc⟩
    · simp only [ne_eq, hr, not_false_eq_true, if_true]
      exact ⟨p, h, hI⟩
  | flush i hw =>
    unfold step
    by_cases hr : (s.ch.sub i).status = .running
    · simp only [hr, ne_eq, not_true_eq_false, if_false]
      obtain ⟨u, h', hc⟩ := flush_called hI.chan (hI.queue i) hr hw
      exact ⟨p + u, h', after_inv hI hr hc⟩
    · simp only [ne_eq, hr, not_false_eq_true, if_true]
      exact ⟨p, h, hI⟩

theorem reachable_inv (hk : k ≤ 31) (mem : V2Mem) (o : Nat → V2Open) (acts : List TxV2Act) :
    Inv k (run step (opened k mem o) acts) :=
  run_inv step_inv acts _ (opened_inv hk mem o)

/-! ## No loss and no overlap -/

theorem InvAt.held_disjoint (hI : InvAt k p h s) {j : Nat} (hij : i ≠ j) : List.Disjoint (s.held i).flatten (s.held j).flatten := by
  by_cases hi : s.ch.lockedSub = some i
  · have hj : s.ch.lockedSub ≠ some j := by rw [hi]; simpa using hij
    rw [((hI.queue j).free hj).2.2.2]
    exact List.disjoint_nil_right _
  · rw [((hI.queue i).free hi).2.2.2]
    exact List.disjoint_nil_left _

theorem InvAt.held_inFlight (hI : InvAt k p h s) (i : Nat) : List.Disjoint (s.held i).flatten s.ch.ctrl.inFlight := by
  by_cases hi : s.ch.lockedSub = some i
  · obtain ⟨len, u, hlap, hu, _, _, _, _, _, hflat⟩ := (hI.queue i).locked hi
    have hle := hI.chan.le
    rw [hflat, hI.chan.inFlight]
    exact (slots_disjoint (by omega) (by omega)).symm
  · rw [((hI.queue i).free hi).2.2.2]
    exact List.disjoint_nil_left _

/-- What a queue's position and its last sync say: the header and offset pointers follow `rhp`; a
window that is not empty has `rhp` inside and leaves the rest of it available; an empty one leaves
nothing, and the next lock puts `rhp` back into the window it gets. -/
structure Positioned (s : TxV2) (i : Nat) : Prop where
  hdr : (s.q i).hdr = (s.q i).hdrBase + (s.q i).rhp.toNat
  off : (s.q i).off = (s.q i).offBase + (s.q i).rhp.toNat
  window : (s.q i).sync.swptr ≠ (s.q i).sync.hwptr → (s.q i).RhpInWindow ∧
    (s.q i).pktsAvailable.toNat = (((s.q i).sync.swptr - (s.q i).rhp.setWidth 64) &&& (s.q i).mask).toNat
  empty : (s.q i).sync.swptr = (s.q i).sync.hwptr → (s.q i).pktsAvailable = 0 ∧ s.held i = []
  relock : (s.ch.sub i).status = .running → ∀ hw, (ncNdpV2TxLock hdrOps hw i s.ch (s.q i)).2.RhpInWindow

theorem InvAt.positioned (hI : InvAt k p h s) (i : Nat) : Positioned s i := by
  have hq := hI.queue i
  refine ⟨hq.hdr, hq.off, fun hne => hq.inWindow hI.chan hne, fun heq => ?_, fun hr hw => ?_⟩
  · have hl : s.ch.lockedSub ≠ some i := by
      intro hl
      obtain ⟨len, u, hlap, _, hlen, hh, hsw, _⟩ := hq.locked hl
      have hle := hI.chan.le
      have hb : ∀ n, n % 2 ^ k < 2 ^ k := fun n => Nat.mod_lt _ (by positivity)
      have := ((at_of_mod hsw).eq_iff (at_of_mod hI.chan.swptr) (by rw [hsw]; exact hb _)
        (by rw [hI.chan.swptr]; exact hb _) (by omega) (by omega)).1 (heq.trans hh)
      omega
    exact ⟨(hq.free hl).2.2.1, (hq.free hl).2.2.2⟩
  · obtain ⟨_, _, hin⟩ := lock_called hI.chan hq hr hw
    exact hin

/-- In every state reached from freshly opened queues on a ring of `2 ^ k` headers: no two
subscriptions hold a common slot, nor one that is published and not completed; the published slots
are the sent bursts in order, and what a subscription got is what it has sent and then what it
holds; and every queue is in position. -/
theorem no_loss_no_overlap (hk : k ≤ 31) (mem : V2Mem) (o : Nat → V2Open) (acts : List TxV2Act) :
    let s := run step (opened k mem o) acts
    (∀ i j, i ≠ j → List.Disjoint (s.held i).flatten (s.held j).flatten) ∧
    (∀ i, List.Disjoint (s.held i).flatten s.ch.ctrl.inFlight) ∧
    s.ch.ctrl.pushed = (s.sent.map (·.2)).flatten ∧
    (∀ i, s.got.filter (·.1 = i) = s.sent.filter (·.1 = i) ++ (s.held i).map (i, ·)) ∧
    ∀ i, Positioned s i := by
  intro s
  obtain ⟨p, h, hI⟩ := reachable_inv hk mem o acts
  exact ⟨fun i j hij => hI.held_disjoint hij, hI.held_inFlight, hI.account.passed.symm, hI.account.hist, hI.positioned⟩

/-- An empty buffer, and a queue opened on it with the default sizes. -/
def emptyMem : V2Mem := { hdr := fun _ => ⟨0, 0, 0⟩, off := fun _ => 0 }

def defaultOpen : V2Open :=
  { buffer := 0, hdrBase := 0, offBase := 0, frameSizeMin := 0, frameSizeMax := 0, bufferSize := 4096 }

/-- Two subscriptions; the first sends a packet, then the second flushes without the lock. -/
def flushUnlocked : List TxV2Act :=
  [.start 0 0, .start 1 0, .get 0 0 (fun _ => ⟨0, 0, 64, 0, 0⟩) 1, .flush 0 0, .flush 1 0]

/-- The first has published a packet that the hardware has not taken, and the second holds two. -/
def heldBeside : List TxV2Act :=
  [.start 0 0, .start 1 0, .get 0 0 (fun _ => ⟨0, 0, 64, 0, 0⟩) 1, .flush 0 0, .get 1 0 (fun _ => ⟨0, 0, 64, 0, 0⟩) 2]

theorem no_loss_no_overlap_1024 :
    let s := run step (opened 10 emptyMem fun _ => defaultOpen) heldBeside
    (s.held 1 = [[1, 2]] ∧ s.ch.ctrl.inFlight = [0]) ∧ (∀ i j, i ≠ j → List.Disjoint (s.held i).flatten (s.held j).flatten) ∧
      (∀ i, List.Disjoint (s.held i).flatten s.ch.ctrl.inFlight) ∧ s.ch.ctrl.pushed = (s.sent.map (·.2)).flatten ∧
      (∀ i, s.got.filter (·.1 = i) = s.sent.filter (·.1 = i) ++ (s.held i).map (i, ·)) ∧ ∀ i, Positioned s i :=
  ⟨by decide +kernel, no_loss_no_overlap (by decide) emptyMem (fun _ => defaultOpen) heldBeside⟩

/-- A flush without the lock takes the driver's pointers and leaves `rhp` behind: queue 1 is then
outside the (empty) window of its last sync. -/
theorem rhp_outside_window_after_unlocked_flush :
    ¬ ∀ (acts : List TxV2Act) (i : Nat),
      ((run step (opened 10 emptyMem fun _ => defaultOpen) acts).q i).RhpInWindow := by
  intro h
  exact absurd (h flushUnlocked 1) (by decide +kernel)

end TxV2

end NdkSw.Ndp

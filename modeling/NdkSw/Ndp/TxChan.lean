/-
The TX channel as its positions. The controller is seen through its pointers only: `set_swptr` takes the
positions up to its argument, which are header slots or bytes, and `get_hwptr` returns any position between the
last one and the published one. The invariant counts ring positions without bound: `p` of them are published and
the hardware has completed `h`.
-/
import NdkSw.Ndp.Channel

namespace NdkSw.Ndp

open Ring

/-! ## The controller as its pointers -/

/-- The pointers of a TX controller into its ring of headers or of bytes, and all positions of the ring passed to
`set_swptr` so far. -/
structure HdrCtrl where
  mhp : U64
  shp : U64
  hhp : U64
  pushed : List Nat
  deriving DecidableEq, Repr

/-- The places of the ring from `a` up to `b`. -/
def HdrCtrl.between (c : HdrCtrl) (a b : U64) : List Nat :=
  (List.range ((b - a) &&& c.mhp).toNat).map fun j => ((a + BitVec.ofNat 64 j) &&& c.mhp).toNat

/-- The published places that the hardware has not completed. -/
def HdrCtrl.inFlight (c : HdrCtrl) : List Nat := c.between c.hhp c.shp

/-- The controller calls on the pointers. The hardware's choice `e` is how many places it completes
until `get_hwptr` looks, at most all published ones. -/
def hdrOps : ChannelOps HdrCtrl Nat where
  start c _ := ({ c with shp := 0, hhp := 0 }, 0, 0)
  stop c _ _ := (c, 0)
  getHwptr c e :=
    let done := min e ((c.shp - c.hhp) &&& c.mhp).toNat
    let hhp := (c.hhp + BitVec.ofNat 64 done) &&& c.mhp
    ({ c with hhp }, hhp)
  setSwptr c _ ptr := { c with pushed := c.pushed ++ c.between c.shp ptr, shp := ptr }
  getFreeSpace := none

variable {k p h : Nat} {ch : Channel HdrCtrl}

/-! ## The channel -/

/-- The channel's pointers stand for the positions: `p` published, `h` completed. -/
structure ChanInv (k p h : Nat) (ch : Channel HdrCtrl) : Prop where
  mask : IsMask ch.ptrmask k
  mhp : ch.ctrl.mhp = ch.ptrmask
  swptr : ch.swptr.toNat = p % 2 ^ k
  shp : ch.ctrl.shp = ch.swptr
  hhp : ch.ctrl.hhp.toNat = h % 2 ^ k
  le : h ≤ p
  lap : p < h + 2 ^ k
  pushed : ch.ctrl.pushed = slots k 0 p

theorem between_slots {c : HdrCtrl} {a b : U64} {u : Nat} (hm : IsMask c.mhp k) (ha : At k a p)
    (hb : At k b (p + u)) (hu : u < 2 ^ k) : c.between a b = slots k p u := by
  unfold HdrCtrl.between slots
  rw [hb.toNat_sub_and hm ha (by omega) (by omega), Nat.add_sub_cancel_left]
  refine List.map_congr_left fun j hj => ?_
  exact (At.add hm.le_width ha (at_ofNat hm.le_width j)).toNat_and hm

theorem ChanInv.inFlight (hI : ChanInv k p h ch) : ch.ctrl.inFlight = slots k h (p - h) := by
  have hlap := hI.lap
  have hle := hI.le
  refine between_slots (by rw [hI.mhp]; exact hI.mask) (at_of_mod hI.hhp) ?_ (by omega)
  rw [hI.shp, Nat.add_sub_cancel' hI.le]
  exact at_of_mod hI.swptr

/-- Publishing `u` more positions passes exactly their slots to the controller. -/
theorem ChanInv.publish (hI : ChanInv k p h ch) (e u : Nat) {ptr : U64} (hptr : ptr.toNat = (p + u) % 2 ^ k) (hu : p + u < h + 2 ^ k) :
    ChanInv k (p + u) h { ch with swptr := ptr, ctrl := hdrOps.setSwptr ch.ctrl e ptr } := by
  have hle := hI.le
  refine ⟨hI.mask, hI.mhp, hptr, rfl, hI.hhp, by omega, hu, ?_⟩
  show ch.ctrl.pushed ++ ch.ctrl.between ch.ctrl.shp ptr = _
  have hb : ch.ctrl.between ch.ctrl.shp ptr = slots k p u :=
    between_slots (by rw [hI.mhp]; exact hI.mask) (by rw [hI.shp]; exact at_of_mod hI.swptr) (at_of_mod hptr)
      (by omega)
  have happ := slots_append k 0 p u
  rw [Nat.zero_add] at happ
  rw [hb, hI.pushed, happ]

theorem ChanInv.getHwptr (hI : ChanInv k p h ch) (e : Nat) :
    ∃ h', h ≤ h' ∧ h' ≤ p ∧ At k (hdrOps.getHwptr ch.ctrl e).2 h' ∧
      (hdrOps.getHwptr ch.ctrl e).1 = { ch.ctrl with hhp := (hdrOps.getHwptr ch.ctrl e).2 } ∧
      (hdrOps.getHwptr ch.ctrl e).2.toNat = h' % 2 ^ k := by
  have hle := hI.le
  have hlap := hI.lap
  have hm : IsMask ch.ctrl.mhp k := by rw [hI.mhp]; exact hI.mask
  have hfly : ((ch.ctrl.shp - ch.ctrl.hhp) &&& ch.ctrl.mhp).toNat = p - h := by
    rw [hI.shp]
    exact (at_of_mod hI.swptr).toNat_sub_and hm (at_of_mod hI.hhp) hle (by omega)
  refine ⟨h + min e (p - h), by omega, by omega, ?_, rfl, ?_⟩
  all_goals
    have hadd := At.add hm.le_width (at_of_mod hI.hhp) (at_ofNat hm.le_width (min e (p - h)))
    simp only [hdrOps, hfly]
  · exact hadd.and hm
  · exact hadd.toNat_and hm

/-! ## One sync -/

/-- What a sync of `i` makes of the channel: `p'` positions published, and either `i` or nobody
held the lock before and after, or another subscription holds it and nothing moves. -/
structure Synced (k p h : Nat) (ch : Channel HdrCtrl) (i p' h' : Nat) (ch' : Channel HdrCtrl) : Prop where
  inv : ChanInv k p' h' ch'
  startCount : ch'.startCount = ch.startCount
  status : ∀ j, (ch'.sub j).status = (ch.sub j).status
  other : (∀ j, j ≠ i → ch.lockedSub ≠ some j ∧ ch'.lockedSub ≠ some j) ∨
    (p' = p ∧ h' = h ∧ ch'.swptr = ch.swptr ∧ ch'.lockedSub = ch.lockedSub ∧ ch.lockedSub ≠ some i)

/-- The window a sync returns to `i`: `len` positions from `p'` on, with the lock if there are any. -/
structure Window (k i p' h' len : Nat) (ch' : Channel HdrCtrl) (sync' : SubscriptionSync) : Prop where
  hwptr : sync'.hwptr = ch'.swptr
  swptr : sync'.swptr.toNat = (p' + len) % 2 ^ k
  lap : p' + len < h' + 2 ^ k
  locked : ch'.lockedSub = some i ↔ len ≠ 0

theorem txsyncGrant_synced (hI : ChanInv k p h ch) (e i : Nat) {sync : SubscriptionSync} {n : Nat}
    (hn : ((sync.swptr - sync.hwptr) &&& ch.ptrmask).toNat = n) (hlock : ∀ j, j ≠ i → ch.lockedSub ≠ some j) :
    ∃ h', h ≤ h' ∧ h' ≤ p ∧ Synced k p h ch i p h' (txsyncGrant hdrOps e ch i sync).1 ∧
      Window k i p h' (min n (h' + 2 ^ k - 1 - p)) (txsyncGrant hdrOps e ch i sync).1
        (txsyncGrant hdrOps e ch i sync).2 := by
  obtain ⟨h', h1, h2, hat, hc, hv⟩ := hI.getHwptr e
  have hle := hI.le
  have hlap := hI.lap
  have hg := txsyncGrant_spec e ch i sync hI.mask (at_of_mod hI.swptr) hat h2 (by omega) hn
  generalize txsyncGrant hdrOps e ch i sync = r at hg ⊢
  refine ⟨h', h1, h2, ⟨⟨?_, ?_, ?_, ?_, ?_, h2, by omega, ?_⟩, hg.startCount, hg.status,
      Or.inl fun j hj => ⟨hlock j hj, ?_⟩⟩,
    ⟨hg.hwptr.trans hg.chSwptr.symm, hg.swptr, by omega, ?_⟩⟩
  · rw [hg.ptrmask]; exact hI.mask
  · rw [hg.ctrl, hc, hg.ptrmask]; exact hI.mhp
  · rw [hg.chSwptr]; exact hI.swptr
  · rw [hg.ctrl, hc, hg.chSwptr]; exact hI.shp
  · rw [hg.ctrl, hc]; exact hv
  · rw [hg.ctrl, hc]; exact hI.pushed
  · rw [hg.locked]; split
    · simp
    · simpa using Ne.symm hj
  · rw [hg.locked]; split <;> simp_all

/-- A TX sync of a running subscription: the holder publishes `u` positions and asks for `n`. -/
theorem txsync_synced (hI : ChanInv k p h ch) (e i : Nat) (sync : SubscriptionSync) {n u : Nat}
    (hn : ((sync.swptr - sync.hwptr) &&& ch.ptrmask).toNat = n) (hu : p + u < h + 2 ^ k)
    (hhold : ch.lockedSub = some i → sync.hwptr.toNat = (p + u) % 2 ^ k) (hfree : ch.lockedSub ≠ some i → u = 0) :
    ∃ h' len, h ≤ h' ∧ Synced k p h ch i (p + u) h' (ndpChannelTxsync hdrOps e ch i sync).1 ∧
      Window k i (p + u) h' len (ndpChannelTxsync hdrOps e ch i sync).1 (ndpChannelTxsync hdrOps e ch i sync).2 ∧
      (len = min n (h' + 2 ^ k - 1 - (p + u)) ∨ (len = 0 ∧ ∃ j, j ≠ i ∧ ch.lockedSub = some j)) := by
  unfold ndpChannelTxsync
  by_cases hl : ch.lockedSub = some i
  · rw [if_pos hl]
    have hptr := hhold hl
    have honly : ∀ j, j ≠ i → ch.lockedSub ≠ some j := by
      intro j hj h; rw [hl] at h; exact hj (Option.some.inj h).symm
    by_cases hne : sync.hwptr = ch.swptr
    · -- nothing to publish
      have hu0 : u = 0 := by
        have h1 : At k sync.hwptr (p + u) := at_of_mod hptr
        have h2 : At k ch.swptr p := at_of_mod hI.swptr
        have hb : ∀ n, n % 2 ^ k < 2 ^ k := fun n => Nat.mod_lt _ (by positivity)
        have hle := hI.le
        have := (h1.eq_iff h2 (by rw [hptr]; exact hb _) (by rw [hI.swptr]; exact hb _) (by omega) (by omega)).1 hne
        omega
      subst hu0
      rw [if_neg (by simpa using hne)]
      obtain ⟨h', h1, _, hs, hw⟩ := txsyncGrant_synced hI e i hn honly
      exact ⟨h', _, h1, hs, hw, Or.inl rfl⟩
    · rw [if_pos hne]
      obtain ⟨h', h1, _, hs, hw⟩ := txsyncGrant_synced (hI.publish e u hptr hu) e i (n := n) hn honly
      exact ⟨h', _, h1, ⟨hs.inv, hs.startCount, hs.status, hs.other.elim Or.inl fun hx => absurd hl hx.2.2.2.2⟩, hw, Or.inl rfl⟩
  · have hu0 := hfree hl
    subst hu0
    rw [if_neg hl]
    by_cases hnone : ch.lockedSub = none
    · rw [if_pos hnone]
      obtain ⟨h', h1, _, hs, hw⟩ := txsyncGrant_synced hI e i hn (fun j _ => by rw [hnone]; simp)
      exact ⟨h', _, h1, hs, hw, Or.inl rfl⟩
    · rw [if_neg hnone]
      obtain ⟨j, hj⟩ := Option.ne_none_iff_exists'.1 hnone
      have hji : j ≠ i := by rintro rfl; exact hl hj
      refine ⟨h, 0, le_rfl, ⟨⟨hI.mask, hI.mhp, hI.swptr, hI.shp, hI.hhp, hI.le, hI.lap, hI.pushed⟩, rfl, fun m => ?_,
        Or.inr ⟨rfl, rfl, rfl, rfl, hl⟩⟩, ⟨rfl, by rw [Nat.add_zero]; exact hI.swptr, by have := hI.lap; omega, ?_⟩,
        Or.inr ⟨rfl, j, hji, hj⟩⟩
      · show (Function.update ch.sub i _ m).status = _
        by_cases hm : m = i
        · subst hm; rw [Function.update_self]
        · rw [Function.update_of_ne hm]
      · simpa using hl

theorem toNat_lapRequest {m x : U64} (hm : IsMask m k) : ((((x - 1) &&& m) - x) &&& m).toNat = 2 ^ k - 1 := by
  have hpos : 0 < 2 ^ k := by positivity
  have hx : At k x (x.toNat + 2 ^ k) := (at_toNat x).congr (by simp [Nat.ModEq])
  have h1 : At k (1 : U64) 1 := Nat.ModEq.refl _
  have hy := (At.sub hm.le_width hx h1 (by omega)).and hm
  rw [hy.toNat_sub_and hm (at_toNat x) (by omega) (by omega)]
  omega

theorem ndpSubscriptionSync_running {i : Nat} (hr : (ch.sub i).status = .running) (e : Nat) (sync : SubscriptionSync) :
    ndpSubscriptionSync hdrOps .tx e ch i sync =
      ((ndpChannelTxsync hdrOps e ch i sync).1, (ndpChannelTxsync hdrOps e ch i sync).2, 0) := by
  unfold ndpSubscriptionSync
  rw [if_neg (by simp [hr])]

/-! ## The history of a channel -/

/-- What the subscriptions got is what they have sent, in the order of the channel, and then what they hold; and what
they have sent was passed to the controller. -/
structure Accounted (pushed : List Nat) (got sent : List (Nat × List Nat)) (held : Nat → List (List Nat)) : Prop where
  passed : (sent.map (·.2)).flatten = pushed
  hist : ∀ i, got.filter (·.1 = i) = sent.filter (·.1 = i) ++ (held i).map (i, ·)

theorem filter_map_pair (i j : Nat) (l : List (List Nat)) :
    (l.map (j, ·)).filter (·.1 = i) = if j = i then l.map (j, ·) else [] := by
  split
  · rename_i hji
    exact List.filter_eq_self.2 fun x hx => by obtain ⟨b, _, rfl⟩ := List.mem_map.1 hx; simpa using hji
  · rename_i hji
    exact List.filter_eq_nil_iff.2 fun x hx => by obtain ⟨b, _, rfl⟩ := List.mem_map.1 hx; simpa using hji

section Accounted

variable {pushed : List Nat} {got sent : List (Nat × List Nat)} {held : Nat → List (List Nat)}

/-- `i` publishes all it holds. -/
theorem Accounted.send (h : Accounted pushed got sent held) (i : Nat) :
    Accounted (pushed ++ (held i).flatten) got (sent ++ (held i).map (i, ·)) (Function.update held i []) := by
  constructor
  case passed =>
    have hsnd : (held i).map (fun b => ((i, b) : Nat × List Nat).2) = held i := List.map_id _
    rw [List.map_append, List.flatten_append, h.passed, List.map_map]
    exact congrArg (fun l => pushed ++ l.flatten) hsnd
  case hist =>
    intro j
    rw [h.hist j, List.filter_append, filter_map_pair]
    by_cases hji : j = i
    · subst hji
      simp
    · simp [hji, Ne.symm hji]

/-- `i` gets some more. -/
theorem Accounted.hand (h : Accounted pushed got sent held) (i : Nat) (bs : List (List Nat)) :
    Accounted pushed (got ++ bs.map (i, ·)) sent (Function.update held i (held i ++ bs)) := by
  constructor
  case passed => exact h.passed
  case hist =>
    intro j
    rw [List.filter_append, h.hist j, filter_map_pair]
    by_cases hji : j = i
    · subst hji
      simp
    · simp [hji, Ne.symm hji]

end Accounted

end NdkSw.Ndp

/-
The boundaries of a TX sync request. A client passes any two 64 bit pointers; the driver takes the first
one for the new `swptr` of the channel if the client holds the lock. The controller only counts headers:
those its software pointer was moved over, and those the hardware has completed.
-/
import NdkSw.Ndp.Subscribe

namespace NdkSw.Ndp

open Ring

variable {k : Nat}

/-! ## The channel -/

/-- A TX controller that counts. `published` and `completed` count ring positions since the start. -/
structure CountCtrl where
  mhp : U64
  shp : U64
  hhp : U64
  published : Nat
  completed : Nat

/-- What the hardware shows: the result of a start or a stop, where a start begins, and how many headers
are completed until `get_hwptr` looks. -/
structure TxShown where
  ret : Int
  start : Nat
  done : Nat

def countOps : ChannelOps CountCtrl TxShown where
  start c e :=
    if e.ret ≠ 0 then (c, e.ret, 0)
    else
      let hwptr := BitVec.ofNat 64 e.start &&& c.mhp
      ({ c with shp := hwptr, hhp := hwptr, published := hwptr.toNat, completed := hwptr.toNat }, 0, hwptr)
  stop c e force := (c, if e.ret = eAgain ∧ ¬ force then eAgain else 0)
  getHwptr c e :=
    let done := min e.done ((c.shp - c.hhp) &&& c.mhp).toNat
    let hhp := (c.hhp + BitVec.ofNat 64 done) &&& c.mhp
    ({ c with hhp, completed := c.completed + done }, hhp)
  setSwptr c _ ptr := { c with shp := ptr, published := c.published + ((ptr - c.shp) &&& c.mhp).toNat }
  getFreeSpace := none

inductive TxSyncAct
  | start (i : Nat) (e : TxShown)
  | stop (i : Nat) (e₁ e₂ : TxShown) (force : Bool)
  | sync (i : Nat) (sync : SubscriptionSync) (e : TxShown)

namespace TxSync

/-- A TX channel with a ring of `2 ^ k` headers. -/
def opened (k : Nat) : Channel CountCtrl where
  lockedSub := none
  hwptr := 0
  swptr := 0
  ptrmask := BitVec.ofNat 64 (2 ^ k - 1)
  startCount := 0
  listSubscriptions := []
  sub _ := { status := .subscribed, hwptr := 0, swptr := 0 }
  ctrl := { mhp := BitVec.ofNat 64 (2 ^ k - 1), shp := 0, hhp := 0, published := 0, completed := 0 }

def step (ch : Channel CountCtrl) : TxSyncAct → Channel CountCtrl
  | .start i e => (ndpSubscriptionStart countOps .tx e ch i { size := 0, hwptr := 0, swptr := 0 }).1
  | .stop i e₁ e₂ force => (ndpSubscriptionStop countOps e₁ e₂ ch i force).1
  | .sync i sync e => (ndpSubscriptionSync countOps .tx e ch i sync).1

/-- The length of the window last granted to `i`. -/
def grantedLen (ch : Channel CountCtrl) (i : Nat) : U64 := ((ch.sub i).swptr - (ch.sub i).hwptr) &&& ch.ptrmask

/-- The pointer `x` lies inside the window last granted to `i`. -/
def InGranted (ch : Channel CountCtrl) (i : Nat) (x : U64) : Prop :=
  x ≤ ch.ptrmask ∧ (x - (ch.sub i).hwptr) &&& ch.ptrmask ≤ grantedLen ch i

instance (ch : Channel CountCtrl) (i : Nat) (x : U64) : Decidable (InGranted ch i x) := inferInstanceAs (Decidable (_ ∧ _))

/-- The condition on a request: the holder of the lock stays inside its window. -/
def InWindow (ch : Channel CountCtrl) (i : Nat) (sync : SubscriptionSync) : Prop :=
  (ch.sub i).status = .running → ch.lockedSub = some i → InGranted ch i sync.hwptr

instance (ch : Channel CountCtrl) (i : Nat) (sync : SubscriptionSync) : Decidable (InWindow ch i sync) :=
  inferInstanceAs (Decidable (_ → _ → _))

/-- What the checks of the driver are to ensure of a request of `i` that turns `ch` into `ch'`: only the holder
of the lock moves `swptr`, inside its window, by no more headers than it was granted, and never past `hwptr`. -/
structure Checked (ch ch' : Channel CountCtrl) (i : Nat) : Prop where
  holder : ch'.swptr ≠ ch.swptr → ch.lockedSub = some i
  window : ch'.swptr ≠ ch.swptr → InGranted ch i ch'.swptr
  count : ch'.ctrl.published ≤ ch.ctrl.published + (grantedLen ch i).toNat
  hwptr : ch'.hwptr.toNat = ch'.ctrl.completed % (ch'.ptrmask.toNat + 1)
  room : ch'.ctrl.published ≤ ch'.ctrl.completed + ch'.ptrmask.toNat

/-- The condition on a step. -/
def InWindowAct (ch : Channel CountCtrl) : TxSyncAct → Prop
  | .sync i sync _ => InWindow ch i sync
  | _ => True

instance (ch : Channel CountCtrl) : ∀ a, Decidable (InWindowAct ch a)
  | .start .. => inferInstanceAs (Decidable True)
  | .stop .. => inferInstanceAs (Decidable True)
  | .sync i sync _ => inferInstanceAs (Decidable (InWindow ch i sync))

/-! ## The invariant -/

/-- The pointers of the channel and its controller are those of the counts. -/
structure Counted (k : Nat) (ch : Channel CountCtrl) : Prop where
  mask : IsMask ch.ptrmask k
  mhp : ch.ctrl.mhp = ch.ptrmask
  swptr : ch.swptr.toNat = ch.ctrl.published % 2 ^ k
  shp : ch.ctrl.shp = ch.swptr
  hhp : ch.ctrl.hhp.toNat = ch.ctrl.completed % 2 ^ k
  hwptr : ch.hwptr = ch.ctrl.hhp
  le : ch.ctrl.completed ≤ ch.ctrl.published
  lap : ch.ctrl.published < ch.ctrl.completed + 2 ^ k
  listed : Listed ch

/-- The window of `i` starts at `swptr` and ends less than one lap behind `hwptr`. -/
structure Window (k : Nat) (ch : Channel CountCtrl) (i len : Nat) : Prop where
  running : (ch.sub i).status = .running
  hwptr : (ch.sub i).hwptr = ch.swptr
  swptr : (ch.sub i).swptr.toNat = (ch.ctrl.published + len) % 2 ^ k
  lap : ch.ctrl.published + len < ch.ctrl.completed + 2 ^ k

structure Inv (k : Nat) (ch : Channel CountCtrl) : Prop extends Counted k ch where
  locked : ∀ i, ch.lockedSub = some i → ∃ len, Window k ch i len

variable {ch ch' : Channel CountCtrl} {i : Nat}

theorem Counted.room (hI : Counted k ch) : ch.ctrl.published ≤ ch.ctrl.completed + ch.ptrmask.toNat := by
  have := hI.lap
  rw [hI.mask.toNat_eq]
  omega

theorem Window.grantedLen {ch : Channel CountCtrl} {i len : Nat} (hI : Counted k ch) (hW : Window k ch i len) :
    (grantedLen ch i).toNat = len := by
  have hlap := hW.lap
  have hle := hI.le
  unfold TxSync.grantedLen
  rw [hW.hwptr, (at_of_mod hW.swptr).toNat_sub_and hI.mask (at_of_mod hI.swptr) (by omega) (by omega)]
  omega

theorem Window.congr {len : Nat} (hW : Window k ch i len) (hsub : ch'.sub i = ch.sub i) (hsw : ch'.swptr = ch.swptr)
    (hctrl : ch'.ctrl = ch.ctrl) : Window k ch' i len where
  running := by rw [hsub]; exact hW.running
  hwptr := by rw [hsub, hsw]; exact hW.hwptr
  swptr := by rw [hsub, hctrl]; exact hW.swptr
  lap := by rw [hctrl]; exact hW.lap

theorem Counted.getHwptr (hI : Counted k ch) (e : TxShown) : ∃ c hhp,
    countOps.getHwptr ch.ctrl e = ({ ch.ctrl with hhp, completed := c }, hhp) ∧ ch.ctrl.completed ≤ c ∧
      c ≤ ch.ctrl.published ∧ hhp.toNat = c % 2 ^ k := by
  have hle := hI.le
  have hlap := hI.lap
  have hdist : ((ch.ctrl.shp - ch.ctrl.hhp) &&& ch.ctrl.mhp).toNat = ch.ctrl.published - ch.ctrl.completed := by
    rw [hI.mhp, hI.shp]
    exact (at_of_mod hI.swptr).toNat_sub_and hI.mask (at_of_mod hI.hhp) hle (by omega)
  have hhhp : ((ch.ctrl.hhp + BitVec.ofNat 64 (min e.done ((ch.ctrl.shp - ch.ctrl.hhp) &&& ch.ctrl.mhp).toNat)) &&&
      ch.ctrl.mhp).toNat = (ch.ctrl.completed + min e.done ((ch.ctrl.shp - ch.ctrl.hhp) &&& ch.ctrl.mhp).toNat) % 2 ^ k := by
    rw [hI.mhp]
    exact (At.add hI.mask.le_width (at_of_mod hI.hhp) (at_ofNat hI.mask.le_width _)).toNat_and hI.mask
  exact ⟨_, _, rfl, Nat.le_add_right _ _, by rw [hdist]; omega, hhhp⟩

/-- A grant keeps the channel in order and moves no software pointer. -/
theorem Counted.grant (hI : Counted k ch) (e : TxShown) (sync : SubscriptionSync) (hr : (ch.sub i).status = .running) :
    Inv k (txsyncGrant countOps e ch i sync).1 ∧ (txsyncGrant countOps e ch i sync).1.swptr = ch.swptr ∧
      (txsyncGrant countOps e ch i sync).1.ctrl.published = ch.ctrl.published := by
  obtain ⟨c, hhp, hget, hle, hc, hhhp⟩ := hI.getHwptr e
  have hlap := hI.lap
  have hat : At k (countOps.getHwptr ch.ctrl e).2 c := by
    rw [hget]
    exact at_of_mod hhhp
  have hg : Granted countOps k e ch i ch.ctrl.published _ _ _ :=
    txsyncGrant_spec e ch i sync hI.mask (at_of_mod hI.swptr) hat hc (by omega) rfl
  have hsub : (txsyncGrant countOps e ch i sync).1.sub i =
      { ch.sub i with hwptr := ch.swptr, swptr := (txsyncGrant countOps e ch i sync).2.swptr } := by
    simp [txsyncGrant]
  have hctrl : (txsyncGrant countOps e ch i sync).1.ctrl = { ch.ctrl with hhp, completed := c } := by rw [hg.ctrl, hget]
  have hhw : (txsyncGrant countOps e ch i sync).1.hwptr = hhp := by rw [hg.chHwptr, hget]
  generalize txsyncGrant countOps e ch i sync = res at hg hsub hctrl hhw ⊢
  refine ⟨⟨⟨?_, ?_, ?_, ?_, ?_, ?_, ?_, ?_, hI.listed.congr hg.list hg.startCount hg.status⟩, fun j hj => ?_⟩, hg.chSwptr, ?_⟩
  · rw [hg.ptrmask]; exact hI.mask
  · rw [hctrl, hg.ptrmask]; exact hI.mhp
  · rw [hg.chSwptr, hctrl]; exact hI.swptr
  · rw [hctrl, hg.chSwptr]; exact hI.shp
  · rw [hctrl]; exact hhhp
  · rw [hctrl]; exact hhw
  · rw [hctrl]; exact hc
  · rw [hctrl]
    exact lt_of_lt_of_le hlap (Nat.add_le_add_right hle _)
  · rw [hg.locked] at hj
    split at hj
    · cases hj
    · obtain rfl := Option.some.inj hj
      refine ⟨_, by rw [hg.status]; exact hr, by rw [hsub, hg.chSwptr], by rw [hsub, hctrl]; exact hg.swptr, ?_⟩
      rw [hctrl]
      show ch.ctrl.published + _ < c + 2 ^ k
      omega
  · rw [hctrl]

theorem Counted.publish (hI : Counted k ch) {len : Nat} (hW : Window k ch i len) (e : TxShown) {x : U64} (hx : InGranted ch i x) :
    Counted k { ch with swptr := x, ctrl := countOps.setSwptr ch.ctrl e x } ∧
      (countOps.setSwptr ch.ctrl e x).published ≤ ch.ctrl.published + (grantedLen ch i).toNat := by
  have hlap := hW.lap
  have hle := hI.le
  have hlt : x.toNat < 2 ^ k := by
    have h1 := BitVec.le_def.1 hx.1
    have h2 := hI.mask.toNat_eq
    have h3 : 0 < 2 ^ k := by positivity
    omega
  -- the window counts the headers the pointer moves over
  have hcount : ((x - ch.ctrl.shp) &&& ch.ctrl.mhp).toNat ≤ len := by
    rw [hI.shp, hI.mhp, ← hW.hwptr, ← hW.grantedLen hI]
    exact BitVec.le_def.1 hx.2
  have hpos : x.toNat = (ch.ctrl.published + ((x - ch.ctrl.shp) &&& ch.ctrl.mhp).toNat) % 2 ^ k := by
    have hat : At k x (ch.ctrl.published + ((x - ch.swptr) &&& ch.ptrmask).toNat) := At.add_dist hI.mask (at_of_mod hI.swptr)
    rw [hI.shp, hI.mhp]
    exact hat.toNat_eq hlt
  refine ⟨⟨hI.mask, hI.mhp, hpos, rfl, hI.hhp, hI.hwptr, le_trans hle (Nat.le_add_right _ _), ?_,
    hI.listed.congr rfl rfl fun _ => rfl⟩, ?_⟩
  · exact lt_of_le_of_lt (Nat.add_le_add_left hcount _) hlap
  · rw [hW.grantedLen hI]
    exact Nat.add_le_add_left hcount _

/-! ## Steps -/

theorem Inv.checked_same (hI' : Inv k ch') (hsw : ch'.swptr = ch.swptr) (hpub : ch'.ctrl.published = ch.ctrl.published) :
    Checked ch ch' i where
  holder h := absurd hsw h
  window h := absurd hsw h
  count := by rw [hpub]; exact Nat.le_add_right _ _
  hwptr := by rw [hI'.hwptr, hI'.hhp, hI'.mask]
  room := hI'.room

/-- A request in its window keeps the channel in order, and is checked. -/
theorem Inv.sync {ch : Channel CountCtrl} (hI : Inv k ch) (i : Nat) (sync : SubscriptionSync) (e : TxShown)
    (hw : InWindow ch i sync) : Inv k (step ch (.sync i sync e)) ∧ Checked ch (step ch (.sync i sync e)) i := by
  unfold step ndpSubscriptionSync
  by_cases hr : (ch.sub i).status = .running
  · simp only [hr, ne_eq, not_true_eq_false, if_false]
    unfold ndpChannelTxsync
    by_cases hlock : ch.lockedSub = some i
    · obtain ⟨len, hW⟩ := hI.locked i hlock
      have hx := hw hr hlock
      rw [if_pos hlock]
      by_cases hmove : sync.hwptr ≠ ch.swptr
      · obtain ⟨hC, hcount⟩ := hI.publish hW e hx
        obtain ⟨hI', hsw, hpub⟩ := hC.grant e sync (i := i) hr
        simp only [if_pos hmove]
        refine ⟨hI', fun _ => hlock, fun _ => by rw [hsw]; exact hx, ?_, ?_, hI'.room⟩
        · rw [hpub]
          exact hcount
        · rw [hI'.hwptr, hI'.hhp, hI'.mask]
      · obtain ⟨hI', hsw, hpub⟩ := hI.toCounted.grant e sync (i := i) hr
        simp only [if_neg hmove]
        exact ⟨hI', hI'.checked_same hsw hpub⟩
    · rw [if_neg hlock]
      by_cases hfree : ch.lockedSub = none
      · obtain ⟨hI', hsw, hpub⟩ := hI.toCounted.grant e sync (i := i) hr
        rw [if_pos hfree]
        exact ⟨hI', hI'.checked_same hsw hpub⟩
      · -- another subscription has the lock
        rw [if_neg hfree]
        have hI' : Inv k { ch with
            sub := Function.update ch.sub i { ch.sub i with hwptr := ch.swptr, swptr := ch.swptr } } := by
          refine ⟨⟨hI.mask, hI.mhp, hI.swptr, hI.shp, hI.hhp, hI.hwptr, hI.le, hI.lap,
            hI.listed.congr rfl rfl fun j => ?_⟩, fun j hj => ?_⟩
          · by_cases hji : j = i
            · subst hji
              simp
            · simp [hji]
          · obtain ⟨len, hW⟩ := hI.locked j hj
            have hji : j ≠ i := fun h => hlock (h ▸ hj)
            exact ⟨len, hW.congr (Function.update_of_ne hji _ _) rfl rfl⟩
        exact ⟨hI', hI'.checked_same rfl rfl⟩
  · simp only [ne_eq, hr, not_false_eq_true, if_true]
    exact ⟨hI, hI.checked_same rfl rfl⟩

theorem Inv.inWindow_of_checked (hI : Inv k ch) {sync : SubscriptionSync} {e : TxShown} (hc : Checked ch (step ch (.sync i sync e)) i) :
    InWindow ch i sync := by
  intro hr hlock
  obtain ⟨len, hW⟩ := hI.locked i hlock
  by_cases hmove : sync.hwptr = ch.swptr
  · refine ⟨?_, ?_⟩
    · rw [hmove, BitVec.le_def, hI.swptr, hI.mask.toNat_eq]
      have := Nat.mod_lt ch.ctrl.published (show 0 < 2 ^ k by positivity)
      omega
    · rw [hmove, hW.hwptr, BitVec.sub_self, BitVec.zero_and]
      exact BitVec.le_def.2 (Nat.zero_le _)
  · have hsw : (step ch (.sync i sync e)).swptr = sync.hwptr := by
      unfold step ndpSubscriptionSync ndpChannelTxsync
      simp only [hr, ne_eq, not_true_eq_false, if_false, if_pos hlock, hmove, not_false_eq_true, if_true]
      rfl
    have := hc.window (by rw [hsw]; exact hmove)
    rwa [hsw] at this

theorem Inv.start (hI : Inv k ch) (i : Nat) (e : TxShown) : Inv k (step ch (.start i e)) := by
  obtain ⟨ctrl, err, -, hs, hctrl⟩ | ⟨ch₀, hch₀, hst, hs⟩ :=
    ndpSubscriptionStart_cases countOps .tx e ch i { size := 0, hwptr := 0, swptr := 0 }
  · have hsame : ctrl = ch.ctrl := by
      rcases hctrl with h | ⟨-, h, hret⟩
      · exact h
      · rw [h]
        simp only [countOps] at hret ⊢
        split at hret
        · rename_i hne
          rw [if_pos hne]
        · exact absurd rfl hret
    simp only [step, hs, hsame]
    exact hI
  · have hne : (ch.sub i).status ≠ .running := by rw [hst]; decide
    -- before `i` joins, the channel is in order, and somebody else holds the lock if anyone does
    have h₀ : Counted k ch₀ ∧ (∀ j, ch₀.lockedSub = some j → j ≠ i ∧ ∃ len, Window k ch₀ j len) ∧
        (ch₀.sub i).status ≠ .running := by
      rcases hch₀ with ⟨rfl, -⟩ | ⟨rfl, h0, hret⟩
      · refine ⟨hI.toCounted, fun j hj => ?_, hne⟩
        obtain ⟨len, hW⟩ := hI.locked j hj
        refine ⟨?_, len, hW⟩
        rintro rfl
        exact hne hW.running
      · have hzero : e.ret = 0 := by
          by_contra hne0
          simp only [countOps, ne_eq, hne0, not_false_eq_true, if_true] at hret
        have hlt := hI.mask.toNat_and_lt (BitVec.ofNat 64 e.start)
        have hpos : 0 < 2 ^ k := by positivity
        refine ⟨⟨hI.mask, ?_, ?_, ?_, ?_, ?_, ?_, ?_, hI.listed.congr rfl rfl fun _ => rfl⟩, fun j hj => ?_, hne⟩
        all_goals simp only [Channel.reset, countOps, hzero, ne_eq, not_true_eq_false, if_false, le_refl]
        · exact hI.mhp
        · rw [hI.mhp]
          exact (Nat.mod_eq_of_lt hlt).symm
        · rw [hI.mhp]
          exact (Nat.mod_eq_of_lt hlt).symm
        · exact Nat.lt_add_of_pos_right hpos
        · obtain ⟨len, hW⟩ := hI.locked j hj
          exact absurd hW.running (hI.listed.idle h0 j)
    obtain ⟨hC, hlocked, hn⟩ := h₀
    simp only [step, hs]
    refine ⟨⟨hC.mask, hC.mhp, hC.swptr, hC.shp, hC.hhp, hC.hwptr, hC.le, hC.lap, hC.listed.join hn⟩, fun j hj => ?_⟩
    obtain ⟨hji, len, hW⟩ := hlocked j hj
    exact ⟨len, hW.congr (Function.update_of_ne hji _ _) rfl rfl⟩

theorem Inv.stop (hI : Inv k ch) (i : Nat) (e₁ e₂ : TxShown) (force : Bool) : Inv k (step ch (.stop i e₁ e₂ force)) := by
  simp only [step]
  by_cases hr : (ch.sub i).status = .running
  · have hforce : ∀ c e, (countOps.stop c e true).2 ≠ eAgain := by
      intro c e
      simp [countOps, eAgain]
    obtain ⟨-, -, -, hs⟩ | ⟨ctrl, hctrl, hs⟩ := ndpSubscriptionStop_cases hforce e₁ e₂ ch i force hr
    · rw [hs]
      refine ⟨⟨hI.mask, hI.mhp, hI.swptr, hI.shp, hI.hhp, hI.hwptr, hI.le, hI.lap, hI.listed.congr rfl rfl fun _ => rfl⟩,
        fun j hj => ?_⟩
      obtain ⟨len, hW⟩ := hI.locked j (Channel.unlocked_eq_some.1 hj).1
      exact ⟨len, hW.congr rfl rfl rfl⟩
    · have hsame : ctrl = ch.ctrl := hctrl.keep (P := (· = ch.ctrl)) (fun _ _ _ h => h) rfl
      rw [hs, hsame]
      have hL : Listed { ch with lockedSub := ch.unlocked i } := hI.listed.congr rfl rfl fun _ => rfl
      refine ⟨⟨hI.mask, hI.mhp, hI.swptr, hI.shp, hI.hhp, hI.hwptr, hI.le, hI.lap, hL.leave hr⟩, fun j hj => ?_⟩
      obtain ⟨hj, hji⟩ := Channel.unlocked_eq_some.1 hj
      obtain ⟨len, hW⟩ := hI.locked j hj
      exact ⟨len, hW.congr (Function.update_of_ne hji _ _) rfl rfl⟩
  · rw [ndpSubscriptionStop_stopped countOps e₁ e₂ ch i force hr]
    exact hI

theorem inv_opened (hk : k ≤ 64) : Inv k (opened k) := by
  have hpos : 0 < 2 ^ k := by positivity
  refine ⟨⟨isMask_ofNat hk, rfl, (Nat.zero_mod _).symm, rfl, (Nat.zero_mod _).symm, rfl, le_refl _,
    Nat.lt_add_of_pos_right hpos, ?_⟩, ?_⟩
  · exact ⟨fun j => by simp [opened], List.nodup_nil, rfl⟩
  · rintro i ⟨⟩

theorem inv_run (hk : k ≤ 64) {l : List TxSyncAct} (hm : Meets step InWindowAct (opened k) l) : Inv k (run step (opened k) l) := by
  refine run_inv_of (I := Inv k) (fun ch a ha hI => ?_) l _ hm (inv_opened hk)
  cases a with
  | start i e => exact hI.start i e
  | stop i e₁ e₂ force => exact hI.stop i e₁ e₂ force
  | sync i sync e => exact (hI.sync i sync e ha).1

/-! ## What the driver checks -/

/-- In every state that requests inside their windows lead to, the channel is in bounds, and the next request
is checked exactly if it stays inside its window too: the driver itself does not look. -/
theorem txsync_checked_iff (hk : k ≤ 64) {l : List TxSyncAct} (hm : Meets step InWindowAct (opened k) l) :
    (run step (opened k) l).ctrl.published ≤ (run step (opened k) l).ctrl.completed + (run step (opened k) l).ptrmask.toNat ∧
      ∀ i sync e, Checked (run step (opened k) l) (step (run step (opened k) l) (.sync i sync e)) i ↔
        InWindow (run step (opened k) l) i sync := by
  have hI := inv_run hk hm
  refine ⟨hI.room, fun i sync e => ⟨hI.inWindow_of_checked, fun hw => (hI.sync i sync e hw).2⟩⟩

/-- A client of a ring of 1024 headers that starts, locks all of it and publishes five headers. -/
def fiveHeaders : List TxSyncAct :=
  [.start 0 { ret := 0, start := 0, done := 0 },
    .sync 0 { size := 0, hwptr := 0, swptr := 1023 } { ret := 0, start := 0, done := 0 },
    .sync 0 { size := 0, hwptr := 5, swptr := 4 } { ret := 0, start := 0, done := 0 }]

/-- After five headers are published, a request that gives the lock back is checked. -/
theorem fiveHeaders_checked : Meets step InWindowAct (opened 10) fiveHeaders ∧
    Checked (run step (opened 10) fiveHeaders)
      (step (run step (opened 10) fiveHeaders) (.sync 0 { size := 0, hwptr := 9, swptr := 9 } { ret := 0, start := 0, done := 3 })) 0 :=
  have hm : Meets step InWindowAct (opened 10) fiveHeaders := by decide +kernel
  ⟨hm, ((txsync_checked_iff (by decide) hm).2 0 _ _).2 (by decide +kernel)⟩

/-- The holder of the lock passes a pointer outside of the ring, and the channel takes it. -/
theorem txsync_unchecked : ¬ ∀ (l : List TxSyncAct) i sync e,
    Checked (run step (opened 10) l) (step (run step (opened 10) l) (.sync i sync e)) i := by
  intro h
  have hc := h fiveHeaders 0 { size := 0, hwptr := 5000, swptr := 5000 } { ret := 0, start := 0, done := 0 }
  have hw := hc.window (by decide +kernel)
  exact absurd hw (by decide +kernel)

end TxSync

end NdkSw.Ndp

/-
What one RX subscriber can do to the others. Each sync releases the ring up to the swptr that is the
farthest behind hwptr; a client passes any 64 bit value for its own. The pointers are compared by their
masked distance behind the channel's hwptr.
-/
import NdkSw.Ndp.RxV2
import NdkSw.Ndp.Subscribe

namespace NdkSw.Ndp

open Ring

variable {k i : Nat}

/-! ## The scan -/

section Scan

variable {C : Type}

/-- How far a pointer is behind the channel's `hwptr`. -/
def Channel.lock (ch : Channel C) (x : U64) : U64 := (ch.hwptr - x) &&& ch.ptrmask

theorem farthestSwptr_max (ch : Channel C) : ∀ (l : List Nat) (acc : U64 × U64), acc.1 ≤ (farthestSwptr ch acc l).1 ∧
    (∀ j ∈ l, ch.lock (ch.sub j).swptr ≤ (farthestSwptr ch acc l).1) ∧
    (farthestSwptr ch acc l = acc ∨ ∃ j ∈ l, farthestSwptr ch acc l = (ch.lock (ch.sub j).swptr, (ch.sub j).swptr))
  | [], acc => ⟨BitVec.le_refl _, by simp, Or.inl rfl⟩
  | j :: l, acc => by
    have hstep : farthestSwptr ch acc (j :: l) = farthestSwptr ch
        (if ch.lock (ch.sub j).swptr > acc.1 then (ch.lock (ch.sub j).swptr, (ch.sub j).swptr) else acc) l := rfl
    rw [hstep]
    by_cases hgt : ch.lock (ch.sub j).swptr > acc.1
    · rw [if_pos hgt]
      obtain ⟨hacc, hl, hres⟩ := farthestSwptr_max ch l (ch.lock (ch.sub j).swptr, (ch.sub j).swptr)
      refine ⟨BitVec.le_trans (BitVec.le_of_lt hgt) hacc, ?_, ?_⟩
      · rintro i hi
        rcases List.mem_cons.1 hi with rfl | hi
        · exact hacc
        · exact hl i hi
      · rcases hres with hres | ⟨i, hi, hres⟩
        · exact Or.inr ⟨j, List.mem_cons_self, hres⟩
        · exact Or.inr ⟨i, List.mem_cons_of_mem _ hi, hres⟩
    · rw [if_neg hgt]
      obtain ⟨hacc, hl, hres⟩ := farthestSwptr_max ch l acc
      refine ⟨hacc, ?_, ?_⟩
      · rintro i hi
        rcases List.mem_cons.1 hi with rfl | hi
        · exact BitVec.le_trans (BitVec.not_lt.1 hgt) hacc
        · exact hl i hi
      · rcases hres with hres | ⟨i, hi, hres⟩
        · exact Or.inl hres
        · exact Or.inr ⟨i, List.mem_cons_of_mem _ hi, hres⟩

/-- The pointer a sync of the listed `i` releases: that of a listed subscription, none of which is farther. -/
theorem farthestSwptr_listed (ch : Channel C) (hi : i ∈ ch.listSubscriptions) :
    ∃ j ∈ ch.listSubscriptions, (farthestSwptr ch (0, (ch.sub i).swptr) ch.listSubscriptions).2 = (ch.sub j).swptr ∧
      ∀ j' ∈ ch.listSubscriptions, ch.lock (ch.sub j').swptr ≤ ch.lock (ch.sub j).swptr := by
  obtain ⟨-, hmax, hres⟩ := farthestSwptr_max ch ch.listSubscriptions (0, (ch.sub i).swptr)
  rcases hres with hres | ⟨j, hj, hres⟩
  · rw [hres] at hmax ⊢
    exact ⟨i, hi, rfl, fun j' hj' => BitVec.le_trans (hmax j' hj') (BitVec.le_def.2 (Nat.zero_le _))⟩
  · rw [hres] at hmax ⊢
    exact ⟨j, hj, rfl, hmax⟩

end Scan

/-! ## The channel -/

inductive RxSyncAct
  | start (i : Nat) (ret : Int)
  | stop (i : Nat) (ret₁ ret₂ : Int) (force : Bool)
  | receive (hdr : V2PacketHdr)
  | sync (i : Nat) (sync : SubscriptionSync)

namespace RxSync

/-- An RX channel with a ring of `2 ^ k` headers. -/
def opened (k : Nat) : Channel RxHdrCtrl where
  lockedSub := none
  hwptr := 0
  swptr := 0
  ptrmask := BitVec.ofNat 64 (2 ^ k - 1)
  startCount := 0
  listSubscriptions := []
  sub _ := { status := .subscribed, hwptr := 0, swptr := 0 }
  ctrl := { mhp := BitVec.ofNat 64 (2 ^ k - 1), swptr := 0, log := [] }

/-- The hardware receives a packet, unless the controller is stopped or one more packet would fill the
ring up to the pointer it was given. -/
def receive (ch : Channel RxHdrCtrl) (hdr : V2PacketHdr) : Channel RxHdrCtrl :=
  let c := ch.ctrl
  if ch.startCount = 0 ∨ (BitVec.ofNat 64 c.log.length - c.swptr) &&& c.mhp = c.mhp then ch
  else { ch with ctrl := { c with log := c.log ++ [hdr] } }

def step (ch : Channel RxHdrCtrl) : RxSyncAct → Channel RxHdrCtrl
  | .start i ret => (ndpSubscriptionStart rxHdrOps .rx ret ch i { size := 0, hwptr := 0, swptr := 0 }).1
  | .stop i ret₁ ret₂ force => (ndpSubscriptionStop rxHdrOps ret₁ ret₂ ch i force).1
  | .receive hdr => receive ch hdr
  | .sync i sync => (ndpSubscriptionSync rxHdrOps .rx 0 ch i sync).1

/-- The pointer `y` the ring of `ch` is released up to does not pass a running subscription other than `i`. -/
def NotPast (ch : Channel RxHdrCtrl) (i : Nat) (y : U64) : Prop :=
  ∀ j, j ≠ i → (ch.sub j).status = .running → (y - ch.swptr) &&& ch.ptrmask ≤ ((ch.sub j).swptr - ch.swptr) &&& ch.ptrmask

/-- A sync of `i` that turns `ch` into `ch'` releases nothing that another subscription holds. -/
structure Isolated (ch ch' : Channel RxHdrCtrl) (i : Nat) : Prop where
  channel : NotPast ch i ch'.swptr
  ctrl : NotPast ch i ch'.ctrl.swptr

/-- The condition on a request of `i` beside other subscriptions: its pointer is not farther behind `hwptr`
than what is released already. -/
def Behind (ch : Channel RxHdrCtrl) (i : Nat) (sync : SubscriptionSync) : Prop :=
  i ∈ ch.listSubscriptions → ∀ j ∈ ch.listSubscriptions, j ≠ i → ch.lock sync.swptr ≤ ch.lock ch.swptr

instance (ch : Channel RxHdrCtrl) (i : Nat) (sync : SubscriptionSync) : Decidable (Behind ch i sync) :=
  inferInstanceAs (Decidable (_ → _))

def BehindAct (ch : Channel RxHdrCtrl) : RxSyncAct → Prop
  | .sync i sync => Behind ch i sync
  | _ => True

instance (ch : Channel RxHdrCtrl) : ∀ a, Decidable (BehindAct ch a)
  | .start .. => inferInstanceAs (Decidable True)
  | .stop .. => inferInstanceAs (Decidable True)
  | .receive .. => inferInstanceAs (Decidable True)
  | .sync i sync => inferInstanceAs (Decidable (Behind ch i sync))

/-! ## The invariant -/

/-- Released up to `p`, seen up to `h`, received up to `n`, less than one lap apart; every running subscription
stands between `p` and `h`. -/
structure Spread (k p h n : Nat) (ch : Channel RxHdrCtrl) : Prop where
  mask : IsMask ch.ptrmask k
  mhp : ch.ctrl.mhp = ch.ptrmask
  swptr : At k ch.swptr p
  ctrl : ch.ctrl.swptr = ch.swptr
  hwptr : At k ch.hwptr h
  log : At k (BitVec.ofNat 64 ch.ctrl.log.length) n
  ple : p ≤ h
  hle : h ≤ n
  lap : n < p + 2 ^ k
  listed : Listed ch
  sub : ∀ j, (ch.sub j).status = .running → ∃ r, At k (ch.sub j).swptr r ∧ p ≤ r ∧ r ≤ h

def Inv (k : Nat) (ch : Channel RxHdrCtrl) : Prop := ∃ p h n, Spread k p h n ch

variable {ch : Channel RxHdrCtrl} {x : U64}

theorem Spread.lock {p h n : Nat} (hS : Spread k p h n ch) {r : Nat} (hx : At k x r) (hp : p ≤ r) (hh : r ≤ h) :
    (ch.lock x).toNat = h - r := by
  have hlap := hS.lap
  have hle := hS.hle
  exact hS.hwptr.toNat_sub_and hS.mask hx hh (by omega)

theorem Spread.at_sub_lock {p h n h' : Nat} (hS : Spread k p h n ch) (x : U64) (hh : At k ch.hwptr h') (hle : (ch.lock x).toNat ≤ h') :
    At k x (h' - (ch.lock x).toNat) :=
  hh.sub_dist hS.mask hle

/-- A pointer not farther than what is released stands between that and `hwptr`. -/
theorem Spread.at_of_lock {p h n : Nat} (hS : Spread k p h n ch) (hx : ch.lock x ≤ ch.lock ch.swptr) :
    At k x (h - (ch.lock x).toNat) ∧ p ≤ h - (ch.lock x).toNat := by
  have hle : (ch.lock x).toNat ≤ h - p := by
    rw [← hS.lock hS.swptr le_rfl hS.ple]
    exact BitVec.le_def.1 hx
  have hple := hS.ple
  exact ⟨hS.at_sub_lock x hS.hwptr (by omega), by omega⟩

theorem Spread.past {p h n : Nat} (hS : Spread k p h n ch) {r : Nat} (hx : At k x r) (hp : p ≤ r) (hh : r ≤ h) :
    ((x - ch.swptr) &&& ch.ptrmask).toNat = r - p := by
  have hlap := hS.lap
  have hle := hS.hle
  exact hx.toNat_sub_and hS.mask hS.swptr hp (by omega)

/-! ## One sync -/

/-- The pointer that a sync of `i` with `swptr` releases up to. -/
def released (ch : Channel RxHdrCtrl) (i : Nat) (swptr : U64) : U64 :=
  (farthestSwptr { ch with sub := Function.update ch.sub i { ch.sub i with swptr } } (0, swptr) ch.listSubscriptions).2

theorem released_cases (ch : Channel RxHdrCtrl) (hi : i ∈ ch.listSubscriptions) (x : U64) :
    (∀ j ∈ ch.listSubscriptions, j ≠ i → ch.lock (ch.sub j).swptr ≤ ch.lock (released ch i x)) ∧
      ch.lock x ≤ ch.lock (released ch i x) ∧
      (released ch i x = x ∨ ∃ j ∈ ch.listSubscriptions, j ≠ i ∧ released ch i x = (ch.sub j).swptr) := by
  obtain ⟨j, hj, hres, hmax⟩ := farthestSwptr_listed
    { ch with sub := Function.update ch.sub i { ch.sub i with swptr := x } } hi
  simp only [Function.update_self] at hres
  have hother : ∀ j', j' ≠ i → Function.update ch.sub i { ch.sub i with swptr := x } j' = ch.sub j' :=
    fun j' h => Function.update_of_ne h _ _
  have hrel : released ch i x = (Function.update ch.sub i { ch.sub i with swptr := x } j).swptr := hres
  rw [hrel]
  refine ⟨fun j' hj' hne => ?_, ?_, ?_⟩
  · have hle := hmax j' hj'
    simp only [hother j' hne] at hle
    exact hle
  · have hle := hmax i hi
    simp only [Function.update_self] at hle
    exact hle
  · by_cases hji : j = i
    · subst hji
      exact Or.inl (by rw [Function.update_self])
    · exact Or.inr ⟨j, hj, hji, by rw [hother j hji]⟩

theorem sync_running (hctrl : ch.ctrl.swptr = ch.swptr) (hr : (ch.sub i).status = .running) (sync : SubscriptionSync) :
    step ch (.sync i sync) =
      { ch with
        swptr := released ch i sync.swptr
        ctrl := { ch.ctrl with swptr := released ch i sync.swptr }
        hwptr := BitVec.ofNat 64 ch.ctrl.log.length &&& ch.ctrl.mhp
        sub := Function.update ch.sub i
          { status := .running, hwptr := BitVec.ofNat 64 ch.ctrl.log.length &&& ch.ctrl.mhp, swptr := sync.swptr } } := by
  simp only [step, ndpSubscriptionSync, hr, ne_eq, not_true_eq_false, if_false, ndpChannelRxsync, Function.update_self]
  have hrel : (farthestSwptr { ch with sub := Function.update ch.sub i { ch.sub i with swptr := sync.swptr } } (0, sync.swptr)
      ch.listSubscriptions).2 = released ch i sync.swptr := rfl
  simp only [hr] at hrel
  rw [hrel]
  by_cases hmove : released ch i sync.swptr = ch.swptr
  · simp only [hmove, not_true_eq_false, if_false, rxHdrOps, Function.update_self, Function.update_idem]
    rw [← hctrl]
  · simp only [hmove, not_false_eq_true, if_true, rxHdrOps, Function.update_self, Function.update_idem]

theorem sync_stopped (hr : (ch.sub i).status ≠ .running) (sync : SubscriptionSync) : step ch (.sync i sync) = ch := by
  simp only [step, ndpSubscriptionSync, ne_eq, hr, not_false_eq_true, if_true]

theorem Spread.released_le {p h n : Nat} (hS : Spread k p h n ch) (hi : i ∈ ch.listSubscriptions) (hx : ch.lock x ≤ ch.lock ch.swptr) :
    ch.lock (released ch i x) ≤ ch.lock ch.swptr := by
  obtain ⟨-, -, hrel | ⟨j, hj, -, hrel⟩⟩ := released_cases ch hi x
  · rw [hrel]
    exact hx
  · obtain ⟨r, hat, hpr, hrh⟩ := hS.sub j ((hS.listed.list j).1 hj)
    rw [hrel, BitVec.le_def, hS.lock hat hpr hrh, hS.lock hS.swptr le_rfl hS.ple]
    omega

theorem Inv.sync {ch : Channel RxHdrCtrl} (hI : Inv k ch) (i : Nat) (sync : SubscriptionSync) (hb : Behind ch i sync) :
    Inv k (step ch (.sync i sync)) := by
  obtain ⟨p, h, n, hS⟩ := hI
  by_cases hr : (ch.sub i).status = .running
  · have hi := (hS.listed.list i).2 hr
    obtain ⟨hothers, hown, hrel⟩ := released_cases ch hi sync.swptr
    have hlisted : Listed (step ch (.sync i sync)) := by
      rw [sync_running hS.ctrl hr]
      refine hS.listed.congr rfl rfl fun j => ?_
      by_cases hji : j = i
      · subst hji
        simp [hr]
      · simp [hji]
    rw [sync_running hS.ctrl hr] at hlisted ⊢
    by_cases hother : ∃ j ∈ ch.listSubscriptions, j ≠ i
    · obtain ⟨j, hj, hji⟩ := hother
      have hx := hb hi j hj hji
      obtain ⟨hat, hpp⟩ := hS.at_of_lock (hS.released_le hi hx)
      have hlap := hS.lap
      have hle := hS.hle
      refine ⟨h - (ch.lock (released ch i sync.swptr)).toNat, n, n, hS.mask, hS.mhp, hat, rfl, ?_, hS.log, by omega, le_rfl,
        by omega, hlisted, fun j' hj' => ?_⟩
      · rw [hS.mhp]
        exact hS.log.and hS.mask
      · by_cases hji' : j' = i
        · subst hji'
          obtain ⟨hatx, -⟩ := hS.at_of_lock hx
          have := BitVec.le_def.1 hown
          exact ⟨_, by simpa using hatx, by omega, by omega⟩
        · simp only [ne_eq, hji', not_false_eq_true, Function.update_of_ne] at hj' ⊢
          obtain ⟨r, hatr, hpr, hrh⟩ := hS.sub j' hj'
          have := BitVec.le_def.1 (hothers j' ((hS.listed.list j').2 hj') hji')
          rw [hS.lock hatr hpr hrh] at this
          exact ⟨r, hatr, by omega, by omega⟩
    · -- alone on the channel, the subscription may put its pointer anywhere
      have hrel : released ch i sync.swptr = sync.swptr := by
        rcases hrel with hrel | ⟨j, hj, hji, -⟩
        · exact hrel
        · exact absurd ⟨j, hj, hji⟩ hother
      have hpos : 0 < 2 ^ k := by positivity
      have hlt := hS.mask.toNat_and_lt (BitVec.ofNat 64 ch.ctrl.log.length - sync.swptr)
      have hn : At k (BitVec.ofNat 64 ch.ctrl.log.length) (n + 2 ^ k) := hS.log.congr (by simp [Nat.ModEq])
      have hat : At k sync.swptr (n + 2 ^ k - ((BitVec.ofNat 64 ch.ctrl.log.length - sync.swptr) &&& ch.ptrmask).toNat) :=
        hn.sub_dist hS.mask (by omega)
      refine ⟨_, n + 2 ^ k, n + 2 ^ k, hS.mask, hS.mhp, by rw [hrel]; exact hat, rfl, ?_, hn, by omega, le_rfl, by omega, hlisted,
        fun j' hj' => ?_⟩
      · rw [hS.mhp]
        exact hn.and hS.mask
      · by_cases hji' : j' = i
        · subst hji'
          exact ⟨_, by simpa using hat, le_rfl, by omega⟩
        · simp only [ne_eq, hji', not_false_eq_true, Function.update_of_ne] at hj'
          exact absurd ⟨j', (hS.listed.list j').2 hj', hji'⟩ hother
  · rw [sync_stopped hr]
    exact ⟨p, h, n, hS⟩

/-- The subscriptions are isolated from a request exactly if it is in order. -/
theorem Inv.isolated_iff (hI : Inv k ch) (i : Nat) (sync : SubscriptionSync) :
    Isolated ch (step ch (.sync i sync)) i ↔ Behind ch i sync := by
  obtain ⟨p, h, n, hS⟩ := hI
  have hple := hS.ple
  have hhle := hS.hle
  have hlap := hS.lap
  by_cases hr : (ch.sub i).status = .running
  · have hi := (hS.listed.list i).2 hr
    obtain ⟨hothers, hown, hrel⟩ := released_cases ch hi sync.swptr
    rw [sync_running hS.ctrl hr]
    constructor
    · intro hiso _ j hj hji
      have hrj := (hS.listed.list j).1 hj
      obtain ⟨r, hatr, hpr, hrh⟩ := hS.sub j hrj
      by_contra hlt
      rw [BitVec.not_le] at hlt
      -- all others are less far than the request, so it is what gets released
      have hx : released ch i sync.swptr = sync.swptr := by
        rcases hrel with hrel | ⟨j', hj', -, hrel⟩
        · exact hrel
        · obtain ⟨r', hatr', hpr', hrh'⟩ := hS.sub j' ((hS.listed.list j').1 hj')
          have h1 := BitVec.le_def.1 hown
          have h2 := BitVec.lt_def.1 hlt
          rw [hrel, hS.lock hatr' hpr' hrh'] at h1
          rw [hS.lock hS.swptr le_rfl hple] at h2
          omega
      have hpast := BitVec.le_def.1 (hiso.channel j hji hrj)
      have hd := BitVec.lt_def.1 hlt
      rw [hS.lock hS.swptr le_rfl hple] at hd
      have hdlt := hS.mask.toNat_and_lt (ch.hwptr - sync.swptr)
      have hdlt' : (ch.lock sync.swptr).toNat < 2 ^ k := hdlt
      have hat := hS.at_sub_lock sync.swptr (show At k ch.hwptr (h + 2 ^ k) from hS.hwptr.congr (by simp [Nat.ModEq])) (by omega)
      have hx' : ((released ch i sync.swptr - ch.swptr) &&& ch.ptrmask).toNat = h + 2 ^ k - (ch.lock sync.swptr).toNat - p := by
        rw [hx]
        exact hat.toNat_sub_and hS.mask hS.swptr (by omega) (by omega)
      rw [hS.past hatr hpr hrh] at hpast
      have hpast' : ((released ch i sync.swptr - ch.swptr) &&& ch.ptrmask).toNat ≤ r - p := hpast
      omega
    · intro hb
      have hnot : NotPast ch i (released ch i sync.swptr) := by
        intro j hji hrj
        have hj := (hS.listed.list j).2 hrj
        obtain ⟨r, hatr, hpr, hrh⟩ := hS.sub j hrj
        obtain ⟨hat, hpp⟩ := hS.at_of_lock (hS.released_le hi (hb hi j hj hji))
        have hle := BitVec.le_def.1 (hothers j hj hji)
        rw [hS.lock hatr hpr hrh] at hle
        rw [BitVec.le_def, hS.past hat hpp (by omega), hS.past hatr hpr hrh]
        omega
      exact ⟨hnot, hnot⟩
  · rw [sync_stopped hr]
    have hnot : NotPast ch i ch.swptr := by
      intro j _ _
      rw [BitVec.sub_self, BitVec.zero_and]
      exact BitVec.le_def.2 (Nat.zero_le _)
    constructor
    · intro _ hi
      exact absurd ((hS.listed.list i).1 hi) hr
    · intro _
      exact ⟨hnot, by rw [hS.ctrl]; exact hnot⟩

/-! ## The other steps -/

theorem Inv.receive (hI : Inv k ch) (hdr : V2PacketHdr) : Inv k (step ch (.receive hdr)) := by
  obtain ⟨p, h, n, hS⟩ := hI
  simp only [step, RxSync.receive]
  split
  · exact ⟨p, h, n, hS⟩
  · rename_i hguard
    push Not at hguard
    have hlap := hS.lap
    have hple := hS.ple
    have hhle := hS.hle
    -- the ring is not full
    have hroom : n + 1 < p + 2 ^ k := by
      have hd : ((BitVec.ofNat 64 ch.ctrl.log.length - ch.ctrl.swptr) &&& ch.ctrl.mhp).toNat = n - p := by
        rw [hS.ctrl, hS.mhp]
        exact hS.log.toNat_sub_and hS.mask hS.swptr (by omega) (by omega)
      have hne : n - p ≠ 2 ^ k - 1 := by
        rw [← hd, ← hS.mask.toNat_eq, ← hS.mhp]
        exact fun heq => hguard.2 (BitVec.eq_of_toNat_eq heq)
      omega
    refine ⟨p, h, n + 1, hS.mask, hS.mhp, hS.swptr, hS.ctrl, hS.hwptr, ?_, hple, by omega, by omega,
      hS.listed.congr rfl rfl fun _ => rfl, hS.sub⟩
    have hlen : BitVec.ofNat 64 (ch.ctrl.log ++ [hdr]).length = BitVec.ofNat 64 ch.ctrl.log.length + 1 := by
      rw [List.length_append, List.length_singleton, BitVec.ofNat_add]
      rfl
    simp only [hlen]
    exact At.add hS.mask.le_width hS.log (Nat.ModEq.refl _)

theorem Spread.join {p h n : Nat} (hS : Spread k p h n ch) (hi : (ch.sub i).status ≠ .running) : Spread k p h n (ch.join i) := by
  refine ⟨hS.mask, hS.mhp, hS.swptr, hS.ctrl, hS.hwptr, hS.log, hS.ple, hS.hle, hS.lap, hS.listed.join hi, fun j hj => ?_⟩
  by_cases hji : j = i
  · subst hji
    refine ⟨h, ?_, hS.ple, le_rfl⟩
    simpa [Channel.join] using hS.hwptr
  · have hsub : (ch.join i).sub j = ch.sub j := Function.update_of_ne hji _ _
    rw [hsub] at hj ⊢
    exact hS.sub j hj

theorem Inv.start (hI : Inv k ch) (i : Nat) (ret : Int) : Inv k (step ch (.start i ret)) := by
  obtain ⟨p, h, n, hS⟩ := hI
  obtain ⟨ctrl, err, -, hs, hctrl⟩ | ⟨ch₀, hch₀, hst, hs⟩ :=
    ndpSubscriptionStart_cases rxHdrOps .rx ret ch i { size := 0, hwptr := 0, swptr := 0 }
  · have hsame : ctrl = ch.ctrl := by
      rcases hctrl with h | ⟨-, h, hret⟩
      · exact h
      · rw [h]
        simp only [rxHdrOps] at hret ⊢
        split at hret
        · rename_i hne
          rw [if_pos hne]
        · exact absurd rfl hret
    simp only [step, hs, hsame]
    exact ⟨p, h, n, hS⟩
  · have hne : (ch.sub i).status ≠ .running := by rw [hst]; decide
    simp only [step, hs]
    rcases hch₀ with ⟨rfl, -⟩ | ⟨rfl, h0, hret⟩
    · exact ⟨p, h, n, hS.join hne⟩
    · have hzero : ret = 0 := by
        by_contra hne0
        simp only [rxHdrOps, ne_eq, hne0, not_false_eq_true, if_true] at hret
      have hreset : Spread k 0 0 0 (ch.reset (rxHdrOps.start ch.ctrl ret).1 (rxHdrOps.start ch.ctrl ret).2.2) := by
        have h0' : At k (0 : U64) 0 := Nat.ModEq.refl _
        simp only [rxHdrOps, hzero, ne_eq, not_true_eq_false, if_false]
        refine ⟨hS.mask, hS.mhp, h0', rfl, h0', h0', le_rfl, le_rfl, by simp, hS.listed.congr rfl rfl fun _ => rfl, fun j hj => ?_⟩
        exact absurd hj (hS.listed.idle h0 j)
      exact ⟨0, 0, 0, hreset.join hne⟩

theorem Inv.stop (hI : Inv k ch) (i : Nat) (ret₁ ret₂ : Int) (force : Bool) : Inv k (step ch (.stop i ret₁ ret₂ force)) := by
  obtain ⟨p, h, n, hS⟩ := hI
  simp only [step]
  by_cases hr : (ch.sub i).status = .running
  · have hforce : ∀ c e, (rxHdrOps.stop c e true).2 ≠ eAgain := by
      intro c e
      simp [rxHdrOps, eAgain]
    obtain ⟨-, -, -, hs⟩ | ⟨ctrl, hctrl, hs⟩ := ndpSubscriptionStop_cases hforce ret₁ ret₂ ch i force hr
    · rw [hs]
      exact ⟨p, h, n, hS.mask, hS.mhp, hS.swptr, hS.ctrl, hS.hwptr, hS.log, hS.ple, hS.hle, hS.lap,
        hS.listed.congr rfl rfl fun _ => rfl, hS.sub⟩
    · have hsame : ctrl = ch.ctrl := hctrl.keep (P := (· = ch.ctrl)) (fun _ _ _ h => h) rfl
      rw [hs, hsame]
      have hL : Listed { ch with lockedSub := ch.unlocked i } := hS.listed.congr rfl rfl fun _ => rfl
      refine ⟨p, h, n, hS.mask, hS.mhp, hS.swptr, hS.ctrl, hS.hwptr, hS.log, hS.ple, hS.hle, hS.lap, hL.leave hr, fun j hj => ?_⟩
      have hji : j ≠ i := by
        rintro rfl
        rw [leave_status, if_pos rfl] at hj
        cases hj
      have hsub : (Channel.leave { ch with lockedSub := ch.unlocked i } i).sub j = ch.sub j := Function.update_of_ne hji _ _
      simp only [hsub] at hj ⊢
      exact hS.sub j hj
  · rw [ndpSubscriptionStop_stopped rxHdrOps ret₁ ret₂ ch i force hr]
    exact ⟨p, h, n, hS⟩

theorem inv_opened (hk : k ≤ 64) : Inv k (opened k) := by
  have h0 : At k (0 : U64) 0 := Nat.ModEq.refl _
  have hpos : 0 < 2 ^ k := by positivity
  refine ⟨0, 0, 0, isMask_ofNat hk, rfl, h0, rfl, h0, h0, le_rfl, le_rfl, by omega, ?_, ?_⟩
  · exact ⟨fun j => by simp [opened], List.nodup_nil, rfl⟩
  · rintro j ⟨⟩

theorem inv_run (hk : k ≤ 64) {l : List RxSyncAct} (hm : Meets step BehindAct (opened k) l) : Inv k (run step (opened k) l) := by
  refine run_inv_of (I := Inv k) (fun ch a ha hI => ?_) l _ hm (inv_opened hk)
  cases a with
  | start i ret => exact hI.start i ret
  | stop i ret₁ ret₂ force => exact hI.stop i ret₁ ret₂ force
  | receive hdr => exact hI.receive hdr
  | sync i sync => exact hI.sync i sync ha

/-! ## Isolation -/

/-- In every state that requests in order lead to, the next request leaves the other subscriptions alone
exactly if it is in order too. -/
theorem rxsync_isolated_iff (hk : k ≤ 64) {l : List RxSyncAct} (hm : Meets step BehindAct (opened k) l) (i : Nat)
    (sync : SubscriptionSync) :
    Isolated (run step (opened k) l) (step (run step (opened k) l) (.sync i sync)) i ↔ Behind (run step (opened k) l) i sync :=
  (inv_run hk hm).isolated_iff i sync

/-- Two readers of a ring of 16 headers; the first one sees ten packets. -/
def tenPackets : List RxSyncAct :=
  [RxSyncAct.start 0 0, RxSyncAct.start 1 0] ++ List.replicate 10 (RxSyncAct.receive { packetSize := 64, headerSize := 0, flags := 0 }) ++
    [RxSyncAct.sync 0 { size := 0, hwptr := 0, swptr := 0 }]

/-- The first reader releases seven packets, and the second one keeps all of them. -/
theorem tenPackets_isolated : Meets step BehindAct (opened 4) tenPackets ∧
    Isolated (run step (opened 4) tenPackets)
      (step (run step (opened 4) tenPackets) (.sync 0 { size := 0, hwptr := 10, swptr := 7 })) 0 :=
  have hm : Meets step BehindAct (opened 4) tenPackets := by decide +kernel
  ⟨hm, (rxsync_isolated_iff (by decide) hm 0 _).2 (by decide +kernel)⟩

/-- The first reader passes a pointer one past `hwptr`, and all packets of the second one are released. -/
theorem rxsync_not_isolated : ¬ ∀ (l : List RxSyncAct) i sync,
    Isolated (run step (opened 4) l) (step (run step (opened 4) l) (.sync i sync)) i := by
  intro h
  have hiso := h tenPackets 0 { size := 0, hwptr := 10, swptr := 11 }
  have hpast := hiso.channel 1 (by decide) (by decide +kernel)
  exact absurd hpast (by decide +kernel)

end RxSync

end NdkSw.Ndp

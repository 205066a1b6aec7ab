/-
The flags of the controllers in `ctrl_ndp.c`: a channel without subscriptions is to be subscribed the
same way whatever was done with it before. A Calypte controller remembers in its own flags that it is
used from userspace until it is stopped.
-/
import NdkSw.Ndp.Book

namespace NdkSw.Ndp

/-! ## The controller -/

/-- `DMA_TYPE_*`. -/
inductive DmaType
  | medusa
  | calypte
  deriving DecidableEq, Repr

/-- The parts of `struct ndp_ctrl` that decide about its flags. -/
structure FlagCtrl where
  type : DmaType
  flags : U32

/-- What the hardware shows to a call: the result of a start or a stop, and its pointer. -/
structure FlagShown where
  ret : Int
  hwptr : U64

/-- `ndp_ctrl_get_flags`. -/
def ndpCtrlGetFlags (c : FlagCtrl) : U64 :=
  let ret : U64 := 0
  let ret := if c.type = .medusa then (ret ||| flagUseHeader.setWidth 64) ||| flagUseOffset.setWidth 64 else ret
  ret ||| c.flags.setWidth 64

/-- `ndp_ctrl_set_flags`. -/
def ndpCtrlSetFlags (c : FlagCtrl) (flags : U64) : FlagCtrl × U64 :=
  let ret := ndpCtrlGetFlags c
  if c.type = .calypte then
    if flags &&& flagUserspace.setWidth 64 ≠ 0 then
      ({ c with flags := c.flags ||| flagUserspace }, ret ||| flagUserspace.setWidth 64)
    else ({ c with flags := c.flags &&& ~~~flagUserspace }, ret)
  else (c, ret)

def ctrlFlags : FlagOps FlagCtrl where
  getFlags := ndpCtrlGetFlags
  setFlags := ndpCtrlSetFlags

/-- The other calls, as far as the flags go: only a stop that is not refused changes them. -/
def flagCtrlOps : ChannelOps FlagCtrl FlagShown where
  start c e := (c, e.ret, 0)
  stop c e force :=
    if e.ret = eAgain ∧ ¬ force then (c, eAgain) else ({ c with flags := c.flags &&& ~~~flagUserspace }, 0)
  getHwptr c e := (c, e.hwptr)
  setSwptr c _ _ := c
  getFreeSpace := none

namespace Flags

/-- A channel with a controller of the given type, as it is created. -/
def opened (type : DmaType) (ptrmask : U64) : SubChannel (Recorded FlagCtrl) := Book.opened ptrmask { type, flags := 0 }

def step : ChannelType → SubChannel (Recorded FlagCtrl) → BookAct FlagShown → SubChannel (Recorded FlagCtrl) :=
  Book.step flagCtrlOps ctrlFlags

def subscribe (b : SubChannel (Recorded FlagCtrl)) (flags : U32) : SubChannel (Recorded FlagCtrl) × U32 × Int :=
  ndpChannelSubscribe (recordFlags ctrlFlags) b flags

/-- Subscribing a channel without subscriptions goes as it does on the new channel `b₀`, and changes no flag if
it fails. -/
structure Memoryless (b₀ b : SubChannel (Recorded FlagCtrl)) (flags : U32) : Prop where
  ret : (subscribe b flags).2.2 = (subscribe b₀ flags).2.2
  channel : (subscribe b flags).2.2 = 0 → (subscribe b flags).1.flags = (subscribe b₀ flags).1.flags
  ctrl : (subscribe b flags).2.2 = 0 → (subscribe b flags).1.ch.ctrl.ctrl.flags = (subscribe b₀ flags).1.ch.ctrl.ctrl.flags
  failed : (subscribe b flags).2.2 ≠ 0 → (subscribe b flags).1.flags = b.flags ∧
    (subscribe b flags).1.ch.ctrl.ctrl.flags = b.ch.ctrl.ctrl.flags

/-- The condition: the controller already has the userspace flag as it is asked for, or exactly that flag is
asked for. -/
def Agree (b : SubChannel (Recorded FlagCtrl)) (flags : U32) : Prop :=
  b.ch.ctrl.ctrl.type = .calypte →
    (flags &&& flagUserspace ≠ 0 ↔ b.ch.ctrl.ctrl.flags &&& flagUserspace ≠ 0) ∨ flags &&& ~~~flagExclusive = flagUserspace

instance (b : SubChannel (Recorded FlagCtrl)) (flags : U32) : Decidable (Agree b flags) := inferInstanceAs (Decidable (_ → _))

/-! ## The flags a controller can have -/

/-- A Medusa controller has no flags of its own, a Calypte controller at most the one. -/
def Known (type : DmaType) (c : FlagCtrl) : Prop := c.type = type ∧ (c.flags = 0 ∨ type = .calypte ∧ c.flags = flagUserspace)

theorem known_keeps (type : DmaType) : Book.CtrlKeeps flagCtrlOps ctrlFlags (Known type) where
  start c e h := h
  stop c e f h := by
    obtain ⟨ht, hf⟩ := h
    simp only [flagCtrlOps]
    split
    · exact ⟨ht, hf⟩
    · refine ⟨ht, Or.inl ?_⟩
      rcases hf with hf | ⟨-, hf⟩
      · simp [hf]
      · simp [hf]
  getHwptr c e h := h
  setSwptr c e p h := h
  setFlags c f h := by
    obtain ⟨ht, hf⟩ := h
    simp only [ctrlFlags, ndpCtrlSetFlags]
    split
    · rename_i hc
      split
      · refine ⟨ht, Or.inr ⟨ht.symm.trans hc, ?_⟩⟩
        rcases hf with hf | ⟨-, hf⟩
        · simp [hf]
        · simp [hf]
      · refine ⟨ht, Or.inl ?_⟩
        rcases hf with hf | ⟨-, hf⟩
        · simp [hf]
        · simp [hf]
    · exact ⟨ht, hf⟩

theorem flagCtrlOps_stop_forced (c : FlagCtrl) (e : FlagShown) : (flagCtrlOps.stop c e true).2 ≠ eAgain := by
  simp [flagCtrlOps, eAgain]

theorem known_run (dir : ChannelType) (type : DmaType) (ptrmask : U64) (acts : List (BookAct FlagShown)) :
    Known type (Ring.run (step dir) (opened type ptrmask) acts).ch.ctrl.ctrl :=
  Ring.run_inv (I := fun b : SubChannel (Recorded FlagCtrl) => Known type b.ch.ctrl.ctrl)
    (Book.step_keeps flagCtrlOps ctrlFlags dir (known_keeps type) flagCtrlOps_stop_forced) acts _ ⟨rfl, Or.inl rfl⟩

/-! ## Subscribing -/

theorem setFlags_medusa {c : FlagCtrl} (hK : Known .medusa c) (flags : U64) : ndpCtrlSetFlags c flags = (c, 0xC) := by
  obtain ⟨ht, hf | ⟨hc, -⟩⟩ := hK
  · have hne : ¬ DmaType.medusa = DmaType.calypte := by decide
    simp only [ndpCtrlSetFlags, ndpCtrlGetFlags, ht, hf, if_neg hne, if_true]
    rfl
  · cases hc

theorem setFlags_calypte {c : FlagCtrl} (hK : Known .calypte c) (flags : U32) :
    ndpCtrlSetFlags c ((flags &&& ~~~flagExclusive).setWidth 64) =
      if flags &&& flagUserspace ≠ 0 then ({ c with flags := flagUserspace }, flagUserspace.setWidth 64)
      else ({ c with flags := 0 }, c.flags.setWidth 64) := by
  obtain ⟨ht, hf⟩ := hK
  have hbit : ((flags &&& ~~~flagExclusive).setWidth 64 &&& flagUserspace.setWidth 64 : U64) = 0 ↔ flags &&& flagUserspace = 0 := by
    have hand : (~~~flagExclusive &&& flagUserspace : U32) = flagUserspace := by decide
    rw [← BitVec.setWidth_and, BitVec.and_assoc, hand, ← BitVec.toNat_inj, toNat_setWidth64, ← BitVec.toNat_inj]
    rfl
  have hne : ¬ DmaType.calypte = DmaType.medusa := by decide
  simp only [ndpCtrlSetFlags, ndpCtrlGetFlags, ht, if_neg hne, if_true, ne_eq, hbit]
  rcases hf with hf | ⟨-, hf⟩
  · simp [hf]
  · simp [hf]

variable {b b₀ : SubChannel (Recorded FlagCtrl)}

theorem subscribe_medusa (hK : Known .medusa b.ch.ctrl.ctrl) (h0 : b.subscriptionsCount = 0) (flags : U32) : subscribe b flags =
      if 0xC = flags &&& ~~~flagExclusive then ({ b with subscriptionsCount := 1, flags := flags &&& flagExclusive }, 0xC, 0)
      else (b, 0xC, ePerm) :=
  ndpChannelSubscribe_first (recordFlags ctrlFlags) h0 (recordFlags_setFlags (setFlags_medusa hK _))

/-- The channel whose controller has the flags `f`. -/
def withFlags (b : SubChannel (Recorded FlagCtrl)) (f : U32) : SubChannel (Recorded FlagCtrl) :=
  { b with ch := { b.ch with ctrl := { b.ch.ctrl with ctrl := { b.ch.ctrl.ctrl with flags := f } } } }

theorem subscribe_calypte (hK : Known .calypte b.ch.ctrl.ctrl) (h0 : b.subscriptionsCount = 0) (flags : U32) :
    ∃ f set, (flags &&& flagUserspace ≠ 0 ∧ f = flagUserspace ∧ set = flagUserspace ∨
        flags &&& flagUserspace = 0 ∧ f = 0 ∧ set = b.ch.ctrl.ctrl.flags) ∧
      subscribe b flags =
        if set = flags &&& ~~~flagExclusive then
          ({ withFlags b f with subscriptionsCount := 1, flags := flags &&& flagExclusive }, set, 0)
        else (withFlags b f, set, ePerm) := by
  have hset := setFlags_calypte hK flags
  by_cases hu : flags &&& flagUserspace ≠ 0
  · refine ⟨flagUserspace, flagUserspace, Or.inl ⟨hu, rfl, rfl⟩, ?_⟩
    rw [if_pos hu] at hset
    exact ndpChannelSubscribe_first (recordFlags ctrlFlags) h0 (recordFlags_setFlags hset)
  · refine ⟨0, b.ch.ctrl.ctrl.flags, Or.inr ⟨not_not.1 hu, rfl, rfl⟩, ?_⟩
    rw [if_neg hu] at hset
    have hw : (b.ch.ctrl.ctrl.flags.setWidth 64 : U64).setWidth 32 = b.ch.ctrl.ctrl.flags := by
      rw [BitVec.setWidth_setWidth_of_le _ (by decide), BitVec.setWidth_eq]
    have hres := ndpChannelSubscribe_first (recordFlags ctrlFlags) h0 (recordFlags_setFlags hset)
    rw [hw] at hres
    exact hres

theorem Memoryless.of_eq {flags : U32} {r r₀ : SubChannel (Recorded FlagCtrl) × U32 × Int} (hb : subscribe b flags = r)
    (hb₀ : subscribe b₀ flags = r₀) :
    Memoryless b₀ b flags ↔ r.2.2 = r₀.2.2 ∧ (r.2.2 = 0 → r.1.flags = r₀.1.flags) ∧
      (r.2.2 = 0 → r.1.ch.ctrl.ctrl.flags = r₀.1.ch.ctrl.ctrl.flags) ∧
      (r.2.2 ≠ 0 → r.1.flags = b.flags ∧ r.1.ch.ctrl.ctrl.flags = b.ch.ctrl.ctrl.flags) := by
  subst hb hb₀
  exact ⟨fun h => ⟨h.ret, h.channel, h.ctrl, h.failed⟩, fun h => ⟨h.1, h.2.1, h.2.2.1, h.2.2.2⟩⟩

theorem memoryless_medusa (hK₀ : Known .medusa b₀.ch.ctrl.ctrl) (hK : Known .medusa b.ch.ctrl.ctrl) (h0₀ : b₀.subscriptionsCount = 0)
    (h0 : b.subscriptionsCount = 0) (flags : U32) : Memoryless b₀ b flags := by
  have hflags : ∀ {c : FlagCtrl}, Known .medusa c → c.flags = 0 := by
    rintro c ⟨-, h | ⟨h, -⟩⟩
    · exact h
    · cases h
  rw [Memoryless.of_eq (subscribe_medusa hK h0 flags) (subscribe_medusa hK₀ h0₀ flags)]
  split
  · exact ⟨rfl, fun _ => rfl, fun _ => (hflags hK).trans (hflags hK₀).symm, fun h => absurd rfl h⟩
  · have hperm : ePerm ≠ 0 := by decide
    exact ⟨rfl, fun h => absurd h hperm, fun h => absurd h hperm, fun _ => ⟨rfl, rfl⟩⟩

theorem memoryless_calypte_iff (hK₀ : Known .calypte b₀.ch.ctrl.ctrl) (hf₀ : b₀.ch.ctrl.ctrl.flags = 0)
    (hK : Known .calypte b.ch.ctrl.ctrl) (h0₀ : b₀.subscriptionsCount = 0) (h0 : b.subscriptionsCount = 0) (flags : U32) :
    Memoryless b₀ b flags ↔ Agree b flags := by
  have hu0 : ¬ flagUserspace = 0#32 := by decide
  have hu0' : ¬ 0#32 = flagUserspace := by decide
  have hperm : ePerm ≠ 0 := by decide
  have hex : (flags &&& ~~~flagExclusive) &&& flagUserspace = flags &&& flagUserspace := by
    have hand : (~~~flagExclusive &&& flagUserspace : U32) = flagUserspace := by decide
    rw [BitVec.and_assoc, hand]
  have hcf : b.ch.ctrl.ctrl.flags &&& flagUserspace ≠ 0 ↔ b.ch.ctrl.ctrl.flags = flagUserspace := by
    rcases hK.2 with hf | ⟨-, hf⟩
    · simp [hf, hu0']
    · simp [hf, hu0]
  have hagree : Agree b flags ↔ (flags &&& flagUserspace ≠ 0 ↔ b.ch.ctrl.ctrl.flags = flagUserspace) ∨
      flags &&& ~~~flagExclusive = flagUserspace := by
    simp only [Agree, hK.1, forall_const, hcf]
  obtain ⟨f, set, hset, hres⟩ := subscribe_calypte hK h0 flags
  obtain ⟨f₀, set₀, hset₀, hres₀⟩ := subscribe_calypte hK₀ h0₀ flags
  rw [Memoryless.of_eq hres hres₀, hagree]
  rcases hset with ⟨hu, rfl, rfl⟩ | ⟨hu, rfl, rfl⟩
  · -- userspace is asked for: the controller reports it whatever it was
    obtain ⟨-, rfl, rfl⟩ | ⟨hu', -⟩ := hset₀
    · by_cases hr : flagUserspace = flags &&& ~~~flagExclusive
      · rw [if_pos hr, if_pos hr]
        simp [withFlags, ← hr]
      · rw [if_neg hr, if_neg hr]
        simp only [withFlags, hperm, true_and, false_implies, ne_eq, not_false_eq_true, forall_const, hu, true_iff]
        constructor
        · intro h
          exact Or.inl h.symm
        · rintro (h | h)
          · exact h.symm
          · exact absurd h.symm hr
    · exact absurd hu' hu
  · -- it is not: the controller reports what it was
    obtain ⟨hu', -⟩ | ⟨-, rfl, rfl⟩ := hset₀
    · exact absurd hu hu'
    · have hr : flags &&& ~~~flagExclusive ≠ flagUserspace := by
        intro h
        rw [← hex, h] at hu
        exact absurd hu (by decide)
      rw [hf₀]
      rcases hK.2 with hf | ⟨-, hf⟩
      · rw [hf]
        split
        · simp [withFlags, hu, hu0']
        · simp [withFlags, hperm, hu, hu0']
      · rw [hf, if_neg hr.symm]
        simp [withFlags, hperm, hr, hu, hu0']

/-! ## No memory -/

/-- After any calls, subscribing a channel without subscriptions goes as on a new one exactly if the flags agree. -/
theorem subscribe_memoryless_iff (dir : ChannelType) (type : DmaType) (ptrmask : U64) (acts : List (BookAct FlagShown))
    (h0 : (Ring.run (step dir) (opened type ptrmask) acts).subscriptionsCount = 0) (flags : U32) :
    Memoryless (opened type ptrmask) (Ring.run (step dir) (opened type ptrmask) acts) flags ↔
      Agree (Ring.run (step dir) (opened type ptrmask) acts) flags := by
  have hK := known_run dir type ptrmask acts
  have hK₀ := known_run dir type ptrmask []
  cases type with
  | medusa =>
    constructor
    · intro _ hc
      rw [hK.1] at hc
      cases hc
    · intro _
      exact memoryless_medusa hK₀ hK rfl h0 flags
  | calypte => exact memoryless_calypte_iff hK₀ rfl hK rfl h0 flags

/-- A subscription from userspace that is never started. -/
def neverStarted : List (BookAct FlagShown) :=
  [.create 0 { ring := true, alloc := true } (flagExclusive ||| flagUserspace),
    .destroy 0 { ret := 0, hwptr := 0 } { ret := 0, hwptr := 0 }]

/-- It can be made again. -/
theorem neverStarted_again : (Ring.run (step .tx) (opened .calypte 1023) neverStarted).subscriptionsCount = 0 ∧
    Memoryless (opened .calypte 1023) (Ring.run (step .tx) (opened .calypte 1023) neverStarted) (flagExclusive ||| flagUserspace) :=
  have h0 : (Ring.run (step .tx) (opened .calypte 1023) neverStarted).subscriptionsCount = 0 := by decide +kernel
  ⟨h0, (subscribe_memoryless_iff .tx .calypte 1023 neverStarted h0 _).2 (by decide +kernel)⟩

/-- Without the flag, the channel cannot be subscribed after it. -/
theorem subscribe_remembers : ¬ ∀ acts flags, (Ring.run (step .tx) (opened .calypte 1023) acts).subscriptionsCount = 0 →
    Memoryless (opened .calypte 1023) (Ring.run (step .tx) (opened .calypte 1023) acts) flags := by
  intro h
  have hret := (h neverStarted 0 (by decide +kernel)).ret
  exact absurd hret (by decide +kernel)

end Flags

end NdkSw.Ndp

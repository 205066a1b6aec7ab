/-
Starting and stopping subscriptions of a channel, for any controller: which subscriptions a channel
lists, and what a start or a stop can do to it.
-/
import NdkSw.Ndp.Channel

namespace NdkSw.Ndp

variable {C E : Type} (ops : ChannelOps C E) {ch : Channel C} {P : C → Prop}

/-! ## The listed subscriptions -/

/-- A channel lists its running subscriptions and counts them. -/
structure Listed (ch : Channel C) : Prop where
  list : ∀ j, j ∈ ch.listSubscriptions ↔ (ch.sub j).status = .running
  nodup : ch.listSubscriptions.Nodup
  startCount : ch.startCount = ch.listSubscriptions.length

theorem Listed.idle (hL : Listed ch) (h0 : ch.startCount = 0) (j : Nat) : (ch.sub j).status ≠ .running := by
  intro hj
  have hlen := hL.startCount
  have hmem := (hL.list j).2 hj
  rw [List.length_eq_zero_iff.1 (hlen.symm.trans h0)] at hmem
  cases hmem

theorem Listed.exists_running (hL : Listed ch) (h0 : ch.startCount ≠ 0) : ∃ j, (ch.sub j).status = .running := by
  have hlen := hL.startCount
  rcases hl : ch.listSubscriptions with _ | ⟨j, l⟩
  · rw [hl] at hlen
    exact absurd hlen h0
  · exact ⟨j, (hL.list j).1 (by rw [hl]; exact List.mem_cons_self)⟩

theorem Listed.startCount_ne (hL : Listed ch) {j : Nat} (hj : (ch.sub j).status = .running) : ch.startCount ≠ 0 :=
  fun h0 => hL.idle h0 j hj

theorem Listed.congr {ch' : Channel C} (hL : Listed ch) (hlist : ch'.listSubscriptions = ch.listSubscriptions)
    (hcount : ch'.startCount = ch.startCount) (hstat : ∀ j, (ch'.sub j).status = (ch.sub j).status) : Listed ch' := by
  refine ⟨fun j => ?_, ?_, ?_⟩
  · rw [hlist, hstat]; exact hL.list j
  · rw [hlist]; exact hL.nodup
  · rw [hcount, hlist]; exact hL.startCount

/-! ## Joining and leaving -/

/-- The channel after `i` joined it. -/
def Channel.join (ch : Channel C) (i : Nat) : Channel C :=
  { ch with
    startCount := ch.startCount + 1
    listSubscriptions := ch.listSubscriptions ++ [i]
    sub := Function.update ch.sub i { status := .running, hwptr := ch.hwptr, swptr := ch.hwptr } }

/-- The channel after `i` left it. -/
def Channel.leave (ch : Channel C) (i : Nat) : Channel C :=
  { ch with
    startCount := ch.startCount - 1
    listSubscriptions := ch.listSubscriptions.erase i
    sub := Function.update ch.sub i { ch.sub i with status := .subscribed } }

theorem join_status (ch : Channel C) (i j : Nat) :
    ((ch.join i).sub j).status = if j = i then .running else (ch.sub j).status := by
  by_cases hji : j = i
  · subst hji
    simp [Channel.join]
  · simp [Channel.join, hji]

theorem leave_status (ch : Channel C) (i j : Nat) :
    ((ch.leave i).sub j).status = if j = i then .subscribed else (ch.sub j).status := by
  by_cases hji : j = i
  · subst hji
    simp [Channel.leave]
  · simp [Channel.leave, hji]

theorem Listed.join {i : Nat} (hL : Listed ch) (hi : (ch.sub i).status ≠ .running) : Listed (ch.join i) := by
  have hnot : i ∉ ch.listSubscriptions := fun hm => hi ((hL.list i).1 hm)
  refine ⟨fun j => ?_, ?_, ?_⟩
  · rw [join_status]
    show j ∈ ch.listSubscriptions ++ [i] ↔ _
    rw [List.mem_append, List.mem_singleton, hL.list]
    by_cases hji : j = i <;> simp [hji]
  · show (ch.listSubscriptions ++ [i]).Nodup
    rw [List.nodup_append]
    refine ⟨hL.nodup, List.nodup_singleton i, fun a ha b hb => ?_⟩
    rw [List.mem_singleton] at hb
    rintro rfl
    exact hnot (hb ▸ ha)
  · show ch.startCount + 1 = (ch.listSubscriptions ++ [i]).length
    rw [hL.startCount, List.length_append, List.length_singleton]

theorem Listed.leave {i : Nat} (hL : Listed ch) (hi : (ch.sub i).status = .running) : Listed (ch.leave i) := by
  refine ⟨fun j => ?_, hL.nodup.erase i, ?_⟩
  · rw [leave_status]
    show j ∈ ch.listSubscriptions.erase i ↔ _
    rw [hL.nodup.mem_erase_iff, hL.list]
    by_cases hji : j = i <;> simp [hji]
  · show ch.startCount - 1 = (ch.listSubscriptions.erase i).length
    rw [List.length_erase_of_mem ((hL.list i).2 hi), hL.startCount]

/-! ## Start -/

/-- The channel after its controller started. -/
def Channel.reset (ch : Channel C) (ctrl : C) (hwptr : U64) : Channel C := { ch with ctrl, hwptr, swptr := hwptr }

/-- The pointers a start reports back. -/
def startSync (type : ChannelType) (ch : Channel C) (sync : SubscriptionSync) : SubscriptionSync :=
  match type with
  | .rx => { sync with hwptr := ch.hwptr, swptr := ch.hwptr }
  | .tx => sync

/-- A start fails, perhaps at a controller nobody uses, or it joins a channel, whose controller it starts
if nobody runs. -/
theorem ndpSubscriptionStart_cases (type : ChannelType) (e : E) (ch : Channel C) (i : Nat) (sync : SubscriptionSync) :
    (∃ ctrl err, err ≠ 0 ∧ ndpSubscriptionStart ops type e ch i sync = ({ ch with ctrl }, sync, err) ∧
      (ctrl = ch.ctrl ∨ ch.startCount = 0 ∧ ctrl = (ops.start ch.ctrl e).1 ∧ (ops.start ch.ctrl e).2.1 ≠ 0)) ∨
    ∃ ch₀, (ch₀ = ch ∧ ch.startCount ≠ 0 ∨
        ch₀ = ch.reset (ops.start ch.ctrl e).1 (ops.start ch.ctrl e).2.2 ∧ ch.startCount = 0 ∧ (ops.start ch.ctrl e).2.1 = 0) ∧
      (ch.sub i).status = .subscribed ∧
      ndpSubscriptionStart ops type e ch i sync = (ch₀.join i, startSync type ch₀ sync, 0) := by
  unfold ndpSubscriptionStart ndpChannelStart
  by_cases hst : (ch.sub i).status = .subscribed
  · rw [if_neg (not_not.2 hst)]
    by_cases hc : ch.startCount = 0
    · rcases hop : ops.start ch.ctrl e with ⟨ctrl, ret, hwptr⟩
      by_cases hret : ret = 0
      · refine Or.inr ⟨ch.reset ctrl hwptr, Or.inr ⟨rfl, hc, hret⟩, hst, ?_⟩
        simp only [if_pos hc, hret, ne_eq, not_true_eq_false, if_false, Function.update_self, Function.update_idem]
        cases type <;> rfl
      · refine Or.inl ⟨ctrl, ret, hret, ?_, Or.inr ⟨hc, rfl, hret⟩⟩
        simp only [if_pos hc, ne_eq, hret, not_false_eq_true, if_true]
    · refine Or.inr ⟨ch, Or.inl ⟨rfl, hc⟩, hst, ?_⟩
      simp only [if_neg hc, ne_eq, not_true_eq_false, if_false, Function.update_self, Function.update_idem]
      cases type <;> rfl
  · rw [if_pos hst]
    exact Or.inl ⟨ch.ctrl, eBadf, by decide, rfl, Or.inl rfl⟩

/-! ## Stop -/

/-- The lock after a stop of `i`. -/
def Channel.unlocked (ch : Channel C) (i : Nat) : Option Nat := if ch.lockedSub = some i then none else ch.lockedSub

theorem Channel.unlocked_eq_some {i j : Nat} : ch.unlocked i = some j ↔ ch.lockedSub = some j ∧ j ≠ i := by
  unfold Channel.unlocked
  split
  · rename_i h
    constructor
    · rintro ⟨⟩
    · rintro ⟨hj, hne⟩
      exact absurd (Option.some.inj (hj.symm.trans h)) hne
  · rename_i h
    constructor
    · intro hj
      exact ⟨hj, fun hji => h (hji ▸ hj)⟩
    · rintro ⟨hj, -⟩
      exact hj

/-- One attempt to stop: the controller of the last running subscription asks to try again, or `i` is out of
the list. -/
theorem ndpChannelStop_cases (e : E) (ch : Channel C) (i : Nat) (force : Bool) :
    (ch.startCount = 1 ∧ (ops.stop ch.ctrl e force).2 = eAgain ∧ ndpChannelStop ops e ch i force =
      ({ ch with lockedSub := ch.unlocked i, ctrl := (ops.stop ch.ctrl e force).1 }, eAgain)) ∨
    ∃ ctrl, (ch.startCount ≠ 1 ∧ ctrl = ch.ctrl ∨
        ch.startCount = 1 ∧ (ops.stop ch.ctrl e force).2 ≠ eAgain ∧ ctrl = (ops.stop ch.ctrl e force).1) ∧
      ndpChannelStop ops e ch i force = ({ ch with
        lockedSub := ch.unlocked i, ctrl, startCount := ch.startCount - 1
        listSubscriptions := ch.listSubscriptions.erase i }, 0) := by
  have hl : (if ch.lockedSub = some i then { ch with lockedSub := none } else ch) = { ch with lockedSub := ch.unlocked i } := by
    unfold Channel.unlocked
    split <;> rfl
  unfold ndpChannelStop
  simp only [hl]
  by_cases hc : ch.startCount = 1
  · rcases hop : ops.stop ch.ctrl e force with ⟨ctrl, ret⟩
    by_cases hret : ret = eAgain
    · refine Or.inl ⟨hc, hret, ?_⟩
      simp only [if_pos hc, hop, hret, if_true]
    · refine Or.inr ⟨ctrl, Or.inr ⟨hc, hret, rfl⟩, ?_⟩
      simp only [if_pos hc, hop, if_neg hret]
  · refine Or.inr ⟨ch.ctrl, Or.inl ⟨hc, rfl⟩, ?_⟩
    simp only [if_neg hc]

/-- The controller after a stop that leaves the channel: it is not asked while others run, it stops, or it
refuses and is forced. -/
inductive StopCtrl (ops : ChannelOps C E) (e₁ e₂ : E) (ch : Channel C) : C → Prop
  | shared (hc : ch.startCount ≠ 1) : StopCtrl ops e₁ e₂ ch ch.ctrl
  | last (hc : ch.startCount = 1) (hret : (ops.stop ch.ctrl e₁ false).2 ≠ eAgain) :
    StopCtrl ops e₁ e₂ ch (ops.stop ch.ctrl e₁ false).1
  | forced (hc : ch.startCount = 1) (hret : (ops.stop ch.ctrl e₁ false).2 = eAgain) :
    StopCtrl ops e₁ e₂ ch (ops.stop (ops.stop ch.ctrl e₁ false).1 e₂ true).1

theorem StopCtrl.keep {ops : ChannelOps C E} {e₁ e₂ : E} {ctrl : C} (h : StopCtrl ops e₁ e₂ ch ctrl)
    (hP : ∀ c e f, P c → P (ops.stop c e f).1) (hc : P ch.ctrl) : P ctrl := by
  cases h with
  | shared => exact hc
  | last => exact hP _ _ _ hc
  | forced => exact hP _ _ _ (hP _ _ _ hc)

theorem StopCtrl.of_ne {ops : ChannelOps C E} {e₁ e₂ : E} {ctrl : C} (h : StopCtrl ops e₁ e₂ ch ctrl) (hne : ch.startCount ≠ 1) :
    ctrl = ch.ctrl := by
  cases h with
  | shared => rfl
  | last hc => exact absurd hc hne
  | forced hc => exact absurd hc hne

/-- The stop of a running subscription is refused, which only the controller of the last one can do, or it
leaves the channel. -/
theorem ndpSubscriptionStop_cases {ops : ChannelOps C E} (hforce : ∀ c e, (ops.stop c e true).2 ≠ eAgain) (e₁ e₂ : E)
    (ch : Channel C) (i : Nat) (force : Bool) (hr : (ch.sub i).status = .running) :
    (force = false ∧ ch.startCount = 1 ∧ (ops.stop ch.ctrl e₁ false).2 = eAgain ∧ ndpSubscriptionStop ops e₁ e₂ ch i force =
      ({ ch with lockedSub := ch.unlocked i, ctrl := (ops.stop ch.ctrl e₁ false).1 }, eAgain)) ∨
    ∃ ctrl, StopCtrl ops e₁ e₂ ch ctrl ∧
      ndpSubscriptionStop ops e₁ e₂ ch i force = (Channel.leave { ch with lockedSub := ch.unlocked i, ctrl } i, 0) := by
  have h0 : ¬ (0 : Int) = eAgain := by decide
  have hun : ∀ c : C, Channel.unlocked { ch with lockedSub := ch.unlocked i, ctrl := c } i = ch.unlocked i := by
    intro c
    have hne : ch.unlocked i ≠ some i := fun h => (Channel.unlocked_eq_some.1 h).2 rfl
    exact if_neg hne
  unfold ndpSubscriptionStop
  rw [if_neg (not_not.2 hr)]
  obtain ⟨hc, hret, hs⟩ | ⟨ctrl, hctrl, hs⟩ := ndpChannelStop_cases ops e₁ ch i false
  · cases force with
    | false =>
      refine Or.inl ⟨rfl, hc, hret, ?_⟩
      simp only [hs, if_true, Bool.false_eq_true, if_false]
    | true =>
      obtain ⟨_, hf, _⟩ | ⟨ctrl', ⟨hc', -⟩ | ⟨-, -, rfl⟩, hs'⟩ := ndpChannelStop_cases ops e₂
        { ch with lockedSub := ch.unlocked i, ctrl := (ops.stop ch.ctrl e₁ false).1 } i true
      · exact absurd hf (hforce _ _)
      · exact absurd hc hc'
      · refine Or.inr ⟨_, .forced hc hret, ?_⟩
        simp only [hs, hs', if_true, hun]
        rfl
  · refine Or.inr ⟨ctrl, ?_, ?_⟩
    · rcases hctrl with ⟨hc, rfl⟩ | ⟨hc, hret, rfl⟩
      · exact .shared hc
      · exact .last hc hret
    · simp only [hs, if_neg h0]
      rfl

/-- A forced stop of a running subscription leaves the channel. Its controller is only touched when nobody
else runs, and keeps what every stop of it keeps. -/
theorem ndpSubscriptionStop_forced {ops : ChannelOps C E} (hforce : ∀ c e, (ops.stop c e true).2 ≠ eAgain)
    (hP : ∀ c e f, P c → P (ops.stop c e f).1) (e₁ e₂ : E) (ch : Channel C) (i : Nat) (hc : P ch.ctrl) (hr : (ch.sub i).status = .running) :
    ∃ l ctrl, (ch.startCount ≠ 1 → ctrl = ch.ctrl) ∧ P ctrl ∧
      (ndpSubscriptionStop ops e₁ e₂ ch i true).1 = Channel.leave { ch with lockedSub := l, ctrl } i := by
  obtain ⟨hf, -⟩ | ⟨ctrl, hctrl, hs⟩ := ndpSubscriptionStop_cases hforce e₁ e₂ ch i true hr
  · cases hf
  · exact ⟨_, ctrl, hctrl.of_ne, hctrl.keep hP hc, by rw [hs]⟩

theorem ndpSubscriptionStop_stopped (e₁ e₂ : E) (ch : Channel C) (i : Nat) (force : Bool)
    (hr : (ch.sub i).status ≠ .running) : (ndpSubscriptionStop ops e₁ e₂ ch i force).1 = ch := by
  unfold ndpSubscriptionStop
  rw [if_pos hr]

/-! ## Sync -/

/-- What a sync of `i` leaves alone: who runs, and the lock unless `i` takes it or gives it back. The
controller keeps what reading and moving its pointers keeps. -/
structure SyncFrame (P : C → Prop) (ch : Channel C) (i : Nat) (ch' : Channel C) : Prop where
  list : ch'.listSubscriptions = ch.listSubscriptions
  startCount : ch'.startCount = ch.startCount
  status : ∀ j, (ch'.sub j).status = (ch.sub j).status
  locked : ∀ j, ch'.lockedSub = some j → ch.lockedSub = some j ∨ j = i ∧ (ch.sub i).status = .running
  ctrl : P ch.ctrl → P ch'.ctrl

theorem txsyncGrant_frame (hget : ∀ c e, P c → P (ops.getHwptr c e).1) (e : E) (ch : Channel C) {i : Nat} (sync : SubscriptionSync)
    (hr : (ch.sub i).status = .running) : SyncFrame P ch i (txsyncGrant ops e ch i sync).1 where
  list := rfl
  startCount := rfl
  status j := by by_cases hji : j = i <;> simp [txsyncGrant, hji]
  locked j hj := by
    simp only [txsyncGrant] at hj
    split at hj
    · cases hj
    · exact Or.inr ⟨(Option.some.inj hj).symm, hr⟩
  ctrl := hget _ _

theorem ndpSubscriptionSync_frame (hget : ∀ c e, P c → P (ops.getHwptr c e).1) (hset : ∀ c e p, P c → P (ops.setSwptr c e p))
    (type : ChannelType) (e : E) (ch : Channel C) (i : Nat) (sync : SubscriptionSync) :
    SyncFrame P ch i (ndpSubscriptionSync ops type e ch i sync).1 := by
  unfold ndpSubscriptionSync
  split
  · exact ⟨rfl, rfl, fun _ => rfl, fun _ h => Or.inl h, id⟩
  · rename_i hr
    rw [not_not] at hr
    cases type with
    | rx =>
      simp only [ndpChannelRxsync, Function.update_self]
      split
      · refine ⟨rfl, rfl, fun j => ?_, fun _ h => Or.inl h, fun h => hget _ _ (hset _ _ _ h)⟩
        by_cases hji : j = i <;> simp [hji]
      · refine ⟨rfl, rfl, fun j => ?_, fun _ h => Or.inl h, hget _ _⟩
        by_cases hji : j = i <;> simp [hji]
    | tx =>
      simp only [ndpChannelTxsync]
      split
      · rename_i hlock
        split
        · have hg := txsyncGrant_frame ops hget e { ch with swptr := sync.hwptr, ctrl := ops.setSwptr ch.ctrl e sync.hwptr } sync hr
          exact ⟨hg.list, hg.startCount, hg.status, hg.locked, fun h => hg.ctrl (hset _ _ _ h)⟩
        · exact txsyncGrant_frame ops hget e ch sync hr
      · split
        · exact txsyncGrant_frame ops hget e ch sync hr
        · refine ⟨rfl, rfl, fun j => ?_, fun _ h => Or.inl h, id⟩
          by_cases hji : j = i <;> simp [hji]

end NdkSw.Ndp

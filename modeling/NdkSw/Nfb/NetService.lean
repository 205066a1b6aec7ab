/-
Link monitoring of a network interface (`net/device.c`): a timer that arms itself again and schedules a work item, a flag that
mirrors the work item, and the calls that open, close and destroy the interface. Each party takes one step at a time, between
any two of which the others may go on. The flag is right as long as the work item always finds the interface up
and gets to run.
-/
import NdkSw.Ring.Run

namespace NdkSw.Nfb.NetService

open Ring

/-! ## Data model -/

/-- Where `nfb_net_service_timer` stands: before `mod_timer`, before the test of `netif_running`, before
`test_and_set_bit`, before `schedule_work`. -/
inductive TimerPc
  | idle
  | entered
  | check
  | set
  | schedule
  deriving DecidableEq, Repr

/-- Where `nfb_net_service_task` stands: before the test of `netif_running`, before the update, before `BUG_ON`, before
`clear_bit`. -/
inductive TaskPc
  | idle
  | entered
  | update
  | test
  | clear
  deriving DecidableEq, Repr

/-- Where a call of the user stands, which holds the lock of the network devices: `nfb_net_open` before `mod_timer`,
`nfb_net_close` before `timer_delete_sync`. -/
inductive RtnlPc
  | idle
  | opening
  | closing
  deriving DecidableEq, Repr

/-- Where `nfb_net_device_destroy` stands: after `cancel_work_sync`, in the `nfb_net_close` that `unregister_netdev` calls, after
that, and returned. -/
inductive DestroyPc
  | notCalled
  | cancelled
  | closing
  | unregistered
  | returned
  deriving DecidableEq, Repr

/-- `struct nfb_net_device` and what the kernel keeps for it. `running` is what `netif_running` says, `sched` the bit
`NFBNET_SERVICE_SCHED`, `armed` and `queued` the state of `service_timer` and `service_task`; `bug` says that `BUG_ON` was hit, or
may have been, as the device it reads was freed; `updates` counts the calls of `nfb_net_link_status`. -/
structure NfbNetDevice where
  running : Bool
  sched : Bool
  armed : Bool
  queued : Bool
  timer : TimerPc
  task : TaskPc
  rtnl : RtnlPc
  destroy : DestroyPc
  bug : Bool
  updates : Nat
  deriving DecidableEq, Repr

/-! ## Parties -/

/-- The next step of `nfb_net_service_timer`. -/
def nfbNetServiceTimer (s : NfbNetDevice) : NfbNetDevice :=
  match s.timer with
  | .idle => s
  | .entered => { s with armed := true, timer := .check }
  | .check => { s with timer := if s.running then .set else .idle }
  | .set => if s.sched then { s with timer := .idle } else { s with sched := true, timer := .schedule }
  | .schedule => { s with queued := true, timer := .idle }

/-- The next step of `nfb_net_service_task`; a queued work item begins when it does not run. After `free_netdev` the flag it tests
may hold anything. -/
def nfbNetServiceTask (s : NfbNetDevice) : NfbNetDevice :=
  match s.task with
  | .idle => if s.queued then { s with queued := false, task := .entered } else s
  | .entered => { s with task := if s.running then .update else .idle }
  | .update => { s with updates := s.updates + 1, task := .test }
  | .test => { s with bug := s.bug || !s.sched || decide (s.destroy = .returned), task := .clear }
  | .clear => { s with sched := false, task := .idle }

/-- The interface still belongs to the network stack. -/
def Registered (s : NfbNetDevice) : Prop := s.destroy = .notCalled ∨ s.destroy = .cancelled

instance (s : NfbNetDevice) : Decidable (Registered s) := inferInstanceAs (Decidable (_ ∨ _))

/-- `nfb_net_open`, which the stack calls after it has set the bit behind `netif_running`. -/
def nfbNetOpen (s : NfbNetDevice) : NfbNetDevice :=
  if Registered s ∧ s.rtnl = .idle ∧ s.running = false then { s with running := true, rtnl := .opening } else s

/-- The rest of `nfb_net_open`; after an error the stack clears the bit. -/
def nfbNetOpenEnd (ok : Bool) (s : NfbNetDevice) : NfbNetDevice :=
  if s.rtnl = .opening then
    if ok then { s with armed := true, rtnl := .idle } else { s with running := false, rtnl := .idle }
  else s

/-- `nfb_net_close`, which the stack calls after it has cleared the bit. -/
def nfbNetClose (s : NfbNetDevice) : NfbNetDevice :=
  if Registered s ∧ s.rtnl = .idle ∧ s.running = true then { s with running := false, rtnl := .closing } else s

/-- `timer_delete_sync` waits for the handler. -/
def nfbNetCloseEnd (s : NfbNetDevice) : NfbNetDevice :=
  if s.rtnl = .closing ∧ s.timer = .idle then { s with armed := false, rtnl := .idle } else s

/-- The next step of `nfb_net_device_destroy`: `cancel_work_sync` waits for the work item, `unregister_netdev` for calls of
the user, and closes an open interface. The last step is `free_netdev`. -/
def nfbNetDeviceDestroy (s : NfbNetDevice) : NfbNetDevice :=
  match s.destroy with
  | .notCalled => if s.task = .idle then { s with queued := false, destroy := .cancelled } else s
  | .cancelled =>
    if s.rtnl = .idle then
      if s.running then { s with running := false, destroy := .closing } else { s with destroy := .unregistered }
    else s
  | .closing => if s.timer = .idle then { s with armed := false, destroy := .unregistered } else s
  | .unregistered => { s with destroy := .returned }
  | .returned => s

inductive Act
  | open
  | openEnd (ok : Bool)
  | close
  | closeEnd
  | expire
  | timer
  | task
  | destroy
  deriving DecidableEq, Repr

def step (s : NfbNetDevice) : Act → NfbNetDevice
  | .open => nfbNetOpen s
  | .openEnd ok => nfbNetOpenEnd ok s
  | .close => nfbNetClose s
  | .closeEnd => nfbNetCloseEnd s
  | .expire => if s.armed ∧ s.timer = .idle then { s with armed := false, timer := .entered } else s
  | .timer => nfbNetServiceTimer s
  | .task => nfbNetServiceTask s
  | .destroy => nfbNetDeviceDestroy s

/-- After `nfb_net_device_create`. -/
def NfbNetDevice.init : NfbNetDevice where
  running := false
  sched := false
  armed := false
  queued := false
  timer := .idle
  task := .idle
  rtnl := .idle
  destroy := .notCalled
  bug := false
  updates := 0

/-! ## Invariant -/

/-- At most one of these holds: the work item is queued, it runs, it is about to be queued; and the flag is set then. -/
structure OneWork (s : NfbNetDevice) : Prop where
  queued : s.queued = true → s.sched = true ∧ s.task = .idle ∧ s.timer ≠ .schedule
  task : s.task ≠ .idle → s.sched = true ∧ s.queued = false ∧ s.timer ≠ .schedule
  schedule : s.timer = .schedule → s.sched = true ∧ s.queued = false ∧ s.task = .idle

/-- The timer is quiet when the interface is not open and nobody is about to stop it. -/
structure Inv (s : NfbNetDevice) : Prop extends OneWork s where
  noBug : s.destroy ≠ .returned → s.bug = false
  opening : s.rtnl = .opening → s.running = true ∧ Registered s ∧ s.armed = false ∧ s.timer = .idle
  closing : s.rtnl = .closing → s.running = false ∧ Registered s
  down : s.running = false → s.rtnl = .idle → s.destroy ≠ .closing → s.armed = false ∧ s.timer = .idle
  unregister : ¬Registered s → s.running = false ∧ s.rtnl = .idle

theorem Inv.init : Inv .init := by
  refine ⟨⟨?_, ?_, ?_⟩, ?_, ?_, ?_, ?_, ?_⟩ <;> simp [NfbNetDevice.init, Registered]

section Steps

variable {s t : NfbNetDevice}

/-- Only the handler, the work item and `cancel_work_sync` change what belongs to the work item. -/
theorem OneWork.of_same (h : OneWork s) (hs : t.sched = s.sched) (hq : t.queued = s.queued) (hk : t.task = s.task)
    (ht : t.timer = .schedule → s.timer = .schedule) : OneWork t where
  queued := fun h' => by
    obtain ⟨h1, h2, h3⟩ := h.queued (hq ▸ h')
    exact ⟨hs.trans h1, hk.trans h2, fun h'' => h3 (ht h'')⟩
  task := fun h' => by
    obtain ⟨h1, h2, h3⟩ := h.task (hk ▸ h')
    exact ⟨hs.trans h1, hq.trans h2, fun h'' => h3 (ht h'')⟩
  schedule := fun h' => by
    obtain ⟨h1, h2, h3⟩ := h.schedule (ht h')
    exact ⟨hs.trans h1, hq.trans h2, hk.trans h3⟩

theorem Inv.of_service (h : Inv s) (hw : OneWork t) (hr : t.running = s.running) (hl : t.rtnl = s.rtnl)
    (hd : t.destroy = s.destroy) (hb : s.destroy ≠ .returned → t.bug = false)
    (ha : s.armed = false ∧ s.timer = .idle → t.armed = false ∧ t.timer = .idle) : Inv t where
  toOneWork := hw
  noBug := hd ▸ hb
  opening := fun ho => by
    obtain ⟨h1, h2, h3⟩ := h.opening (hl ▸ ho)
    exact ⟨hr.trans h1, by simpa only [Registered, hd] using h2, ha h3⟩
  closing := fun hc => by
    obtain ⟨h1, h2⟩ := h.closing (hl ▸ hc)
    exact ⟨hr.trans h1, by simpa only [Registered, hd] using h2⟩
  down := fun h1 h2 h3 => ha (h.down (hr ▸ h1) (hl ▸ h2) (hd ▸ h3))
  unregister := fun hn => by
    obtain ⟨h1, h2⟩ := h.unregister (by simpa only [Registered, hd] using hn)
    exact ⟨hr.trans h1, hl.trans h2⟩

theorem Inv.serviceTimer (h : Inv s) : Inv (nfbNetServiceTimer s) := by
  have hw := h.toOneWork
  unfold nfbNetServiceTimer
  cases ht : s.timer with
  | idle => exact h
  | entered => exact h.of_service (hw.of_same rfl rfl rfl nofun) rfl rfl rfl h.noBug (by simp [ht])
  | check =>
    refine h.of_service (hw.of_same rfl rfl rfl ?_) rfl rfl rfl h.noBug (by simp [ht])
    cases s.running <;> simp
  | set =>
    dsimp only
    split
    · exact h.of_service (hw.of_same rfl rfl rfl nofun) rfl rfl rfl h.noBug (by simp [ht])
    · rename_i hc
      -- with the flag clear nothing is queued and nothing runs
      refine h.of_service ⟨fun hq => ?_, fun hk => ?_, fun _ => ⟨rfl, ?_, ?_⟩⟩ rfl rfl rfl h.noBug (by simp [ht])
      · exact absurd (hw.queued hq).1 (by simp [hc])
      · exact absurd (hw.task hk).1 (by simp [hc])
      · by_contra hq
        exact absurd (hw.queued (by simpa using hq)).1 (by simp [hc])
      · by_contra hk
        exact absurd (hw.task hk).1 (by simp [hc])
  | schedule =>
    obtain ⟨h1, h2, h3⟩ := hw.schedule ht
    exact h.of_service ⟨fun _ => ⟨h1, h3, nofun⟩, fun hk => absurd h3 hk, nofun⟩ rfl rfl rfl h.noBug (by simp [ht])

theorem Inv.serviceTask (h : Inv s) : Inv (nfbNetServiceTask s) := by
  have hw := h.toOneWork
  unfold nfbNetServiceTask
  cases ht : s.task with
  | idle =>
    cases hq : s.queued with
    | false => exact h
    | true =>
      obtain ⟨h1, -, h3⟩ := hw.queued hq
      exact h.of_service ⟨nofun, fun _ => ⟨h1, rfl, h3⟩, fun h' => absurd h' h3⟩ rfl rfl rfl h.noBug id
  | entered =>
    obtain ⟨h1, h2, h3⟩ := hw.task (by simp [ht])
    refine h.of_service ⟨fun h' => ?_, fun _ => ⟨h1, h2, h3⟩, fun h' => absurd h' h3⟩ rfl rfl rfl h.noBug id
    exact absurd h' (by simp [h2])
  | update =>
    obtain ⟨h1, h2, h3⟩ := hw.task (by simp [ht])
    refine h.of_service ⟨fun h' => ?_, fun _ => ⟨h1, h2, h3⟩, fun h' => absurd h' h3⟩ rfl rfl rfl h.noBug id
    exact absurd h' (by simp [h2])
  | test =>
    obtain ⟨h1, h2, h3⟩ := hw.task (by simp [ht])
    refine h.of_service ⟨fun h' => ?_, fun _ => ⟨h1, h2, h3⟩, fun h' => absurd h' h3⟩ rfl rfl rfl (fun hd => ?_) id
    · exact absurd h' (by simp [h2])
    · simp [h.noBug hd, h1, hd]
  | clear =>
    obtain ⟨h1, h2, h3⟩ := hw.task (by simp [ht])
    refine h.of_service ⟨fun h' => ?_, nofun, fun h' => absurd h' h3⟩ rfl rfl rfl h.noBug id
    exact absurd h' (by simp [h2])

theorem Inv.open (h : Inv s) : Inv (nfbNetOpen s) := by
  unfold nfbNetOpen
  split
  · rename_i hg
    obtain ⟨hreg, hl, hr⟩ := hg
    obtain ⟨ha, ht⟩ := h.down hr hl (by rcases hreg with hd | hd <;> simp [hd])
    exact ⟨h.toOneWork.of_same rfl rfl rfl id, h.noBug, fun _ => ⟨rfl, hreg, ha, ht⟩, nofun, nofun, fun hn => absurd hreg hn⟩
  · exact h

theorem Inv.openEnd (h : Inv s) (ok : Bool) : Inv (nfbNetOpenEnd ok s) := by
  unfold nfbNetOpenEnd
  split
  · rename_i hl
    obtain ⟨hr, hreg, ha, ht⟩ := h.opening hl
    cases ok with
    | true =>
      exact ⟨h.toOneWork.of_same rfl rfl rfl id, h.noBug, nofun, nofun, fun h' => absurd h' (by simp [hr]),
        fun hn => absurd hreg hn⟩
    | false =>
      exact ⟨h.toOneWork.of_same rfl rfl rfl id, h.noBug, nofun, nofun, fun _ _ _ => ⟨ha, ht⟩, fun hn => absurd hreg hn⟩
  · exact h

theorem Inv.close (h : Inv s) : Inv (nfbNetClose s) := by
  unfold nfbNetClose
  split
  · rename_i hg
    exact ⟨h.toOneWork.of_same rfl rfl rfl id, h.noBug, nofun, fun _ => ⟨rfl, hg.1⟩, nofun, fun hn => absurd hg.1 hn⟩
  · exact h

theorem Inv.closeEnd (h : Inv s) : Inv (nfbNetCloseEnd s) := by
  unfold nfbNetCloseEnd
  split
  · rename_i hg
    obtain ⟨hr, hreg⟩ := h.closing hg.1
    exact ⟨h.toOneWork.of_same rfl rfl rfl id, h.noBug, nofun, nofun, fun _ _ _ => ⟨rfl, hg.2⟩, fun hn => absurd hreg hn⟩
  · exact h

theorem Inv.destroy (h : Inv s) : Inv (nfbNetDeviceDestroy s) := by
  have hw := h.toOneWork
  unfold nfbNetDeviceDestroy
  cases hd : s.destroy with
  | notCalled =>
    dsimp only
    split
    · rename_i hk
      have hb : s.bug = false := h.noBug (by simp [hd])
      have hreg : Registered s := Or.inl hd
      refine ⟨⟨nofun, fun h' => absurd hk h', fun h' => ⟨(hw.schedule h').1, rfl, hk⟩⟩, fun _ => hb, fun ho => ?_, fun hc => ?_,
        fun h1 h2 _ => h.down h1 h2 (by simp [hd]), fun hn => absurd (Or.inr rfl) hn⟩
      · exact ⟨(h.opening ho).1, Or.inr rfl, (h.opening ho).2.2⟩
      · exact ⟨(h.closing hc).1, Or.inr rfl⟩
    · exact h
  | cancelled =>
    have hb : s.bug = false := h.noBug (by simp [hd])
    dsimp only
    split
    · rename_i hl
      split
      · exact ⟨hw.of_same rfl rfl rfl id, fun _ => hb, fun ho => absurd ho (by simp [hl]), fun hc => absurd hc (by simp [hl]),
          fun _ _ h' => absurd rfl h', fun _ => ⟨rfl, hl⟩⟩
      · rename_i hr
        replace hr : s.running = false := by simpa using hr
        exact ⟨hw.of_same rfl rfl rfl id, fun _ => hb, fun ho => absurd ho (by simp [hl]), fun hc => absurd hc (by simp [hl]),
          fun _ _ _ => h.down hr hl (by simp [hd]), fun _ => ⟨hr, hl⟩⟩
    · exact h
  | closing =>
    obtain ⟨hr, hl⟩ := h.unregister (by simp [Registered, hd])
    dsimp only
    split
    · rename_i ht
      exact ⟨hw.of_same rfl rfl rfl id, fun _ => h.noBug (by simp [hd]), fun ho => absurd ho (by simp [hl]),
        fun hc => absurd hc (by simp [hl]), fun _ _ _ => ⟨rfl, ht⟩, fun _ => ⟨hr, hl⟩⟩
    · exact h
  | unregistered =>
    obtain ⟨hr, hl⟩ := h.unregister (by simp [Registered, hd])
    exact ⟨hw.of_same rfl rfl rfl id, fun h' => absurd rfl h', fun ho => absurd ho (by simp [hl]),
      fun hc => absurd hc (by simp [hl]), fun _ _ _ => h.down hr hl (by simp [hd]), fun _ => ⟨hr, hl⟩⟩
  | returned => exact h

theorem Inv.expire (h : Inv s) : Inv (step s .expire) := by
  unfold step
  dsimp only
  split
  · rename_i hg
    refine ⟨h.toOneWork.of_same rfl rfl rfl nofun, h.noBug, fun ho => ?_, h.closing, fun h1 h2 h3 => ?_, h.unregister⟩
    · exact absurd (h.opening ho).2.2.1 (by simp [hg.1])
    · exact absurd (h.down h1 h2 h3).1 (by simp [hg.1])
  · exact h

theorem step_inv (s : NfbNetDevice) (a : Act) (h : Inv s) : Inv (step s a) := by
  cases a with
  | «open» => exact h.open
  | openEnd ok => exact h.openEnd ok
  | close => exact h.close
  | closeEnd => exact h.closeEnd
  | expire => exact h.expire
  | timer => exact h.serviceTimer
  | task => exact h.serviceTask
  | destroy => exact h.destroy

end Steps

/-! ## Monitoring -/

/-- The handler of the timer and the work item alone get to a link update from here. -/
def LeadsToUpdate (s : NfbNetDevice) : Prop :=
  ∃ l : List Act, (∀ a ∈ l, a = .timer ∨ a = .task) ∧ s.updates < (run step s l).updates

/-- The flag is set only while the work item is queued or runs (or the handler, which has just set it, is about to queue it),
every expiry on an open interface leads to an update, `BUG_ON` is not hit, and nothing outlives `nfb_net_device_destroy`: no handler
and no work item is left that could use the freed device. -/
structure Monitored (s : NfbNetDevice) : Prop where
  sched : s.sched = true → s.queued = true ∨ s.task ≠ .idle ∨ s.timer = .schedule
  expiry : s.timer ≠ .idle → s.running = true → LeadsToUpdate s
  noBug : s.bug = false
  gone : s.destroy = .returned → s.armed = false ∧ s.timer = .idle ∧ s.queued = false ∧ s.task = .idle

variable {s : NfbNetDevice}

theorem task_ends (h : OneWork s) (hs : s.sched = true → s.queued = true ∨ s.task ≠ .idle ∨ s.timer = .schedule) (hr : s.running = true) :
    ∃ l : List Act, (∀ a ∈ l, a = .task) ∧ (run step s l).running = true ∧
      (run step s l).timer = s.timer ∧ s.updates ≤ (run step s l).updates ∧ (run step s l).task = .idle ∧
      (run step s l).queued = false ∧ ((run step s l).sched = true ↔ s.timer = .schedule) := by
  obtain ⟨h1, h2, h3⟩ := h
  cases ht : s.task with
  | idle =>
    cases hq : s.queued with
    | false =>
      refine ⟨[], by simp, hr, rfl, le_rfl, ht, hq, fun hsc => ?_, fun hsch => (h3 hsch).1⟩
      simpa [ht, hq] using hs hsc
    | true =>
      obtain ⟨h4, -, h6⟩ := h1 hq
      refine ⟨[.task, .task, .task, .task, .task], by simp, ?_⟩
      simp [run, step, nfbNetServiceTask, ht, hq, hr, h6]
  | entered =>
    obtain ⟨h4, h5, h6⟩ := h2 (by simp [ht])
    refine ⟨[.task, .task, .task, .task], by simp, ?_⟩
    simp [run, step, nfbNetServiceTask, ht, hr, h5, h6]
  | update =>
    obtain ⟨h4, h5, h6⟩ := h2 (by simp [ht])
    refine ⟨[.task, .task, .task], by simp, ?_⟩
    simp [run, step, nfbNetServiceTask, ht, hr, h5, h6]
  | test =>
    obtain ⟨h4, h5, h6⟩ := h2 (by simp [ht])
    refine ⟨[.task, .task], by simp, ?_⟩
    simp [run, step, nfbNetServiceTask, ht, hr, h5, h6]
  | clear =>
    obtain ⟨h4, h5, h6⟩ := h2 (by simp [ht])
    refine ⟨[.task], by simp, ?_⟩
    simp [run, step, nfbNetServiceTask, ht, hr, h5, h6]

theorem timer_queues (ht : s.timer ≠ .idle) (hs : s.sched = true ↔ s.timer = .schedule) (hr : s.running = true) :
    ∃ l : List Act, (∀ a ∈ l, a = .timer) ∧ (run step s l).running = true ∧ (run step s l).queued = true ∧
      (run step s l).task = s.task ∧ (run step s l).updates = s.updates := by
  cases hp : s.timer with
  | idle => exact absurd hp ht
  | entered =>
    refine ⟨[.timer, .timer, .timer, .timer], by simp, ?_⟩
    simp [run, step, nfbNetServiceTimer, hp, hr, (by simpa [hp] using hs : s.sched = false)]
  | check =>
    refine ⟨[.timer, .timer, .timer], by simp, ?_⟩
    simp [run, step, nfbNetServiceTimer, hp, hr, (by simpa [hp] using hs : s.sched = false)]
  | set =>
    refine ⟨[.timer, .timer], by simp, ?_⟩
    simp [run, step, nfbNetServiceTimer, hp, hr, (by simpa [hp] using hs : s.sched = false)]
  | schedule =>
    refine ⟨[.timer], by simp, ?_⟩
    simp [run, step, nfbNetServiceTimer, hp, hr]

theorem leadsToUpdate (h : OneWork s) (hs : s.sched = true → s.queued = true ∨ s.task ≠ .idle ∨ s.timer = .schedule)
    (ht : s.timer ≠ .idle) (hr : s.running = true) : LeadsToUpdate s := by
  obtain ⟨l, hl, hr₁, ht₁, hu₁, hk₁, -, hs₁⟩ := task_ends h hs hr
  generalize hs' : run step s l = s₁ at hr₁ ht₁ hu₁ hk₁ hs₁
  obtain ⟨m, hm, hr₂, hq₂, hk₂, hu₂⟩ := timer_queues (ht₁.symm ▸ ht) (ht₁.symm ▸ hs₁) hr₁
  generalize hs'' : run step s₁ m = s₂ at hr₂ hq₂ hk₂ hu₂
  refine ⟨l ++ m ++ [.task, .task, .task], ?_, ?_⟩
  · intro a ha
    rw [List.mem_append, List.mem_append] at ha
    rcases ha with (ha | ha) | ha
    · exact Or.inr (hl a ha)
    · exact Or.inl (hm a ha)
    · exact Or.inr (by simpa using ha)
  · rw [run_append, run_append, hs', hs'']
    simp only [run, List.foldl_cons, List.foldl_nil, step, nfbNetServiceTask, hk₂.trans hk₁, hq₂, hr₂, if_true]
    omega

/-! ## Runs -/

/-- The work item finds the interface up, `cancel_work_sync` finds no work item in the queue, and none is queued or runs when
`unregister_netdev` has returned. -/
def Clean (s : NfbNetDevice) : Act → Prop
  | .task => s.task = .entered → s.running = true
  | .destroy =>
    (s.destroy = .notCalled → s.task = .idle → s.queued = false) ∧
      (s.destroy = .unregistered → s.queued = false ∧ s.task = .idle)
  | _ => True

theorem monitored_iff (h : Inv s) :
    Monitored s ↔ (s.sched = true → s.queued = true ∨ s.task ≠ .idle ∨ s.timer = .schedule) ∧ s.bug = false ∧
      (s.destroy = .returned → s.queued = false ∧ s.task = .idle) := by
  refine ⟨fun hM => ⟨hM.sched, hM.noBug, fun hd => (hM.gone hd).2.2⟩, fun ⟨hs, hb, hg⟩ => ?_⟩
  refine ⟨hs, leadsToUpdate h.toOneWork hs, hb, fun hd => ?_⟩
  obtain ⟨hr, hl⟩ := h.unregister (by simp [Registered, hd])
  obtain ⟨ha, ht⟩ := h.down hr hl (by simp [hd])
  exact ⟨ha, ht, hg hd⟩

theorem clean_iff (s : NfbNetDevice) (a : Act) (h : Inv s) (hM : Monitored s) : Clean s a ↔ Monitored (step s a) := by
  rw [monitored_iff (step_inv s a h)]
  rw [monitored_iff h] at hM
  obtain ⟨hs, hb, hg⟩ := hM
  obtain ⟨⟨h1, h2, h3⟩, h4, h5, h6, h7, h8⟩ := h
  cases a with
  | «open» =>
    refine iff_of_true trivial ?_
    unfold step nfbNetOpen
    grind [Registered]
  | openEnd ok =>
    refine iff_of_true trivial ?_
    unfold step nfbNetOpenEnd
    grind [Registered]
  | close =>
    refine iff_of_true trivial ?_
    unfold step nfbNetClose
    grind [Registered]
  | closeEnd =>
    refine iff_of_true trivial ?_
    unfold step nfbNetCloseEnd
    grind [Registered]
  | expire =>
    refine iff_of_true trivial ?_
    unfold step
    grind [Registered]
  | timer =>
    refine iff_of_true trivial ?_
    unfold step nfbNetServiceTimer
    cases ht : s.timer <;> grind [Registered]
  | task =>
    -- only the work item that finds the interface down leaves the flag
    unfold Clean step nfbNetServiceTask
    cases ht : s.task <;> grind [Registered]
  | destroy =>
    unfold Clean step nfbNetDeviceDestroy
    cases hd : s.destroy <;> grind [Registered]

/-- In no run `BUG_ON` is hit before the device is freed; and the monitoring is right in all states reached exactly when every step
meets the condition. -/
theorem link_monitored_iff (acts : List Act) :
    (∀ l, l <+: acts → (run step .init l).destroy ≠ .returned → (run step .init l).bug = false) ∧
      ((∀ l, l <+: acts → Monitored (run step .init l)) ↔ Meets step Clean .init acts) := by
  refine ⟨fun l _ => (run_inv step_inv l .init Inv.init).noBug, ?_⟩
  refine run_all_iff clean_iff step_inv acts .init Inv.init ((monitored_iff Inv.init).2 ⟨nofun, rfl, nofun⟩)

/-- The interface is closed between an expiry of the timer and the work item, and opened again: the flag stays set, and neither the
handler nor the work item gets to an update any more. -/
def closedInBetween : List Act :=
  [.open, .openEnd true, .expire, .timer, .timer, .timer, .timer, .close, .closeEnd, .task, .task, .open, .openEnd true, .expire]

theorem flag_stuck : (run step .init closedInBetween).running = true ∧ (run step .init closedInBetween).timer = .entered ∧
    (run step .init closedInBetween).sched = true ∧ (run step .init closedInBetween).queued = false ∧
    (run step .init closedInBetween).task = .idle ∧ ¬Monitored (run step .init closedInBetween) := by
  refine ⟨by decide, by decide, by decide, by decide, by decide, fun h => ?_⟩
  exact absurd (h.sched (by decide)) (by decide)

end NdkSw.Nfb.NetService

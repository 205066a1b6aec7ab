/-
Opening and stopping an XDP interface (`nfb_xdp_open` and `nfb_xdp_stop` of `xdp/ethdev.c`) over the calls on its channels: which of
them run afterwards, and what the call leaves scheduled.
-/
import NdkSw.Xdp.Channel

namespace NdkSw.Xdp.Channel

open Ndp Ring

/-! ## Data model -/

/-- A `struct nfb_ethdev`: its channels, and how often its link work and its link timer were scheduled. -/
structure XdpIface where
  channels : List Sys
  linkWork : Nat
  linkTimer : Nat

/-- The loop of `nfb_start_channels`, from channel `i` on; its result is that of the last channel. -/
def startChannels (env : Nat → StartEnv) : Nat → List Sys → Int → Option (List Sys × Int)
  | _, [], ret => some ([], ret)
  | i, c :: l, _ =>
    (channelStartPp (env i) c.ch).bind fun r =>
    (startChannels env (i + 1) l r.2).map fun q => ({ c with ch := r.1 } :: q.1, q.2)

/-- `nfb_start_channels`; `garbage` is what `ret` holds before it is set. -/
def nfbStartChannels (env : Nat → StartEnv) (garbage : Int) (s : XdpIface) : Option (XdpIface × Int) :=
  (startChannels env 0 s.channels garbage).map fun q => ({ s with channels := q.1 }, q.2)

/-- `nfb_xdp_open`. -/
def nfbXdpOpen (env : Nat → StartEnv) (garbage : Int) (s : XdpIface) : Option (XdpIface × Int) :=
  (nfbStartChannels env garbage s).map fun r =>
    ({ r.1 with linkWork := r.1.linkWork + 1, linkTimer := r.1.linkTimer + 1 }, r.2)

/-- The loop of `nfb_stop_channels`. -/
def stopChannels : List Sys → Option (List Sys)
  | [] => some []
  | c :: l => (channelStop c.ch).bind fun r => (stopChannels l).map fun q => { c with ch := r.1 } :: q

/-- `nfb_xdp_stop`. -/
def nfbXdpStop (s : XdpIface) : Option XdpIface := (stopChannels s.channels).map fun q => { s with channels := q }

/-- What happens to an interface: it is opened and stopped, and calls come for a channel of it. -/
inductive IfaceAct
  | ndoOpen (env : Nat → StartEnv) (garbage : Int)
  | ndoStop
  | channel (i : Nat) (a : Act)

def ifaceStep (s : XdpIface) : IfaceAct → Option XdpIface
  | .ndoOpen env garbage => (nfbXdpOpen env garbage s).map Prod.fst
  | .ndoStop => nfbXdpStop s
  | .channel i a =>
    match s.channels[i]? with
    | none => some s
    | some c => (step c a).map fun c' => { s with channels := s.channels.set i c' }

/-- An interface with `n` channels in zeroed memory. -/
def XdpIface.init (n : Nat) : XdpIface := { channels := List.replicate n Sys.init, linkWork := 0, linkTimer := 0 }

/-! ## One channel -/

/-- The channel runs after the loop. -/
def Sys.RunsAfter (e : StartEnv) (c : Sys) : Prop := c.ch.isRunning = true ∨ e.Fine

/-- The start of the channel succeeds; that of a channel which runs already does not. -/
def Sys.StartsNow (e : StartEnv) (c : Sys) : Prop := c.ch.isRunning = false ∧ e.Fine

theorem startPp_spec {c : Sys} (e : StartEnv) (h : Booked c.ch) :
    ∃ r, channelStartPp e c.ch = some r ∧ Booked r.1 ∧ (r.1.isRunning = true ↔ c.RunsAfter e) ∧ (r.2 = 0 ↔ c.StartsNow e) := by
  obtain ⟨r, hr⟩ := channelStart_some .pp e h (Or.inr fun hn => nomatch hn.1)
  refine ⟨r, hr, (channelStart_booked h hr).1, ?_⟩
  unfold Sys.RunsAfter Sys.StartsNow
  cases hrun : c.ch.isRunning with
  | true =>
    unfold channelStart at hr
    rw [hrun, if_pos rfl] at hr
    cases hr
    have hbusy : eBusy ≠ 0 := by decide
    exact ⟨iff_of_true hrun (Or.inl rfl), iff_of_false hbusy (fun hs => nomatch hs.1)⟩
  | false =>
    obtain ⟨ch', ret, heq, hs⟩ := channelStart_spec .pp e _ (h.2 hrun) hrun (fun hn => nomatch hn.1)
    rw [heq] at hr
    cases hr
    by_cases hf : e.Fine
    · obtain ⟨h0, hup, -⟩ := hs.fine hf
      exact ⟨iff_of_true hup (Or.inr hf), iff_of_true h0 ⟨rfl, hf⟩⟩
    · obtain ⟨hne, hdown, -⟩ := hs.failed hf
      refine ⟨iff_of_false (by rw [hdown]; exact Bool.false_ne_true) ?_, iff_of_false hne fun hs => hf hs.2⟩
      rintro (h' | h')
      · cases h'
      · exact hf h'

/-! ## The loops -/

/-- All channels keep their books. -/
def AllBooked (l : List Sys) : Prop := ∀ c ∈ l, Booked c.ch

def AllRun (l : List Sys) : Prop := ∀ c ∈ l, c.ch.isRunning = true

def NoneRuns (l : List Sys) : Prop := ∀ c ∈ l, c.ch.isRunning = false

/-- Every channel of the loop runs after it. -/
def AllRunAfter (env : Nat → StartEnv) : Nat → List Sys → Prop
  | _, [] => True
  | i, c :: l => c.RunsAfter (env i) ∧ AllRunAfter env (i + 1) l

/-- The last start succeeds; without any, the result is zero by chance. -/
def LastStarts (env : Nat → StartEnv) (garbage : Int) : Nat → List Sys → Prop
  | _, [] => garbage = 0
  | i, [c] => c.StartsNow (env i)
  | i, _ :: c :: l => LastStarts env garbage (i + 1) (c :: l)

theorem lastStarts_cons (env : Nat → StartEnv) (g g' : Int) (i : Nat) (c : Sys) (l : List Sys) :
    LastStarts env g i (c :: l) ↔ LastStarts env g' i (c :: l) := by
  induction l generalizing i c with
  | nil => exact Iff.rfl
  | cons d l ih => exact ih (i + 1) d

theorem startChannels_spec (env : Nat → StartEnv) (i : Nat) (l : List Sys) (ret : Int) (h : AllBooked l) :
    ∃ l' ret', startChannels env i l ret = some (l', ret') ∧ AllBooked l' ∧ (AllRun l' ↔ AllRunAfter env i l) ∧
      (ret' = 0 ↔ LastStarts env ret i l) := by
  induction l generalizing i ret with
  | nil =>
    have hnil : ∀ {P : Sys → Prop}, ∀ c ∈ ([] : List Sys), P c := fun c hc => absurd hc List.not_mem_nil
    exact ⟨[], ret, rfl, hnil, iff_of_true hnil trivial, Iff.rfl⟩
  | cons c l ih =>
    obtain ⟨r, hr, hb, hrun, hret⟩ := startPp_spec (env i) (h c (List.mem_cons_self ..))
    obtain ⟨l', ret', heq, hbl, hall, hlast⟩ := ih (i + 1) r.2 fun d hd => h d (List.mem_cons_of_mem c hd)
    refine ⟨{ c with ch := r.1 } :: l', ret', ?_, ?_, ?_, ?_⟩
    · rw [startChannels, hr, Option.bind_some, heq]
      rfl
    · intro d hd
      rcases List.mem_cons.1 hd with rfl | hd
      · exact hb
      · exact hbl d hd
    · rw [AllRunAfter, ← hrun, ← hall]
      exact List.forall_mem_cons
    · cases l with
      | nil =>
        rw [startChannels] at heq
        cases heq
        exact hret
      | cons d l => exact hlast.trans (lastStarts_cons env r.2 ret (i + 1) d l)

theorem stopChannels_spec {l : List Sys} (h : AllBooked l) : ∃ l', stopChannels l = some l' ∧ AllBooked l' ∧ NoneRuns l' := by
  induction l with
  | nil => exact ⟨[], rfl, fun c hc => absurd hc List.not_mem_nil, fun c hc => absurd hc List.not_mem_nil⟩
  | cons c l ih =>
    obtain ⟨ch', ret, heq, hidle, hrun, -⟩ := channelStop_spec (h c (List.mem_cons_self ..))
    obtain ⟨l', heql, hbl, hnl⟩ := ih fun d hd => h d (List.mem_cons_of_mem c hd)
    refine ⟨{ c with ch := ch' } :: l', ?_, ?_, ?_⟩
    · rw [stopChannels, heq, Option.bind_some, heql]
      rfl
    · intro d hd
      rcases List.mem_cons.1 hd with rfl | hd
      · exact ⟨fun hyes => absurd (hrun.symm.trans hyes) nofun, fun _ => hidle⟩
      · exact hbl d hd
    · intro d hd
      rcases List.mem_cons.1 hd with rfl | hd
      · exact hrun
      · exact hnl d hd

/-! ## Runs -/

theorem ifaceStep_booked (s : XdpIface) (a : IfaceAct) (s' : XdpIface) (h : AllBooked s.channels) (hs : ifaceStep s a = some s') :
    AllBooked s'.channels := by
  cases a with
  | ndoOpen env garbage =>
    obtain ⟨l', ret', heq, hb, -⟩ := startChannels_spec env 0 s.channels garbage h
    obtain ⟨r, hr, rfl⟩ := Option.map_eq_some_iff.1 hs
    obtain ⟨r₁, hr₁, rfl⟩ := Option.map_eq_some_iff.1 hr
    obtain ⟨r₂, hr₂, rfl⟩ := Option.map_eq_some_iff.1 hr₁
    rw [heq] at hr₂
    cases hr₂
    exact hb
  | ndoStop =>
    obtain ⟨l', heq, hb, -⟩ := stopChannels_spec h
    obtain ⟨q, hq, rfl⟩ := Option.map_eq_some_iff.1 hs
    rw [heq] at hq
    cases hq
    exact hb
  | channel i a =>
    unfold ifaceStep at hs
    dsimp only at hs
    cases hc : s.channels[i]? with
    | none =>
      rw [hc] at hs
      cases hs
      exact h
    | some c =>
      rw [hc] at hs
      obtain ⟨c', hc', rfl⟩ := Option.map_eq_some_iff.1 hs
      intro d hd
      rcases List.mem_or_eq_of_mem_set hd with hd | rfl
      · exact h d hd
      · exact step_booked c a d (h c (List.mem_of_getElem? hc)) hc'

theorem reached_booked {n : Nat} {acts : List IfaceAct} {s : XdpIface} (h : runM ifaceStep (.init n) acts = some s) :
    AllBooked s.channels := by
  refine runM_inv (I := fun s : XdpIface => AllBooked s.channels) (C := fun _ => True)
    (fun s a s' _ hb hs => ifaceStep_booked s a s' hb hs) acts (.init n) s (fun _ _ => trivial) ?_ h
  intro c hc
  obtain ⟨-, rfl⟩ := List.mem_replicate.1 hc
  exact Booked.init

/-! ## Open and stop -/

/-- An open is all or nothing, and a stop leaves no channel running. -/
structure OpenStopRight (env : Nat → StartEnv) (garbage : Int) (s : XdpIface) : Prop where
  opened : ∃ s' ret, nfbXdpOpen env garbage s = some (s', ret) ∧ (ret = 0 ↔ AllRun s'.channels) ∧
    (ret ≠ 0 → NoneRuns s'.channels ∧ s'.linkWork = s.linkWork ∧ s'.linkTimer = s.linkTimer)
  stopped : ∃ s', nfbXdpStop s = some s' ∧ NoneRuns s'.channels

/-- In every state that an interface reaches, opening it is all or nothing exactly if every channel that does not run yet starts, and the
last one does not run yet. -/
theorem xdp_open_right_iff {n : Nat} {acts : List IfaceAct} {s : XdpIface} (env : Nat → StartEnv) (garbage : Int)
    (h : runM ifaceStep (.init n) acts = some s) :
    OpenStopRight env garbage s ↔ AllRunAfter env 0 s.channels ∧ LastStarts env garbage 0 s.channels := by
  have hb := reached_booked h
  obtain ⟨l, ret, hstart, -, hall, hlast⟩ := startChannels_spec env 0 s.channels garbage hb
  have hopen : nfbXdpOpen env garbage s =
      some ({ channels := l, linkWork := s.linkWork + 1, linkTimer := s.linkTimer + 1 }, ret) := by
    unfold nfbXdpOpen nfbStartChannels
    rw [hstart]
    rfl
  constructor
  · rintro ⟨⟨s', ret', heq, hzero, hfail⟩, -⟩
    rw [hopen] at heq
    cases heq
    -- The work is scheduled whatever the result, so that only a success is right.
    have h0 : ret = 0 := by
      by_contra hne
      exact absurd (hfail hne).2.1 (Nat.succ_ne_self _)
    exact ⟨hall.1 (hzero.1 h0), hlast.1 h0⟩
  · rintro ⟨hrun, hret⟩
    obtain ⟨l', hstop, -, hnone⟩ := stopChannels_spec hb
    refine ⟨⟨_, ret, hopen, iff_of_true (hlast.2 hret) (hall.2 hrun), fun hne => absurd (hlast.2 hret) hne⟩, ?_⟩
    exact ⟨{ s with channels := l' }, by rw [nfbXdpStop, hstop]; rfl, hnone⟩

theorem two_channels_open :
    runM ifaceStep (.init 2) [] = some (XdpIface.init 2) ∧ OpenStopRight (fun _ => fine) 5 (XdpIface.init 2) := by
  refine ⟨rfl, (@xdp_open_right_iff 2 [] (XdpIface.init 2) (fun _ => fine) 5 rfl).2 ⟨?_, ?_⟩⟩
  · exact ⟨Or.inr (by decide), Or.inr (by decide), trivial⟩
  · exact ⟨rfl, by decide⟩

/-- The first of two channels gets no memory: the open returns zero without it. -/
def firstFails : Nat → StartEnv := fun i => if i = 0 then { fine with allocRx := .early } else fine

/-- The open returns zero with one channel of two, and an error of the last channel leaves the first one and the timer running. -/
theorem partial_open :
    (¬ OpenStopRight firstFails 0 (XdpIface.init 2) ∧
        ∃ s, nfbXdpOpen firstFails 0 (XdpIface.init 2) = some (s, 0) ∧ ¬ AllRun s.channels) ∧
      ∃ s, nfbXdpOpen (fun i => firstFails (1 - i)) 0 (XdpIface.init 2) = some (s, eNomem) ∧ ¬ NoneRuns s.channels ∧ s.linkTimer = 1 := by
  have hfirst : ∃ s, nfbXdpOpen firstFails 0 (XdpIface.init 2) = some (s, 0) ∧ ¬ AllRun s.channels :=
    ⟨_, rfl, fun hall => absurd (hall _ (List.mem_cons_self ..)) (by decide)⟩
  refine ⟨⟨?_, hfirst⟩, _, rfl, ?_, rfl⟩
  · rintro ⟨⟨s', ret, heq, hzero, -⟩, -⟩
    obtain ⟨s, hs, hno⟩ := hfirst
    rw [hs] at heq
    cases heq
    exact hno (hzero.1 rfl)
  · exact fun hnone => absurd (hnone _ (List.mem_cons_self ..)) (by decide)

end NdkSw.Xdp.Channel

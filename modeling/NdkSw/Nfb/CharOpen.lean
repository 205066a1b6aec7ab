/-
Opening and closing the device file (`char.c`): the count of openers, the open and release of the child drivers, and
the callback of the last release, which reloads the card. The count goes up before the allocations and before the
children are opened; of the exits behind it only the one for `O_APPEND` takes it down again.
-/
import NdkSw.Nfb.Lock
import NdkSw.Shared.Words

namespace NdkSw.Nfb

open Ndp Ring

/-! ## Data model -/

/-- The states of `struct nfb_device` that the device file can see. -/
inductive NfbDeviceStatus
  | init | ok | release
  deriving DecidableEq, Repr

/-- A slot of `nfb_registered_drivers` with the slot of `list_drivers` that belongs to it: `attached` is the status
`NFB_DRIVER_STATUS_OK`. The drivers of the table have both of `open` and `release` or none of them. -/
structure ChildDriver where
  attached : Bool
  hasOpen : Bool
  hasRelease : Bool
  paired : hasRelease = hasOpen
  deriving DecidableEq

/-- The part of `struct nfb_device` that the device file works on. `apps` are the open handles (`struct nfb_app`,
with `next` for the next one), `called` counts the calls of the callback. -/
structure CharDev where
  status : NfbDeviceStatus
  openers : Int
  charLrCb : Bool
  drivers : List ChildDriver
  lockList : List (NfbLockItem Nat)
  apps : List Nat
  next : Nat
  called : Nat

/-- What an open meets: the memory for the application and for its copy of the device tree, and what the `open` of
each child driver returns. -/
structure OpenEnv where
  allocApp : Bool
  allocFdt : Bool
  childOpen : Nat → Int

/-- The result of `nfb_char_open`: its return value and the child drivers that were opened and released, in the order
of the calls. -/
structure OpenResult where
  ret : Int
  opened : List Nat
  released : List Nat
  deriving DecidableEq, Repr

/-! ## Calls -/

/-- `nfb->list_drivers[i].status == NFB_DRIVER_STATUS_OK && nfb_registered_drivers[i].open`. -/
def ChildDriver.opens (d : ChildDriver) : Bool := d.attached && d.hasOpen

/-- The same test for `release`. -/
def ChildDriver.releases (d : ChildDriver) : Bool := d.attached && d.hasRelease

/-- The loop of `nfb_char_open` over the drivers from `i` on: the return value, the value of `i` behind the loop and
the drivers that were opened. -/
def openChildren (childOpen : Nat → Int) : Nat → List ChildDriver → Int × Nat × List Nat
  | i, [] => (0, i, [])
  | i, d :: l =>
    if d.opens then
      if childOpen i ≠ 0 then (childOpen i, i, [])
      else
        let r := openChildren childOpen (i + 1) l
        (r.1, r.2.1, i :: r.2.2)
    else openChildren childOpen (i + 1) l

/-- The loops of `err_open_child` and `nfb_char_release`: the drivers below `i` that are released, from the last to
the first. -/
def releaseChildren (drivers : List ChildDriver) : Nat → List Nat
  | 0 => []
  | i + 1 =>
    match drivers[i]? with
    | some d => if d.releases then i :: releaseChildren drivers i else releaseChildren drivers i
    | none => releaseChildren drivers i

/-- `nfb_char_open`. -/
def nfbCharOpen (append : Bool) (env : OpenEnv) (s : CharDev) : CharDev × OpenResult :=
  if s.status ≠ .ok then (s, { ret := eNodev, opened := [], released := [] })
  else if s.openers + 1 > 1 ∧ append then (s, { ret := eBusy, opened := [], released := [] })
  else
    let s := { s with openers := s.openers + 1 }
    if !env.allocApp then (s, { ret := eNomem, opened := [], released := [] })
    else if !env.allocFdt then (s, { ret := eNomem, opened := [], released := [] })
    else
      match openChildren env.childOpen 0 s.drivers with
      | (ret, i, opened) =>
        if ret ≠ 0 then
          ({ s with lockList := nfbLockRelease s.next s.lockList },
            { ret, opened, released := releaseChildren s.drivers i })
        else ({ s with apps := s.next :: s.apps, next := s.next + 1 }, { ret := 0, opened, released := [] })

/-- `nfb_char_release` of an open handle. -/
def nfbCharRelease (app : Nat) (s : CharDev) : CharDev :=
  let s := { s with
    lockList := nfbLockRelease app s.lockList
    apps := s.apps.erase app
    openers := s.openers - 1 }
  if s.openers = 0 ∧ s.charLrCb then { s with called := s.called + 1 } else s

/-- `nfb_char_set_lr_callback`. -/
def nfbCharSetLrCallback (s : CharDev) : CharDev × Int :=
  if s.charLrCb then (s, eExist) else ({ s with status := .release, charLrCb := true }, 0)

inductive CharAct
  | open_ (append : Bool) (env : OpenEnv)
  | release (app : Nat)
  | setLrCallback

/-- One call. The kernel calls `release` once for a handle, when it is open. -/
def charStep (s : CharDev) : CharAct → CharDev
  | .open_ append env => (nfbCharOpen append env s).1
  | .release app => if app ∈ s.apps then nfbCharRelease app s else s
  | .setLrCallback => (nfbCharSetLrCallback s).1

/-- A device as `nfb_probe` leaves it. -/
def CharDev.initial (drivers : List ChildDriver) : CharDev :=
  { status := .ok, openers := 0, charLrCb := false, drivers, lockList := [], apps := [], next := 0, called := 0 }

/-! ## What the calls should do -/

/-- The call closes the last open handle. -/
def ClosesLast (s : CharDev) : CharAct → Prop
  | .release app => s.apps = [app]
  | _ => False

instance (s : CharDev) (a : CharAct) : Decidable (ClosesLast s a) := by
  cases a <;> unfold ClosesLast <;> infer_instance

/-- What a call does right after every run: a failed open releases the children that it has opened, each of them once
and in the opposite order, a successful one none; and an open with `O_APPEND` succeeds only for the first handle. -/
structure OpenRight (s : CharDev) (a : CharAct) : Prop where
  unwind : ∀ append env, a = .open_ append env → (nfbCharOpen append env s).2.opened.Nodup ∧
    (nfbCharOpen append env s).2.released =
      if (nfbCharOpen append env s).2.ret = 0 then [] else (nfbCharOpen append env s).2.opened.reverse
  append : ∀ env, a = .open_ true env → (nfbCharOpen true env s).2.ret = 0 → s.apps = []

/-- The whole contract of a call: also the count is the number of open handles behind it, and the callback is called
if it is set and the call closes the last handle, and never else. -/
structure CharRight (s : CharDev) (a : CharAct) : Prop extends OpenRight s a where
  counted : (charStep s a).openers = (charStep s a).apps.length
  callback : (charStep s a).called = if s.charLrCb ∧ ClosesLast s a then s.called + 1 else s.called

/-- There is no memory, or a child driver refuses. -/
def OpenEnv.Fails (env : OpenEnv) (drivers : List ChildDriver) : Prop :=
  env.allocApp = false ∨ env.allocFdt = false ∨ ∃ i d, drivers[i]? = some d ∧ d.opens ∧ env.childOpen i ≠ 0

/-- The call is an open that gets past the test of `O_APPEND` and then fails. -/
def FailsCounted (s : CharDev) : CharAct → Prop
  | .open_ append env => s.status = .ok ∧ (append → s.apps = []) ∧ env.Fails s.drivers
  | _ => False

/-! ## The child drivers -/

theorem ChildDriver.releases_eq (d : ChildDriver) : d.releases = d.opens := by
  rw [ChildDriver.releases, ChildDriver.opens, d.paired]

theorem openChildren_fails_iff (childOpen : Nat → Int) (l : List ChildDriver) (i : Nat) :
    (openChildren childOpen i l).1 ≠ 0 ↔ ∃ j d, l[j]? = some d ∧ d.opens ∧ childOpen (i + j) ≠ 0 := by
  induction l generalizing i with
  | nil => simp [openChildren]
  | cons d l ih =>
    have hsplit : (∃ j e, (d :: l)[j]? = some e ∧ e.opens ∧ childOpen (i + j) ≠ 0) ↔
        (d.opens ∧ childOpen i ≠ 0) ∨ ∃ j e, l[j]? = some e ∧ e.opens ∧ childOpen (i + 1 + j) ≠ 0 := by
      constructor
      · rintro ⟨j, e, he, ho, hc⟩
        cases j with
        | zero => cases he; exact .inl ⟨ho, hc⟩
        | succ j => exact .inr ⟨j, e, he, ho, by rwa [Nat.add_assoc, Nat.add_comm 1]⟩
      · rintro (⟨ho, hc⟩ | ⟨j, e, he, ho, hc⟩)
        · exact ⟨0, d, rfl, ho, hc⟩
        · exact ⟨j + 1, e, he, ho, by rwa [Nat.add_assoc, Nat.add_comm 1] at hc⟩
    rw [hsplit, openChildren]
    split
    case isTrue ho =>
      split
      case isTrue hc => simp [ho, hc]
      case isFalse hc => simp only [ih, ho, hc, and_false, false_or]
    case isFalse ho => simp only [ih, ho, false_and, false_or, Bool.false_eq_true]

theorem openChildren_opened (childOpen : Nat → Int) (drivers : List ChildDriver) :
    ∀ (l m : List ChildDriver), m ++ l = drivers →
      releaseChildren drivers (openChildren childOpen m.length l).2.1 =
        (openChildren childOpen m.length l).2.2.reverse ++ releaseChildren drivers m.length := by
  intro l
  induction l with
  | nil => intro m _; simp [openChildren]
  | cons d l ih =>
    intro m hm
    have hd : drivers[m.length]? = some d := by simp [← hm]
    have hrel : releaseChildren drivers (m.length + 1) =
        if d.opens then m.length :: releaseChildren drivers m.length else releaseChildren drivers m.length := by
      rw [releaseChildren, hd, ← d.releases_eq]
    have hrec := ih (m ++ [d]) (by rw [← hm, List.append_assoc, List.singleton_append])
    rw [List.length_append, List.length_singleton, hrel] at hrec
    rw [openChildren]
    split
    case isTrue ho =>
      rw [if_pos ho] at hrec
      split
      · rfl
      · simpa using hrec
    case isFalse ho =>
      rw [if_neg ho] at hrec
      exact hrec

theorem openChildren_ge (childOpen : Nat → Int) (l : List ChildDriver) (i : Nat) :
    (openChildren childOpen i l).2.2.Nodup ∧ ∀ j ∈ (openChildren childOpen i l).2.2, i ≤ j := by
  induction l generalizing i with
  | nil => simp [openChildren]
  | cons d l ih =>
    obtain ⟨hnd, hge⟩ := ih (i + 1)
    rw [openChildren]
    split
    · split
      · simp
      · refine ⟨List.nodup_cons.2 ⟨fun h => absurd (hge i h) (by omega), hnd⟩, fun j hj => ?_⟩
        rcases List.mem_cons.1 hj with rfl | hj
        · exact le_rfl
        · exact (Nat.le_succ i).trans (hge j hj)
    · exact ⟨hnd, fun j hj => (Nat.le_succ i).trans (hge j hj)⟩

theorem openChildren_unwind (childOpen : Nat → Int) (drivers : List ChildDriver) :
    releaseChildren drivers (openChildren childOpen 0 drivers).2.1 = (openChildren childOpen 0 drivers).2.2.reverse := by
  have h := openChildren_opened childOpen drivers drivers [] rfl
  rwa [List.length_nil, releaseChildren, List.append_nil] at h

/-! ## One call -/

/-- An open finds the device closed or is refused for `O_APPEND`; or it counts, and then it fails or has a new
handle. -/
theorem nfbCharOpen_cases (append : Bool) (env : OpenEnv) (s : CharDev) :
    (nfbCharOpen append env s).1 = s ∧ (nfbCharOpen append env s).2.ret ≠ 0 ∧
        (s.status ≠ .ok ∨ append ∧ 0 < s.openers) ∨
      (s.status = .ok ∧ (append → s.openers ≤ 0)) ∧
        (env.Fails s.drivers ∧ (nfbCharOpen append env s).2.ret ≠ 0 ∧
            (nfbCharOpen append env s).1 =
              { s with openers := s.openers + 1, lockList := (nfbCharOpen append env s).1.lockList } ∨
          ¬env.Fails s.drivers ∧
            (nfbCharOpen append env s).1 =
              { s with openers := s.openers + 1, apps := s.next :: s.apps, next := s.next + 1 }) := by
  have hfails := openChildren_fails_iff env.childOpen s.drivers 0
  simp only [Nat.zero_add] at hfails
  unfold nfbCharOpen
  split
  case isTrue h => exact .inl ⟨rfl, (by decide : eNodev ≠ 0), .inl h⟩
  case isFalse hok =>
    rw [not_not] at hok
    split
    case isTrue h => exact .inl ⟨rfl, (by decide : eBusy ≠ 0), .inr ⟨h.2, by omega⟩⟩
    case isFalse happ =>
      refine .inr ⟨⟨hok, fun h => by simp only [h, and_true] at happ; omega⟩, ?_⟩
      cases hm : env.allocApp with
      | false => exact .inl ⟨.inl hm, (by decide : eNomem ≠ 0), rfl⟩
      | true =>
        cases hf : env.allocFdt with
        | false => exact .inl ⟨.inr (.inl hf), (by decide : eNomem ≠ 0), rfl⟩
        | true =>
          by_cases hc : (openChildren env.childOpen 0 s.drivers).1 = 0
          · refine .inr ⟨?_, by simp [hc]⟩
            rintro (h | h | h)
            · rw [hm] at h; cases h
            · rw [hf] at h; cases h
            · exact hfails.2 h hc
          · exact .inl ⟨.inr (.inr (hfails.1 hc)), by simp [hc]⟩

theorem nfbCharOpen_unwind (append : Bool) (env : OpenEnv) (s : CharDev) :
    (nfbCharOpen append env s).2.opened.Nodup ∧ (nfbCharOpen append env s).2.released =
      if (nfbCharOpen append env s).2.ret = 0 then [] else (nfbCharOpen append env s).2.opened.reverse := by
  have hunwind := openChildren_unwind env.childOpen s.drivers
  have hnodup := (openChildren_ge env.childOpen s.drivers 0).1
  unfold nfbCharOpen
  split
  · exact ⟨List.nodup_nil, rfl⟩
  split
  · exact ⟨List.nodup_nil, rfl⟩
  dsimp only
  split
  · exact ⟨List.nodup_nil, rfl⟩
  split
  · exact ⟨List.nodup_nil, rfl⟩
  split
  case isTrue hret => exact ⟨hnodup, hunwind⟩
  case isFalse => exact ⟨hnodup, rfl⟩

/-! ## Runs -/

/-- No open handle is missing in the count. -/
def Counts (s : CharDev) : Prop := s.apps.length ≤ s.openers

theorem nfbCharRelease_fields (app : Nat) (s : CharDev) :
    (nfbCharRelease app s).openers = s.openers - 1 ∧ (nfbCharRelease app s).apps = s.apps.erase app ∧
      (nfbCharRelease app s).called = if s.openers - 1 = 0 ∧ s.charLrCb then s.called + 1 else s.called := by
  unfold nfbCharRelease
  dsimp only
  split
  · exact ⟨rfl, rfl, rfl⟩
  · exact ⟨rfl, rfl, rfl⟩

theorem setLrCallback_fields (s : CharDev) :
    (nfbCharSetLrCallback s).1.openers = s.openers ∧ (nfbCharSetLrCallback s).1.apps = s.apps ∧
      (nfbCharSetLrCallback s).1.called = s.called := by
  unfold nfbCharSetLrCallback
  split
  · exact ⟨rfl, rfl, rfl⟩
  · exact ⟨rfl, rfl, rfl⟩

theorem charStep_counts (s : CharDev) (a : CharAct) (h : Counts s) : Counts (charStep s a) := by
  unfold Counts at h ⊢
  cases a with
  | open_ append env =>
    simp only [charStep]
    rcases nfbCharOpen_cases append env s with ⟨he, -⟩ | ⟨-, ⟨-, -, he⟩ | ⟨-, he⟩⟩
    · rw [he]; exact h
    · rw [he]; dsimp only; omega
    · rw [he, List.length_cons]; dsimp only; omega
  | release app =>
    simp only [charStep]
    split
    case isTrue hmem =>
      obtain ⟨ho, ha, -⟩ := nfbCharRelease_fields app s
      have hlen := List.length_erase_of_mem hmem
      have hpos := List.length_pos_of_mem hmem
      rw [ho, ha, hlen]
      omega
    case isFalse => exact h
  | setLrCallback =>
    obtain ⟨ho, ha, -⟩ := setLrCallback_fields s
    simp only [charStep, ho, ha]
    exact h

variable {s : CharDev}

/-- An open with `O_APPEND` that succeeds had no other handle, whatever failed before. -/
theorem nfbCharOpen_append {env : OpenEnv} (h : Counts s) (hret : (nfbCharOpen true env s).2.ret = 0) : s.apps = [] := by
  unfold Counts at h
  rcases nfbCharOpen_cases true env s with ⟨-, hne, -⟩ | ⟨⟨-, happ⟩, -⟩
  · exact absurd hret hne
  · have := happ rfl
    exact List.length_eq_zero_iff.1 (by omega)

theorem Counts.openRight (h : Counts s) (a : CharAct) : OpenRight s a :=
  ⟨fun append env _ => nfbCharOpen_unwind append env s, fun _ _ hret => nfbCharOpen_append h hret⟩

/-- While the count is right, a call keeps the contract unless it is an open that fails behind the count. -/
theorem charRight_iff (h : s.openers = s.apps.length) (a : CharAct) : CharRight s a ↔ ¬FailsCounted s a := by
  have hopen : OpenRight s a := Counts.openRight (show (s.apps.length : Int) ≤ s.openers by omega) a
  cases a with
  | open_ append env =>
    rcases nfbCharOpen_cases append env s with ⟨he, -, hrefused⟩ | ⟨⟨hok, happ⟩, ⟨hf, -, he⟩ | ⟨hf, he⟩⟩
    · have hno : ¬FailsCounted s (.open_ append env) := by
        rintro ⟨hok, happ, -⟩
        rcases hrefused with hst | ⟨hap, hpos⟩
        · exact hst hok
        · rw [h, happ hap] at hpos
          exact absurd hpos (by decide)
      refine iff_of_true ⟨hopen, ?_, ?_⟩ hno
      · rw [charStep, he]; exact h
      · rw [charStep, he]; simp [ClosesLast]
    · have hfails : FailsCounted s (.open_ append env) := by
        refine ⟨hok, fun hap => ?_, hf⟩
        have := happ hap
        exact List.length_eq_zero_iff.1 (by omega)
      refine iff_of_false (fun hr => ?_) (not_not.2 hfails)
      -- the count is one ahead of the handles
      have hc := hr.counted
      rw [charStep, he] at hc
      dsimp only at hc
      omega
    · refine iff_of_true ⟨hopen, ?_, ?_⟩ fun hfails => hf hfails.2.2
      · rw [charStep, he, List.length_cons]; dsimp only; omega
      · rw [charStep, he]; simp [ClosesLast]
  | release app =>
    refine iff_of_true ?_ id
    by_cases hmem : app ∈ s.apps
    · obtain ⟨ho, ha, hcb⟩ := nfbCharRelease_fields app s
      have hlen := List.length_erase_of_mem hmem
      have hpos := List.length_pos_of_mem hmem
      have hlast : s.openers - 1 = 0 ↔ s.apps = [app] := by
        constructor
        · intro h1
          obtain ⟨x, hx⟩ := List.length_eq_one_iff.1 (show s.apps.length = 1 by omega)
          rw [hx, List.mem_singleton] at hmem
          rw [hx, hmem]
        · intro h1
          rw [h, h1]
          rfl
      have hstep : charStep s (.release app) = nfbCharRelease app s := if_pos hmem
      refine ⟨hopen, ?_, ?_⟩
      · rw [hstep, ho, ha, hlen]; omega
      · rw [hstep, hcb]
        exact if_congr (and_comm.trans (and_congr_right' hlast)) rfl rfl
    · have hstep : charStep s (.release app) = s := if_neg hmem
      refine ⟨hopen, by rw [hstep, h], ?_⟩
      have hlast : ¬ClosesLast s (.release app) := fun hl => hmem (by rw [show s.apps = [app] from hl]; simp)
      rw [hstep, if_neg fun hc => hlast hc.2]
  | setLrCallback =>
    obtain ⟨ho, ha, hcb⟩ := setLrCallback_fields s
    refine iff_of_true ⟨hopen, ?_, ?_⟩ id
    · simp only [charStep, ho, ha]; exact h
    · simp only [charStep, hcb]; simp [ClosesLast]

/-- In every run of calls, whatever fails, an open with `O_APPEND` succeeds only for the first handle and a failed
open releases the children it has opened. The count and the callback are right in the whole run if and only if no
open fails behind the count. -/
theorem handles_counted_iff (drivers : List ChildDriver) (acts : List CharAct) :
    Meets charStep OpenRight (.initial drivers) acts ∧
      (Meets charStep CharRight (.initial drivers) acts ↔
        Meets charStep (fun s a => ¬FailsCounted s a) (.initial drivers) acts) := by
  constructor
  · exact meets_of_inv (I := Counts) (fun _ a h => h.openRight a) charStep_counts acts _ (le_refl (0 : Int))
  · exact meets_iff (I := fun s => s.openers = s.apps.length) (fun s a h => charRight_iff h a)
      (fun s a hr _ => hr.counted) acts _ rfl

/-- The second of two opens finds no memory; then the callback is set and the first handle closed. -/
def failedOpenRun : List CharAct :=
  [.open_ false ⟨true, true, fun _ => 0⟩, .open_ false ⟨false, true, fun _ => 0⟩, .setLrCallback, .release 0]

/-- The open that found no memory is counted for ever, and the callback is not called when the last handle is
closed. -/
theorem failed_open_stays_counted :
    ¬Meets charStep CharRight (.initial []) failedOpenRun ∧
      (run charStep (.initial []) failedOpenRun).apps = [] ∧
      (run charStep (.initial []) failedOpenRun).charLrCb = true ∧
      (run charStep (.initial []) failedOpenRun).openers = 1 ∧
      (run charStep (.initial []) failedOpenRun).called = 0 := by
  refine ⟨?_, by decide, by decide, by decide, by decide⟩
  rintro ⟨-, hr, -⟩
  exact absurd hr.counted (by decide)

end NdkSw.Nfb

/-
Calls of several parties that work on shared locations, one access at a time, and take one lock. Under the lock a call may
bring the locations out of shape and has to bring them back before it unlocks. What the locations stand for is then the result
of the calls one after the other, in the order in which they held the lock, whatever the interleaving was.
-/
import NdkSw.Ring.Run

namespace Shared

/-- What is left of a call: the accesses to come, each a step of its own. A call that holds the lock gives it back as it
returns. -/
inductive Access (R : Type) (V : R → Type) (A : Type) where
  | ret (a : A)
  | read (r : R) (k : V r → Access R V A)
  | write (r : R) (v : V r) (p : Access R V A)
  | lock (k : Bool → Access R V A)
  | unlock (a : A)

/-- The locations, the calls on them, and what else changes them. -/
structure Locations (σ : Type) (R : Type) (V : R → Type) (Op A W : Type) where
  get : σ → (r : R) → V r
  set : σ → (r : R) → V r → σ
  start : Op → Access R V A
  outside : W → σ → σ

section

variable {σ R : Type} {V : R → Type} {Op A W T : Type}

/-- The locations, who holds the lock, the calls that run, and the calls that have returned, each where it gave back the lock
or, without the lock, where it returned. -/
structure CallState (σ : Type) (R : Type) (V : R → Type) (Op A T : Type) where
  mem : σ
  holder : Option T
  running : T → Option (Op × Access R V A)
  log : List (Op × A)

/-- A party calls, makes its next access, or is refused the lock; or there is a change from outside. -/
inductive CallAct (Op W T : Type) where
  | call (t : T) (op : Op)
  | step (t : T)
  | refuse (t : T)
  | outside (w : W)

def CallState.init (m : σ) : CallState σ R V Op A T where
  mem := m
  holder := none
  running := fun _ => none
  log := []

variable [DecidableEq T]

def CallState.go (s : CallState σ R V Op A T) (t : T) (op : Op) (p : Access R V A) : CallState σ R V Op A T :=
  { s with running := Function.update s.running t (some (op, p)) }

/-- A call returns. -/
def CallState.finish (s : CallState σ R V Op A T) (t : T) (op : Op) (a : A) : CallState σ R V Op A T :=
  { s with running := Function.update s.running t none, log := s.log ++ [(op, a)] }

variable (L : Locations σ R V Op A W)

/-- The next access of a call; it waits while another one holds the lock. -/
def accessStep (s : CallState σ R V Op A T) (t : T) (op : Op) : Access R V A → Option (CallState σ R V Op A T)
  | .ret a => some (s.finish t op a)
  | .read r k => some (s.go t op (k (L.get s.mem r)))
  | .write r v p => some ({ s with mem := L.set s.mem r v }.go t op p)
  | .lock k => if s.holder.isNone then some ({ s with holder := some t }.go t op (k true)) else none
  | .unlock a => some ({ s with holder := none }.finish t op a)

def callStep (s : CallState σ R V Op A T) : CallAct Op W T → Option (CallState σ R V Op A T)
  | .call t op => if (s.running t).isNone then some (s.go t op (L.start op)) else none
  | .step t =>
    match s.running t with
    | none => none
    | some (op, p) => accessStep L s t op p
  | .refuse t =>
    match s.running t with
    | some (op, .lock k) => some (s.go t op (k false))
    | _ => none
  | .outside w => some { s with mem := L.outside w s.mem }

/-! ## What the locations stand for -/

variable {D : Type}

/-- The data after the calls of the log, one after the other; each has the result that `spec` says, or was refused and left
the data as it was. -/
def InTurn (spec : Op → D → D × A) (refused : A) : D → List (Op × A) → D → Prop
  | d, [], d' => d' = d
  | d, (op, a) :: l, d' =>
    a = refused ∧ InTurn spec refused d l d' ∨ (spec op d).2 = a ∧ InTurn spec refused (spec op d).1 l d'

/-- How the locations stand for data, in and out of shape, and what a call does to data in shape. -/
structure Meaning (L : Locations σ R V Op A W) (D : Type) where
  rel : D → σ → Prop
  shape : D → Prop
  spec : Op → D → D × A
  refused : A
  /-- The writes that keep the meaning. -/
  ok : Op → σ → (r : R) → V r → Prop

variable {L} (M : Meaning L D)

/-- A call that holds the lock takes the locations from data `d` to data `d'` and returns `a`. -/
inductive UnderLock (op : Op) : Access R V A → D → D → A → Prop
  | unlock (d : D) (a : A) : UnderLock op (.unlock a) d d a
  | read {r : R} {k : V r → Access R V A} {d d' : D} {a : A} :
      (∀ m, M.rel d m → UnderLock op (k (L.get m r)) d d' a) → UnderLock op (.read r k) d d' a
  | write {r : R} {v : V r} {p : Access R V A} {d d' : D} {a : A} (d₁ : D) :
      (∀ m, M.rel d m → M.ok op m r v → M.rel d₁ (L.set m r v)) → UnderLock op p d₁ d' a →
      UnderLock op (.write r v p) d d' a

/-- A call that has not had the lock yet: it ends with the data as it was, or does under the lock what it is meant to do. -/
inductive BeforeLock (op : Op) : Access R V A → Prop
  | refused : BeforeLock op (.ret M.refused)
  | ret {a : A} : (∀ d, M.shape d → M.spec op d = (d, a)) → BeforeLock op (.ret a)
  | read {r : R} {k : V r → Access R V A} : (∀ d m, M.rel d m → BeforeLock op (k (L.get m r))) → BeforeLock op (.read r k)
  | write {r : R} {v : V r} {p : Access R V A} :
      (∀ d m, M.rel d m → M.rel d (L.set m r v)) → BeforeLock op p → BeforeLock op (.write r v p)
  | lock {k : Bool → Access R V A} :
      BeforeLock op (k false) → (∀ d, M.shape d → UnderLock M op (k true) d (M.spec op d).1 (M.spec op d).2) →
      BeforeLock op (.lock k)

/-- The calls do what they are meant to do, and what comes from outside leaves the meaning alone. -/
structure Meaning.Sound : Prop where
  outside : ∀ w d m, M.rel d m → M.rel d (L.outside w m)
  spec_shape : ∀ op d, M.shape d → M.shape (M.spec op d).1
  ready : ∀ op, BeforeLock M op (L.start op)

/-- The step keeps the meaning: if it writes, it writes what may be written. -/
def Meaning.Allows (s : CallState σ R V Op A T) : CallAct Op W T → Prop
  | .step t =>
    match s.running t with
    | some (op, .write r v _) => M.ok op s.mem r v
    | _ => True
  | _ => True

instance [∀ op m r v, Decidable (M.ok op m r v)] (s : CallState σ R V Op A T) :
    ∀ a : CallAct Op W T, Decidable (M.Allows s a)
  | .step t =>
    match h : s.running t with
    | some (op, .write r v _) => decidable_of_iff (M.ok op s.mem r v) (by simp [Meaning.Allows, h])
    | none | some (_, .ret _) | some (_, .read _ _) | some (_, .lock _) | some (_, .unlock _) =>
      .isTrue (by simp [Meaning.Allows, h])
  | .call _ _ | .refuse _ | .outside _ => .isTrue trivial

/-! ## Every run -/

omit [DecidableEq T] in
theorem InTurn.append {spec : Op → D → D × A} {refused : A} {d' d'' : D} {e : Op × A} :
    ∀ {l : List (Op × A)} {d : D}, InTurn spec refused d l d' → InTurn spec refused d' [e] d'' →
      InTurn spec refused d (l ++ [e]) d''
  | [], _, rfl, he => he
  | _ :: _, _, .inl ⟨ha, h⟩, he => .inl ⟨ha, h.append he⟩
  | _ :: _, _, .inr ⟨ha, h⟩, he => .inr ⟨ha, h.append he⟩

/-- `d` is what the locations stand for now, `dc` what they stood for when the lock was last free. -/
structure Serial (d₀ : D) (s : CallState σ R V Op A T) (d dc : D) : Prop where
  rel : M.rel d s.mem
  shape : M.shape dc
  log : InTurn M.spec M.refused d₀ s.log dc
  free : s.holder = none → d = dc
  held : ∀ t, s.holder = some t → ∃ op p, s.running t = some (op, p) ∧ UnderLock M op p d (M.spec op dc).1 (M.spec op dc).2
  ready : ∀ t op p, s.running t = some (op, p) → s.holder ≠ some t → BeforeLock M op p

variable {M} {d₀ d dc : D} {s s' : CallState σ R V Op A T} {p : Access R V A} {t : T} {x : Option (Op × Access R V A)} {op : Op}

/-- What another party than the one that goes on has left to do. -/
theorem Serial.others (h : Serial M d₀ s d dc) (ht : s.holder ≠ some t) (hx : ∀ op p, x = some (op, p) → BeforeLock M op p) :
    (∀ t', s.holder = some t' → ∃ op p, Function.update s.running t x t' = some (op, p) ∧
      UnderLock M op p d (M.spec op dc).1 (M.spec op dc).2) ∧
    ∀ t' op p, Function.update s.running t x t' = some (op, p) → s.holder ≠ some t' → BeforeLock M op p := by
  constructor
  · intro t' ht'
    have hne : t' ≠ t := by
      rintro rfl
      exact ht ht'
    rw [Function.update_of_ne hne]
    exact h.held t' ht'
  · intro t' op p hrun ht'
    by_cases hne : t' = t
    · subst hne
      rw [Function.update_self] at hrun
      exact hx op p hrun
    · rw [Function.update_of_ne hne] at hrun
      exact h.ready t' op p hrun ht'

/-- A party without the lock goes on. -/
theorem Serial.go (h : Serial M d₀ s d dc) (ht : s.holder ≠ some t) (hp : BeforeLock M op p) : Serial M d₀ (s.go t op p) d dc := by
  obtain ⟨hheld, hready⟩ := h.others (x := some (op, p)) ht (by rintro _ _ ⟨⟩; exact hp)
  exact { rel := h.rel, shape := h.shape, log := h.log, free := h.free, held := hheld, ready := hready }

/-- The others when the holder of the lock goes on. -/
theorem Serial.goOthers (h : Serial M d₀ s d dc) (ht : s.holder = some t) :
    ∀ t' op p, Function.update s.running t x t' = some (op, p) → s.holder ≠ some t' → BeforeLock M op p := by
  intro t' op p hrun ht'
  have hne : t' ≠ t := by
    rintro rfl
    exact ht' ht
  have hold : s.running t' = some (op, p) := (Function.update_of_ne hne _ _).symm.trans hrun
  exact h.ready t' op p hold ht'

/-- The holder of the lock goes on. -/
theorem Serial.goHeld (h : Serial M d₀ s d dc) (ht : s.holder = some t) (hp : UnderLock M op p d (M.spec op dc).1 (M.spec op dc).2) :
    Serial M d₀ (s.go t op p) d dc := by
  refine { rel := h.rel, shape := h.shape, log := h.log, free := h.free, held := ?_, ready := h.goOthers ht }
  intro t' ht'
  obtain rfl : t = t' := Option.some.inj (ht.symm.trans ht')
  exact ⟨op, p, Function.update_self .., hp⟩

/-- The step of a party that does not hold the lock. -/
theorem Serial.stepBefore (h : Serial M d₀ s d dc) (ht : s.holder ≠ some t) (hp : BeforeLock M op p)
    (hs : accessStep L s t op p = some s') : ∃ d dc, Serial M d₀ s' d dc := by
  cases hp with
  | refused =>
    cases hs
    obtain ⟨hheld, hready⟩ := h.others (x := none) ht (fun _ _ hx => nomatch hx)
    have hlog : InTurn M.spec M.refused dc [(op, M.refused)] dc := .inl ⟨rfl, rfl⟩
    exact ⟨d, dc, h.rel, h.shape, h.log.append hlog, h.free, hheld, hready⟩
  | @ret a hspec =>
    cases hs
    obtain ⟨hheld, hready⟩ := h.others (x := none) ht (fun _ _ hx => nomatch hx)
    have hdc := hspec dc h.shape
    have hlog : InTurn M.spec M.refused dc [(op, a)] dc := .inr ⟨by rw [hdc], by rw [hdc]; rfl⟩
    exact ⟨d, dc, h.rel, h.shape, h.log.append hlog, h.free, hheld, hready⟩
  | read hk =>
    cases hs
    exact ⟨d, dc, h.go ht (hk d s.mem h.rel)⟩
  | write hset hp =>
    cases hs
    have hmem : Serial M d₀ { s with mem := L.set s.mem _ _ } d dc := { h with rel := hset d s.mem h.rel }
    exact ⟨d, dc, hmem.go ht hp⟩
  | lock hfalse htrue =>
    by_cases hfree : s.holder = none
    · rw [accessStep, hfree] at hs
      cases hs
      obtain rfl := h.free hfree
      refine ⟨d, d, { rel := h.rel, shape := h.shape, log := h.log, free := nofun, held := ?_, ready := ?_ }⟩
      · rintro t' ⟨⟩
        exact ⟨op, _, Function.update_self .., htrue d h.shape⟩
      · intro t' op' p' hrun ht'
        have hne : t' ≠ t := fun heq => ht' (congrArg some heq.symm)
        have hold : s.running t' = some (op', p') := (Function.update_of_ne hne _ _).symm.trans hrun
        exact h.ready t' op' p' hold (by rw [hfree]; exact nofun)
    · rw [accessStep, if_neg (by simpa using hfree)] at hs
      cases hs

/-- The step of the party that holds the lock. -/
theorem Serial.stepHeld (hM : M.Sound) (h : Serial M d₀ s d dc) (ht : s.holder = some t) (hrun : s.running t = some (op, p))
    (hp : UnderLock M op p d (M.spec op dc).1 (M.spec op dc).2) (hok : M.Allows s (.step t)) (hs : accessStep L s t op p = some s') :
    ∃ d dc, Serial M d₀ s' d dc := by
  generalize hd' : (M.spec op dc).1 = d' at hp
  generalize ha : (M.spec op dc).2 = a at hp
  cases hp with
  | unlock =>
    cases hs
    -- The data of the call is the data that the lock is given back with.
    refine ⟨d, d, { rel := h.rel, shape := ?_, log := ?_, free := fun _ => rfl, held := nofun, ready := ?_ }⟩
    · rw [← hd']
      exact hM.spec_shape op dc h.shape
    · exact h.log.append (.inr ⟨ha, hd'.symm⟩)
    · intro t' op' p' hrun' _
      by_cases hne : t' = t
      · subst hne
        exact nomatch (Function.update_self ..).symm.trans hrun'
      · have hold : s.running t' = some (op', p') := (Function.update_of_ne hne _ _).symm.trans hrun'
        exact h.ready t' op' p' hold (by rw [ht]; exact fun heq => hne (Option.some.inj heq).symm)
  | read hk =>
    cases hs
    exact ⟨d, dc, h.goHeld ht (by rw [hd', ha]; exact hk s.mem h.rel)⟩
  | @write r v p _ _ _ d₁ hset hp =>
    cases hs
    have hw : M.ok op s.mem r v := by simpa [Meaning.Allows, hrun] using hok
    refine ⟨d₁, dc, ?_⟩
    refine { rel := hset s.mem h.rel hw, shape := h.shape, log := h.log, free := ?_, held := ?_, ready := ?_ }
    · exact fun hno => nomatch ht.symm.trans hno
    · intro t' ht'
      obtain rfl : t = t' := Option.some.inj (ht.symm.trans ht')
      exact ⟨op, _, Function.update_self .., by rw [hd', ha]; exact hp⟩
    · exact h.goOthers ht

theorem Serial.step (hM : M.Sound) {act : CallAct Op W T} (hok : M.Allows s act) (h : ∃ d dc, Serial M d₀ s d dc)
    (hs : callStep L s act = some s') : ∃ d dc, Serial M d₀ s' d dc := by
  obtain ⟨d, dc, h⟩ := h
  cases act with
  | call t op =>
    by_cases hidle : s.running t = none
    · rw [callStep, hidle] at hs
      cases hs
      refine ⟨d, dc, h.go ?_ (hM.ready op)⟩
      intro ht
      obtain ⟨_, _, hrun, _⟩ := h.held t ht
      exact nomatch hidle.symm.trans hrun
    · rw [callStep, if_neg (by simpa using hidle)] at hs
      cases hs
  | step t =>
    cases hrun : s.running t with
    | none => simp [callStep, hrun] at hs
    | some x =>
      obtain ⟨op, p⟩ := x
      simp only [callStep, hrun] at hs
      by_cases ht : s.holder = some t
      · obtain ⟨op', p', hrun', hp⟩ := h.held t ht
        obtain ⟨rfl, rfl⟩ := Prod.mk.inj (Option.some.inj (hrun.symm.trans hrun'))
        exact h.stepHeld hM ht hrun hp hok hs
      · exact h.stepBefore ht (h.ready t op p hrun ht) hs
  | refuse t =>
    cases hrun : s.running t with
    | none => simp [callStep, hrun] at hs
    | some x =>
      obtain ⟨op, p⟩ := x
      cases p with
      | lock k =>
        simp only [callStep, hrun] at hs
        cases hs
        have ht : s.holder ≠ some t := by
          intro ht
          obtain ⟨_, _, hrun', hp⟩ := h.held t ht
          rw [hrun] at hrun'
          cases hrun'
          cases hp
        have hready := h.ready t op _ hrun ht
        cases hready with
        | lock hfalse _ => exact ⟨d, dc, h.go ht hfalse⟩
      | ret | read | write | unlock => simp [callStep, hrun] at hs
  | outside w =>
    cases hs
    exact ⟨d, dc, { h with rel := hM.outside w d s.mem h.rel }⟩

/-- Whenever no call runs, the locations stand for the data that the calls so far make one after the other. -/
theorem run_serial (hM : M.Sound) {m : σ} (hd : M.shape d₀) (hrel : M.rel d₀ m) {acts acts' : List (CallAct Op W T)}
    (hp : acts' <+: acts) (hok : Ring.MeetsM (callStep L) M.Allows (CallState.init m) acts)
    (hrun : Ring.runM (callStep L) (CallState.init m) acts' = some s) (hend : ∀ t, s.running t = none) :
    ∃ d, M.shape d ∧ M.rel d s.mem ∧ InTurn M.spec M.refused d₀ s.log d := by
  have hinit : Serial M d₀ (CallState.init m : CallState σ R V Op A T) d₀ d₀ :=
    { rel := hrel, shape := hd, log := rfl, free := fun _ => rfl, held := nofun, ready := nofun }
  obtain ⟨d, dc, h⟩ := Ring.runM_inv_of (I := fun s => ∃ d dc, Serial M d₀ s d dc)
    (fun _ _ _ hok h hs => Serial.step hM hok h hs) acts acts' _ s hp hok ⟨d₀, d₀, hinit⟩ hrun
  have hfree : s.holder = none := by
    cases hh : s.holder with
    | none => rfl
    | some t =>
      obtain ⟨_, _, hrun, _⟩ := h.held t hh
      exact nomatch (hend t).symm.trans hrun
  obtain rfl := h.free hfree
  exact ⟨d, h.shape, h.rel, h.log⟩

end

end Shared

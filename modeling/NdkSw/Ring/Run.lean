/-
Runs of a deterministic system whose actions carry every outside choice (which party calls what,
how far the hardware has come): the state after a list of actions, the invariant rule, and the
invariant rule for runs whose steps all meet a condition on the state before the step. A second kind
of run has actions that may fail to have a result.
-/
import Mathlib.Tactic

namespace Ring

section Run

variable {σ α : Type} (step : σ → α → σ)

/-- The state after the actions `l`. -/
def run (s : σ) (l : List α) : σ := l.foldl step s

/-- Every step of the run meets `C`, a condition on the state before the step and its action. -/
def Meets (C : σ → α → Prop) : σ → List α → Prop
  | _, [] => True
  | s, a :: l => C s a ∧ Meets C (step s a) l

instance decidableMeets {C : σ → α → Prop} [∀ s a, Decidable (C s a)] : ∀ s l, Decidable (Meets step C s l)
  | _, [] => inferInstanceAs (Decidable True)
  | s, a :: l => @instDecidableAnd _ _ _ (decidableMeets (step s a) l)

variable {step}

@[simp] theorem run_nil (s : σ) : run step s [] = s := rfl

@[simp] theorem run_cons (s : σ) (a : α) (l : List α) : run step s (a :: l) = run step (step s a) l := rfl

theorem run_append (s : σ) (l m : List α) : run step s (l ++ m) = run step (run step s l) m :=
  List.foldl_append ..

/-- What the steps that meet a condition preserve holds after every run of such steps. -/
theorem run_inv_of {I : σ → Prop} {C : σ → α → Prop} (hstep : ∀ s a, C s a → I s → I (step s a)) :
    ∀ (l : List α) (s : σ), Meets step C s l → I s → I (run step s l)
  | [], _, _, h => h
  | a :: l, s, hm, h => run_inv_of hstep l (step s a) hm.2 (hstep s a hm.1 h)

/-- A condition that all actions meet by themselves is met by every run of them. -/
theorem meets_of_forall {C : α → Prop} : ∀ {l : List α}, (∀ a ∈ l, C a) → ∀ s, Meets step (fun _ a => C a) s l
  | [], _, _ => trivial
  | _ :: _, h, _ => ⟨h _ List.mem_cons_self, meets_of_forall (fun a ha => h a (List.mem_cons_of_mem _ ha)) _⟩

/-- What holds of every step from a state with `I` is met by every run, if `I` holds at first and all steps preserve
it. -/
theorem meets_of_inv {I : σ → Prop} {C : σ → α → Prop} (hC : ∀ s a, I s → C s a)
    (hstep : ∀ s a, I s → I (step s a)) : ∀ (l : List α) (s : σ), I s → Meets step C s l
  | [], _, _ => trivial
  | a :: l, s, hI => ⟨hC s a hI, meets_of_inv hC hstep l (step s a) (hstep s a hI)⟩

/-- Conditions that say the same wherever `I` holds are met by the same runs, if `I` holds at first and the
steps that meet one of them preserve it. -/
theorem meets_iff {I : σ → Prop} {C D : σ → α → Prop} (hiff : ∀ s a, I s → (C s a ↔ D s a))
    (hstep : ∀ s a, C s a → I s → I (step s a)) : ∀ (l : List α) (s : σ), I s → (Meets step C s l ↔ Meets step D s l)
  | [], _, _ => Iff.rfl
  | a :: l, s, hI => by
    rw [Meets, Meets, hiff s a hI]
    refine and_congr_right fun hD => ?_
    exact meets_iff hiff hstep l (step s a) (hstep s a ((hiff s a hI).2 hD) hI)

/-- What every step preserves holds after every run. -/
theorem run_inv {I : σ → Prop} (hstep : ∀ s a, I s → I (step s a)) (l : List α) (s : σ) (h : I s) :
    I (run step s l) := by
  induction l generalizing s with
  | nil => exact h
  | cons a l ih => exact ih _ (hstep s a h)

/-- Every state of a run has `P` exactly when every step meets the condition that says when a step keeps `P`. -/
theorem run_all_iff {I P : σ → Prop} {C : σ → α → Prop} (hiff : ∀ s a, I s → P s → (C s a ↔ P (step s a)))
    (hstep : ∀ s a, I s → I (step s a)) :
    ∀ (l : List α) (s : σ), I s → P s → ((∀ l', l' <+: l → P (run step s l')) ↔ Meets step C s l)
  | [], s, _, hP => ⟨fun _ => trivial, fun _ l' h => by rwa [List.prefix_nil.1 h]⟩
  | a :: l, s, hI, hP => by
    rw [Meets]
    constructor
    · intro h
      have ha : P (step s a) := h [a] (List.cons_prefix_cons.2 ⟨rfl, List.nil_prefix⟩)
      refine ⟨(hiff s a hI hP).2 ha, (run_all_iff hiff hstep l (step s a) (hstep s a hI) ha).1 fun l' hl' => ?_⟩
      exact h (a :: l') (List.cons_prefix_cons.2 ⟨rfl, hl'⟩)
    · rintro ⟨hc, hm⟩ l' hl'
      cases l' with
      | nil => exact hP
      | cons b l' =>
        obtain ⟨rfl, htail⟩ := List.cons_prefix_cons.1 hl'
        have ha := (hiff s b hI hP).1 hc
        exact (run_all_iff hiff hstep l (step s b) (hstep s b hI) ha).2 hm l' htail

end Run

section RunM

variable {σ α : Type} (step : σ → α → Option σ)

/-- The state after the actions `l` if every one of them has a result. -/
def runM : σ → List α → Option σ
  | s, [] => some s
  | s, a :: l => (step s a).bind fun s => runM s l

/-- Every step of the run, up to the first without a result, meets `C`. -/
def MeetsM (C : σ → α → Prop) : σ → List α → Prop
  | _, [] => True
  | s, a :: l => C s a ∧ ∀ s', step s a = some s' → MeetsM C s' l

instance decidableMeetsM {C : σ → α → Prop} [∀ s a, Decidable (C s a)] : ∀ s l, Decidable (MeetsM step C s l)
  | _, [] => inferInstanceAs (Decidable True)
  | s, a :: l =>
    match h : step s a with
    | none => decidable_of_iff (C s a) ⟨fun hc => ⟨hc, fun s' hs => by rw [h] at hs; cases hs⟩, And.left⟩
    | some s' =>
      @decidable_of_iff _ (C s a ∧ MeetsM step C s' l)
        ⟨fun hc => ⟨hc.1, fun s'' hs => by rw [h] at hs; cases hs; exact hc.2⟩, fun hc => ⟨hc.1, hc.2 s' h⟩⟩
        (@instDecidableAnd _ _ _ (decidableMeetsM s' l))

variable {step}

@[simp] theorem runM_nil (s : σ) : runM step s [] = some s := rfl

theorem runM_cons {s s' s'' : σ} {a : α} {l : List α} (h : step s a = some s') (h' : runM step s' l = some s'') :
    runM step s (a :: l) = some s'' := by
  rw [runM, h]; exact h'

/-- What the steps of certain actions preserve holds after every run of such actions. -/
theorem runM_inv {I : σ → Prop} {C : α → Prop} (hstep : ∀ s a s', C a → I s → step s a = some s' → I s') :
    ∀ (l : List α) (s s' : σ), (∀ a ∈ l, C a) → I s → runM step s l = some s' → I s'
  | [], _, _, _, hI, h => Option.some.inj h ▸ hI
  | a :: l, s, s', hC, hI, h => by
    rw [runM] at h
    obtain ⟨s₁, h1, h2⟩ := Option.bind_eq_some_iff.1 h
    exact runM_inv hstep l s₁ s' (fun b hb => hC b (List.mem_cons_of_mem _ hb))
      (hstep s a s₁ (hC a List.mem_cons_self) hI h1) h2

/-- What the steps that meet a condition preserve holds in every state that a run of such steps reaches. -/
theorem runM_inv_of {I : σ → Prop} {C : σ → α → Prop} (hstep : ∀ s a s', C s a → I s → step s a = some s' → I s') :
    ∀ (l l' : List α) (s s' : σ), l' <+: l → MeetsM step C s l → I s → runM step s l' = some s' → I s'
  | _, [], _, _, _, _, hI, h => Option.some.inj h ▸ hI
  | [], a :: l', _, _, hp, _, _, _ => absurd hp.length_le (by simp)
  | b :: l, a :: l', s, s', hp, hm, hI, h => by
    obtain ⟨rfl, htail⟩ := List.cons_prefix_cons.1 hp
    rw [runM] at h
    obtain ⟨s₁, h1, h2⟩ := Option.bind_eq_some_iff.1 h
    exact runM_inv_of hstep l l' s₁ s' htail (hm.2 s₁ h1) (hstep s a s₁ hm.1 hI h1) h2

/-- What follows from a condition wherever `I` holds is met by every run that meets the condition, if `I` holds at
first and the steps that meet the condition preserve it. -/
theorem MeetsM.imp {I : σ → Prop} {C D : σ → α → Prop} (himp : ∀ s a, I s → C s a → D s a)
    (hstep : ∀ s a s', C s a → I s → step s a = some s' → I s') :
    ∀ (l : List α) (s : σ), I s → MeetsM step C s l → MeetsM step D s l
  | [], _, _, _ => trivial
  | a :: l, s, hI, hm =>
    ⟨himp s a hI hm.1, fun s' h => MeetsM.imp himp hstep l s' (hstep s a s' hm.1 hI h) (hm.2 s' h)⟩

theorem MeetsM.and {C D : σ → α → Prop} :
    ∀ (l : List α) (s : σ), MeetsM step C s l → MeetsM step D s l → MeetsM step (fun s a => C s a ∧ D s a) s l
  | [], _, _, _ => trivial
  | _ :: l, _, hC, hD => ⟨⟨hC.1, hD.1⟩, fun s' h => MeetsM.and l s' (hC.2 s' h) (hD.2 s' h)⟩

/-- Conditions that say the same wherever `I` holds are met by the same runs, if `I` holds at first and
the steps that meet one of them preserve it. -/
theorem meetsM_iff {I : σ → Prop} {C D : σ → α → Prop} (hiff : ∀ s a, I s → (C s a ↔ D s a))
    (hstep : ∀ s a s', C s a → I s → step s a = some s' → I s') :
    ∀ (l : List α) (s : σ), I s → (MeetsM step C s l ↔ MeetsM step D s l)
  | [], _, _ => Iff.rfl
  | a :: l, s, hI => by
    rw [MeetsM, MeetsM, hiff s a hI]
    refine and_congr_right fun hD => forall_congr' fun s' => forall_congr' fun h => ?_
    exact meetsM_iff hiff hstep l s' (hstep s a s' ((hiff s a hI).2 hD) hI h)

/-- The run has a state with `P` after every number of steps exactly when every step meets the condition that says when a
step has a result with `P`. -/
theorem runM_all_iff {I P : σ → Prop} {C : σ → α → Prop}
    (hiff : ∀ s a, I s → P s → (C s a ↔ ∃ s', step s a = some s' ∧ P s'))
    (hstep : ∀ s a s', I s → step s a = some s' → I s') :
    ∀ (l : List α) (s : σ), I s → P s →
      ((∀ l', l' <+: l → ∃ s', runM step s l' = some s' ∧ P s') ↔ MeetsM step C s l)
  | [], s, _, hP => ⟨fun _ => trivial, fun _ l' h => by rw [List.prefix_nil.1 h]; exact ⟨s, rfl, hP⟩⟩
  | a :: l, s, hI, hP => by
    rw [MeetsM]
    constructor
    · intro h
      obtain ⟨s₁, h₁, hP₁⟩ := h [a] (List.cons_prefix_cons.2 ⟨rfl, List.nil_prefix⟩)
      obtain ⟨s', hs, heq⟩ := Option.bind_eq_some_iff.1 h₁
      obtain rfl : s' = s₁ := Option.some.inj heq
      refine ⟨(hiff s a hI hP).2 ⟨s', hs, hP₁⟩, fun s'' hs'' => ?_⟩
      obtain rfl : s' = s'' := Option.some.inj (hs.symm.trans hs'')
      refine (runM_all_iff hiff hstep l s' (hstep s a s' hI hs) hP₁).1 fun l' hl' => ?_
      obtain ⟨s₂, h₂, hP₂⟩ := h (a :: l') (List.cons_prefix_cons.2 ⟨rfl, hl'⟩)
      rw [runM, hs] at h₂
      exact ⟨s₂, h₂, hP₂⟩
    · rintro ⟨hc, hm⟩ l' hl'
      cases l' with
      | nil => exact ⟨s, rfl, hP⟩
      | cons b l' =>
        obtain ⟨rfl, htail⟩ := List.cons_prefix_cons.1 hl'
        obtain ⟨s', hs, hP'⟩ := (hiff s b hI hP).1 hc
        obtain ⟨s₂, h₂, hP₂⟩ := (runM_all_iff hiff hstep l s' (hstep s b s' hI hs) hP').2 (hm s' hs) l' htail
        exact ⟨s₂, runM_cons hs h₂, hP₂⟩

/-- Every step meets `A` and every state reached has `P` exactly when every step meets the condition that says when a step meets `A` and
keeps `P`. -/
theorem runM_safe_iff {I P : σ → Prop} {A C : σ → α → Prop}
    (hiff : ∀ s a, I s → P s → (C s a ↔ A s a ∧ ∀ s', step s a = some s' → P s'))
    (hstep : ∀ s a s', C s a → I s → step s a = some s' → I s') :
    ∀ (l : List α) (s : σ), I s → P s →
      ((MeetsM step A s l ∧ ∀ l' s', l' <+: l → runM step s l' = some s' → P s') ↔ MeetsM step C s l)
  | [], s, _, hP => by
    refine ⟨fun _ => trivial, fun _ => ⟨trivial, fun l' s' h hr => ?_⟩⟩
    rw [List.prefix_nil.1 h] at hr
    exact Option.some.inj hr ▸ hP
  | a :: l, s, hI, hP => by
    rw [MeetsM, MeetsM]
    constructor
    · rintro ⟨⟨ha, hm⟩, hall⟩
      have hnext : ∀ s', step s a = some s' → P s' := fun s' hs =>
        hall [a] s' (List.cons_prefix_cons.2 ⟨rfl, List.nil_prefix⟩) (runM_cons hs rfl)
      have hc := (hiff s a hI hP).2 ⟨ha, hnext⟩
      refine ⟨hc, fun s' hs => ?_⟩
      refine (runM_safe_iff hiff hstep l s' (hstep s a s' hc hI hs) (hnext s' hs)).1 ⟨hm s' hs, fun l' s'' hl' hr => ?_⟩
      exact hall (a :: l') s'' (List.cons_prefix_cons.2 ⟨rfl, hl'⟩) (runM_cons hs hr)
    · rintro ⟨hc, hm⟩
      obtain ⟨ha, hnext⟩ := (hiff s a hI hP).1 hc
      have htail := fun s' hs => (runM_safe_iff hiff hstep l s' (hstep s a s' hc hI hs) (hnext s' hs)).2 (hm s' hs)
      refine ⟨⟨ha, fun s' hs => (htail s' hs).1⟩, fun l' s'' hl' hr => ?_⟩
      cases l' with
      | nil => exact Option.some.inj hr ▸ hP
      | cons b l' =>
        obtain ⟨rfl, hrest⟩ := List.cons_prefix_cons.1 hl'
        rw [runM] at hr
        obtain ⟨s', hs, hr⟩ := Option.bind_eq_some_iff.1 hr
        exact (htail s' hs).2 l' s'' hrest hr

end RunM

end Ring

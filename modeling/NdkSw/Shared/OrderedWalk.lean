/-
Walks that call themselves: the walk of an item walks the items that it calls, one after the other, is aborted as soon as one of these walks
is, and may fail at its end. Where finitely many items call others, a walk is completed if and only if nothing below it fails or leads back
to itself, and it comes to an end if and only if nothing that it really enters leads back to itself.
-/
import Mathlib.Tactic

namespace Shared.OrderedWalk

open Relation

variable {n : Nat}

section Relations

variable {α : Type*} {r : α → α → Prop}

theorem transGen_lowers {P : Nat → α → Prop} (hstep : ∀ n a b, P n a → r a b → ∃ m < n, P m b) {a b : α} (hab : TransGen r a b) :
    ∀ n, P n a → ∃ m < n, P m b := by
  induction hab with
  | single hab => exact fun n ha => hstep n _ _ ha hab
  | tail _ hbc ih =>
    intro n ha
    obtain ⟨m, hm, hb⟩ := ih n ha
    obtain ⟨k, hk, hc⟩ := hstep m _ _ hb hbc
    exact ⟨k, hk.trans hm, hc⟩

/-- What takes less time with every step cannot come back to where it was. -/
theorem not_transGen_self_of_lowers {P : Nat → α → Prop} (hstep : ∀ n a b, P n a → r a b → ∃ m < n, P m b) {a b : α} (ha : P n a)
    (hab : ReflTransGen r a b) : ¬ TransGen r b b := by
  have hself : ∀ n, P n b → ¬ TransGen r b b := by
    intro n
    induction n using Nat.strong_induction_on with
    | _ n ih =>
      intro hb hbb
      obtain ⟨m, hm, hb'⟩ := transGen_lowers hstep hbb n hb
      exact ih m hm hb' hbb
  rcases reflTransGen_iff_eq_or_transGen.1 hab with rfl | htrans
  · exact hself n ha
  · obtain ⟨m, -, hb⟩ := transGen_lowers hstep htrans n ha
    exact hself m hb

/-- With finitely many items that lead on, there is no endless way from an item below which nothing leads back to itself. -/
theorem acc_of_acyclic {a : α} (hfin : {b | ∃ c, r b c}.Finite) (hac : ∀ b, ReflTransGen r a b → ¬ TransGen r b b) : Acc (flip r) a := by
  let S : Set α := {b | ∃ c, r b c} ∩ {b | ReflTransGen r a b}
  have hS : Finite S := (hfin.inter_of_left _).to_subtype
  let below : S → S → Prop := fun x y => TransGen r y.1 x.1
  have htrans : IsTrans S below := ⟨fun _ _ _ hxy hyz => TransGen.trans hyz hxy⟩
  have hirrefl : Std.Irrefl below := ⟨fun x => hac x.1 x.2.2⟩
  have hwf : WellFounded below := Finite.wellFounded_of_trans_of_irrefl below
  have hacc : ∀ x : S, Acc (flip r) x.1 := by
    intro x
    induction x using hwf.induction with
    | _ x ih =>
      refine Acc.intro _ fun y hxy => ?_
      by_cases hy : ∃ c, r y c
      · exact ih ⟨y, hy, ReflTransGen.tail x.2.2 hxy⟩ (TransGen.single hxy)
      · exact Acc.intro _ fun c hyc => absurd ⟨c, hyc⟩ hy
  by_cases ha : ∃ c, r a c
  · exact hacc ⟨a, ha, ReflTransGen.refl⟩
  · exact Acc.intro _ fun c hac => absurd ⟨c, hac⟩ ha

end Relations

section Walks

variable {α : Type*} (calls : α → List α) (fails : α → Bool)

/-- What follows is walked if the walk so far is completed. -/
def andThen : Option Bool → Option Bool → Option Bool
  | some true, rest => rest
  | some false, _ => some false
  | none, _ => none

@[simp] theorem andThen_true (rest : Option Bool) : andThen (some true) rest = rest := rfl

@[simp] theorem andThen_false (rest : Option Bool) : andThen (some false) rest = some false := rfl

@[simp] theorem andThen_none (rest : Option Bool) : andThen none rest = none := rfl

/-- Nothing follows. -/
@[simp] theorem andThen_some_true (x : Option Bool) : andThen x (some true) = x := by
  match x with
  | some true | some false | none => rfl

theorem andThen_assoc (x y z : Option Bool) : andThen (andThen x y) z = andThen x (andThen y z) := by
  match x with
  | some true | some false | none => rfl

theorem andThen_eq_true_iff {x y : Option Bool} : andThen x y = some true ↔ x = some true ∧ y = some true := by
  match x with
  | some true | some false | none => simp

theorem andThen_mono {x y x' y' : Option Bool} {b : Bool} (hx : ∀ d, x = some d → x' = some d) (hy : ∀ d, y = some d → y' = some d)
    (h : andThen x y = some b) : andThen x' y' = some b := by
  match x with
  | none => exact nomatch h
  | some false =>
    rw [hx false rfl]
    exact h
  | some true =>
    rw [hx true rfl]
    exact hy b h

/-- Walks the items in order as long as their walks are completed. -/
def walkAll (walk : α → Option Bool) : List α → Option Bool
  | [] => some true
  | a :: as => andThen (walk a) (walkAll walk as)

/-- The walk of an item, with at most this many walks inside each other: whether it is completed, where it comes to an end. -/
def walkItem : Nat → α → Option Bool
  | 0, _ => none
  | n + 1, a => andThen (walkAll (walkItem n) (calls a)) (some (!fails a))

def Finishes (a : α) : Prop := ∃ n, walkItem calls fails n a ≠ none

def Completes (a : α) : Prop := ∃ n, walkItem calls fails n a = some true

def Calls (a b : α) : Prop := b ∈ calls a

/-- Nothing below the item fails or leads back to itself. -/
def Clean (a : α) : Prop := ∀ b, ReflTransGen (Calls calls) a b → fails b = false ∧ ¬ TransGen (Calls calls) b b

/-- The walk of `a` comes to `b`: all that is called earlier is clean. -/
def Enters (a b : α) : Prop := ∃ before after, calls a = before ++ b :: after ∧ ∀ c ∈ before, Clean calls fails c

variable {calls fails} {a b : α}

/-! ### More depth -/

theorem walkAll_mono {walk walk' : α → Option Bool} (h : ∀ a b, walk a = some b → walk' a = some b) (as : List α) :
    ∀ b, walkAll walk as = some b → walkAll walk' as = some b := by
  induction as with
  | nil => exact fun _ => id
  | cons a as ih => exact fun _ hall => andThen_mono (h a) ih hall

theorem walkItem_succ : ∀ {a : α} {b : Bool}, walkItem calls fails n a = some b → walkItem calls fails (n + 1) a = some b := by
  induction n with
  | zero => exact fun h => nomatch h
  | succ n ih => exact fun h => andThen_mono (walkAll_mono (fun _ _ => ih) _) (fun _ => id) h

theorem walkItem_mono {m : Nat} (hnm : n ≤ m) {b : Bool} (h : walkItem calls fails n a = some b) : walkItem calls fails m a = some b := by
  induction hnm with
  | refl => exact h
  | step _ ih => exact walkItem_succ ih

/-! ### Completed walks -/

theorem walkAll_append (walk : α → Option Bool) (as bs : List α) : walkAll walk (as ++ bs) = andThen (walkAll walk as) (walkAll walk bs) := by
  induction as with
  | nil => rfl
  | cons a as ih =>
    rw [List.cons_append, walkAll, walkAll, ih, andThen_assoc]

theorem walkAll_singleton (walk : α → Option Bool) (a : α) : walkAll walk [a] = walk a := andThen_some_true _

theorem walkAll_eq_true_iff {walk : α → Option Bool} {as : List α} : walkAll walk as = some true ↔ ∀ a ∈ as, walk a = some true := by
  induction as with
  | nil => simp [walkAll]
  | cons a as ih => rw [walkAll, andThen_eq_true_iff, List.forall_mem_cons, ih]

theorem walkItem_eq_true_iff :
    walkItem calls fails (n + 1) a = some true ↔ (∀ b ∈ calls a, walkItem calls fails n b = some true) ∧ fails a = false := by
  rw [walkItem, andThen_eq_true_iff, walkAll_eq_true_iff]
  simp

theorem completes_of_forall (h : ∀ b ∈ calls a, Completes calls fails b) (ha : fails a = false) : Completes calls fails a := by
  have hdepth : ∃ n, ∀ b ∈ calls a, walkItem calls fails n b = some true := by
    generalize calls a = as at h
    induction as with
    | nil => exact ⟨0, fun _ hb => absurd hb List.not_mem_nil⟩
    | cons c as ih =>
      obtain ⟨n, hn⟩ := h c List.mem_cons_self
      obtain ⟨m, hm⟩ := ih fun b hb => h b (List.mem_cons_of_mem _ hb)
      refine ⟨max n m, List.forall_mem_cons.2 ⟨walkItem_mono (le_max_left ..) hn, fun b hb => ?_⟩⟩
      exact walkItem_mono (le_max_right ..) (hm b hb)
  obtain ⟨n, hn⟩ := hdepth
  exact ⟨n + 1, walkItem_eq_true_iff.2 ⟨hn, ha⟩⟩

theorem walkItem_calls (h : walkItem calls fails n a = some true) (hab : Calls calls a b) :
    ∃ m < n, walkItem calls fails m b = some true := by
  cases n with
  | zero => exact nomatch h
  | succ n => exact ⟨n, Nat.lt_succ_self n, (walkItem_eq_true_iff.1 h).1 b hab⟩

theorem Completes.fails_eq (h : Completes calls fails a) : fails a = false := by
  obtain ⟨n, hn⟩ := h
  cases n with
  | zero => exact nomatch hn
  | succ n => exact (walkItem_eq_true_iff.1 hn).2

theorem Completes.below (h : Completes calls fails a) (hab : ReflTransGen (Calls calls) a b) : Completes calls fails b := by
  induction hab with
  | refl => exact h
  | tail _ hbc ih =>
    obtain ⟨n, hn⟩ := ih
    obtain ⟨m, -, hm⟩ := walkItem_calls hn hbc
    exact ⟨m, hm⟩

theorem Clean.below (h : Clean calls fails a) (hab : Calls calls a b) : Clean calls fails b :=
  fun c hbc => h c (ReflTransGen.head hab hbc)

theorem Completes.clean (h : Completes calls fails a) : Clean calls fails a := by
  intro b hab
  refine ⟨(h.below hab).fails_eq, ?_⟩
  obtain ⟨n, hn⟩ := h
  exact not_transGen_self_of_lowers (fun _ _ _ ha hstep => walkItem_calls ha hstep) hn hab

theorem calls_finite (hfin : {a | calls a ≠ []}.Finite) : {a | ∃ b, Calls calls a b}.Finite := by
  refine hfin.subset ?_
  rintro a ⟨b, hab⟩
  exact List.ne_nil_of_mem hab

theorem Clean.completes (hfin : {a | calls a ≠ []}.Finite) (h : Clean calls fails a) : Completes calls fails a := by
  have hacc : Acc (flip (Calls calls)) a := acc_of_acyclic (calls_finite hfin) fun b hab => (h b hab).2
  induction hacc with
  | intro a _ ih => exact completes_of_forall (fun b hab => ih b hab (h.below hab)) (h a ReflTransGen.refl).1

/-! ### Walks that come to an end -/

theorem walkAll_finishes {walk : α → Option Bool} {before after : List α} (h : walkAll walk (before ++ b :: after) ≠ none)
    (hbefore : ∀ c ∈ before, walk c ≠ some false) : walk b ≠ none := by
  induction before with
  | nil =>
    intro hb
    rw [List.nil_append, walkAll, hb] at h
    exact h rfl
  | cons c before ih =>
    have hc := hbefore c List.mem_cons_self
    rw [List.cons_append, walkAll] at h
    match hwalk : walk c with
    | none =>
      rw [hwalk] at h
      exact absurd rfl h
    | some false => exact absurd hwalk hc
    | some true =>
      rw [hwalk] at h
      exact ih h fun d hd => hbefore d (List.mem_cons_of_mem _ hd)

/-- What is clean is not aborted. -/
theorem Clean.not_aborted (hfin : {a | calls a ≠ []}.Finite) (h : Clean calls fails a) (n : Nat) :
    walkItem calls fails n a ≠ some false := by
  intro hn
  obtain ⟨m, hm⟩ := h.completes hfin
  have hn' := walkItem_mono (le_max_left n m) hn
  rw [walkItem_mono (le_max_right n m) hm] at hn'
  exact nomatch hn'

theorem walkItem_enters (hfin : {a | calls a ≠ []}.Finite) (h : walkItem calls fails n a ≠ none) (hab : Enters calls fails a b) :
    ∃ m < n, walkItem calls fails m b ≠ none := by
  cases n with
  | zero => exact absurd rfl h
  | succ n =>
    obtain ⟨before, after, hcalls, hclean⟩ := hab
    have hall : walkAll (walkItem calls fails n) (before ++ b :: after) ≠ none := by
      rw [← hcalls]
      intro hall
      rw [walkItem, hall] at h
      exact h rfl
    exact ⟨n, Nat.lt_succ_self n, walkAll_finishes hall fun c hc => (hclean c hc).not_aborted hfin n⟩

/-- The walk of an item comes to an end if the walks do that it enters. -/
theorem finishes_of_enters (h : ∀ b, Enters calls fails a b → Finishes calls fails b) : Finishes calls fails a := by
  have hall : ∀ before after, calls a = before ++ after → (∀ c ∈ before, Clean calls fails c) →
      ∃ n, walkAll (walkItem calls fails n) after ≠ none := by
    intro before after
    induction after generalizing before with
    | nil => exact fun _ _ => ⟨0, by simp [walkAll]⟩
    | cons b after ih =>
      intro hcalls hclean
      obtain ⟨n, hn⟩ := h b ⟨before, after, hcalls, hclean⟩
      match hdone : walkItem calls fails n b with
      | none => exact absurd hdone hn
      | some false => exact ⟨n, by simp [walkAll, hdone]⟩
      | some true =>
        -- `b` is completed and so clean: the walk goes on behind it.
        have hb : Clean calls fails b := Completes.clean ⟨n, hdone⟩
        have hbefore : ∀ c ∈ before ++ [b], Clean calls fails c := by
          intro c hc
          rcases List.mem_append.1 hc with hc | hc
          · exact hclean c hc
          · rwa [List.mem_singleton.1 hc]
        obtain ⟨m, hm⟩ := ih (before ++ [b]) (by rw [hcalls, List.append_assoc, List.singleton_append]) hbefore
        obtain ⟨rest, hrest⟩ := Option.ne_none_iff_exists'.1 hm
        refine ⟨max n m, ?_⟩
        rw [walkAll, walkItem_mono (le_max_left n m) hdone, andThen_true]
        rw [walkAll_mono (fun _ _ => walkItem_mono (le_max_right n m)) after rest hrest]
        exact Option.some_ne_none rest
  obtain ⟨n, hn⟩ := hall [] (calls a) rfl fun c hc => absurd hc List.not_mem_nil
  refine ⟨n + 1, ?_⟩
  rw [walkItem]
  match hdone : walkAll (walkItem calls fails n) (calls a) with
  | none => exact absurd hdone hn
  | some false | some true => simp

/-- A walk comes to an end if and only if nothing that it enters leads back to itself. -/
theorem finishes_iff (hfin : {a | calls a ≠ []}.Finite) :
    Finishes calls fails a ↔ ∀ b, ReflTransGen (Enters calls fails) a b → ¬ TransGen (Enters calls fails) b b := by
  constructor
  · rintro ⟨n, hn⟩ b hab
    exact not_transGen_self_of_lowers (fun _ _ _ ha hstep => walkItem_enters hfin ha hstep) hn hab
  · intro h
    have hleads : {a | ∃ b, Enters calls fails a b}.Finite := by
      refine hfin.subset ?_
      rintro a ⟨b, before, after, hcalls, -⟩
      exact fun hnil => List.append_ne_nil_of_right_ne_nil _ (List.cons_ne_nil _ _) (hcalls.symm.trans hnil)
    have hacc : Acc (flip (Enters calls fails)) a := acc_of_acyclic hleads h
    clear h
    induction hacc with
    | intro a _ ih => exact finishes_of_enters ih

end Walks

end Shared.OrderedWalk

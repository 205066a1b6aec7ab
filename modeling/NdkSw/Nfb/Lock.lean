/-
The component locks of a device (`lock.c`): a list of items, each with the features of one component that one
application has locked. The list is read as a map from components and feature bits to their owners, and every
call is compared with what it should do to that map. A request has 64 feature bits, an item keeps them in an
`int`: what is above bit 31 gets lost, and bit 31 counts for all bits above it in the test.
-/
import NdkSw.Ndp.Channel
import NdkSw.Shared.Words

namespace NdkSw.Nfb

open Ndp Ring

/-! ## Data model -/

/-- `struct nfb_lock`. -/
structure NfbLock where
  path : String
  features : U64
  deriving DecidableEq, Repr

/-- `struct nfb_lock_item`; its `features` are an `int`. -/
structure NfbLockItem (App : Type) where
  app : App
  path : String
  features : U32
  deriving DecidableEq, Repr

section Calls

variable {App : Type} [DecidableEq App]

/-- `item->app == app && strcmp(item->path, lock.path) == 0`. -/
def NfbLockItem.isOf (item : NfbLockItem App) (app : App) (path : String) : Bool := item.app = app ∧ item.path = path

/-- The test of `nfb_lock_try_lock` on an item: some of the requested features are already locked. The `int` of the
item is extended with its sign. -/
def NfbLockItem.isLocked (item : NfbLockItem App) (lock : NfbLock) : Bool :=
  item.path = lock.path ∧ item.features.signExtend 64 &&& lock.features ≠ 0

/-- `item->features |= lock.features`. -/
def NfbLockItem.take (item : NfbLockItem App) (lock : NfbLock) : NfbLockItem App :=
  { item with features := (item.features.signExtend 64 ||| lock.features).setWidth 32 }

/-- `item->features &= ~lock.features`. -/
def NfbLockItem.drop (item : NfbLockItem App) (lock : NfbLock) : NfbLockItem App :=
  { item with features := (item.features.signExtend 64 &&& ~~~lock.features).setWidth 32 }

/-- Change the last element that `p` holds of. -/
def modifyLast {α : Type} (p : α → Bool) (f : α → α) : List α → List α
  | [] => []
  | a :: l => if l.any p then a :: modifyLast p f l else if p a then f a :: l else a :: l

/-! ## Calls -/

/-- `nfb_lock_try_lock`; `alloc` says if there is memory for a new item. The loop leaves the last item of the
application in `temp`. -/
def nfbLockTryLock (alloc : Bool) (app : App) (lock : NfbLock) (l : List (NfbLockItem App)) :
    List (NfbLockItem App) × Int :=
  if l.any (·.isLocked lock) then (l, eBusy)
  else if l.any (·.isOf app lock.path) then (modifyLast (·.isOf app lock.path) (·.take lock) l, 0)
  else if alloc then ((NfbLockItem.mk app lock.path 0).take lock :: l, 0)
  else (l, eNomem)

/-- `nfb_lock_unlock`, on the first item of the application. -/
def nfbLockUnlock (app : App) (lock : NfbLock) : List (NfbLockItem App) → List (NfbLockItem App) × Int
  | [] => ([], eNodev)
  | item :: l =>
    if item.isOf app lock.path then
      let item := item.drop lock
      (if item.features = 0 then l else item :: l, 0)
    else
      match nfbLockUnlock app lock l with
      | (l, ret) => (item :: l, ret)

/-- `nfb_lock_release`. -/
def nfbLockRelease (app : App) (l : List (NfbLockItem App)) : List (NfbLockItem App) := l.filter (·.app ≠ app)

/-- A call of an application. -/
inductive LockAct (App : Type)
  | tryLock (app : App) (lock : NfbLock) (alloc : Bool)
  | unlock (app : App) (lock : NfbLock)
  | release (app : App)

def lockStep (l : List (NfbLockItem App)) : LockAct App → List (NfbLockItem App)
  | .tryLock app lock alloc => (nfbLockTryLock alloc app lock l).1
  | .unlock app lock => (nfbLockUnlock app lock l).1
  | .release app => nfbLockRelease app l

/-! ## The map of owners -/

/-- The owner of every feature bit of every component. -/
abbrev Owners (App : Type) := String → Nat → Option App

/-- None of the features has an owner. -/
def Owners.Free (m : Owners App) (lock : NfbLock) : Prop := ∀ b, lock.features.getLsbD b = true → m lock.path b = none

/-- The features belong to `app`, whatever they were before. -/
def Owners.take (m : Owners App) (app : App) (lock : NfbLock) : Owners App :=
  fun path b => if path = lock.path ∧ lock.features.getLsbD b = true then some app else m path b

/-- `app` loses the features. -/
def Owners.drop (m : Owners App) (app : App) (lock : NfbLock) : Owners App :=
  fun path b => if path = lock.path ∧ lock.features.getLsbD b = true ∧ m path b = some app then none else m path b

/-- `app` loses everything. -/
def Owners.dropAll (m : Owners App) (app : App) : Owners App := fun path b => if m path b = some app then none else m path b

/-- An item that holds bit `b` of the component. -/
def NfbLockItem.holds (item : NfbLockItem App) (path : String) (b : Nat) : Bool := item.path = path ∧ item.features.getLsbD b

/-- The map that a list of items stands for. -/
def owners (l : List (NfbLockItem App)) : Owners App := fun path b => (l.find? (·.holds path b)).map (·.app)

/-- At most one item for each application and component, and disjoint features in the items of a component. -/
def Exclusive (l : List (NfbLockItem App)) : Prop :=
  l.Pairwise fun x y => x.path = y.path → x.app ≠ y.app ∧ x.features &&& y.features = 0

end Calls

/-! ## Feature bits -/

variable {b : Nat}

section Items

variable {App : Type} {l : List (NfbLockItem App)} {lock : NfbLock}

theorem and_eq_zero_iff {w : Nat} (x y : BitVec w) :
    x &&& y = 0 ↔ ∀ b, ¬ (x.getLsbD b = true ∧ y.getLsbD b = true) := by
  constructor
  · rintro h b ⟨hx, hy⟩
    have hb := congrArg (·.getLsbD b) h
    simp [hx, hy] at hb
  · intro h
    apply BitVec.eq_of_getLsbD_eq
    intro b _
    have hb := h b
    rw [BitVec.getLsbD_and]
    simpa using hb

theorem NfbLockItem.take_bit (item : NfbLockItem App) (lock : NfbLock) (b : Nat) :
    (item.take lock).features.getLsbD b = true ↔
      item.features.getLsbD b = true ∨ b < 32 ∧ lock.features.getLsbD b = true := by
  unfold NfbLockItem.take
  by_cases hb : b < 32
  · have hb64 : b < 64 := by omega
    simp [BitVec.getElem_signExtend, hb, hb64]
  · have hlow : item.features.getLsbD b = false := BitVec.getLsbD_of_ge _ _ (by omega)
    simp [hb, hlow]

theorem NfbLockItem.drop_bit (item : NfbLockItem App) (lock : NfbLock) (b : Nat) :
    (item.drop lock).features.getLsbD b = true ↔ item.features.getLsbD b = true ∧ ¬ lock.features.getLsbD b = true := by
  unfold NfbLockItem.drop
  by_cases hb : b < 32
  · have hb64 : b < 64 := by omega
    simp [BitVec.getElem_signExtend, hb, hb64]
  · have hlow : item.features.getLsbD b = false := BitVec.getLsbD_of_ge _ _ (by omega)
    simp [hb, hlow]

theorem NfbLockItem.isLocked_iff (item : NfbLockItem App) (lock : NfbLock) :
    item.isLocked lock = true ↔
      item.path = lock.path ∧ ∃ b, (item.features.signExtend 64).getLsbD b = true ∧ lock.features.getLsbD b = true := by
  unfold NfbLockItem.isLocked
  rw [decide_eq_true_iff, ne_eq, and_eq_zero_iff]
  push Not
  rfl

theorem getLsbD_signExtend_of {x : U32} (h : x.getLsbD b = true) : (x.signExtend 64).getLsbD b = true := by
  have hb : b < 32 := BitVec.lt_of_getLsbD h
  rw [BitVec.getLsbD_signExtend]
  simp [hb, h, show b < 64 by omega]

/-! ## Reading the list -/

@[simp] theorem NfbLockItem.holds_iff (item : NfbLockItem App) (path : String) (b : Nat) :
    item.holds path b = true ↔ item.path = path ∧ item.features.getLsbD b = true := by
  unfold NfbLockItem.holds; rw [decide_eq_true_iff]

theorem owners_none {path : String} : owners l path b = none ↔ ∀ item ∈ l, ¬ item.holds path b = true := by
  unfold owners
  rw [Option.map_eq_none_iff, List.find?_eq_none]

theorem Exclusive.owner (h : Exclusive l) {item : NfbLockItem App} (hi : item ∈ l) {path : String} (hb : item.holds path b = true) :
    owners l path b = some item.app := by
  induction l with
  | nil => cases hi
  | cons x l ih =>
    obtain ⟨hx, hl⟩ := List.pairwise_cons.1 h
    rcases List.mem_cons.1 hi with rfl | hi
    · unfold owners
      rw [List.find?_cons, hb]
      rfl
    · have hnot : ¬ x.holds path b = true := by
        intro hxb
        obtain ⟨hp, hbit⟩ := (item.holds_iff path b).1 hb
        obtain ⟨hp', hbit'⟩ := (x.holds_iff path b).1 hxb
        exact (and_eq_zero_iff _ _).1 (hx item hi (hp'.trans hp.symm)).2 b ⟨hbit', hbit⟩
      have := ih hl hi
      unfold owners at this ⊢
      rw [List.find?_cons, Bool.eq_false_iff.2 hnot]
      exact this

theorem Exclusive.owners_eq (h : Exclusive l) {m : Owners App}
    (hsome : ∀ item ∈ l, ∀ path b, item.holds path b = true → m path b = some item.app)
    (hnone : ∀ path b a, m path b = some a → ∃ item ∈ l, item.holds path b = true) : owners l = m := by
  funext path b
  by_cases hh : ∃ item ∈ l, item.holds path b = true
  · obtain ⟨item, hi, hb⟩ := hh
    rw [h.owner hi hb, hsome item hi path b hb]
  · have hno : owners l path b = none := owners_none.2 fun item hi hb => hh ⟨item, hi, hb⟩
    rw [hno]
    cases hm : m path b with
    | none => rfl
    | some a => exact absurd (hnone path b a hm) hh

theorem exists_holder {path : String} {a : App} (ho : owners l path b = some a) :
    ∃ item ∈ l, item.holds path b = true ∧ item.app = a := by
  unfold owners at ho
  obtain ⟨item, hf, ha⟩ := Option.map_eq_some_iff.1 ho
  have hp := List.find?_some (p := fun x : NfbLockItem App => x.holds path b) hf
  exact ⟨item, List.mem_of_find?_eq_some hf, hp, ha⟩

theorem owners_high (l : List (NfbLockItem App)) (path : String) (hb : 32 ≤ b) : owners l path b = none := by
  apply owners_none.2
  intro item _ hh
  have hlow : item.features.getLsbD b = false := BitVec.getLsbD_of_ge _ _ hb
  rw [((item.holds_iff path b).1 hh).2] at hlow
  cases hlow

/-- The features of a request that fit an item. -/
def NfbLock.low (lock : NfbLock) : NfbLock := { lock with features := (lock.features.setWidth 32).setWidth 64 }

theorem NfbLock.low_bit (lock : NfbLock) (b : Nat) :
    lock.low.features.getLsbD b = true ↔ b < 32 ∧ lock.features.getLsbD b = true := by
  unfold NfbLock.low
  by_cases hb : b < 32
  · have hb64 : b < 64 := by omega
    simp [hb, hb64]
  · simp [hb]

theorem not_locked_bit (hfree : ¬ l.any (·.isLocked lock) = true) {item : NfbLockItem App} (hi : item ∈ l) (hp : item.path = lock.path)
    (hb : item.features.getLsbD b = true) : ¬ lock.features.getLsbD b = true := by
  intro hl
  exact hfree (List.any_eq_true.2 ⟨item, hi, (item.isLocked_iff lock).2 ⟨hp, b, getLsbD_signExtend_of hb, hl⟩⟩)

theorem take_disjoint (hfree : ¬ l.any (·.isLocked lock) = true) {x y : NfbLockItem App} (hy : y ∈ l) (hp : y.path = lock.path)
    (hxy : x.features &&& y.features = 0) : (x.take lock).features &&& y.features = 0 := by
  refine (and_eq_zero_iff _ _).2 ?_
  rintro b ⟨hb, hb'⟩
  rcases (x.take_bit lock b).1 hb with hx | ⟨_, hl⟩
  · exact (and_eq_zero_iff _ _).1 hxy b ⟨hx, hb'⟩
  · exact not_locked_bit hfree hy hp hb' hl

theorem locked_of_not_free (hf : ¬ (owners l).Free lock) : l.any (·.isLocked lock) = true := by
  unfold Owners.Free at hf
  push Not at hf
  obtain ⟨b, hl, hb⟩ := hf
  obtain ⟨a, ho⟩ := Option.ne_none_iff_exists'.1 hb
  obtain ⟨item, hi, hh, -⟩ := exists_holder ho
  obtain ⟨hp, hbit⟩ := (item.holds_iff _ b).1 hh
  exact List.any_eq_true.2 ⟨item, hi, (item.isLocked_iff lock).2 ⟨hp, b, getLsbD_signExtend_of hbit, hl⟩⟩

theorem low_eq (h : lock.features.toNat < 2 ^ 32) : lock.low = lock := by
  obtain ⟨path, features⟩ := lock
  have hf : (features.setWidth 32).setWidth 64 = features := by
    apply BitVec.eq_of_toNat_eq
    rw [BitVec.toNat_setWidth, BitVec.toNat_setWidth, Nat.mod_eq_of_lt h, Nat.mod_eq_of_lt features.isLt]
  unfold NfbLock.low
  simp only [hf]

theorem not_locked_of_free (h : Exclusive l) (hf : (owners l).Free lock) (hlow : lock.features.toNat < 2 ^ 32) :
    ¬ l.any (·.isLocked lock) = true := by
  intro hany
  obtain ⟨item, hi, hlocked⟩ := List.any_eq_true.1 hany
  obtain ⟨hp, b, hbit, hl⟩ := (item.isLocked_iff lock).1 hlocked
  have hb : b < 32 := by
    rw [← low_eq hlow] at hl
    exact ((lock.low_bit b).1 hl).1
  have hold : item.features.getLsbD b = true := by
    rw [BitVec.getLsbD_signExtend] at hbit
    simpa [hb, show b < 64 by omega] using hbit
  have hown := h.owner hi ((item.holds_iff lock.path b).2 ⟨hp, hold⟩)
  rw [hf b hl] at hown
  cases hown

theorem exists_high {x : U64} (h : ¬ x.toNat < 2 ^ 32) : ∃ b, 32 ≤ b ∧ x.getLsbD b = true := by
  by_contra hno
  push Not at hno
  apply h
  have hx : x = (x.setWidth 32).setWidth 64 := by
    apply BitVec.eq_of_getLsbD_eq
    intro b hb
    by_cases hlt : b < 32
    · simp [hlt, hb]
    · have := hno b (by omega)
      simp [hlt, this]
  rw [hx, BitVec.toNat_setWidth, BitVec.toNat_setWidth]
  omega

end Items

section Calls

variable {App : Type} [DecidableEq App]

@[simp] theorem NfbLockItem.isOf_iff (item : NfbLockItem App) (app : App) (path : String) :
    item.isOf app path = true ↔ item.app = app ∧ item.path = path := by
  unfold NfbLockItem.isOf; rw [decide_eq_true_iff]

/-- Where at most one element meets `p`, the last one is the only one. -/
theorem modifyLast_eq_map {α : Type} {p : α → Bool} {f : α → α} {l : List α}
    (h : l.Pairwise fun x y => ¬ (p x = true ∧ p y = true)) : modifyLast p f l = l.map fun a => if p a then f a else a := by
  induction l with
  | nil => rfl
  | cons a l ih =>
    obtain ⟨ha, hl⟩ := List.pairwise_cons.1 h
    rw [modifyLast, List.map_cons]
    by_cases hany : l.any p = true
    · obtain ⟨y, hy, hpy⟩ := List.any_eq_true.1 hany
      have hpa : ¬ p a = true := fun hpa => ha y hy ⟨hpa, hpy⟩
      rw [if_pos hany, if_neg hpa, ih hl]
    · have hrest : l.map (fun a => if p a then f a else a) = l := by
        rw [List.map_congr_left (g := id), List.map_id]
        intro y hy
        exact if_neg fun hpy => hany (List.any_eq_true.2 ⟨y, hy, hpy⟩)
      rw [if_neg hany, hrest]
      split <;> rfl

section Inv

variable {l : List (NfbLockItem App)} {app : App} {lock : NfbLock}

theorem Exclusive.one_of (h : Exclusive l) (app : App) (path : String) :
    l.Pairwise fun x y => ¬ (x.isOf app path = true ∧ y.isOf app path = true) := by
  refine List.Pairwise.imp ?_ h
  rintro x y hxy ⟨hx, hy⟩
  rw [NfbLockItem.isOf_iff] at hx hy
  exact (hxy (hx.2.trans hy.2.symm)).1 (hx.1.trans hy.1.symm)

/-- An item behind an unlock: it is gone with its last feature. -/
def NfbLockItem.unlocked (app : App) (lock : NfbLock) (item : NfbLockItem App) : Option (NfbLockItem App) :=
  if item.isOf app lock.path then (if (item.drop lock).features = 0 then none else some (item.drop lock)) else some item

theorem nfbLockUnlock_eq (h : Exclusive l) : (nfbLockUnlock app lock l).1 = l.filterMap (NfbLockItem.unlocked app lock) := by
  induction l with
  | nil => rfl
  | cons x l ih =>
    obtain ⟨hx, hl⟩ := List.pairwise_cons.1 h
    rw [nfbLockUnlock, List.filterMap_cons]
    by_cases hof : x.isOf app lock.path = true
    · have hrest : l.filterMap (NfbLockItem.unlocked app lock) = l := by
        rw [List.filterMap_congr (g := some), List.filterMap_some]
        intro y hy
        refine if_neg fun hy' => ?_
        exact (List.pairwise_cons.1 (h.one_of app lock.path)).1 y hy ⟨hof, hy'⟩
      simp only [NfbLockItem.unlocked, hof, if_true, hrest]
      split <;> rfl
    · simp only [NfbLockItem.unlocked, hof, if_false, ih hl, Bool.false_eq_true]

theorem unlocked_item {item item' : NfbLockItem App} (h : item.unlocked app lock = some item') :
    item'.app = item.app ∧ item'.path = item.path ∧ ∀ b, item'.features.getLsbD b = true ↔
      item.features.getLsbD b = true ∧ ¬ (item.app = app ∧ item.path = lock.path ∧ lock.features.getLsbD b = true) := by
  unfold NfbLockItem.unlocked at h
  by_cases hof : item.isOf app lock.path = true
  · rw [if_pos hof] at h
    rw [NfbLockItem.isOf_iff] at hof
    by_cases h0 : (item.drop lock).features = 0
    · rw [if_pos h0] at h
      cases h
    · rw [if_neg h0] at h
      cases h
      refine ⟨rfl, rfl, fun b => ?_⟩
      rw [NfbLockItem.drop_bit]
      simp only [hof, true_and]
  · rw [if_neg hof] at h
    cases h
    rw [NfbLockItem.isOf_iff] at hof
    refine ⟨rfl, rfl, fun b => ?_⟩
    constructor
    · exact fun hb => ⟨hb, fun hx => hof ⟨hx.1, hx.2.1⟩⟩
    · exact fun hb => hb.1

theorem unlocked_some {item : NfbLockItem App} (hb : item.features.getLsbD b = true)
    (hkeep : ¬ (item.app = app ∧ item.path = lock.path ∧ lock.features.getLsbD b = true)) :
    ∃ item', item.unlocked app lock = some item' := by
  by_cases hof : item.isOf app lock.path = true
  · have hof' := (NfbLockItem.isOf_iff _ _ _).1 hof
    have hne : (item.drop lock).features ≠ 0 := by
      intro h0
      have hdrop := (item.drop_bit lock b).2 ⟨hb, fun hl => hkeep ⟨hof'.1, hof'.2, hl⟩⟩
      rw [h0] at hdrop
      simp at hdrop
    exact ⟨_, by rw [NfbLockItem.unlocked, if_pos hof, if_neg hne]⟩
  · exact ⟨item, if_neg hof⟩

theorem Exclusive.unlock (h : Exclusive l) (app : App) (lock : NfbLock) : Exclusive (nfbLockUnlock app lock l).1 := by
  rw [nfbLockUnlock_eq h]
  refine List.Pairwise.filterMap _ ?_ h
  intro x y hxy x' hx y' hy hpath
  obtain ⟨hxa, hxp, hxb⟩ := unlocked_item hx
  obtain ⟨hya, hyp, hyb⟩ := unlocked_item hy
  obtain ⟨hne, hzero⟩ := hxy (by rw [← hxp, hpath, hyp])
  refine ⟨by rw [hxa, hya]; exact hne, (and_eq_zero_iff _ _).2 ?_⟩
  rintro b ⟨hb, hb'⟩
  exact (and_eq_zero_iff _ _).1 hzero b ⟨((hxb b).1 hb).1, ((hyb b).1 hb').1⟩

/-- An unlock takes exactly the named features away from the application. -/
theorem owners_unlock (h : Exclusive l) (app : App) (lock : NfbLock) :
    owners (nfbLockUnlock app lock l).1 = (owners l).drop app lock := by
  have hmem : ∀ item', item' ∈ (nfbLockUnlock app lock l).1 ↔ ∃ item ∈ l, item.unlocked app lock = some item' := by
    intro item'
    rw [nfbLockUnlock_eq h, List.mem_filterMap]
  refine (h.unlock app lock).owners_eq ?_ ?_
  · intro item' hi path b hb
    obtain ⟨item, hitem, he⟩ := (hmem item').1 hi
    obtain ⟨ha, hp, hbits⟩ := unlocked_item he
    obtain ⟨hpath, hbit⟩ := (item'.holds_iff path b).1 hb
    obtain ⟨hold, hkeep⟩ := (hbits b).1 hbit
    have hown := h.owner hitem ((item.holds_iff path b).2 ⟨hp.symm.trans hpath, hold⟩)
    unfold Owners.drop
    rw [hown, ha, if_neg]
    rintro ⟨hp', hl, hsome⟩
    exact hkeep ⟨Option.some.inj hsome, by rw [← hp, hpath, hp'], hl⟩
  · intro path b a hm
    unfold Owners.drop at hm
    split at hm
    · cases hm
    · rename_i hcond
      obtain ⟨item, hitem, hb, rfl⟩ := exists_holder hm
      obtain ⟨hpath, hbit⟩ := (item.holds_iff path b).1 hb
      have hkeep : ¬ (item.app = app ∧ item.path = lock.path ∧ lock.features.getLsbD b = true) := by
        rintro ⟨rfl, hp, hl⟩
        exact hcond ⟨hpath.symm.trans hp, hl, hm⟩
      obtain ⟨item', he⟩ := unlocked_some hbit hkeep
      obtain ⟨_, hp, hbits⟩ := unlocked_item he
      exact ⟨item', (hmem item').2 ⟨item, hitem, he⟩,
        (item'.holds_iff path b).2 ⟨hp.trans hpath, (hbits b).2 ⟨hbit, hkeep⟩⟩⟩

theorem Exclusive.release (h : Exclusive l) (app : App) : Exclusive (nfbLockRelease app l) :=
  List.Pairwise.filter _ h

theorem owners_release (h : Exclusive l) (app : App) : owners (nfbLockRelease app l) = (owners l).dropAll app := by
  refine (h.release app).owners_eq ?_ ?_
  · intro item hi path b hb
    obtain ⟨hi, hne⟩ := List.mem_filter.1 hi
    unfold Owners.dropAll
    rw [h.owner hi hb, if_neg]
    intro hsome
    exact of_decide_eq_true hne (Option.some.inj hsome)
  · intro path b a hm
    unfold Owners.dropAll at hm
    split at hm
    · cases hm
    · rename_i hne
      obtain ⟨item, hitem, hb, rfl⟩ := exists_holder hm
      refine ⟨item, List.mem_filter.2 ⟨hitem, decide_eq_true ?_⟩, hb⟩
      rintro rfl
      exact hne hm

/-! ## Taking features -/

theorem Exclusive.takeOwn (h : Exclusive l) (hfree : ¬ l.any (·.isLocked lock) = true) :
    Exclusive (l.map fun item => if item.isOf app lock.path then item.take lock else item) := by
  refine List.pairwise_map.2 (h.imp_of_mem ?_)
  intro x y hx hy hxy
  by_cases hxo : x.isOf app lock.path = true
  · have hxo' := (NfbLockItem.isOf_iff _ _ _).1 hxo
    rw [if_pos hxo]
    by_cases hyo : y.isOf app lock.path = true
    · have hyo' := (NfbLockItem.isOf_iff _ _ _).1 hyo
      exact fun _ => absurd (hxo'.1.trans hyo'.1.symm) (hxy (hxo'.2.trans hyo'.2.symm)).1
    · rw [if_neg hyo]
      intro hpath
      obtain ⟨hne, hzero⟩ := hxy hpath
      exact ⟨hne, take_disjoint hfree hy (hpath.symm.trans hxo'.2) hzero⟩
  · rw [if_neg hxo]
    by_cases hyo : y.isOf app lock.path = true
    · have hyo' := (NfbLockItem.isOf_iff _ _ _).1 hyo
      rw [if_pos hyo]
      intro hpath
      obtain ⟨hne, hzero⟩ := hxy hpath
      rw [BitVec.and_comm] at hzero ⊢
      exact ⟨hne, take_disjoint hfree hx (hpath.trans hyo'.2) hzero⟩
    · rw [if_neg hyo]
      exact hxy

theorem Exclusive.takeNew (h : Exclusive l) (hfree : ¬ l.any (·.isLocked lock) = true)
    (hown : ¬ l.any (·.isOf app lock.path) = true) : Exclusive ((NfbLockItem.mk app lock.path 0).take lock :: l) := by
  refine List.pairwise_cons.2 ⟨?_, h⟩
  intro y hy hpath
  refine ⟨?_, take_disjoint hfree hy hpath.symm (by simp)⟩
  intro happ
  exact hown (List.any_eq_true.2 ⟨y, hy, (NfbLockItem.isOf_iff _ _ _).2 ⟨happ.symm, hpath.symm⟩⟩)

/-- The owners after the item of the application got the features. -/
theorem owners_takeOwn (h : Exclusive l) (hfree : ¬ l.any (·.isLocked lock) = true)
    (hown : l.any (·.isOf app lock.path) = true) :
    owners (l.map fun item => if item.isOf app lock.path then item.take lock else item) = (owners l).take app lock.low := by
  refine (h.takeOwn hfree).owners_eq ?_ ?_
  · intro item' hi path b hb
    obtain ⟨item, hitem, rfl⟩ := List.mem_map.1 hi
    unfold Owners.take
    by_cases hof : item.isOf app lock.path = true
    · rw [if_pos hof] at hb ⊢
      have hof' := (NfbLockItem.isOf_iff _ _ _).1 hof
      obtain ⟨hpath, hbit⟩ := (NfbLockItem.holds_iff _ path b).1 hb
      by_cases hl : path = lock.low.path ∧ lock.low.features.getLsbD b = true
      · rw [if_pos hl]
        exact congrArg some hof'.1.symm
      · rw [if_neg hl]
        rcases (item.take_bit lock b).1 hbit with hold | hnew
        · exact h.owner hitem ((item.holds_iff path b).2 ⟨hpath, hold⟩)
        · exact absurd ⟨hpath.symm.trans hof'.2, (lock.low_bit b).2 hnew⟩ hl
    · rw [if_neg hof] at hb ⊢
      obtain ⟨hpath, hbit⟩ := (item.holds_iff path b).1 hb
      rw [if_neg, h.owner hitem hb]
      rintro ⟨hp, hl⟩
      exact not_locked_bit hfree hitem (hpath.trans hp) hbit ((lock.low_bit b).1 hl).2
  · intro path b a hm
    unfold Owners.take at hm
    by_cases hl : path = lock.low.path ∧ lock.low.features.getLsbD b = true
    · obtain ⟨item, hitem, hof⟩ := List.any_eq_true.1 hown
      refine ⟨item.take lock, List.mem_map.2 ⟨item, hitem, if_pos hof⟩, ?_⟩
      rw [NfbLockItem.holds_iff, NfbLockItem.take_bit]
      exact ⟨((NfbLockItem.isOf_iff _ _ _).1 hof).2.trans hl.1.symm, Or.inr ((lock.low_bit b).1 hl.2)⟩
    · rw [if_neg hl] at hm
      obtain ⟨item, hitem, hb, -⟩ := exists_holder hm
      refine ⟨_, List.mem_map.2 ⟨item, hitem, rfl⟩, ?_⟩
      split
      · obtain ⟨hpath, hbit⟩ := (item.holds_iff path b).1 hb
        rw [NfbLockItem.holds_iff, NfbLockItem.take_bit]
        exact ⟨hpath, Or.inl hbit⟩
      · exact hb

theorem owners_takeNew (h : Exclusive l) (hfree : ¬ l.any (·.isLocked lock) = true)
    (hown : ¬ l.any (·.isOf app lock.path) = true) :
    owners ((NfbLockItem.mk app lock.path 0).take lock :: l) = (owners l).take app lock.low := by
  have hnew : ∀ b, ((NfbLockItem.mk app lock.path 0).take lock).features.getLsbD b = true ↔
      lock.low.features.getLsbD b = true := by
    intro b
    rw [NfbLockItem.take_bit, lock.low_bit]
    simp
  refine (h.takeNew hfree hown).owners_eq ?_ ?_
  · intro item hi path b hb
    unfold Owners.take
    rcases List.mem_cons.1 hi with rfl | hi
    · obtain ⟨hpath, hbit⟩ := (NfbLockItem.holds_iff _ path b).1 hb
      rw [if_pos ⟨hpath.symm, (hnew b).1 hbit⟩]
      rfl
    · obtain ⟨hpath, hbit⟩ := (item.holds_iff path b).1 hb
      rw [if_neg, h.owner hi hb]
      rintro ⟨hp, hl⟩
      exact not_locked_bit hfree hi (hpath.trans hp) hbit ((lock.low_bit b).1 hl).2
  · intro path b a hm
    unfold Owners.take at hm
    by_cases hl : path = lock.low.path ∧ lock.low.features.getLsbD b = true
    · exact ⟨_, List.mem_cons_self, (NfbLockItem.holds_iff _ _ _).2 ⟨hl.1.symm, (hnew b).2 hl.2⟩⟩
    · rw [if_neg hl] at hm
      obtain ⟨item, hitem, hb, -⟩ := exists_holder hm
      exact ⟨item, List.mem_cons_of_mem _ hitem, hb⟩

theorem nfbLockTryLock_free (h : Exclusive l) (hfree : ¬ l.any (·.isLocked lock) = true) {alloc : Bool}
    (hmem : alloc = true ∨ l.any (·.isOf app lock.path) = true) :
    (nfbLockTryLock alloc app lock l).2 = 0 ∧ Exclusive (nfbLockTryLock alloc app lock l).1 ∧
      owners (nfbLockTryLock alloc app lock l).1 = (owners l).take app lock.low := by
  unfold nfbLockTryLock
  rw [if_neg hfree]
  by_cases hown : l.any (·.isOf app lock.path) = true
  · rw [if_pos hown, modifyLast_eq_map (h.one_of app lock.path)]
    exact ⟨rfl, h.takeOwn hfree, owners_takeOwn h hfree hown⟩
  · rw [if_neg hown, if_pos (hmem.resolve_right hown)]
    exact ⟨rfl, h.takeNew hfree hown, owners_takeNew h hfree hown⟩

theorem nfbLockTryLock_nomem {alloc : Bool} (hmem : ¬ (alloc = true ∨ l.any (·.isOf app lock.path) = true)) :
    (nfbLockTryLock alloc app lock l).1 = l := by
  obtain ⟨halloc, hown⟩ := not_or.1 hmem
  unfold nfbLockTryLock
  rw [if_neg hown, if_neg halloc]
  split <;> rfl

theorem Exclusive.tryLock (h : Exclusive l) (alloc : Bool) (app : App) (lock : NfbLock) :
    Exclusive (nfbLockTryLock alloc app lock l).1 := by
  by_cases hmem : alloc = true ∨ l.any (·.isOf app lock.path) = true
  · by_cases hlocked : l.any (·.isLocked lock) = true
    · unfold nfbLockTryLock
      rw [if_pos hlocked]
      exact h
    · exact (nfbLockTryLock_free h hlocked hmem).2.1
  · rw [nfbLockTryLock_nomem hmem]
    exact h

theorem lockStep_exclusive (l : List (NfbLockItem App)) (a : LockAct App) (h : Exclusive l) : Exclusive (lockStep l a) := by
  cases a with
  | tryLock app lock alloc => exact h.tryLock alloc app lock
  | unlock app lock => exact h.unlock app lock
  | release app => exact h.release app

end Inv

/-! ## Runs -/

/-- There is memory for a new item, or the application has one for the component. -/
def HasMemory (l : List (NfbLockItem App)) (app : App) (lock : NfbLock) (alloc : Bool) : Prop :=
  alloc = true ∨ l.any (·.isOf app lock.path) = true

/-- What a call should do to the map of owners: a request gives exactly its features to the caller if they are free
and there is memory, is refused and changes nothing if one has an owner; an unlock and a release take the features
named and all features from the caller, and nothing from anyone else. -/
def LockRight (l : List (NfbLockItem App)) : LockAct App → Prop
  | .tryLock app lock alloc =>
    (¬ (owners l).Free lock → nfbLockTryLock alloc app lock l = (l, eBusy)) ∧
      ((owners l).Free lock → HasMemory l app lock alloc → (nfbLockTryLock alloc app lock l).2 = 0 ∧
        owners (nfbLockTryLock alloc app lock l).1 = (owners l).take app lock) ∧
      (¬ HasMemory l app lock alloc → owners (nfbLockTryLock alloc app lock l).1 = owners l)
  | .unlock app lock => owners (nfbLockUnlock app lock l).1 = (owners l).drop app lock
  | .release app => owners (nfbLockRelease app l) = (owners l).dropAll app

/-- The condition: a request that is to succeed asks for none of the features above 31. -/
def LowFeatures (l : List (NfbLockItem App)) : LockAct App → Prop
  | .tryLock app lock alloc => (owners l).Free lock → HasMemory l app lock alloc → lock.features.toNat < 2 ^ 32
  | .unlock _ _ => True
  | .release _ => True

theorem lockRight_iff (l : List (NfbLockItem App)) (a : LockAct App) (h : Exclusive l) : LockRight l a ↔ LowFeatures l a := by
  cases a with
  | tryLock app lock alloc =>
    constructor
    · rintro ⟨-, hfree, -⟩ hf hm
      by_contra hhigh
      -- a bit above 31 is given to nobody
      obtain ⟨b, hb, hl⟩ := exists_high hhigh
      have hown := congrFun (congrFun (hfree hf hm).2 lock.path) b
      rw [owners_high _ _ hb, Owners.take, if_pos ⟨rfl, hl⟩] at hown
      cases hown
    · intro hlow
      refine ⟨fun hf => ?_, fun hf hm => ?_, fun hm => ?_⟩
      · unfold nfbLockTryLock
        rw [if_pos (locked_of_not_free hf)]
      · obtain ⟨hret, -, hown⟩ := nfbLockTryLock_free h (not_locked_of_free h hf (hlow hf hm)) hm
        rw [low_eq (hlow hf hm)] at hown
        exact ⟨hret, hown⟩
      · rw [nfbLockTryLock_nomem hm]
  | unlock app lock => exact iff_of_true (owners_unlock h app lock) trivial
  | release app => exact iff_of_true (owners_release h app) trivial

/-- In every run the items stay exclusive, and every call does what it should to the map of owners exactly if no
request that is to succeed asks for a feature above 31. -/
theorem lock_table_iff (acts : List (LockAct App)) :
    Exclusive (run lockStep ([] : List (NfbLockItem App)) acts) ∧
      (Meets lockStep LockRight ([] : List (NfbLockItem App)) acts ↔ Meets lockStep LowFeatures [] acts) := by
  have hnil : Exclusive ([] : List (NfbLockItem App)) := List.Pairwise.nil
  exact ⟨run_inv lockStep_exclusive acts _ hnil, meets_iff lockRight_iff (fun l a _ => lockStep_exclusive l a) acts _ hnil⟩

end Calls

/-- Two applications lock feature 40 of a component one after the other. -/
theorem lock_table_shared :
    (nfbLockTryLock true 1 ⟨"/dma", 1 <<< 40⟩ (nfbLockTryLock true 0 ⟨"/dma", 1 <<< 40⟩ []).1).2 = 0 ∧
      (nfbLockTryLock true 0 ⟨"/dma", 1 <<< 40⟩ []).2 = 0 ∧
      ¬ Meets lockStep LockRight ([] : List (NfbLockItem Nat)) [.tryLock 0 ⟨"/dma", 1 <<< 40⟩ true] := by
  refine ⟨by decide, by decide, ?_⟩
  rintro ⟨⟨-, hfree, -⟩, -⟩
  have hown := congrFun (congrFun (hfree (fun _ _ => rfl) (Or.inl rfl)).2 "/dma") 40
  rw [owners_high _ _ (by norm_num), Owners.take, if_pos ⟨rfl, by decide⟩] at hown
  cases hown

end NdkSw.Nfb

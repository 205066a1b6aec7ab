/-
The search for a component below a node of the device tree (`find_in_subtree` of `nfb.c`). The subnodes of a node and their order are
those of `libfdt`.
-/
import Mathlib.Tactic

namespace NdkSw.CompFind

/-! ## The search -/

/-- The functions of `libfdt` that are called; a negative offset is an error. -/
structure Libfdt where
  firstSubnode : Int → Int
  nextSubnode : Int → Int
  nodeCheckCompatible : Int → String → Int

def fdtErrNotFound : Int := 1

section

variable (fdt : Libfdt) (compatible : String) (indexSearched : BitVec 32)

/-- The loop over the subnodes, from `node` on, and the counter; no run if it needs more calls and rounds. -/
def subtreeLoop : Nat → Int → BitVec 32 → Option (Int × BitVec 32)
  | 0, _, _ => none
  | fuel + 1, node, indexCurrent =>
    if node < 0 then some (-fdtErrNotFound, indexCurrent)
    else
      let found := fdt.nodeCheckCompatible node compatible = 0
      let indexCurrent := if found then indexCurrent + 1 else indexCurrent
      if found ∧ indexCurrent = indexSearched + 1 then some (node, indexCurrent)
      else if 0 < fdt.firstSubnode node then
        -- the call for the subtree starts with the first subnode
        (subtreeLoop fuel (fdt.firstSubnode node) indexCurrent).bind fun r =>
          if 0 < r.1 then some r else subtreeLoop fuel (fdt.nextSubnode node) r.2
      else subtreeLoop fuel (fdt.nextSubnode node) indexCurrent

/-- `find_in_subtree`. -/
def findInSubtree (fuel : Nat) (subtreeOffset : Int) (indexCurrent : BitVec 32) : Option (Int × BitVec 32) :=
  subtreeLoop fdt compatible indexSearched fuel (fdt.firstSubnode subtreeOffset) indexCurrent

end

/-- `nfb_comp_find_in_parent`. -/
def nfbCompFindInParent (fuel : Nat) (dev : Option Libfdt) (compatible : Option String) (index : BitVec 32) (parentOffset : Int) : Option Int :=
  match dev, compatible with
  | some fdt, some compatible => (findInSubtree fdt compatible index fuel parentOffset 0).map Prod.fst
  | _, _ => some (-1)

/-! ## Device trees -/

/-- The subnodes of a node in their order, each with its own subnodes. -/
inductive Forest where
  | nil
  | node (offset : Int) (compatible : List String) (subnodes rest : Forest)

namespace Forest

/-- All nodes in the order of the document. -/
def nodes : Forest → List (Int × List String)
  | nil => []
  | node offset compatible subnodes rest => (offset, compatible) :: (subnodes.nodes ++ rest.nodes)

/-- The nodes with a compatible string, in the order of the document. -/
def matching (compatible : String) (f : Forest) : List Int := (f.nodes.filter fun n => compatible ∈ n.2).map Prod.fst

/-- `libfdt` iterates over these nodes, from an offset on; no node of them is the root. -/
def Described (fdt : Libfdt) : Forest → Int → Prop
  | nil, start => start < 0
  | node offset compatible subnodes rest, start =>
    start = offset ∧ 0 < offset ∧ (∀ s, fdt.nodeCheckCompatible offset s = 0 ↔ s ∈ compatible) ∧
      subnodes.Described fdt (fdt.firstSubnode offset) ∧ rest.Described fdt (fdt.nextSubnode offset)

variable {s : String}

theorem matching_node (offset : Int) (compatible : List String) (subnodes rest : Forest) :
    (node offset compatible subnodes rest).matching s =
      (if s ∈ compatible then [offset] else []) ++ (subnodes.matching s ++ rest.matching s) := by
  unfold matching
  rw [nodes, List.filter_cons, List.filter_append]
  by_cases hs : s ∈ compatible <;> simp [hs]

theorem Described.pos {fdt : Libfdt} : ∀ {f : Forest} {start : Int}, f.Described fdt start → ∀ o ∈ f.matching s, 0 < o := by
  intro f
  induction f with
  | nil => exact fun _ o ho => absurd ho List.not_mem_nil
  | node offset compatible subnodes rest ihSub ihRest =>
    rintro start ⟨-, hpos, -, hsub, hrest⟩ o ho
    rw [matching_node, List.mem_append, List.mem_append] at ho
    rcases ho with ho | ho | ho
    · split_ifs at ho
      · obtain rfl := List.mem_singleton.1 ho
        exact hpos
      · exact absurd ho List.not_mem_nil
    · exact ihSub hsub o ho
    · exact ihRest hrest o ho

theorem Described.start {fdt : Libfdt} {f : Forest} {start : Int} (h : f.Described fdt start) : 0 < start ∨ (start < 0 ∧ f = nil) := by
  cases f with
  | nil => exact Or.inr ⟨h, rfl⟩
  | node offset compatible subnodes rest => exact Or.inl (h.1 ▸ h.2.1)

end Forest

/-! ## The counter -/

/-- What a search over these matches gives: the node that is looked for, or the counter behind all of them. -/
def outcome (index current : BitVec 32) (found : List Int) : Int × BitVec 32 :=
  match found[index.toNat - current.toNat]? with
  | some o => (o, index + 1)
  | none => (-fdtErrNotFound, current + BitVec.ofNat 32 found.length)

section

variable {index current : BitVec 32} {l l' : List Int}

theorem toNat_counter (h : current.toNat ≤ index.toNat) (hlen : l.length ≤ index.toNat - current.toNat) :
    (current + BitVec.ofNat 32 l.length).toNat = current.toNat + l.length := by
  have hlt := index.isLt
  rw [BitVec.toNat_add, BitVec.toNat_ofNat, Nat.add_mod_mod, Nat.mod_eq_of_lt (by omega)]

theorem outcome_append (h : current.toNat ≤ index.toNat) : outcome index current (l ++ l') =
    if l.length ≤ index.toNat - current.toNat then outcome index (current + BitVec.ofNat 32 l.length) l' else outcome index current l := by
  unfold outcome
  split_ifs with hlen
  · rw [toNat_counter h hlen, List.getElem?_append_right hlen, Nat.sub_sub]
    cases l'[index.toNat - (current.toNat + l.length)]? with
    | some o => rfl
    | none =>
      dsimp only
      rw [List.length_append, BitVec.ofNat_add, BitVec.add_assoc]
  · rw [List.getElem?_append_left (by omega), List.getElem?_eq_getElem (by omega)]

theorem outcome_cases (index current : BitVec 32) (l : List Int) :
    (l.length ≤ index.toNat - current.toNat ∧ outcome index current l = (-fdtErrNotFound, current + BitVec.ofNat 32 l.length)) ∨
      ∃ o ∈ l, ¬ l.length ≤ index.toNat - current.toNat ∧ outcome index current l = (o, index + 1) := by
  unfold outcome
  rcases Nat.lt_or_ge (index.toNat - current.toNat) l.length with hlt | hge
  · rw [List.getElem?_eq_getElem hlt]
    exact Or.inr ⟨_, List.getElem_mem hlt, Nat.not_le.2 hlt, rfl⟩
  · rw [List.getElem?_eq_none hge]
    exact Or.inl ⟨hge, rfl⟩

theorem outcome_singleton (h : current.toNat ≤ index.toNat) (o : Int) : outcome index current [o] =
    if current + 1 = index + 1 then (o, current + 1) else (-fdtErrNotFound, current + 1) := by
  have hiff : current + 1 = index + 1 ↔ current = index := ⟨fun he => by simpa using he, fun he => he ▸ rfl⟩
  unfold outcome
  by_cases heq : current = index
  · rw [if_pos (hiff.2 heq), heq, Nat.sub_self]
    rfl
  · have hne : current.toNat ≠ index.toNat := fun he => heq (BitVec.eq_of_toNat_eq he)
    rw [if_neg (mt hiff.1 heq), List.getElem?_eq_none (by rw [List.length_singleton]; omega)]
    rfl

end

/-! ## The search counts the matches -/

section

variable {fdt : Libfdt} {compatible : String} {index : BitVec 32}

open Forest

theorem subtreeLoop_spec : ∀ {f : Forest} {start : Int}, f.Described fdt start → ∀ fuel > f.nodes.length, ∀ current : BitVec 32,
    current.toNat ≤ index.toNat →
    subtreeLoop fdt compatible index fuel start current = some (outcome index current (f.matching compatible)) := by
  intro f
  induction f with
  | nil =>
    intro start h fuel hfuel current _
    obtain ⟨fuel, rfl⟩ := Nat.exists_eq_add_one_of_ne_zero (Nat.ne_of_gt hfuel)
    have hend : outcome index current [] = (-fdtErrNotFound, current) := by
      unfold outcome
      rw [List.getElem?_nil]
      simp
    have hneg : start < 0 := h
    rw [subtreeLoop, if_pos hneg]
    exact congrArg some hend.symm
  | node offset strings subnodes rest ihSub ihRest =>
    intro start h fuel hfuel current hle
    obtain ⟨rfl, hpos, hcheck, hsub, hrest⟩ := h
    rw [nodes, List.length_cons, List.length_append] at hfuel
    obtain ⟨fuel, rfl⟩ := Nat.exists_eq_add_one_of_ne_zero (show fuel ≠ 0 by omega)
    -- the subtree and what follows, once the node itself is counted
    have hbelow : ∀ cur : BitVec 32, cur.toNat ≤ index.toNat →
        (if 0 < fdt.firstSubnode start then
          (subtreeLoop fdt compatible index fuel (fdt.firstSubnode start) cur).bind fun r =>
            if 0 < r.1 then some r else subtreeLoop fdt compatible index fuel (fdt.nextSubnode start) r.2
        else subtreeLoop fdt compatible index fuel (fdt.nextSubnode start) cur) =
          some (outcome index cur (subnodes.matching compatible ++ rest.matching compatible)) := by
      intro cur hcur
      rcases hsub.start with hfirst | ⟨hfirst, rfl⟩
      · rw [if_pos hfirst, ihSub hsub fuel (by omega) cur hcur, Option.bind_some, outcome_append hcur]
        rcases outcome_cases index cur (subnodes.matching compatible) with ⟨hlen, hout⟩ | ⟨o, ho, hlen, hout⟩
        · rw [hout, if_neg (show ¬ (0 : Int) < -fdtErrNotFound by decide), if_pos hlen]
          refine ihRest hrest fuel (by omega) _ ?_
          rw [toNat_counter hcur hlen]
          omega
        · rw [hout, if_pos (hsub.pos o ho), if_neg hlen]
      · rw [if_neg (by omega)]
        exact ihRest hrest fuel (by omega) cur hcur
    rw [subtreeLoop, if_neg (by omega), matching_node]
    dsimp only
    by_cases hs : compatible ∈ strings
    · have hzero := (hcheck compatible).2 hs
      rw [if_pos hzero, if_pos hs, outcome_append hle, outcome_singleton hle]
      by_cases heq : current + 1 = index + 1
      · have hcur : current = index := by simpa using heq
        rw [if_pos ⟨hzero, heq⟩, if_pos heq, if_neg]
        rw [hcur, Nat.sub_self, List.length_singleton]
        omega
      · have hne : current.toNat ≠ index.toNat := fun he => heq (congrArg (· + 1) (BitVec.eq_of_toNat_eq he))
        have hone : [start].length ≤ index.toNat - current.toNat := by
          rw [List.length_singleton]
          omega
        rw [if_neg fun hb => heq hb.2, if_pos hone]
        have hnext : (current + 1).toNat = current.toNat + 1 := toNat_counter hle hone
        exact hbelow _ (by omega)
    · have hzero := mt (hcheck compatible).1 hs
      rw [if_neg hzero, if_neg hs, if_neg fun hb => hzero hb.1, List.nil_append]
      exact hbelow current hle

/-- The search gives the match with the number that is looked for, and an error if and only if there are not so many. -/
theorem find_in_parent_nth {f : Forest} (parent : Int) (hf : f.Described fdt (fdt.firstSubnode parent)) (fuel : Nat) (hfuel : f.nodes.length < fuel) :
    ∃ r, nfbCompFindInParent fuel (some fdt) (some compatible) index parent = some r ∧
      (∀ o, (f.matching compatible)[index.toNat]? = some o → r = o) ∧ (r < 0 ↔ (f.matching compatible).length ≤ index.toNat) := by
  unfold nfbCompFindInParent findInSubtree
  dsimp only
  rw [subtreeLoop_spec hf fuel hfuel 0 (Nat.zero_le _), Option.map_some]
  refine ⟨_, rfl, ?_⟩
  rcases outcome_cases index 0 (f.matching compatible) with ⟨hlen, hout⟩ | ⟨o, ho, hlen, hout⟩
  · have hend : (f.matching compatible).length ≤ index.toNat := by simpa using hlen
    rw [hout]
    refine ⟨fun o ho => ?_, fun _ => hend, fun _ => show -fdtErrNotFound < 0 by decide⟩
    rw [List.getElem?_eq_none hend] at ho
    cases ho
  · have hlt : ¬ (f.matching compatible).length ≤ index.toNat := by simpa using hlen
    have hpos := hf.pos o ho
    rw [hout]
    refine ⟨fun p hp => ?_, fun hneg => ?_, fun hle => absurd hle hlt⟩
    · unfold outcome at hout
      have hzero : index.toNat - BitVec.toNat (0 : BitVec 32) = index.toNat := Nat.sub_zero _
      rw [hzero, hp] at hout
      exact (congrArg Prod.fst hout).symm
    · dsimp only at hneg
      omega

end

/-! ## A tree -/

/-- A match inside a match, and another node. -/
def nestedForest : Forest := .node 8 ["a"] (.node 16 ["b", "a"] .nil .nil) (.node 32 ["b"] .nil .nil)

def nestedFdt : Libfdt where
  firstSubnode o := if o = 0 then 8 else if o = 8 then 16 else -fdtErrNotFound
  nextSubnode o := if o = 8 then 32 else -fdtErrNotFound
  nodeCheckCompatible o s := if s ∈ (if o = 8 then ["a"] else if o = 16 then ["b", "a"] else if o = 32 then ["b"] else []) then 0 else 1

theorem nested_described : nestedForest.Described nestedFdt (nestedFdt.firstSubnode 0) := by
  simp [nestedForest, nestedFdt, Forest.Described, fdtErrNotFound]
  tauto

theorem nested_second_found : ∃ r, nfbCompFindInParent 4 (some nestedFdt) (some "a") 1 0 = some r ∧
    (∀ o, (nestedForest.matching "a")[1]? = some o → r = o) ∧ (r < 0 ↔ (nestedForest.matching "a").length ≤ 1) :=
  find_in_parent_nth 0 nested_described 4 (by decide)

end NdkSw.CompFind

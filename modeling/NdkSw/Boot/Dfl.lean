/-
The walk through the device feature list in a BAR (`nfbbootstrap/dfl.py`, `pypcie/bar.py`), whose headers lead to the next one and, those of
an FME, to the lists of its ports. The chain of headers always comes to an end; the walk does if and only if no header that it enters leads
back to itself, which a port can make it do.
-/
import NdkSw.Ndp.Channel
import NdkSw.Shared.OrderedWalk

namespace NdkSw.Dfl

open Ndp Shared.OrderedWalk Relation

/-! ## The BAR -/

/-- The mapped file of the BAR. -/
structure Bar where
  map : List U8

def Bar.size (bar : Bar) : Nat := bar.map.length

/-- What the accesses of a BAR raise: a `ValueError` for an offset, or the `struct.error` of `unpack` for too few bytes. -/
inductive BarError where
  | unaligned (offset : Nat)
  | exceeds (offset size : Nat)
  | unpack (size : Nat)
  deriving DecidableEq, Repr

/-- `Bar.__check_offset`. -/
def Bar.checkOffset (bar : Bar) (offset : Nat) : Except BarError Unit :=
  if offset &&& 0x3 ≠ 0 then .error (.unaligned offset)
  else if bar.size < offset + 3 then .error (.exceeds offset bar.size)
  else .ok ()

/-- The number that bytes stand for, the lowest first. -/
def ofBytes : List U8 → Nat
  | [] => 0
  | b :: bs => b.toNat + 256 * ofBytes bs

/-- `unpack` of an unsigned number of this many bytes. -/
def unpack (size : Nat) (reg : List U8) : Except BarError Nat := if reg.length = size then .ok (ofBytes reg) else .error (.unpack size)

/-- The bytes of `map[offset:offset+size]`, as a number. -/
def Bar.read (bar : Bar) (size offset : Nat) : Except BarError Nat := do
  bar.checkOffset offset
  unpack size ((bar.map.drop offset).take size)

def Bar.read32 (bar : Bar) (offset : Nat) : Except BarError Nat := bar.read 4 offset

def Bar.read64 (bar : Bar) (offset : Nat) : Except BarError Nat := bar.read 8 offset

/-! ## The list -/

def dfhTypePrivate : Nat := 3

def dfhTypeFiu : Nat := 4

def dfhTypeFiuFme : Nat := 0

def fmeHdrCap : Nat := 0x30

def bitmask (b : Nat) : Nat := (1 <<< b) - 1

def bitGet (val b : Nat) : Nat := (val >>> b) &&& 1

def fieldGet (val bto bfrom : Nat) : Nat := (val >>> bfrom) &&& bitmask (bto - bfrom)

/-- What a header says. -/
structure Item where
  dfhId : Nat
  dfhType : Nat
  dfhNext : Nat
  eol : Nat
  deriving DecidableEq, Repr

/-- The header at an offset, read with its GUID. -/
def readItem (bar : Bar) (offset : Nat) : Except BarError Item := do
  let cfgQword ← bar.read64 (offset + 0)
  let _guid ← (List.range 4).mapM fun i => bar.read32 (offset + 8 + i * 4)
  pure ⟨fieldGet cfgQword 12 0, fieldGet cfgQword 64 60, fieldGet cfgQword 40 16, bitGet cfgQword 40⟩

/-- `out_dict`. -/
abbrev Features := Nat → Option (Nat × Nat)

/-- What becomes of a call, `none` while it has not come to an end. -/
abbrev Run (α : Type) := ExceptT BarError Option α

/-- The loop over the ports of the FME at an offset. -/
def parsePorts (bar : Bar) (offset : Nat) (parse : Nat → Features → Run Features) : List Nat → Features → Run Features
  | [], outDict => pure outDict
  | p :: ps, outDict => do
    let fmePortCfgQword ← (bar.read64 (offset + fmeHdrCap + 8 * p) : Run Nat)
    if bitGet fmePortCfgQword 60 = 0 then parsePorts bar offset parse ps outDict
    else
      let outDict ← parse (fieldGet fmePortCfgQword 24 0) outDict
      parsePorts bar offset parse ps outDict

/-- What is done with a header before the next one. -/
def parseItem (bar : Bar) (offset : Nat) (item : Item) (parse : Nat → Features → Run Features) (outDict : Features) : Run Features :=
  if item.dfhType = dfhTypeFiu then
    if item.dfhId = dfhTypeFiuFme then do
      let fmeCfgQword ← (bar.read64 (offset + fmeHdrCap) : Run Nat)
      parsePorts bar offset parse (List.range (fieldGet fmeCfgQword 20 17)) outDict
    else pure outDict
  else if item.dfhType = dfhTypePrivate then pure (Function.update outDict item.dfhId (some (offset, item.dfhNext)))
  else pure outDict

/-- `parse_dfl_from`, as far as it gets with at most this many rounds and calls inside each other. -/
def parseDflFrom (bar : Bar) : Nat → Nat → Features → Run Features
  | 0, _, _ => none
  | n + 1, offset, outDict => do
    let item ← (readItem bar offset : Run Item)
    let outDict ← parseItem bar offset item (parseDflFrom bar n) outDict
    if item.eol ≠ 0 ∨ item.dfhNext = 0 then pure outDict else parseDflFrom bar n (offset + item.dfhNext) outDict

/-! ## Where headers lead -/

/-- The offsets of the implemented ports, up to a port that cannot be read, and whether there is one. -/
def portLinks (bar : Bar) (offset : Nat) : List Nat → List Nat × Bool
  | [] => ([], false)
  | p :: ps =>
    match bar.read64 (offset + fmeHdrCap + 8 * p) with
    | .error _ => ([], true)
    | .ok cfg =>
      if bitGet cfg 60 = 0 then portLinks bar offset ps
      else (fieldGet cfg 24 0 :: (portLinks bar offset ps).1, (portLinks bar offset ps).2)

/-- The links of a header to the ports of its FME. -/
def itemLinks (bar : Bar) (offset : Nat) (item : Item) : List Nat × Bool :=
  if item.dfhType = dfhTypeFiu ∧ item.dfhId = dfhTypeFiuFme then
    match bar.read64 (offset + fmeHdrCap) with
    | .error _ => ([], true)
    | .ok cfg => portLinks bar offset (List.range (fieldGet cfg 20 17))
  else ([], false)

/-- The offsets that a header leads to, those of its ports first, and whether some part of it cannot be read. -/
def headerLinks (bar : Bar) (offset : Nat) : List Nat × Bool :=
  match readItem bar offset with
  | .error _ => ([], true)
  | .ok item =>
    let ports := itemLinks bar offset item
    if ports.2 ∨ item.eol ≠ 0 ∨ item.dfhNext = 0 then ports else (ports.1 ++ [offset + item.dfhNext], false)

def links (bar : Bar) (offset : Nat) : List Nat := (headerLinks bar offset).1

def unreadable (bar : Bar) (offset : Nat) : Bool := (headerLinks bar offset).2

/-! ## The walk -/

/-- Whether a call is completed, where it comes to an end. -/
def outcome (run : Run Features) : Option Bool := Option.map Except.toBool run

section

variable (bar : Bar) {parse : Nat → Features → Run Features} {walk : Nat → Option Bool}

theorem outcome_bind (run : Run Features) (f : Features → Run Features) {rest : Option Bool} (hrest : ∀ outDict, outcome (f outDict) = rest) :
    outcome (run >>= f) = andThen (outcome run) rest := by
  cases run with
  | none => rfl
  | some result =>
    cases result with
    | error _ => rfl
    | ok outDict => exact hrest outDict

theorem outcome_parsePorts (offset : Nat) (hparse : ∀ o outDict, outcome (parse o outDict) = walk o) (ps : List Nat) : ∀ outDict,
    outcome (parsePorts bar offset parse ps outDict) =
      andThen (walkAll walk (portLinks bar offset ps).1) (some (!(portLinks bar offset ps).2)) := by
  induction ps with
  | nil => exact fun _ => rfl
  | cons p ps ih =>
    intro outDict
    rw [parsePorts, portLinks]
    cases bar.read64 (offset + fmeHdrCap + 8 * p) with
    | error _ => rfl
    | ok cfg =>
      show outcome (if bitGet cfg 60 = 0 then parsePorts bar offset parse ps outDict
        else parse (fieldGet cfg 24 0) outDict >>= parsePorts bar offset parse ps) = _
      by_cases himpl : bitGet cfg 60 = 0
      · rw [if_pos himpl]
        simp only [if_pos himpl]
        exact ih outDict
      · rw [if_neg himpl, outcome_bind _ _ ih, hparse]
        simp only [if_neg himpl]
        rw [walkAll, andThen_assoc]

theorem outcome_parseItem (offset : Nat) (item : Item) (hparse : ∀ o outDict, outcome (parse o outDict) = walk o) (outDict : Features) :
    outcome (parseItem bar offset item parse outDict) =
      andThen (walkAll walk (itemLinks bar offset item).1) (some (!(itemLinks bar offset item).2)) := by
  unfold parseItem itemLinks
  by_cases htype : item.dfhType = dfhTypeFiu
  · by_cases hid : item.dfhId = dfhTypeFiuFme
    · rw [if_pos htype, if_pos hid, if_pos ⟨htype, hid⟩]
      cases bar.read64 (offset + fmeHdrCap) with
      | error _ => rfl
      | ok cfg => exact outcome_parsePorts bar offset hparse _ outDict
    · have hfme : ¬ (item.dfhType = dfhTypeFiu ∧ item.dfhId = dfhTypeFiuFme) := fun h => hid h.2
      rw [if_pos htype, if_neg hid, if_neg hfme]
      rfl
  · have hfme : ¬ (item.dfhType = dfhTypeFiu ∧ item.dfhId = dfhTypeFiuFme) := fun h => htype h.1
    rw [if_neg htype, if_neg hfme]
    split
    · rfl
    · rfl

theorem outcome_parseDflFrom (n : Nat) : ∀ offset outDict,
    outcome (parseDflFrom bar n offset outDict) = walkItem (links bar) (unreadable bar) n offset := by
  induction n with
  | zero => exact fun _ _ => rfl
  | succ n ih =>
    intro offset outDict
    rw [parseDflFrom, walkItem, links, unreadable, headerLinks]
    cases readItem bar offset with
    | error _ => rfl
    | ok item =>
      have hrest : ∀ outDict : Features, outcome (if item.eol ≠ 0 ∨ item.dfhNext = 0 then pure outDict
          else parseDflFrom bar n (offset + item.dfhNext) outDict) =
          if item.eol ≠ 0 ∨ item.dfhNext = 0 then some true else walkItem (links bar) (unreadable bar) n (offset + item.dfhNext) := by
        intro outDict
        split
        · rfl
        · exact ih _ outDict
      show outcome (parseItem bar offset item (parseDflFrom bar n) outDict >>= _) = _
      rw [outcome_bind _ _ hrest, outcome_parseItem bar offset item ih]
      simp only
      rcases hports : itemLinks bar offset item with ⟨ports, stops⟩
      cases stops with
      | true => simp [andThen_assoc]
      | false =>
        by_cases hlast : item.eol ≠ 0 ∨ item.dfhNext = 0
        · simp [if_pos hlast]
        · simp [if_neg hlast, walkAll_append, walkAll_singleton]

/-! ## Where it ends -/

variable {bar}

theorem read_inside {size offset x : Nat} (h : bar.read size offset = .ok x) : offset < bar.size := by
  unfold Bar.read Bar.checkOffset at h
  split at h
  · cases h
  · split at h
    · cases h
    case isFalse hinside => omega

theorem readItem_inside {offset : Nat} {item : Item} (h : readItem bar offset = .ok item) : offset < bar.size := by
  unfold readItem at h
  cases hread : bar.read64 (offset + 0) with
  | error _ =>
    rw [hread] at h
    cases h
  | ok _ => exact read_inside hread

theorem links_finite : {offset | links bar offset ≠ []}.Finite := by
  refine (Set.finite_lt_nat bar.size).subset ?_
  intro offset h
  cases hitem : readItem bar offset with
  | error _ =>
    refine absurd ?_ h
    rw [links, headerLinks, hitem]
  | ok item => exact readItem_inside hitem

variable (bar)

/-- The call for an offset comes to an end. -/
def FinishesFrom (offset : Nat) : Prop := ∀ outDict, ∃ n, parseDflFrom bar n offset outDict ≠ none

theorem finishesFrom_iff (offset : Nat) : FinishesFrom bar offset ↔ Finishes (links bar) (unreadable bar) offset := by
  have hnone : ∀ n outDict, parseDflFrom bar n offset outDict = none ↔ walkItem (links bar) (unreadable bar) n offset = none := by
    intro n outDict
    rw [← outcome_parseDflFrom bar n offset outDict]
    exact Option.map_eq_none_iff.symm
  constructor
  · intro h
    obtain ⟨n, hn⟩ := h fun _ => none
    exact ⟨n, mt (hnone n _).2 hn⟩
  · rintro ⟨n, hn⟩ outDict
    exact ⟨n, mt (hnone n outDict).1 hn⟩

/-- The walk comes to an end if and only if no header that it enters leads back to itself. A header enters those that its links lead to, as
long as below all earlier links everything can be read and nothing leads back to itself. -/
theorem parseDflFrom_finishes_iff :
    FinishesFrom bar 0 ↔ ∀ offset, ReflTransGen (Enters (links bar) (unreadable bar)) 0 offset →
      ¬ TransGen (Enters (links bar) (unreadable bar)) offset offset := by
  rw [finishesFrom_iff]
  exact finishes_iff links_finite

/-- The offsets of the implemented ports of a header. -/
def portOffsets (offset : Nat) : List Nat :=
  match readItem bar offset with
  | .error _ => []
  | .ok item => (itemLinks bar offset item).1

theorem mem_links {offset target : Nat} (h : target ∈ links bar offset) : target ∈ portOffsets bar offset ∨ offset < target := by
  unfold links headerLinks at h
  unfold portOffsets
  cases hitem : readItem bar offset with
  | error _ =>
    rw [hitem] at h
    exact absurd h List.not_mem_nil
  | ok item =>
    rw [hitem] at h
    simp only at h ⊢
    split at h
    · exact .inl h
    case isFalse hgoes =>
      rcases List.mem_append.1 h with hport | hnext
      · exact .inl hport
      · right
        rw [List.mem_singleton.1 hnext]
        omega

theorem finishesFrom_of_ports_ahead (h : ∀ offset, ∀ port ∈ portOffsets bar offset, offset < port) (offset : Nat) : FinishesFrom bar offset := by
  have hahead : ∀ a b, Enters (links bar) (unreadable bar) a b → a < b := by
    rintro a b ⟨before, after, hlinks, -⟩
    have hmem : b ∈ links bar a := by
      rw [hlinks]
      exact List.mem_append_right _ List.mem_cons_self
    exact (mem_links bar hmem).elim (h a b) id
  rw [finishesFrom_iff, finishes_iff links_finite]
  intro b _ hloop
  exact Nat.lt_irrefl b (transGen_minimal hahead b b hloop)

end

/-- A BAR with an FME of two ports, the second of which is implemented at offset 0, where the FME is. -/
def loopBar : Bar := ⟨[0, 0, 0, 0, 0, 1, 0, 0x40] ++ List.replicate 40 0 ++ [0, 0, 4, 0, 0, 0, 0, 0] ++ [0, 0, 0, 0, 0, 0, 0, 0x10]⟩

/-- The walk of this BAR calls itself without end. -/
theorem loopBar_endless : ¬ FinishesFrom loopBar 0 := by
  have hlinks : links loopBar 0 = [0] := by decide
  have hnone : ∀ n, walkItem (links loopBar) (unreadable loopBar) n 0 = none := by
    intro n
    induction n with
    | zero => rfl
    | succ n ih => rw [walkItem, hlinks, walkAll_singleton, ih, andThen_none]
  rw [finishesFrom_iff]
  rintro ⟨n, hn⟩
  exact hn (hnone n)

end NdkSw.Dfl

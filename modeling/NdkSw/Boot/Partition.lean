/-
The partition table of the boot flash (`boot/bw-bmc.c`): a text with one image a line is parsed and sorted, and a slot is made for
each image and for the space between them.
-/
import NdkSw.Boot.MtdIoctl
import NdkSw.Shared.TextScan
import NdkSw.Shared.Tiling
import NdkSw.Shared.Words

namespace NdkSw.Boot

open Ndp Shared Bits

/-! ## Data model -/

/-- `struct bw_file_entry`. -/
structure BwFileEntry where
  id : BitVec 32
  offset : U32
  size : BitVec 32
  priority : BitVec 32
  name : List Char
  title : List Char
  empty : Bool
  deriving DecidableEq, Repr

/-- A binary slot in the device tree, with the properties that it gets from an entry. -/
structure BinarySlot where
  nodeName : String
  title : List Char
  id : Nat
  bootId : Int
  base : U32
  size : BitVec 32
  empty : Bool
  priority : Option (BitVec 32)
  filename : Option (List Char)
  ro : Bool
  deriving DecidableEq, Repr

/-- `id`, `add_flag` and the slots in the order in which they were made. -/
structure AddState where
  id : Nat
  flag : U32
  slots : List BinarySlot
  deriving DecidableEq, Repr

/-- What loading the table meets: the card, its controller, memory, the download with its result, and memory for one entry more.
`takes` says whether the device tree, whose size is fixed, has room for one slot more beside those that were made. -/
structure TableEnv where
  cardName : Option (List Char)
  bmc : Bool
  alloc : Bool
  ret : Int
  buffer : List Char
  realloc : Nat → Bool
  takes : List BinarySlot → BinarySlot → Bool

/-! ## Text -/

/-- `isspace`. -/
def isSpace (c : Char) : Bool := c = ' ' ∨ 9 ≤ c.toNat ∧ c.toNat ≤ 13 ∨ c.toNat = 160

/-- `%d`, with the value cut to an `int`. -/
def scanInt (s : List Char) : Option (BitVec 32) :=
  let s := s.dropWhile isSpace
  let neg := s.head? = some '-'
  let ds := (if neg then s.tail else s).takeWhile Char.isDigit
  let v : Nat := ds.foldl (fun n c => 10 * n + (c.toNat - 48)) 0
  if ds = [] then none else some (if neg then BitVec.ofInt 32 (-(v : Int)) else BitVec.ofNat 32 v)

/-- `%x`; a `0x` in front is skipped. -/
def scanHex (s : List Char) : Option U32 :=
  let s := s.dropWhile isSpace
  let ds := if s.take 2 ∈ [['0', 'x'], ['0', 'X']] then s.drop 2 else s
  let v : Nat := (ds.takeWhile fun c => (xdigitValue c).isSome).foldl hexStep 0
  if (s.head?.bind xdigitValue).isSome then some (BitVec.ofNat 32 v) else none

/-- `strstr` of one character: what lies in front of it and behind it. -/
def cut (c : Char) : List Char → Option (List Char × List Char)
  | [] => none
  | d :: s => if d = c then some ([], s) else (cut c s).map fun r => (d :: r.1, r.2)

def hexDigit (n : Nat) : Char := ['0', '1', '2', '3', '4', '5', '6', '7', '8', '9', 'a', 'b', 'c', 'd', 'e', 'f'].getD n '0'

/-- `%08x`. -/
def hex8 (offset : U32) : List Char := (List.range 8).map fun i => hexDigit ((offset >>> (4 * (7 - i))) &&& 15).toNat

/-- `0x%08x-`. -/
def namePrefix (offset : U32) : List Char := ['0', 'x'] ++ hex8 offset ++ ['-']

def orError {α : Type} (o : Option α) (e : Nat) : Except Nat α :=
  match o with
  | none => .error e
  | some a => .ok a

/-- `nfb_boot_bw_bmc_parse_partition`. The commas are not looked for in the line only. -/
def parsePartition (s : List Char) : Except Nat (BwFileEntry × List Char) := do
  let id ← orError (scanInt s) 1
  let (_, s) ← orError (cut ',' s) 2
  let (name, s) ← orError (cut ',' s) 3
  let offset ← orError (scanHex s) 4
  let (_, s) ← orError (cut ',' s) 5
  let size ← orError (scanInt s) 6
  let (_, s) ← orError (cut ',' s) 7
  let priority ← orError (scanInt s) 8
  let (_, s) ← orError (cut '\n' s) 9
  let title := if (namePrefix offset).isPrefixOf name then name.drop (namePrefix offset).length else name
  .ok (⟨id, offset, size, priority, name, title, false⟩, s)

/-- The loop over the text; no result is a failed `krealloc`. -/
def parseLoop (realloc : Nat → Bool) : Nat → Nat → List Char → Option (List BwFileEntry)
  | 0, _, _ => some []
  | fuel + 1, cnt, s =>
    if realloc (cnt + 1) = false then none
    else
      match parsePartition s with
      | .error _ => some []
      | .ok (p, s) => (parseLoop realloc fuel (cnt + 1) s).map (p :: ·)

/-! ## Slots -/

/-- The id of a slot, the next free one and the flags behind it. -/
def pickId (id : Nat) (flag : U32) (p : BwFileEntry) : Nat × Nat × U32 :=
  if p.empty then (id, id + 1, flag)
  else if p.offset = 0 then (1, id, flag ||| 1)
  else if flag &&& 2 = 0 then (0, id, flag ||| 2)
  else (id, id + 1, flag)

/-- `nfb_fdt_create_binary_slot` and the properties added to it. -/
def slotOf (recoveryRo : Bool) (i : Nat) (p : BwFileEntry) : BinarySlot where
  nodeName := (if p.empty then "empty" else "image") ++ toString i
  title := p.title
  id := i
  bootId := if p.empty then -1 else i
  base := p.offset
  size := p.size
  empty := p.empty
  priority := if p.empty then none else some p.priority
  filename := if p.empty then none else some p.name
  ro := recoveryRo && (p.title = "recovery".toList || i = 1)

/-- `nfb_boot_bw_bmc_add_partition`. Nobody looks at what libfdt returns: without room in the tree there is no slot. -/
def addPartition (takes : List BinarySlot → BinarySlot → Bool) (recoveryRo : Bool) (st : AddState) (p : BwFileEntry) : AddState :=
  let r := pickId st.id st.flag p
  let slot := slotOf recoveryRo r.1 p
  ⟨r.2.1, r.2.2, if takes st.slots slot then st.slots ++ [slot] else st.slots⟩

/-- `pe`. -/
def emptyEntry (offset : U32) (size : BitVec 32) : BwFileEntry := ⟨0, offset, size, 0, "<empty>".toList, "<empty>".toList, true⟩

/-- The loop over the sorted entries, from the offset of `pe` on. -/
def addPartitions (takes : List BinarySlot → BinarySlot → Bool) (recoveryRo : Bool) (maxSize : U32) :
    U32 → AddState → List BwFileEntry → AddState
  | pe, st, [] => if pe < maxSize then addPartition takes recoveryRo st (emptyEntry pe (maxSize - pe)) else st
  | pe, st, p :: l =>
    let st := if pe < p.offset then addPartition takes recoveryRo st (emptyEntry pe (p.offset - pe)) else st
    addPartitions takes recoveryRo maxSize ((p.offset + p.size + 0xFFF) &&& ~~~0xFFF) (addPartition takes recoveryRo st p) l

def maxSize : U32 := 0x10000000

def bufferSize : Nat := 16384

/-- The cards whose flash has a known size. -/
def knownCard (name : List Char) : Bool := name.take 7 ∈ ["IA-440I".toList, "IA-860M".toList]

/-- The text behind the download, with the NUL that is put behind it. -/
def TableEnv.text (env : TableEnv) : List Char := (env.buffer.take env.ret.toNat).takeWhile (· ≠ '\x00')

/-- The entries that are parsed. -/
def TableEnv.entries (env : TableEnv) : Option (List BwFileEntry) := parseLoop env.realloc (env.text.length + 1) 0 env.text

/-- The order of `bw_file_entry_sort_by_offset`. -/
def OffsetLe (l r : BwFileEntry) : Prop := l.offset ≤ r.offset

instance : DecidableRel OffsetLe := fun l r => inferInstanceAs (Decidable (l.offset ≤ r.offset))

/-- `nfb_boot_bw_bmc_load_partition_table`. -/
def loadPartitionTable (recoveryRo : Bool) (env : TableEnv) : Int × List BinarySlot :=
  match env.cardName with
  | none => (eNodev, [])
  | some name =>
    if knownCard name = false then (eNodev, [])
    else if env.bmc = false then (eNodev, [])
    else if env.alloc = false then (eNomem, [])
    else if env.ret < 0 then (ePipe, [])
    else if bufferSize ≤ env.ret.toNat then (eNomem, [])
    else
      match env.entries with
      | none => (eNomem, [])
      | some entries =>
        (0, (addPartitions env.takes recoveryRo maxSize 0 ⟨2, 0, []⟩ (entries.insertionSort OffsetLe)).slots)

/-! ## What is asked of the slots -/

def BwFileEntry.seg (p : BwFileEntry) : Seg := ⟨p.offset.toNat, p.size.toNat⟩

def BinarySlot.seg (s : BinarySlot) : Seg := ⟨s.base.toNat, s.size.toNat⟩

/-- An image that is not at the start of the flash. -/
def BinarySlot.IsOther (s : BinarySlot) : Prop := s.empty = false ∧ s.base ≠ 0

/-- The lines of a text: entries up to the first that is none. -/
inductive Parses : List Char → List BwFileEntry → Prop where
  | stop {s : List Char} {e : Nat} : parsePartition s = .error e → Parses s []
  | entry {s s' : List Char} {p : BwFileEntry} {l : List BwFileEntry} : parsePartition s = .ok (p, s') → Parses s' l → Parses s (p :: l)

/-- Nothing keeps a table of `n` entries from being loaded. -/
structure Loadable (env : TableEnv) (n : Nat) : Prop where
  card : ∃ name ∈ env.cardName, knownCard name = true
  bmc : env.bmc = true
  alloc : env.alloc = true
  ret : 0 ≤ env.ret ∧ env.ret.toNat < bufferSize
  realloc : ∀ k ≤ n, env.realloc (k + 1) = true

/-- The entries of a table that describes the flash: none empty, all inside, no two on the same place. -/
structure TableFits (entries : List BwFileEntry) : Prop where
  pos : ∀ p ∈ entries, 1 ≤ p.size.toInt
  inside : ∀ p ∈ entries, p.seg.stop ≤ maxSize.toNat
  apart : entries.Pairwise fun p q => p.seg.Apart q.seg

/-- The slots tile the flash. -/
structure Tiled (entries : List BwFileEntry) (slots : List BinarySlot) : Prop where
  apart : slots.Pairwise fun s t => s.seg.Apart t.seg
  inside : ∀ s ∈ slots, 0 < s.seg.len ∧ s.seg.stop ≤ maxSize.toNat
  images : ((slots.filter fun s => !s.empty).map fun s => (s.filename, s.base, s.size)).Perm
    (entries.map fun p => (some p.name, p.offset, p.size))
  cover : ∀ x < maxSize.toNat, (∃ s ∈ slots, x ∈ s.seg) ∨
    ∃ s ∈ slots, s.empty = false ∧ s.seg.stop ≤ x ∧ x < ceilTo 4096 s.seg.stop ∧ ceilTo 4096 s.seg.stop - s.seg.stop < 4096
  ids : (slots.map BinarySlot.id).Nodup
  first : ∀ s ∈ slots, s.id = 1 ↔ s.empty = false ∧ s.base = 0
  other : ∀ s ∈ slots, s.id = 0 ↔ s.IsOther ∧ ∀ t ∈ slots, t.IsOther → s.base ≤ t.base

/-- The slots that a table asks for. -/
def plannedSlots (recoveryRo : Bool) (entries : List BwFileEntry) : List BinarySlot :=
  (addPartitions (fun _ _ => true) recoveryRo maxSize 0 ⟨2, 0, []⟩ (entries.insertionSort OffsetLe)).slots

/-- The tree has room for all of these slots, one after the other. -/
def TakesAll (takes : List BinarySlot → BinarySlot → Bool) : List BinarySlot → List BinarySlot → Prop
  | _, [] => True
  | made, s :: l => takes made s = true ∧ TakesAll takes (made ++ [s]) l

/-! ## Parsing -/

theorem cut_shorter {c : Char} : ∀ {s a b : List Char}, cut c s = some (a, b) → b.length < s.length
  | [], _, _, h => nomatch h
  | d :: s, a, b, h => by
    rw [cut] at h
    split at h
    · cases h
      exact Nat.lt_succ_self _
    · obtain ⟨⟨a', b'⟩, hcut, heq⟩ := Option.map_eq_some_iff.1 h
      cases heq
      exact (cut_shorter hcut).trans (Nat.lt_succ_self _)

theorem orError_bind {α β : Type} {o : Option α} {e : Nat} {f : α → Except Nat β} {b : β} (h : (orError o e >>= f) = .ok b) :
    ∃ a, o = some a ∧ f a = .ok b := by
  cases o with
  | none => cases h
  | some a => exact ⟨a, rfl, h⟩

theorem parsePartition_ok {s s' : List Char} {p : BwFileEntry} (h : parsePartition s = .ok (p, s')) :
    p.empty = false ∧ s'.length < s.length := by
  unfold parsePartition at h
  obtain ⟨id, -, h⟩ := orError_bind h
  obtain ⟨⟨_, s₁⟩, h₁, h⟩ := orError_bind h
  obtain ⟨⟨name, s₂⟩, h₂, h⟩ := orError_bind h
  obtain ⟨offset, -, h⟩ := orError_bind h
  obtain ⟨⟨_, s₃⟩, h₃, h⟩ := orError_bind h
  obtain ⟨size, -, h⟩ := orError_bind h
  obtain ⟨⟨_, s₄⟩, h₄, h⟩ := orError_bind h
  obtain ⟨priority, -, h⟩ := orError_bind h
  obtain ⟨⟨_, s₅⟩, h₅, h⟩ := orError_bind h
  obtain ⟨rfl, rfl⟩ := Prod.mk.inj (Except.ok.inj h)
  have hlt := (cut_shorter h₅).trans ((cut_shorter h₄).trans ((cut_shorter h₃).trans (cut_shorter h₂)))
  exact ⟨rfl, hlt.trans (cut_shorter h₁)⟩

variable {l : List BwFileEntry}

theorem Parses.image {s : List Char} (h : Parses s l) : ∀ p ∈ l, p.empty = false := by
  induction h with
  | stop => exact fun p hp => absurd hp List.not_mem_nil
  | entry hp _ ih =>
    rw [List.forall_mem_cons]
    exact ⟨(parsePartition_ok hp).1, ih⟩

/-- The loop finds the entries of the text if there is memory for each of them and for one more. -/
theorem Parses.loop (realloc : Nat → Bool) {s : List Char} (h : Parses s l) : ∀ {fuel} cnt, s.length < fuel →
    ((∀ k ≤ l.length, realloc (cnt + k + 1) = true) → parseLoop realloc fuel cnt s = some l) ∧
    (¬(∀ k ≤ l.length, realloc (cnt + k + 1) = true) → parseLoop realloc fuel cnt s = none) := by
  induction h with
  | stop hp =>
    intro fuel cnt hfuel
    obtain ⟨fuel, rfl⟩ := Nat.exists_eq_add_one_of_ne_zero (show fuel ≠ 0 by omega)
    have hall : (∀ k ≤ ([] : List BwFileEntry).length, realloc (cnt + k + 1) = true) ↔ realloc (cnt + 1) = true := by simp
    rw [hall, parseLoop, hp]
    constructor
    · intro hmem
      rw [if_neg (by simp [hmem])]
    · intro hmem
      rw [if_pos (by simpa using hmem)]
  | @entry s s' p l hp _ ih =>
    intro fuel cnt hfuel
    obtain ⟨fuel, rfl⟩ := Nat.exists_eq_add_one_of_ne_zero (show fuel ≠ 0 by omega)
    have hlt := (parsePartition_ok hp).2
    obtain ⟨hsome, hnone⟩ := @ih fuel (cnt + 1) (by omega)
    have hall : (∀ k ≤ (p :: l).length, realloc (cnt + k + 1) = true) ↔
        realloc (cnt + 1) = true ∧ ∀ k ≤ l.length, realloc (cnt + 1 + k + 1) = true := by
      constructor
      · intro h
        exact ⟨h 0 (Nat.zero_le _), fun k hk => Nat.add_right_comm cnt 1 k ▸ h (k + 1) (Nat.succ_le_succ hk)⟩
      · rintro ⟨h, h'⟩ (_ | k) hk
        · exact h
        · exact Nat.add_right_comm cnt 1 k ▸ h' k (Nat.le_of_succ_le_succ hk)
    rw [hall, parseLoop, hp]
    constructor
    · rintro ⟨hmem, hrest⟩
      rw [if_neg (by simp [hmem])]
      dsimp only
      rw [hsome hrest]
      rfl
    · intro hno
      by_cases hmem : realloc (cnt + 1) = true
      · rw [if_neg (by simp [hmem])]
        dsimp only
        rw [hnone fun hrest => hno ⟨hmem, hrest⟩]
        rfl
      · rw [if_pos (by simpa using hmem)]

/-! ## The slots of a list of entries -/

variable {flag : U32} {id : Nat}

section

variable {ro : Bool}

/-- The slots that a list of entries is made into. -/
def madeSlots (ro : Bool) : Nat → U32 → List BwFileEntry → List BinarySlot
  | _, _, [] => []
  | id, flag, p :: l =>
    let r := pickId id flag p
    slotOf ro r.1 p :: madeSlots ro r.2.1 r.2.2 l

/-- The slots that the tree takes. -/
def insertAll (takes : List BinarySlot → BinarySlot → Bool) : List BinarySlot → List BinarySlot → List BinarySlot
  | made, [] => made
  | made, s :: l => insertAll takes (if takes made s then made ++ [s] else made) l

variable {takes : List BinarySlot → BinarySlot → Bool}

theorem foldl_addPartition (l : List BwFileEntry) : ∀ st : AddState,
    (l.foldl (addPartition takes ro) st).slots = insertAll takes st.slots (madeSlots ro st.id st.flag l) := by
  induction l with
  | nil => exact fun st => rfl
  | cons p l ih =>
    intro st
    rw [List.foldl_cons, ih, madeSlots]
    rfl

theorem insertAll_of_takes {l : List BinarySlot} : ∀ {made}, TakesAll takes made l → insertAll takes made l = made ++ l := by
  induction l with
  | nil => exact fun _ => (List.append_nil _).symm
  | cons s l ih =>
    rintro made ⟨hs, hl⟩
    rw [insertAll, if_pos hs, ih hl, List.append_assoc, List.singleton_append]

theorem takesAll_true (l : List BinarySlot) : ∀ made, TakesAll (fun _ _ => true) made l := by
  induction l with
  | nil => exact fun _ => trivial
  | cons s l ih => exact fun _ => ⟨rfl, ih _⟩

theorem insertAll_sublist (takes : List BinarySlot → BinarySlot → Bool) (l : List BinarySlot) :
    ∀ made, (insertAll takes made l).Sublist (made ++ l) := by
  induction l with
  | nil => intro made; rw [List.append_nil]; exact List.Sublist.refl _
  | cons s l ih =>
    intro made
    rw [insertAll]
    refine (ih _).trans ?_
    split
    · rw [List.append_assoc, List.singleton_append]
    · exact List.Sublist.append_left (List.sublist_cons_self s l) made

theorem takesAll_of_length {l : List BinarySlot} : ∀ {made}, (insertAll takes made l).length = made.length + l.length →
    TakesAll takes made l := by
  induction l with
  | nil => exact fun _ => trivial
  | cons s l ih =>
    intro made h
    rw [insertAll] at h
    by_cases hs : takes made s = true
    · rw [if_pos hs] at h
      exact ⟨hs, ih (by rw [h, List.length_append, List.length_singleton, List.length_cons]; omega)⟩
    · rw [if_neg hs] at h
      have hle := (insertAll_sublist takes l made).length_le
      rw [h, List.length_append, List.length_cons] at hle
      omega

theorem madeSlots_map {β : Type} (ro : Bool) (f : BinarySlot → β) (g : BwFileEntry → β) (h : ∀ i p, f (slotOf ro i p) = g p)
    (l : List BwFileEntry) : ∀ id flag, (madeSlots ro id flag l).map f = l.map g := by
  induction l with
  | nil => exact fun _ _ => rfl
  | cons p l ih =>
    intro id flag
    rw [madeSlots, List.map_cons, List.map_cons, h, ih]

theorem or_one_and_two (flag : U32) : (flag ||| 1) &&& 2 = flag &&& 2 := by
  rw [BitVec.and_comm, BitVec.and_or_distrib_left]
  simp [BitVec.and_comm]

theorem or_two_and_two (flag : U32) : (flag ||| 2) &&& 2 ≠ 0 := by
  intro h
  have hbit := congrArg (fun x : U32 => x.getLsbD 1) h
  simp at hbit

theorem pickId_cases (id : Nat) (flag : U32) (p : BwFileEntry) :
    ((p.empty = true ∨ p.offset ≠ 0 ∧ flag &&& 2 ≠ 0) ∧ pickId id flag p = (id, id + 1, flag)) ∨
    (p.empty = false ∧ p.offset = 0 ∧ pickId id flag p = (1, id, flag ||| 1)) ∨
    (p.empty = false ∧ p.offset ≠ 0 ∧ flag &&& 2 = 0 ∧ pickId id flag p = (0, id, flag ||| 2)) := by
  unfold pickId
  cases he : p.empty with
  | true => exact .inl ⟨.inl rfl, if_pos rfl⟩
  | false =>
    by_cases ho : p.offset = 0
    · exact .inr (.inl ⟨rfl, ho, by rw [if_neg nofun, if_pos ho]⟩)
    · by_cases hf : flag &&& 2 = 0
      · exact .inr (.inr ⟨rfl, ho, hf, by rw [if_neg nofun, if_neg ho, if_pos hf]⟩)
      · exact .inl ⟨.inr ⟨ho, hf⟩, by rw [if_neg nofun, if_neg ho, if_neg hf]⟩

theorem madeSlots_id (ro : Bool) (l : List BwFileEntry) : ∀ {id} flag, 2 ≤ id → ∀ s ∈ madeSlots ro id flag l,
    (s.id = 1 ∧ s.empty = false ∧ s.base = 0) ∨ (s.id = 0 ∧ s.IsOther ∧ flag &&& 2 = 0) ∨
    (id ≤ s.id ∧ (s.empty = true ∨ s.base ≠ 0)) := by
  induction l with
  | nil => exact fun _ _ _ hs => absurd hs List.not_mem_nil
  | cons p l ih =>
    intro id flag hid s hs
    rw [madeSlots] at hs
    rcases pickId_cases id flag p with ⟨hp, hr⟩ | ⟨he, ho, hr⟩ | ⟨he, ho, hf, hr⟩
    · rw [hr] at hs
      dsimp only at hs
      rcases List.mem_cons.1 hs with rfl | hs
      · exact .inr (.inr ⟨le_rfl, hp.imp_right And.left⟩)
      · rcases ih _ (Nat.le_succ_of_le hid) s hs with h | h | ⟨hle, h⟩
        · exact .inl h
        · exact .inr (.inl h)
        · exact .inr (.inr ⟨by omega, h⟩)
    · rw [hr] at hs
      dsimp only at hs
      rcases List.mem_cons.1 hs with rfl | hs
      · exact .inl ⟨rfl, he, ho⟩
      · rcases ih _ hid s hs with h | ⟨h₀, h, hflag⟩ | h
        · exact .inl h
        · exact .inr (.inl ⟨h₀, h, by rwa [or_one_and_two] at hflag⟩)
        · exact .inr (.inr h)
    · rw [hr] at hs
      dsimp only at hs
      rcases List.mem_cons.1 hs with rfl | hs
      · exact .inr (.inl ⟨rfl, ⟨he, ho⟩, hf⟩)
      · rcases ih _ hid s hs with h | ⟨-, -, hflag⟩ | h
        · exact .inl h
        · exact absurd hflag (or_two_and_two flag)
        · exact .inr (.inr h)

theorem lt_base_of_made {x : U32} (h : ∀ q ∈ l, x < q.offset) : ∀ s ∈ madeSlots ro id flag l, x < s.base := by
  intro s hs
  have hmap := List.mem_map_of_mem (f := BinarySlot.base) hs
  rw [madeSlots_map _ BinarySlot.base BwFileEntry.offset fun _ _ => rfl] at hmap
  obtain ⟨q, hq, hqs⟩ := List.mem_map.1 hmap
  rw [← hqs]
  exact h q hq

/-- No id is given twice if no two images start at the same place. -/
theorem madeSlots_nodup (ro : Bool) (l : List BwFileEntry) : ∀ {id} flag, 2 ≤ id → l.Pairwise (fun p q => p.offset < q.offset) →
    ((madeSlots ro id flag l).map BinarySlot.id).Nodup := by
  induction l with
  | nil => exact fun _ _ _ => List.nodup_nil
  | cons p l ih =>
    intro id flag hid hrow
    obtain ⟨hafter, hrow⟩ := List.pairwise_cons.1 hrow
    have hbase : ∀ {i f}, ∀ s ∈ madeSlots ro i f l, p.offset < s.base := lt_base_of_made hafter
    rw [madeSlots, List.map_cons, List.nodup_cons]
    rcases pickId_cases id flag p with ⟨-, hr⟩ | ⟨-, ho, hr⟩ | ⟨-, -, -, hr⟩
    · rw [hr]
      dsimp only
      refine ⟨fun hmem => ?_, ih _ (Nat.le_succ_of_le hid) hrow⟩
      obtain ⟨s, hs, heq⟩ := List.mem_map.1 hmem
      have heq : s.id = id := heq
      rcases madeSlots_id ro l _ (Nat.le_succ_of_le hid) s hs with ⟨h, -⟩ | ⟨h, -⟩ | ⟨h, -⟩
      all_goals omega
    · rw [hr]
      dsimp only
      refine ⟨fun hmem => ?_, ih _ hid hrow⟩
      obtain ⟨s, hs, heq⟩ := List.mem_map.1 hmem
      have heq : s.id = 1 := heq
      rcases madeSlots_id ro l _ hid s hs with ⟨-, -, hzero⟩ | ⟨h, -⟩ | ⟨h, -⟩
      · have hlt := hbase s hs
        rw [ho, hzero] at hlt
        exact absurd hlt (BitVec.lt_irrefl _)
      · omega
      · omega
    · rw [hr]
      dsimp only
      refine ⟨fun hmem => ?_, ih _ hid hrow⟩
      obtain ⟨s, hs, heq⟩ := List.mem_map.1 hmem
      have heq : s.id = 0 := heq
      rcases madeSlots_id ro l _ hid s hs with ⟨h, -⟩ | ⟨-, -, hflag⟩ | ⟨h, -⟩
      · omega
      · exact or_two_and_two flag hflag
      · omega

/-- The id 0 goes to the first image that is not at the start of the flash. -/
theorem madeSlots_other (ro : Bool) (l : List BwFileEntry) : ∀ {id flag}, 2 ≤ id → flag &&& 2 = 0 →
    l.Pairwise (fun p q => p.offset < q.offset) → ∀ s ∈ madeSlots ro id flag l,
    s.id = 0 ↔ s.IsOther ∧ ∀ t ∈ madeSlots ro id flag l, t.IsOther → s.base ≤ t.base := by
  induction l with
  | nil => exact fun _ _ _ s hs => absurd hs List.not_mem_nil
  | cons p l ih =>
    intro id flag hid hflag hrow s hs
    obtain ⟨hafter, hrow⟩ := List.pairwise_cons.1 hrow
    have hbase : ∀ {i f}, ∀ s ∈ madeSlots ro i f l, p.offset < s.base := lt_base_of_made hafter
    -- an entry that does not count leaves the question to the later ones
    have hskip : ∀ {i f} (head : BinarySlot), head.id ≠ 0 → ¬head.IsOther →
        (∀ t ∈ madeSlots ro i f l, t.id = 0 ↔ t.IsOther ∧ ∀ u ∈ madeSlots ro i f l, u.IsOther → t.base ≤ u.base) →
        ∀ t ∈ head :: madeSlots ro i f l, t.id = 0 ↔ t.IsOther ∧ ∀ u ∈ head :: madeSlots ro i f l, u.IsOther → t.base ≤ u.base := by
      intro i f head hid hhead htail t ht
      rcases List.mem_cons.1 ht with rfl | ht
      · exact iff_of_false hid fun h => hhead h.1
      · rw [htail t ht, List.forall_mem_cons]
        exact and_congr_right fun _ => (and_iff_right fun h => absurd h hhead).symm
    rw [madeSlots] at hs ⊢
    rcases pickId_cases id flag p with ⟨hp, hr⟩ | ⟨he, ho, hr⟩ | ⟨he, ho, -, hr⟩
    · rw [hr] at hs ⊢
      have hhead : ¬(slotOf ro id p).IsOther := by
        rintro ⟨he, -⟩
        rcases hp with hp | ⟨-, hp⟩
        · exact absurd (he.symm.trans hp) nofun
        · exact hp hflag
      exact hskip _ (show id ≠ 0 by omega) hhead (ih (Nat.le_succ_of_le hid) hflag hrow) s hs
    · rw [hr] at hs ⊢
      refine hskip _ (show 1 ≠ 0 by omega) (fun h => h.2 ho) (ih hid ?_ hrow) s hs
      rw [or_one_and_two]
      exact hflag
    · rw [hr] at hs ⊢
      dsimp only at hs ⊢
      rcases List.mem_cons.1 hs with rfl | hs
      · refine iff_of_true rfl ⟨⟨he, ho⟩, fun t ht _ => ?_⟩
        rcases List.mem_cons.1 ht with rfl | ht
        · exact BitVec.le_refl _
        · exact BitVec.le_of_lt (hbase t ht)
      · refine iff_of_false (fun h => ?_) fun h => ?_
        · rcases madeSlots_id ro l _ hid s hs with ⟨h₁, -⟩ | ⟨-, -, hset⟩ | ⟨hle, -⟩
          · omega
          · exact or_two_and_two flag hset
          · omega
        · have hle := h.2 _ List.mem_cons_self ⟨he, ho⟩
          exact absurd hle (BitVec.not_le.2 (hbase s hs))

end

/-! ## The entries that are added -/

/-- The entry of a piece. -/
def pieceEntry : Piece BwFileEntry → BwFileEntry
  | .used p => p
  | .free s => emptyEntry (BitVec.ofNat 32 s.start) (BitVec.ofNat 32 s.len)

section

variable {ro : Bool}

theorem emptyEntry_eq {a b : U32} (h : a < b) : emptyEntry a (b - a) = pieceEntry (.free ⟨a.toNat, b.toNat - a.toNat⟩) := by
  have hlt := BitVec.lt_def.1 h
  have hsize : b - a = BitVec.ofNat 32 (b.toNat - a.toNat) := by
    apply BitVec.eq_of_toNat_eq
    rw [BitVec.toNat_sub_of_le (BitVec.le_of_lt h), BitVec.toNat_ofNat, Nat.mod_eq_of_lt (by omega)]
  show emptyEntry a (b - a) = emptyEntry (BitVec.ofNat 32 a.toNat) (BitVec.ofNat 32 (b.toNat - a.toNat))
  rw [hsize, BitVec.ofNat_toNat, BitVec.setWidth_eq]

theorem toNat_roundPage {offset size : U32} (h : offset.toNat + size.toNat ≤ maxSize.toNat) :
    ((offset + size + 0xFFF) &&& ~~~0xFFF).toNat = ceilTo 4096 (offset.toNat + size.toNat) := by
  have hmax : maxSize.toNat = 0x10000000 := rfl
  have hsum : (offset + size).toNat = offset.toNat + size.toNat := by
    rw [BitVec.toNat_add, Nat.mod_eq_of_lt (by omega)]
  rw [toNat_roundUp (k := 12) _ _ (by decide) (by rw [hsum]; show _ + 4095 < 2 ^ 32; omega), hsum]
  rfl

theorem addPartitions_eq (l : List BwFileEntry) : ∀ pe st, (∀ p ∈ l, p.seg.stop ≤ maxSize.toNat) →
    addPartitions takes ro maxSize pe st l =
      ((tile BwFileEntry.seg 4096 maxSize.toNat pe.toNat l).map pieceEntry).foldl (addPartition takes ro) st := by
  induction l with
  | nil =>
    intro pe st _
    rw [addPartitions, tile]
    by_cases h : pe < maxSize
    · rw [if_pos h, if_pos (BitVec.lt_def.1 h), emptyEntry_eq h]
      rfl
    · rw [if_neg h, if_neg fun hlt => h (BitVec.lt_def.2 hlt)]
      rfl
  | cons p l ih =>
    intro pe st hl
    have hp := hl p List.mem_cons_self
    rw [addPartitions, ih _ _ fun q hq => hl q (List.mem_cons_of_mem _ hq), toNat_roundPage hp, tile]
    by_cases h : pe < p.offset
    · rw [if_pos h, if_pos (show pe.toNat < p.seg.start from BitVec.lt_def.1 h), emptyEntry_eq h]
      rfl
    · rw [if_neg h, if_neg fun hlt : pe.toNat < p.seg.start => h (BitVec.lt_def.2 hlt)]
      rfl

/-! ## The slots tile the flash -/

variable {entries : List BwFileEntry}

instance : Std.Total OffsetLe := ⟨fun l r => BitVec.le_total l.offset r.offset⟩

instance : IsTrans BwFileEntry OffsetLe := ⟨fun _ _ _ h h' => BitVec.le_trans h h'⟩

theorem TableFits.len_pos (hfit : TableFits entries) {p : BwFileEntry} (hp : p ∈ entries) : 0 < p.seg.len := by
  have hpos := hfit.pos p hp
  show 0 < p.size.toNat
  by_contra hzero
  rw [BitVec.toInt_eq_toNat_of_lt (by omega)] at hpos
  omega

theorem row_of_fits (hfit : TableFits entries) : Row BwFileEntry.seg (entries.insertionSort OffsetLe) := by
  have hperm := List.perm_insertionSort OffsetLe entries
  have hapart := (hperm.symm.pairwise_iff fun h => h.symm).1 hfit.apart
  refine ((List.pairwise_insertionSort OffsetLe entries).and hapart).imp_of_mem ?_
  rintro p q hp hq ⟨hle, hpq⟩
  have hp := hfit.len_pos (hperm.subset hp)
  have hq := hfit.len_pos (hperm.subset hq)
  rcases (Seg.apart_iff hp hq).1 hpq with h | h
  · exact h
  · have hle : p.seg.start ≤ q.seg.start := BitVec.le_def.1 hle
    unfold Seg.stop at h
    omega

theorem seg_pieceEntry {piece : Piece BwFileEntry} (h : (piece.seg BwFileEntry.seg).stop ≤ maxSize.toNat) :
    (pieceEntry piece).seg = piece.seg BwFileEntry.seg := by
  cases piece with
  | used p => rfl
  | free s =>
    have h : s.start + s.len ≤ 0x10000000 := h
    show (⟨(BitVec.ofNat 32 s.start).toNat, (BitVec.ofNat 32 s.len).toNat⟩ : Seg) = s
    rw [BitVec.toNat_ofNat, BitVec.toNat_ofNat, Nat.mod_eq_of_lt (by omega), Nat.mod_eq_of_lt (by omega)]

theorem images_of_pieces (ro : Bool) (id : Nat) (flag : U32) (l : List (Piece BwFileEntry))
    (hempty : ∀ p, .used p ∈ l → p.empty = false) :
    ((madeSlots ro id flag (l.map pieceEntry)).filter fun s => !s.empty).map (fun s => (s.filename, s.base, s.size)) =
      (l.filterMap Piece.used?).map fun p => (some p.name, p.offset, p.size) := by
  induction l generalizing id flag with
  | nil => rfl
  | cons piece l ih =>
    have ih := fun i f => ih i f (fun p hp => hempty p (List.mem_cons_of_mem _ hp))
    cases piece with
    | used p =>
      have he := hempty p List.mem_cons_self
      rw [List.map_cons, madeSlots, List.filter_cons_of_pos (by simpa [slotOf, pieceEntry] using he), List.map_cons, ih]
      simp [slotOf, pieceEntry, he, Piece.used?]
    | free s =>
      rw [List.map_cons, madeSlots, List.filter_cons_of_neg (by simp [slotOf, pieceEntry, emptyEntry]), ih]
      rfl

/-- What is known of the pieces of the flash. -/
structure GoodPieces (pieces : List (Piece BwFileEntry)) : Prop where
  row : Row (Piece.seg BwFileEntry.seg) pieces
  below : ∀ piece ∈ pieces, (piece.seg BwFileEntry.seg).stop ≤ maxSize.toNat
  pos : ∀ piece ∈ pieces, 0 < (piece.seg BwFileEntry.seg).len
  image : ∀ p, .used p ∈ pieces → p.empty = false

theorem goodPieces_of_fits (hfit : TableFits entries) (himage : ∀ p ∈ entries, p.empty = false) :
    GoodPieces (tile BwFileEntry.seg 4096 maxSize.toNat 0 (entries.insertionSort OffsetLe)) := by
  have hmem : ∀ {p}, p ∈ entries.insertionSort OffsetLe ↔ p ∈ entries := (List.perm_insertionSort OffsetLe entries).mem_iff
  constructor
  · exact tile_row (by norm_num) (row_of_fits hfit)
  · exact tile_below fun p hp => hfit.inside p (hmem.1 hp)
  · rintro (p | s) h
    · exact hfit.len_pos (hmem.1 (mem_of_used h))
    · exact free_pos h
  · exact fun p h => himage p (hmem.1 (mem_of_used h))

section

variable {pieces : List (Piece BwFileEntry)} (h : GoodPieces pieces)

include h

theorem GoodPieces.increase : (pieces.map pieceEntry).Pairwise fun p q => p.offset < q.offset := by
  rw [List.pairwise_map]
  refine h.row.imp_of_mem ?_
  intro a b ha hb hle
  have hpos := h.pos a ha
  have hlt : (a.seg BwFileEntry.seg).start < (b.seg BwFileEntry.seg).start := by
    unfold Seg.stop at hle
    omega
  rw [← seg_pieceEntry (h.below a ha), ← seg_pieceEntry (h.below b hb)] at hlt
  exact BitVec.lt_def.2 hlt

theorem GoodPieces.segs (id : Nat) (flag : U32) :
    (madeSlots ro id flag (pieces.map pieceEntry)).map BinarySlot.seg = pieces.map (Piece.seg BwFileEntry.seg) := by
  rw [madeSlots_map _ BinarySlot.seg BwFileEntry.seg fun _ _ => rfl, List.map_map]
  exact List.map_congr_left fun piece hp => seg_pieceEntry (h.below piece hp)

theorem GoodPieces.piece_of_slot : ∀ s ∈ madeSlots ro id flag (pieces.map pieceEntry),
    ∃ piece ∈ pieces, piece.seg BwFileEntry.seg = s.seg := by
  intro s hs
  have hmap := List.mem_map_of_mem (f := BinarySlot.seg) hs
  rwa [h.segs, List.mem_map] at hmap

theorem GoodPieces.slot_of_piece : ∀ piece ∈ pieces,
    ∃ s ∈ madeSlots ro id flag (pieces.map pieceEntry), s.seg = piece.seg BwFileEntry.seg ∧ s.empty = (pieceEntry piece).empty := by
  intro piece hp
  have hmap := List.mem_map_of_mem (f := fun p => (p.seg, p.empty)) (List.mem_map_of_mem (f := pieceEntry) hp)
  rw [← madeSlots_map ro (fun s => (s.seg, s.empty)) _ (fun _ _ => rfl) _ id flag, List.mem_map] at hmap
  obtain ⟨s, hs, heq⟩ := hmap
  obtain ⟨hseg, he⟩ := Prod.mk.inj heq
  exact ⟨s, hs, hseg.trans (seg_pieceEntry (h.below piece hp)), he⟩

theorem GoodPieces.piece_of_empty : ∀ s ∈ madeSlots ro id flag (pieces.map pieceEntry), s.empty = true →
    ∃ e, .free e ∈ pieces ∧ e = s.seg := by
  intro s hs he
  have hmap := List.mem_map_of_mem (f := fun s : BinarySlot => (s.seg, s.empty)) hs
  rw [madeSlots_map ro _ (fun p : BwFileEntry => (p.seg, p.empty)) (fun _ _ => rfl), List.map_map, List.mem_map] at hmap
  obtain ⟨piece, hpiece, heq⟩ := hmap
  obtain ⟨hseg, hempty⟩ := Prod.mk.inj heq
  cases piece with
  | used p => exact absurd ((h.image p hpiece).symm.trans (hempty.trans he)) nofun
  | free e => exact ⟨e, hpiece, (seg_pieceEntry (h.below _ hpiece)).symm.trans hseg⟩

omit h in
theorem piece_of_image : ∀ s ∈ madeSlots ro id flag (pieces.map pieceEntry), s.empty = false →
    ∃ p, .used p ∈ pieces ∧ p.seg = s.seg := by
  intro s hs he
  have hmap := List.mem_map_of_mem (f := fun s : BinarySlot => (s.seg, s.empty)) hs
  rw [madeSlots_map ro _ (fun p : BwFileEntry => (p.seg, p.empty)) (fun _ _ => rfl), List.map_map, List.mem_map] at hmap
  obtain ⟨piece, hpiece, heq⟩ := hmap
  obtain ⟨hseg, hempty⟩ := Prod.mk.inj heq
  cases piece with
  | used p => exact ⟨p, hpiece, hseg⟩
  | free e => exact absurd (hempty.trans he) nofun

end

theorem plannedSlots_eq (hfit : TableFits entries) : plannedSlots ro entries =
    madeSlots ro 2 0 ((tile BwFileEntry.seg 4096 maxSize.toNat 0 (entries.insertionSort OffsetLe)).map pieceEntry) := by
  rw [plannedSlots, addPartitions_eq _ 0 _ fun p hp => hfit.inside p ((List.perm_insertionSort OffsetLe entries).subset hp),
    foldl_addPartition, insertAll_of_takes (takesAll_true _ _)]
  rfl

theorem planned_empty_apart (hfit : TableFits entries) (himage : ∀ p ∈ entries, p.empty = false) {e s : BinarySlot}
    (he : e ∈ plannedSlots ro entries) (hempty : e.empty = true) (hs : s ∈ plannedSlots ro entries) (hnot : s.empty = false) :
    ceilTo 4096 s.seg.stop ≤ e.seg.start ∨ e.seg.stop ≤ s.seg.start := by
  rw [plannedSlots_eq hfit] at he hs
  have hgood := goodPieces_of_fits hfit himage
  obtain ⟨f, hf, hfe⟩ := hgood.piece_of_empty e he hempty
  obtain ⟨p, hp, hps⟩ := piece_of_image s hs hnot
  rw [← hfe, ← hps]
  exact free_apart (by norm_num) (row_of_fits hfit) f hf p (mem_of_used hp)

/-- The slots of a table that fits tile the flash. -/
theorem planned_tiled (ro : Bool) (hfit : TableFits entries) (himage : ∀ p ∈ entries, p.empty = false) :
    Tiled entries (plannedSlots ro entries) := by
  have hperm := List.perm_insertionSort OffsetLe entries
  have hgood := goodPieces_of_fits hfit himage
  rw [plannedSlots_eq hfit]
  have hids := madeSlots_id ro ((tile BwFileEntry.seg 4096 maxSize.toNat 0 (entries.insertionSort OffsetLe)).map pieceEntry) 0 (le_refl 2)
  constructor
  case apart =>
    refine List.Pairwise.imp (fun h => Seg.apart_of_le h) (?_ : Row BinarySlot.seg _)
    rw [row_iff_map, hgood.segs]
    exact row_iff_map.1 hgood.row
  case inside =>
    intro s hs
    obtain ⟨piece, hpiece, heq⟩ := hgood.piece_of_slot s hs
    exact heq ▸ ⟨hgood.pos piece hpiece, hgood.below piece hpiece⟩
  case images =>
    rw [images_of_pieces ro 2 0 _ hgood.image, tile_used]
    exact hperm.map _
  case cover =>
    intro x hx
    rcases tile_cover BwFileEntry.seg 4096 (entries.insertionSort OffsetLe) hx (Nat.zero_le x) with ⟨piece, hpiece, hxp⟩ | ⟨p, hp, hgap⟩
    · obtain ⟨s, hs, hseg, -⟩ := hgood.slot_of_piece piece hpiece
      exact .inl ⟨s, hs, hseg ▸ hxp⟩
    · have hpiece := used_mem BwFileEntry.seg 4096 maxSize.toNat 0 hp
      obtain ⟨s, hs, hseg, he⟩ := hgood.slot_of_piece _ hpiece
      have hlt := ceilTo_lt (g := 4096) (by norm_num) s.seg.stop
      refine .inr ⟨s, hs, he.trans (hgood.image p hpiece), ?_, ?_, by omega⟩
      · rw [hseg]
        exact hgap.1
      · rw [hseg]
        exact hgap.2
  case ids => exact madeSlots_nodup ro _ 0 (le_refl 2) hgood.increase
  case first =>
    intro s hs
    rcases hids s hs with ⟨hid, he, hb⟩ | ⟨hid, ⟨-, hb⟩, -⟩ | ⟨hid, hb⟩
    · exact iff_of_true hid ⟨he, hb⟩
    · exact iff_of_false (by omega) fun h => hb h.2
    · refine iff_of_false (by omega) fun h => ?_
      rcases hb with he | hb
      · exact absurd (h.1.symm.trans he) nofun
      · exact hb h.2
  case other => exact madeSlots_other ro _ (le_refl 2) (by decide) hgood.increase

/-- A part of the slots tiles the flash only if it is all of them: no image is listed twice, and nothing else lies where an empty
slot does. -/
theorem subset_of_tiled (hfit : TableFits entries) (himage : ∀ p ∈ entries, p.empty = false) {slots : List BinarySlot}
    (hsub : slots.Sublist (plannedSlots ro entries)) (h : Tiled entries slots) : plannedSlots ro entries ⊆ slots := by
  have hall := planned_tiled ro hfit himage
  intro s hs
  cases hempty : s.empty with
  | false =>
    have hlen := (h.images.trans hall.images.symm).length_eq
    rw [List.length_map, List.length_map] at hlen
    have hsame := (hsub.filter fun s => !s.empty).eq_of_length hlen
    have hmem : s ∈ (plannedSlots ro entries).filter fun s => !s.empty := List.mem_filter.2 ⟨hs, by simp [hempty]⟩
    rw [← hsame] at hmem
    exact (List.mem_filter.1 hmem).1
  | true =>
    obtain ⟨hpos, hbelow⟩ := hall.inside s hs
    have hlt : s.seg.start < s.seg.stop := Nat.lt_add_of_pos_right hpos
    rcases h.cover s.seg.start (hlt.trans_le hbelow) with ⟨t, ht, hmem⟩ | ⟨t, ht, himg, hstop, hceil, -⟩
    · by_cases hne : s = t
      · exact hne ▸ ht
      · have : Std.Symm fun s t : BinarySlot => s.seg.Apart t.seg := ⟨fun _ _ h => h.symm⟩
        exact absurd hmem (hall.apart.forall hs (hsub.subset ht) hne _ ⟨le_rfl, hlt⟩)
    · have hstart : t.seg.start ≤ t.seg.stop := Nat.le_add_right _ _
      rcases planned_empty_apart hfit himage hs hempty (hsub.subset ht) himg with hle | hle
      all_goals omega

theorem slots_tiled_iff (hfit : TableFits entries) (himage : ∀ p ∈ entries, p.empty = false) :
    Tiled entries (addPartitions takes ro maxSize 0 ⟨2, 0, []⟩ (entries.insertionSort OffsetLe)).slots ↔
      TakesAll takes [] (plannedSlots ro entries) := by
  have hslots : (addPartitions takes ro maxSize 0 ⟨2, 0, []⟩ (entries.insertionSort OffsetLe)).slots =
      insertAll takes [] (plannedSlots ro entries) := by
    rw [plannedSlots_eq hfit, addPartitions_eq _ 0 _ fun p hp =>
      hfit.inside p ((List.perm_insertionSort OffsetLe entries).subset hp), foldl_addPartition]
    rfl
  rw [hslots]
  constructor
  · intro h
    have hsub := insertAll_sublist takes (plannedSlots ro entries) []
    have hnodup := List.Nodup.of_map _ (planned_tiled ro hfit himage).ids
    refine takesAll_of_length (le_antisymm ?_ ?_)
    · simpa using hsub.length_le
    · simpa using (hnodup.subperm (subset_of_tiled hfit himage hsub h)).length_le
  · intro h
    rw [insertAll_of_takes h]
    exact planned_tiled _ hfit himage

end

/-- Loading goes through if nothing keeps the table from being loaded; else there are no slots. -/
theorem loadPartitionTable_eq (ro : Bool) {env : TableEnv} {entries : List BwFileEntry} (hparse : Parses env.text entries) :
    (Loadable env entries.length → loadPartitionTable ro env =
      (0, (addPartitions env.takes ro maxSize 0 ⟨2, 0, []⟩ (entries.insertionSort OffsetLe)).slots)) ∧
    (¬Loadable env entries.length → (loadPartitionTable ro env).1 ≠ 0 ∧ (loadPartitionTable ro env).2 = []) := by
  obtain ⟨hsome, hnone⟩ := hparse.loop env.realloc 0 (Nat.lt_succ_self _)
  simp only [Nat.zero_add] at hsome hnone
  constructor
  · rintro ⟨⟨name, hname, hcard⟩, hbmc, halloc, ⟨hpos, hlt⟩, hrealloc⟩
    unfold loadPartitionTable TableEnv.entries
    rw [Option.mem_def.1 hname]
    dsimp only
    rw [if_neg (by simp [hcard]), if_neg (by simp [hbmc]), if_neg (by simp [halloc]), if_neg (by omega), if_neg (by omega),
      hsome hrealloc]
  · intro hno
    unfold loadPartitionTable TableEnv.entries
    cases hname : env.cardName with
    | none => exact ⟨show eNodev ≠ 0 by decide, rfl⟩
    | some name =>
      dsimp only
      by_cases hcard : knownCard name = false
      · rw [if_pos hcard]
        exact ⟨by decide, rfl⟩
      rw [if_neg hcard]
      by_cases hbmc : env.bmc = false
      · rw [if_pos hbmc]
        exact ⟨by decide, rfl⟩
      rw [if_neg hbmc]
      by_cases halloc : env.alloc = false
      · rw [if_pos halloc]
        exact ⟨by decide, rfl⟩
      rw [if_neg halloc]
      by_cases hret : env.ret < 0
      · rw [if_pos hret]
        exact ⟨by decide, rfl⟩
      rw [if_neg hret]
      by_cases hbig : bufferSize ≤ env.ret.toNat
      · rw [if_pos hbig]
        exact ⟨by decide, rfl⟩
      rw [if_neg hbig, hnone fun hrealloc => hno
        ⟨⟨name, hname, by simpa using hcard⟩, by simpa using hbmc, by simpa using halloc, ⟨by omega, by omega⟩, hrealloc⟩]
      exact ⟨show eNomem ≠ 0 by decide, rfl⟩

/-- For every text whose entries are none empty, disjoint and in the flash: if nothing keeps the table from being loaded the slots tile
the flash exactly if the tree has room for all of them, and else there are none. -/
theorem partition_table_tiles_iff (ro : Bool) (env : TableEnv) (entries : List BwFileEntry) (hparse : Parses env.text entries)
    (hfit : TableFits entries) :
    (Loadable env entries.length → (loadPartitionTable ro env).1 = 0 ∧
      (Tiled entries (loadPartitionTable ro env).2 ↔ TakesAll env.takes [] (plannedSlots ro entries))) ∧
    (¬Loadable env entries.length → (loadPartitionTable ro env).1 ≠ 0 ∧ (loadPartitionTable ro env).2 = []) := by
  obtain ⟨hload, hno⟩ := loadPartitionTable_eq ro hparse
  refine ⟨fun h => ?_, hno⟩
  rw [hload h]
  exact ⟨rfl, slots_tiled_iff hfit hparse.image⟩

/-- A table of three images, two of them in one page, and not in order. -/
def threeImages : List Char :=
  "7,bar,0x100100,4096,3\n0,0x00000000-recovery,0x0,65537,0\n1,0x00100000-foo,0x100000,100,5\n".toList

/-- The table with a tree that has room for `room` slots. -/
def threeImagesEnv (room : Nat) : TableEnv :=
  ⟨some "IA-440I".toList, true, true, threeImages.length, threeImages, fun _ => true, fun made _ => decide (made.length < room)⟩

def threeEntries : List BwFileEntry :=
  [⟨7, 0x100100, 4096, 3, "bar".toList, "bar".toList, false⟩,
    ⟨0, 0, 65537, 0, "0x00000000-recovery".toList, "recovery".toList, false⟩,
    ⟨1, 0x100000, 100, 5, "0x00100000-foo".toList, "foo".toList, false⟩]

theorem threeEntries_parses (room : Nat) : Parses (threeImagesEnv room).text threeEntries :=
  .entry rfl (.entry rfl (.entry rfl (.stop rfl)))

theorem threeEntries_fit : TableFits threeEntries := by
  refine ⟨by decide, by decide, ?_⟩
  simp only [threeEntries, List.pairwise_cons, List.mem_cons, List.not_mem_nil, or_false, forall_eq_or_imp, forall_eq]
  refine ⟨⟨?_, ?_⟩, ?_, nofun, List.Pairwise.nil⟩
  all_goals exact (Seg.apart_iff (by decide) (by decide)).2 (by decide)

theorem threeEntries_loadable (room : Nat) : Loadable (threeImagesEnv room) threeEntries.length := by
  have hlen : 0 ≤ (threeImages.length : Int) ∧ (threeImages.length : Int).toNat < bufferSize := by decide
  exact ⟨⟨_, rfl, by decide⟩, rfl, rfl, hlen, fun _ _ => rfl⟩

instance decidableTakesAll (takes : List BinarySlot → BinarySlot → Bool) : ∀ made l, Decidable (TakesAll takes made l)
  | _, [] => inferInstanceAs (Decidable True)
  | made, s :: l => @instDecidableAnd _ _ _ (decidableTakesAll takes (made ++ [s]) l)

theorem three_images_tile :
    (loadPartitionTable true (threeImagesEnv 5)).2.map (fun s => (s.nodeName, s.base.toNat, s.size.toNat)) =
      [("image1", 0, 65537), ("empty2", 69632, 978944), ("image0", 1048576, 100), ("image3", 1048832, 4096),
        ("empty4", 1056768, 267378688)] ∧
    Tiled threeEntries (loadPartitionTable true (threeImagesEnv 5)).2 := by
  have htiles := (partition_table_tiles_iff true _ _ (threeEntries_parses 5) threeEntries_fit).1 (threeEntries_loadable 5)
  exact ⟨by decide +kernel, htiles.2.2 (by decide +kernel)⟩

/-- In a tree with room for three slots the last image and the space behind it are missing, and the result is 0. -/
theorem three_images_missing :
    Parses (threeImagesEnv 3).text threeEntries ∧ TableFits threeEntries ∧ (loadPartitionTable true (threeImagesEnv 3)).1 = 0 ∧
      (loadPartitionTable true (threeImagesEnv 3)).2.map (fun s => (s.nodeName, s.base.toNat, s.size.toNat)) =
        [("image1", 0, 65537), ("empty2", 69632, 978944), ("image0", 1048576, 100)] ∧
      ¬Tiled threeEntries (loadPartitionTable true (threeImagesEnv 3)).2 := by
  refine ⟨threeEntries_parses 3, threeEntries_fit, by decide +kernel, by decide +kernel, fun h => ?_⟩
  have hlen := h.images.length_eq
  revert hlen
  decide +kernel

end NdkSw.Boot

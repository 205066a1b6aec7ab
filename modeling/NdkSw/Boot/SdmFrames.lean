/-
The framing of the SDM commands for the flash: which commands a call issues, and when each of them is a header with as many words as it
announces. The words of a write are counted twice: once with a limit for the header and the argument, and once, as an `int` and with no
limit, for the data.
-/
import NdkSw.Boot.Sdm
import NdkSw.Bits.Narrow

namespace NdkSw.Boot

open Ndp

/-! ## Full commands -/

section

variable {space : Nat → U32} {c rest before : List Send} {headerLast : Bool} {w : U32} {k : Nat} {final : Send}

theorem last_fullSend_false (part : Part) : ∀ ws, (fullSend part false ws).map Sent.last = List.replicate ws.length false := by
  intro ws
  induction ws with
  | nil => rfl
  | cons w ws ih => rw [fullSend, List.map_cons, ih, List.length_cons, List.replicate_succ, Bool.false_and]

theorem last_fullSend_true (part : Part) : ∀ ws, ws ≠ [] →
    (fullSend part true ws).map Sent.last = List.replicate (ws.length - 1) false ++ [true] := by
  intro ws
  induction ws with
  | nil => exact fun h => absurd rfl h
  | cons w ws ih =>
    intro _
    cases ws with
    | nil => rfl
    | cons w' ws =>
      rw [fullSend, List.map_cons, ih (List.cons_ne_nil _ _)]
      rfl

/-- The sends of a command: those before the last one, and the last one, which has words. -/
structure EndsWith (c before : List Send) (final : Send) : Prop where
  split : c = before ++ [final]
  others : ∀ x ∈ before, x.last = false
  last : final.last = true
  some : final.words ≠ []

theorem last_full_before : ∀ {before : List Send}, (∀ x ∈ before, x.last = false) →
    (before.flatMap fun x => fullSend x.part x.last x.words).map Sent.last = List.replicate (wordCount before) false := by
  intro before
  induction before with
  | nil => exact fun _ => rfl
  | cons x before ih =>
    intro h
    have hx := h x List.mem_cons_self
    rw [List.flatMap_cons, List.map_append, ih fun y hy => h y (List.mem_cons_of_mem x hy), hx, last_fullSend_false, List.replicate_append_replicate]
    rfl

theorem length_full (c : List Send) : (c.flatMap fun x => fullSend x.part x.last x.words).length = wordCount c := by
  induction c with
  | nil => rfl
  | cons x c ih =>
    unfold wordCount at ih ⊢
    rw [List.flatMap_cons, List.length_append, ih, length_fullSend, List.map_cons, List.sum_cons]

/-- The last word of a full command, and no other one, goes to `LAST_WORD`. -/
theorem last_full (h : EndsWith c before final) :
    (c.flatMap fun x => fullSend x.part x.last x.words).map Sent.last = List.replicate (wordCount c - 1) false ++ [true] := by
  have hpos : 0 < final.words.length := List.length_pos_of_ne_nil h.some
  have hcount : wordCount c = wordCount before + final.words.length := by
    unfold wordCount
    rw [h.split, List.map_append, List.sum_append]
    rfl
  rw [hcount, h.split, List.flatMap_append, List.map_append, last_full_before h.others, List.flatMap_singleton, h.last,
    last_fullSend_true final.part final.words h.some, ← List.append_assoc, List.replicate_append_replicate]
  congr 2
  omega

/-- A command starts with its header, and no other word is one. -/
structure StartsWith (c : List Send) (w : U32) (headerLast : Bool) (rest : List Send) : Prop where
  split : c = ⟨.header, [w], headerLast⟩ :: rest
  others : ∀ x ∈ rest, x.part ≠ .header

theorem StartsWith.wordCount (h : StartsWith c w headerLast rest) : wordCount c = 1 + NdkSw.Boot.wordCount rest := by
  rw [h.split]
  rfl

theorem StartsWith.header_word (h : StartsWith c w headerLast rest) {x : Sent} {sent : List Sent} (hsent : (sendAll space c k).1 = x :: sent)
    (hx : x.part = .header) : x.word = w := by
  have hmem : x ∈ (sendAll space c k).1 := by
    rw [hsent]
    exact List.mem_cons_self
  obtain ⟨y, hy, hpart, hword⟩ := mem_sendAll hmem
  rw [h.split] at hy
  rcases List.mem_cons.1 hy with rfl | hy
  · exact List.mem_singleton.1 hword
  · exact absurd (hpart.symm.trans hx) (h.others y hy)

theorem StartsWith.timely (h : StartsWith c w headerLast rest) (hcount : NdkSw.Boot.wordCount rest = lenField w)
    (hframe : FrameOk (sendAll space c k).1) : spaceAfterAll space (c.map fun x => x.words.length) k ≠ none := by
  intro hnone
  have hlt := length_sendAll_lt hnone
  obtain ⟨x, sent, hsent, hx, hlen⟩ := hframe.header
  have hword := h.header_word hsent hx
  have hall := h.wordCount
  rw [hsent, List.length_cons] at hlt
  rw [hword] at hlen
  omega

theorem StartsWith.full (h : StartsWith c w headerLast rest) (hend : EndsWith c before final)
    (hcount : NdkSw.Boot.wordCount rest = lenField w)
    (hwrite : codeField w = qspiWriteOp.setWidth 11 → ∃ address words data, (rest.flatMap fun x => fullSend x.part x.last x.words) = address :: words :: data ∧ words.part = .words ∧ words.word.toNat = data.length) :
    FrameOk (c.flatMap fun x => fullSend x.part x.last x.words) := by
  have hlast := last_full hend
  have hall := h.wordCount
  have hfull : (c.flatMap fun x => fullSend x.part x.last x.words) =
      ⟨.header, w, headerLast && true⟩ :: rest.flatMap fun x => fullSend x.part x.last x.words := by
    rw [h.split]
    rfl
  refine ⟨⟨_, _, hfull, rfl, ?_⟩, ?_, ?_⟩
  · rw [length_full, hcount]
  · rw [hlast, length_full]
  · intro x sent hsent hcode
    rw [hfull] at hsent
    obtain ⟨rfl, rfl⟩ := List.cons.inj hsent
    exact hwrite hcode

theorem StartsWith.frame_iff (h : StartsWith c w headerLast rest) (hend : EndsWith c before final)
    (hcount : NdkSw.Boot.wordCount rest = lenField w) (hcode : codeField w ≠ qspiWriteOp.setWidth 11) (k : Nat) :
    FrameOk (sendAll space c k).1 ↔ spaceAfterAll space (c.map fun x => x.words.length) k ≠ none ∧ True := by
  constructor
  · exact fun hframe => ⟨h.timely hcount hframe, trivial⟩
  · rintro ⟨htime, -⟩
    obtain ⟨k', hk'⟩ := Option.ne_none_iff_exists'.1 htime
    rw [sendAll_timely hk']
    exact h.full hend hcount fun he => absurd he hcode

end

/-! ## The commands -/

/-- Arguments of one word each. -/
def argSends : List U32 → List Send
  | [] => []
  | a :: as => ⟨.argument, [a], as.isEmpty⟩ :: argSends as

/-- A command with arguments of one word each. -/
def simpleCommand (code : U32) (args : List U32) : List Send :=
  ⟨.header, [headerWord code (BitVec.ofNat 32 args.length)], args.isEmpty⟩ :: argSends args

theorem wordCount_argSends : ∀ args, wordCount (argSends args) = args.length := by
  intro args
  induction args with
  | nil => rfl
  | cons a args ih =>
    unfold wordCount at ih ⊢
    rw [argSends, List.map_cons, List.sum_cons, ih, List.length_cons, Nat.add_comm]
    rfl

theorem part_argSends : ∀ args, ∀ x ∈ argSends args, x.part ≠ .header := by
  intro args
  induction args with
  | nil => exact fun x hx => absurd hx List.not_mem_nil
  | cons a args ih =>
    intro x hx
    rcases List.mem_cons.1 hx with rfl | hx
    · exact fun h => Part.noConfusion h
    · exact ih x hx

theorem endsWith_argSends : ∀ {args : List U32}, args ≠ [] → ∃ before final, EndsWith (argSends args) before final := by
  intro args
  induction args with
  | nil => exact fun h => absurd rfl h
  | cons a args ih =>
    intro _
    cases args with
    | nil => exact ⟨[], ⟨.argument, [a], true⟩, rfl, fun x hx => absurd hx List.not_mem_nil, rfl, List.cons_ne_nil _ _⟩
    | cons a' args =>
      obtain ⟨before, final, hend⟩ := ih (List.cons_ne_nil a' args)
      refine ⟨⟨.argument, [a], false⟩ :: before, final, ?_, List.forall_mem_cons.2 ⟨rfl, hend.others⟩, hend.last, hend.some⟩
      rw [List.cons_append, ← hend.split]
      rfl

theorem EndsWith.cons {c before : List Send} {final x : Send} (h : EndsWith c before final) (hx : x.last = false) :
    EndsWith (x :: c) (x :: before) final :=
  ⟨by rw [h.split]; rfl, List.forall_mem_cons.2 ⟨hx, h.others⟩, h.last, h.some⟩

variable {space : Nat → U32}

theorem simpleCommand_frame_iff (code : U32) (args : List U32) (hargs : args.length < 2 ^ 11) (hcode : code.toNat < 2 ^ 11)
    (hwrite : code.setWidth 11 ≠ qspiWriteOp.setWidth 11) (k : Nat) :
    FrameOk (sendAll space (simpleCommand code args) k).1 ↔
      spaceAfterAll space ((simpleCommand code args).map fun x => x.words.length) k ≠ none ∧ True := by
  have hlen : (BitVec.ofNat 32 args.length).toNat = args.length := by
    rw [BitVec.toNat_ofNat, Nat.mod_eq_of_lt (lt_trans hargs (by decide))]
  have hstart : StartsWith (simpleCommand code args) (headerWord code (BitVec.ofNat 32 args.length)) args.isEmpty (argSends args) :=
    ⟨rfl, part_argSends args⟩
  have hcount : wordCount (argSends args) = lenField (headerWord code (BitVec.ofNat 32 args.length)) := by
    rw [wordCount_argSends, lenField_headerWord hcode (by rwa [hlen]), hlen]
  have hne : codeField (headerWord code (BitVec.ofNat 32 args.length)) ≠ qspiWriteOp.setWidth 11 := by
    rwa [codeField_headerWord]
  cases args with
  | nil =>
    have hend : EndsWith (simpleCommand code []) [] ⟨.header, [headerWord code 0], true⟩ :=
      ⟨rfl, fun x hx => absurd hx List.not_mem_nil, rfl, List.cons_ne_nil _ _⟩
    exact hstart.frame_iff hend hcount hne k
  | cons a args =>
    obtain ⟨before, final, hend⟩ := endsWith_argSends (List.cons_ne_nil a args)
    exact hstart.frame_iff (hend.cons rfl) hcount hne k

/-! ## Writes -/

theorem length_wordsFrom : ∀ n data len, (wordsFrom n data len).length = n := by
  intro n
  induction n with
  | zero => exact fun _ _ => rfl
  | succ n ih =>
    intro data len
    rw [wordsFrom, List.length_cons, ih]

theorem length_wordsOf (data : List U8) (len : Int) : (wordsOf data len).length = (len.toNat + 3) / 4 := length_wordsFrom _ _ _

theorem wordsLen_le (len : U64) : (wordsLen len).toNat ≤ 1024 := by
  unfold wordsLen
  split_ifs with h
  · exact le_refl _
  · exact BitVec.not_lt.1 h

/-- The words of a write. -/
def writeSends (dst len : U64) (buf : List U8) : List Send :=
  [⟨.header, [headerWord qspiWriteOp (2 + wordsLen len)], false⟩, ⟨.argument, [dst.setWidth 32], false⟩, ⟨.words, [wordsLen len], false⟩,
    ⟨.data, wordsOf buf (len.setWidth 32).toInt, true⟩]

/-- The data of a write are as many words as it says, and at least one. -/
def DataFits (len : U64) (buf : List U8) : Prop :=
  wordsOf buf (len.setWidth 32).toInt ≠ [] ∧ (wordsOf buf (len.setWidth 32).toInt).length = (wordsLen len).toNat

section

variable {space : Nat → U32}

theorem sendLoop_single (part : Part) (a : U32) (k : Nat) :
    (sendLoop space part false [a] 0 k).1 = [⟨part, a, false⟩] ∨ (sendLoop space part false [a] 0 k).1 = [] := by
  rcases sendLoop_spec part false [a] 0 k with ⟨k', -, hrun⟩ | ⟨-, sent, k', hrun, hlen, -⟩
  · rw [hrun]
    exact Or.inl rfl
  · rw [hrun]
    exact Or.inr (List.length_eq_zero_iff.1 (Nat.lt_one_iff.1 hlen))

theorem wordCount_writeSends (dst len : U64) (buf : List U8) :
    wordCount (writeSends dst len buf) = 3 + (wordsOf buf (len.setWidth 32).toInt).length := by
  show 1 + (1 + (1 + ((wordsOf buf (len.setWidth 32).toInt).length + 0))) = _
  omega

/-- In a right frame of a write no part is missing, and the data end with the last word. -/
theorem frame_parts {hs as ws ds : List Sent} {h a w : Sent} (hhs : hs = [h] ∨ hs = []) (has : as = [a] ∨ as = []) (hws : ws = [w] ∨ ws = [])
    (hw : w.part = .words) (ha : a.part = .argument) (hds : ∀ x ∈ ds, x.part = .data) (hcode : codeField h.word = qspiWriteOp.setWidth 11)
    (hlast : h.last = false ∧ a.last = false ∧ w.last = false) (hframe : FrameOk (hs ++ (as ++ (ws ++ ds)))) :
    hs = [h] ∧ as = [a] ∧ ws = [w] ∧ w.word.toNat = ds.length ∧ ∃ x ∈ ds, x.last = true := by
  obtain ⟨x, rest, hall, hx, -⟩ := hframe.header
  -- the header is there, since no other part is one
  have hhead : hs = [h] := by
    rcases hhs with hhs | hhs
    · exact hhs
    · exfalso
      rw [hhs, List.nil_append] at hall
      have hmem : x ∈ as ++ (ws ++ ds) := by
        rw [hall]
        exact List.mem_cons_self
      rcases List.mem_append.1 hmem with hmem | hmem
      · rcases has with rfl | rfl
        · rw [List.mem_singleton.1 hmem, ha] at hx
          cases hx
        · exact List.not_mem_nil hmem
      · rcases List.mem_append.1 hmem with hmem | hmem
        · rcases hws with rfl | rfl
          · rw [List.mem_singleton.1 hmem, hw] at hx
            cases hx
          · exact List.not_mem_nil hmem
        · rw [hds x hmem] at hx
          cases hx
  obtain ⟨address, words, data, hrest, hwords, hcount⟩ := hframe.write h (as ++ (ws ++ ds)) (by rw [hhead]; rfl) hcode
  have hno : words ∉ ds := by
    intro hmem
    rw [hds words hmem] at hwords
    cases hwords
  have hparts : as = [a] ∧ ws = [w] := by
    rcases has with has | has
    · refine ⟨has, ?_⟩
      rcases hws with hws | hws
      · exact hws
      · exfalso
        rw [has, hws, List.nil_append] at hrest
        have htail : ds = words :: data := (List.cons.inj hrest).2
        exact hno (htail ▸ List.mem_cons_self)
    · exfalso
      rw [has, List.nil_append] at hrest
      rcases hws with hws | hws
      · rw [hws] at hrest
        have htail : ds = words :: data := (List.cons.inj hrest).2
        exact hno (htail ▸ List.mem_cons_self)
      · rw [hws, List.nil_append] at hrest
        exact hno (hrest ▸ List.mem_cons_of_mem address List.mem_cons_self)
  obtain ⟨has', hws'⟩ := hparts
  rw [has', hws'] at hrest
  have htail := (List.cons.inj (List.cons.inj hrest).2)
  have hds' : ds = data := htail.2
  refine ⟨hhead, has', hws', ?_, ?_⟩
  · rw [show w = words from htail.1, hcount, hds']
  · have hflags : true ∈ (hs ++ (as ++ (ws ++ ds))).map Sent.last := by
      rw [hframe.last]
      exact List.mem_append_right _ List.mem_cons_self
    obtain ⟨y, hy, hylast⟩ := List.mem_map.1 hflags
    rw [hhead, has', hws'] at hy
    obtain ⟨h₁, h₂, h₃⟩ := hlast
    rcases List.mem_cons.1 hy with rfl | hy
    · rw [h₁] at hylast
      cases hylast
    · rcases List.mem_cons.1 hy with rfl | hy
      · rw [h₂] at hylast
        cases hylast
      · rcases List.mem_cons.1 hy with rfl | hy
        · rw [h₃] at hylast
          cases hylast
        · exact ⟨y, hy, hylast⟩

/-- A right frame of a write has all words, and its data fit. -/
theorem writeSends_of_frame {dst len : U64} {buf : List U8} {k : Nat} (hframe : FrameOk (sendAll space (writeSends dst len buf) k).1) :
    (sendAll space (writeSends dst len buf) k).1.length = wordCount (writeSends dst len buf) ∧ DataFits len buf := by
  obtain ⟨k₁, k₂, k₃, hall⟩ : ∃ k₁ k₂ k₃, (sendAll space (writeSends dst len buf) k).1 =
      (sendLoop space .header false [headerWord qspiWriteOp (2 + wordsLen len)] 0 k).1 ++
        ((sendLoop space .argument false [dst.setWidth 32] 0 k₁).1 ++ ((sendLoop space .words false [wordsLen len] 0 k₂).1 ++
          (sendLoop space .data true (wordsOf buf (len.setWidth 32).toInt) 0 k₃).1)) := by
    unfold writeSends
    rw [sendAll, sendAll, sendAll, sendAll, sendAll, List.append_nil]
    exact ⟨_, _, _, rfl⟩
  rw [hall] at hframe ⊢
  have hcode : codeField (⟨.header, headerWord qspiWriteOp (2 + wordsLen len), false⟩ : Sent).word = qspiWriteOp.setWidth 11 :=
    codeField_headerWord
  obtain ⟨hhead, haddress, hwords, hcount, x, hx, hlast⟩ := frame_parts (sendLoop_single .header _ k) (sendLoop_single .argument _ k₁)
    (sendLoop_single .words _ k₂) rfl rfl (fun x hx => (part_sendLoop .data true _ 0 k₃ x hx).1) hcode ⟨rfl, rfl, rfl⟩ hframe
  rcases sendLoop_spec .data true (wordsOf buf (len.setWidth 32).toInt) 0 k₃ with ⟨k', -, hrun⟩ | ⟨-, sent, k', hrun, -, hsent⟩
  · rw [hrun] at hx hcount
    rw [hhead, haddress, hwords, hrun, wordCount_writeSends]
    refine ⟨?_, ?_, ?_⟩
    · rw [List.length_append, List.length_append, List.length_append, length_fullSend]
      show 1 + (1 + (1 + _)) = _
      omega
    · intro hnil
      rw [hnil] at hx
      exact absurd hx List.not_mem_nil
    · dsimp only at hcount
      rw [hcount, length_fullSend]
  · rw [hrun] at hx
    rw [(hsent x hx).2] at hlast
    cases hlast

/-- A write is framed right if and only if it is in time and its data fit. -/
theorem writeSends_frame_iff (dst len : U64) (buf : List U8) (k : Nat) : FrameOk (sendAll space (writeSends dst len buf) k).1 ↔
    spaceAfterAll space ((writeSends dst len buf).map fun x => x.words.length) k ≠ none ∧ DataFits len buf := by
  constructor
  · intro hframe
    obtain ⟨hlen, hfits⟩ := writeSends_of_frame hframe
    exact ⟨fun hnone => absurd hlen (Nat.ne_of_lt (length_sendAll_lt hnone)), hfits⟩
  · rintro ⟨htime, hsome, hfits⟩
    obtain ⟨k', hk'⟩ := Option.ne_none_iff_exists'.1 htime
    have hle := wordsLen_le len
    have hcmd : (2 + wordsLen len).toNat = 2 + (wordsLen len).toNat := by
      rw [BitVec.toNat_add]
      exact Nat.mod_eq_of_lt (by show 2 + _ < 2 ^ 32; omega)
    have hstart : StartsWith (writeSends dst len buf) (headerWord qspiWriteOp (2 + wordsLen len)) false
        [⟨.argument, [dst.setWidth 32], false⟩, ⟨.words, [wordsLen len], false⟩, ⟨.data, wordsOf buf (len.setWidth 32).toInt, true⟩] := by
      refine ⟨rfl, ?_⟩
      simp
    have hend : EndsWith (writeSends dst len buf) ((writeSends dst len buf).take 3) ⟨.data, wordsOf buf (len.setWidth 32).toInt, true⟩ := by
      refine ⟨rfl, ?_, rfl, hsome⟩
      simp [writeSends]
    have hcount : wordCount [(⟨.argument, [dst.setWidth 32], false⟩ : Send), ⟨.words, [wordsLen len], false⟩,
        ⟨.data, wordsOf buf (len.setWidth 32).toInt, true⟩] = lenField (headerWord qspiWriteOp (2 + wordsLen len)) := by
      rw [lenField_headerWord (by decide) (by rw [hcmd]; omega), hcmd, ← hfits]
      show 1 + (1 + ((wordsOf buf (len.setWidth 32).toInt).length + 0)) = 2 + (wordsOf buf (len.setWidth 32).toInt).length
      omega
    rw [sendAll_timely hk']
    refine hstart.full hend hcount fun _ => ⟨⟨.argument, dst.setWidth 32, false⟩, ⟨.words, wordsLen len, false⟩,
      fullSend .data true (wordsOf buf (len.setWidth 32).toInt), ?_, rfl, ?_⟩
    · simp [fullSend]
    · rw [length_fullSend, hfits]

end

/-! ## Register writes -/

/-- The length that the header of a register write announces. -/
def writeRegLen (len : U32) : U32 := 2 + sdmLenBytesToWords (len.signExtend 64)

/-- The words of a register write. -/
def writeRegSends (opcode : U8) (buf : List U8) (len : U32) : List Send :=
  ⟨.header, [headerWord qspiWriteDeviceRegOp (writeRegLen len)], writeRegLen len = 0⟩ :: ⟨.argument, [opcode.setWidth 32], false⟩ ::
    if len = 0 then [⟨.argument, [len], true⟩] else [⟨.argument, [len], false⟩, ⟨.data, wordsOf buf len.toInt, true⟩]

theorem toNat_writeRegLen {len : U32} (h : 0 ≤ len.toInt) : (writeRegLen len).toNat = 2 + (len.toInt.toNat + 3) / 4 := by
  have hlt := BitVec.toInt_lt (x := len)
  have hext : (len.signExtend 64).toNat = len.toInt.toNat := by
    rw [Bits.toNat_signExtend_of_nonneg (by decide) h]
    have heq := Bits.toNat_of_nonneg h
    omega
  unfold writeRegLen sdmLenBytesToWords
  rw [BitVec.toNat_add, BitVec.toNat_setWidth, BitVec.toNat_ushiftRight, BitVec.toNat_add, hext]
  show (2 + ((len.toInt.toNat + 3) % 2 ^ 64) >>> 2 % 2 ^ 32) % 2 ^ 32 = _
  rw [Nat.shiftRight_eq_div_pow]
  omega

/-- A register write that is accepted is framed right if and only if it is in time. -/
theorem writeRegSends_frame_iff (opcode : U8) (buf : List U8) {len : U32} (h : 0 ≤ len.toInt) (hlen : (writeRegLen len).toNat < 2 ^ 11)
    (k : Nat) : FrameOk (sendAll space (writeRegSends opcode buf len) k).1 ↔
      spaceAfterAll space ((writeRegSends opcode buf len).map fun x => x.words.length) k ≠ none ∧ True := by
  have hannounced := toNat_writeRegLen h
  have hne : codeField (headerWord qspiWriteDeviceRegOp (writeRegLen len)) ≠ qspiWriteOp.setWidth 11 := by
    rw [codeField_headerWord]
    decide
  have hfield : lenField (headerWord qspiWriteDeviceRegOp (writeRegLen len)) = (writeRegLen len).toNat := lenField_headerWord (by decide) hlen
  have hlast : decide (writeRegLen len = 0) = false := by
    rw [decide_eq_false_iff_not]
    intro hzero
    have hzero' : (0 : U32).toNat = 0 := rfl
    rw [hzero] at hannounced
    omega
  unfold writeRegSends
  rw [hlast]
  by_cases hzero : len = 0
  · rw [if_pos hzero]
    have hstart : StartsWith _ (headerWord qspiWriteDeviceRegOp (writeRegLen len)) false
        [⟨.argument, [opcode.setWidth 32], false⟩, ⟨.argument, [len], true⟩] := ⟨rfl, by simp⟩
    have hend : EndsWith _ [⟨.header, [headerWord qspiWriteDeviceRegOp (writeRegLen len)], false⟩, ⟨.argument, [opcode.setWidth 32], false⟩]
        ⟨.argument, [len], true⟩ := ⟨rfl, by simp, rfl, List.cons_ne_nil _ _⟩
    refine hstart.frame_iff hend ?_ hne k
    rw [hfield, hannounced, hzero]
    rfl
  · have hpos : 0 < len.toInt := lt_of_le_of_ne h fun he => hzero (BitVec.eq_of_toInt_eq he.symm)
    have hlength := length_wordsOf buf len.toInt
    rw [if_neg hzero]
    have hsome : wordsOf buf len.toInt ≠ [] := by
      apply List.ne_nil_of_length_pos
      omega
    have hstart : StartsWith _ (headerWord qspiWriteDeviceRegOp (writeRegLen len)) false
        [⟨.argument, [opcode.setWidth 32], false⟩, ⟨.argument, [len], false⟩, ⟨.data, wordsOf buf len.toInt, true⟩] := ⟨rfl, by simp⟩
    have hend : EndsWith _ [⟨.header, [headerWord qspiWriteDeviceRegOp (writeRegLen len)], false⟩, ⟨.argument, [opcode.setWidth 32], false⟩,
        ⟨.argument, [len], false⟩] ⟨.data, wordsOf buf len.toInt, true⟩ := ⟨rfl, by simp, rfl, hsome⟩
    refine hstart.frame_iff hend ?_ hne k
    rw [hfield, hannounced]
    show 1 + (1 + ((wordsOf buf len.toInt).length + 0)) = _
    omega

/-! ## The commands of a call -/

def openSends : List Send := simpleCommand qspiOpenOp []

def setCsSends : List Send := simpleCommand qspiSetCsOp [0]

def closeSends : List Send := simpleCommand qspiCloseOp []

def readSends (src len : U64) : List Send := simpleCommand qspiReadOp [src.setWidth 32, wordsLen len]

def readRegSends (opcode : U8) : List Send := simpleCommand qspiReadDeviceRegOp [(if opcode = 0x9f then 0x9e else opcode).setWidth 32, 8]

def eraseSends (off : U64) : List Send := simpleCommand qspiEraseOp [off.setWidth 32, 0x4000]

/-- The commands of `sdm_qspi_prepare`, and whether it succeeds; its first response has number `gets`. -/
def prepareIssued (env : SdmEnv) (gets : Nat) : List (List Send) × Bool :=
  if env.lock = false then ([], false)
  else if env.getData gets < 0 then ([openSends], false)
  else if env.getData (gets + 1) < 0 then ([openSends, setCsSends, closeSends], false)
  else ([openSends, setCsSends], true)

/-- The commands of a register command. -/
def withLockIssued (env : SdmEnv) (s : Sdm) (command : List (List Send)) : List (List Send) :=
  if s.locked then command
  else if (prepareIssued env s.gets).2 then (prepareIssued env s.gets).1 ++ command ++ [closeSends]
  else (prepareIssued env s.gets).1

/-- The commands that a call issues. -/
def issued (env : SdmEnv) (s : Sdm) : FlashCall → List (List Send)
  | .prepare => (prepareIssued env s.gets).1
  | .unprepare => [closeSends]
  | .read src len => if src &&& 3 ≠ 0 then [] else [readSends src len]
  | .readReg opcode => withLockIssued env s [readRegSends opcode]
  | .write dst len buf => if dst &&& 3 ≠ 0 then [] else [writeSends dst len buf]
  | .writeReg opcode buf len => withLockIssued env s (if writeRegLen len >>> 11 ≠ 0 then [] else [writeRegSends opcode buf len])
  | .erase off => if off &&& 0x3fff ≠ 0 then [] else [eraseSends off]

section

variable (env : SdmEnv) (s : Sdm)

theorem sdmSendHeader_eq (code len : U32) (hcode : code >>> 11 = 0) (hlen : len >>> 11 = 0) : sdmSendHeader env code len s =
    ({ s with mailbox := (s.mailbox.start.send env.space ⟨.header, [headerWord code len], len = 0⟩).1 }, 0) := by
  unfold sdmSendHeader sdmSendData
  rw [if_neg (by rw [hcode, hlen]; simp), wordsOf_le32]

theorem sdmSendData_le32 (part : Part) (x : U32) (last : Bool) :
    (sdmSendData env part (le32 x) 4 last s).1 = { s with mailbox := (s.mailbox.send env.space ⟨part, [x], last⟩).1 } := by
  unfold sdmSendData
  rw [wordsOf_le32]

theorem sdmSendData_byte (part : Part) (x : U8) (last : Bool) :
    (sdmSendData env part [x] 1 last s).1 = { s with mailbox := (s.mailbox.send env.space ⟨part, [x.setWidth 32], last⟩).1 } := by
  unfold sdmSendData
  rw [wordsOf_byte]

theorem sdmClose_eq : sdmClose env s = { s with mailbox := sendCommand env.space s.mailbox closeSends, gets := s.gets + 1 } := by
  unfold sdmClose
  rw [sdmSendHeader_eq env s qspiCloseOp 0 (by decide) (by decide)]
  rfl

theorem read_mailbox (src len : U64) (h : ¬ src &&& 3 ≠ 0) :
    (sdmQspiRead env src len s).1.mailbox = sendCommand env.space s.mailbox (readSends src len) := by
  unfold sdmQspiRead
  rw [if_neg h, sdmSendHeader_eq env s qspiReadOp 2 (by decide) (by decide)]
  dsimp only
  rw [if_neg (lt_irrefl _), sdmSendData_le32, sdmSendData_le32]
  rfl

theorem erase_mailbox (off : U64) (h : ¬ off &&& 0x3fff ≠ 0) :
    (sdmQspiErase env off s).1.mailbox = sendCommand env.space s.mailbox (eraseSends off) := by
  unfold sdmQspiErase
  rw [if_neg h, sdmSendHeader_eq env s qspiEraseOp 2 (by decide) (by decide)]
  dsimp only
  rw [if_neg (lt_irrefl _), sdmSendData_le32, sdmSendData_le32]
  split_ifs
  · rfl
  · rfl

theorem readReg_mailbox (opcode : U8) : (readRegCommand env opcode s).1.mailbox = sendCommand env.space s.mailbox (readRegSends opcode) := by
  unfold readRegCommand
  rw [sdmSendHeader_eq env s qspiReadDeviceRegOp 2 (by decide) (by decide)]
  dsimp only
  rw [if_neg (lt_irrefl _), sdmSendData_byte, sdmSendData_le32]
  unfold sdmGetData
  dsimp only
  by_cases hneg : env.getData s.gets < 0
  · rw [if_pos hneg]
    rfl
  · rw [if_neg hneg]
    rfl

theorem write_mailbox (dst len : U64) (buf : List U8) (h : ¬ dst &&& 3 ≠ 0) :
    (sdmQspiWrite env dst len buf s).1.mailbox = sendCommand env.space s.mailbox (writeSends dst len buf) := by
  have hle := wordsLen_le len
  have hcmd : (2 + wordsLen len).toNat = 2 + (wordsLen len).toNat := by
    rw [BitVec.toNat_add]
    exact Nat.mod_eq_of_lt (by show 2 + _ < 2 ^ 32; omega)
  have hshift : (2 + wordsLen len) >>> 11 = 0 := by
    apply BitVec.eq_of_toNat_eq
    rw [BitVec.toNat_ushiftRight, hcmd, Nat.shiftRight_eq_div_pow]
    show _ = 0
    omega
  have hlast : decide (2 + wordsLen len = 0) = false := by
    rw [decide_eq_false_iff_not]
    intro hzero
    rw [hzero] at hcmd
    have hzero' : (0 : U32).toNat = 0 := rfl
    omega
  unfold sdmQspiWrite
  rw [if_neg h, sdmSendHeader_eq env s qspiWriteOp (2 + wordsLen len) (by decide) hshift, hlast]
  dsimp only
  rw [if_neg (lt_irrefl _), sdmSendData_le32, sdmSendData_le32]
  unfold sdmGetData sdmSendData
  dsimp only
  split_ifs
  · rfl
  · rfl

theorem writeReg_mailbox (opcode : U8) (buf : List U8) (len : U32) (h : ¬ writeRegLen len >>> 11 ≠ 0) :
    (writeRegCommand env opcode buf len s).1.mailbox = sendCommand env.space s.mailbox (writeRegSends opcode buf len) := by
  have hlen : 2 + sdmLenBytesToWords (len.signExtend 64) = writeRegLen len := rfl
  unfold writeRegCommand writeRegSends
  rw [hlen, sdmSendHeader_eq env s qspiWriteDeviceRegOp (writeRegLen len) (by decide) (not_not.1 h)]
  dsimp only
  rw [if_neg (lt_irrefl _), sdmSendData_byte]
  by_cases hzero : len = 0
  · rw [if_pos hzero, if_pos hzero, sdmSendData_le32]
    unfold sdmGetData
    dsimp only
    split_ifs
    · rfl
    · rfl
  · rw [if_neg hzero, if_neg hzero, sdmSendData_le32]
    unfold sdmGetData sdmSendData
    dsimp only
    split_ifs
    · rfl
    · rfl

theorem writeReg_refused (opcode : U8) (buf : List U8) (len : U32) (h : writeRegLen len >>> 11 ≠ 0) :
    writeRegCommand env opcode buf len s = (s, eInval) := by
  have hlen : 2 + sdmLenBytesToWords (len.signExtend 64) = writeRegLen len := rfl
  have hinval : eInval < 0 := by decide
  unfold writeRegCommand
  rw [hlen]
  unfold sdmSendHeader
  rw [if_pos (Or.inr h)]
  dsimp only
  rw [if_pos hinval]

theorem prepare_mailbox : (sdmQspiPrepare env s).1.mailbox = (prepareIssued env s.gets).1.foldl (sendCommand env.space) s.mailbox ∧
    ((sdmQspiPrepare env s).2 < 0 ↔ (prepareIssued env s.gets).2 = false) := by
  unfold sdmQspiPrepare prepareIssued
  by_cases hlock : env.lock = false
  · rw [if_pos hlock, if_pos hlock]
    have hagain : eAgain < 0 := by decide
    exact ⟨rfl, iff_of_true hagain rfl⟩
  · rw [if_neg hlock, if_neg hlock, sdmSendHeader_eq env s qspiOpenOp 0 (by decide) (by decide)]
    dsimp only
    rw [if_neg (lt_irrefl _)]
    unfold sdmGetData
    dsimp only
    by_cases hopen : env.getData s.gets < 0
    · rw [if_pos hopen, if_pos hopen]
      exact ⟨rfl, iff_of_true hopen rfl⟩
    · rw [if_neg hopen, if_neg hopen, sdmSendHeader_eq env _ qspiSetCsOp 1 (by decide) (by decide)]
      dsimp only
      rw [if_neg (lt_irrefl _), sdmSendData_le32]
      dsimp only
      by_cases hcs : env.getData (s.gets + 1) < 0
      · rw [if_pos hcs, if_pos hcs, sdmClose_eq]
        exact ⟨rfl, iff_of_true hcs rfl⟩
      · rw [if_neg hcs, if_neg hcs]
        exact ⟨rfl, iff_of_false (lt_irrefl _) fun h => Bool.noConfusion h⟩

theorem withLock_mailbox {command : Sdm → Sdm × Int} {c : List (List Send)}
    (h : ∀ s, (command s).1.mailbox = c.foldl (sendCommand env.space) s.mailbox) :
    (withLock env command s).1.mailbox = (withLockIssued env s c).foldl (sendCommand env.space) s.mailbox := by
  obtain ⟨hmailbox, hfails⟩ := prepare_mailbox env s
  unfold withLock withLockIssued
  by_cases hlocked : s.locked = true
  · rw [if_pos hlocked, if_pos hlocked]
    exact h s
  · rw [if_neg hlocked, if_neg hlocked]
    dsimp only
    by_cases hneg : (sdmQspiPrepare env s).2 < 0
    · rw [if_pos hneg, hfails.1 hneg]
      exact hmailbox
    · have hok : (prepareIssued env s.gets).2 = true := by
        rw [← Bool.not_eq_false]
        exact fun he => hneg (hfails.2 he)
      rw [if_neg hneg, if_pos hok, List.foldl_append, List.foldl_append, ← hmailbox, ← h]
      unfold sdmQspiUnprepare
      rw [sdmClose_eq]
      rfl

theorem runCall_mailbox (call : FlashCall) :
    (runCall env s call).1.mailbox = (issued env s call).foldl (sendCommand env.space) s.mailbox := by
  cases call with
  | prepare => exact (prepare_mailbox env s).1
  | unprepare =>
    show (sdmClose env s).mailbox = _
    rw [sdmClose_eq]
    rfl
  | read src len =>
    unfold runCall issued
    dsimp only
    by_cases h : src &&& 3 ≠ 0
    · rw [if_pos h]
      unfold sdmQspiRead
      rw [if_pos h]
      rfl
    · rw [if_neg h]
      exact read_mailbox env s src len h
  | readReg opcode => exact withLock_mailbox env s fun s => readReg_mailbox env s opcode
  | write dst len buf =>
    unfold runCall issued
    dsimp only
    by_cases h : dst &&& 3 ≠ 0
    · rw [if_pos h]
      unfold sdmQspiWrite
      rw [if_pos h]
      rfl
    · rw [if_neg h]
      exact write_mailbox env s dst len buf h
  | writeReg opcode buf len =>
    apply withLock_mailbox
    intro s
    by_cases h : writeRegLen len >>> 11 ≠ 0
    · rw [if_pos h, writeReg_refused env s opcode buf len h]
      rfl
    · rw [if_neg h]
      exact writeReg_mailbox env s opcode buf len h
  | erase off =>
    unfold runCall issued
    dsimp only
    by_cases h : off &&& 0x3fff ≠ 0
    · rw [if_pos h]
      unfold sdmQspiErase
      rw [if_pos h]
      rfl
    · rw [if_neg h]
      exact erase_mailbox env s off h

/-! ## Right frames -/

/-- The length of a write, as the `int` that is used for its data and as the `size_t` that is used for its header. -/
def LengthFits (len : U64) : Prop :=
  1 ≤ len.toNat % 2 ^ 32 ∧ len.toNat % 2 ^ 32 ≤ 4096 ∧ (len.toNat % 2 ^ 34 = len.toNat % 2 ^ 32 ∨ 4092 < len.toNat % 2 ^ 32)

theorem toNat_sdmLenBytesToWords (len : U64) : (sdmLenBytesToWords len).toNat = (len.toNat + 3) % 2 ^ 64 / 4 % 2 ^ 32 := by
  unfold sdmLenBytesToWords
  rw [BitVec.toNat_setWidth, BitVec.toNat_ushiftRight, BitVec.toNat_add, Nat.shiftRight_eq_div_pow]
  rfl

theorem toNat_wordsLen (len : U64) : (wordsLen len).toNat = min 1024 ((len.toNat + 3) % 2 ^ 64 / 4 % 2 ^ 32) := by
  have hmax : maxWords.toNat = 1024 := rfl
  rw [← toNat_sdmLenBytesToWords]
  unfold wordsLen
  split_ifs with h
  · have hlt := BitVec.lt_def.1 h
    omega
  · have hle := BitVec.le_def.1 (BitVec.not_lt.1 h)
    omega

/-- The number of data words, of a length that is an `int` for them. -/
theorem length_wordsOf_int (len : U64) (buf : List U8) : (wordsOf buf (len.setWidth 32).toInt).length =
    if len.toNat % 2 ^ 32 < 2 ^ 31 then (len.toNat % 2 ^ 32 + 3) / 4 else 0 := by
  rw [length_wordsOf, BitVec.toInt_eq_toNat_cond, BitVec.toNat_setWidth]
  split_ifs with h₁ h₂
  · omega
  · omega
  · omega
  · have hlt := Nat.mod_lt len.toNat (show 2 ^ 32 > 0 by decide)
    omega

theorem dataFits_iff (len : U64) (buf : List U8) : DataFits len buf ↔ LengthFits len := by
  have hlt := len.isLt
  have hcount := length_wordsOf_int len buf
  have hwords := toNat_wordsLen len
  unfold DataFits LengthFits
  rw [ne_eq, ← List.length_eq_zero_iff, hcount, hwords]
  split_ifs with hint
  · omega
  · omega

/-- What is asked of the length of a call: a write has at most as many words as a command can have. -/
def FlashCall.Fits : FlashCall → Prop
  | .write dst len _ => dst &&& 3 = 0 → LengthFits len
  | _ => True

/-- The length of a register write, which is an `int`, is not negative. -/
def FlashCall.NonNeg : FlashCall → Prop
  | .writeReg _ _ len => 0 ≤ len.toInt
  | _ => True

theorem simple_frame_iff : ∀ c ∈ [openSends, setCsSends, closeSends], ∀ k,
    FrameOk (sendAll space c k).1 ↔ spaceAfterAll space (c.map fun x => x.words.length) k ≠ none ∧ True := by
  intro c hc k
  have hcases : c = openSends ∨ c = setCsSends ∨ c = closeSends := by simpa using hc
  rcases hcases with rfl | rfl | rfl
  · exact simpleCommand_frame_iff qspiOpenOp [] (by decide) (by decide) (by decide) k
  · exact simpleCommand_frame_iff qspiSetCsOp [0] (by decide) (by decide) (by decide) k
  · exact simpleCommand_frame_iff qspiCloseOp [] (by decide) (by decide) (by decide) k

theorem mem_prepareIssued {gets : Nat} {c : List Send} (h : c ∈ (prepareIssued env gets).1) : c ∈ [openSends, setCsSends, closeSends] := by
  unfold prepareIssued at h
  split_ifs at h
  · exact absurd h List.not_mem_nil
  · exact List.mem_cons.2 (Or.inl (List.mem_singleton.1 h))
  · exact h
  · rcases List.mem_cons.1 h with rfl | h
    · exact List.mem_cons_self
    · exact List.mem_cons_of_mem _ (List.mem_cons.2 (Or.inl (List.mem_singleton.1 h)))

theorem mem_withLockIssued {command : List (List Send)} {c : List Send} (h : c ∈ withLockIssued env s command) :
    c ∈ command ∨ c ∈ [openSends, setCsSends, closeSends] := by
  unfold withLockIssued at h
  split_ifs at h
  · exact Or.inl h
  · rcases List.mem_append.1 h with h | h
    · rcases List.mem_append.1 h with h | h
      · exact Or.inr (mem_prepareIssued env h)
      · exact Or.inl h
    · exact Or.inr (List.mem_cons_of_mem _ (List.mem_cons_of_mem _ h))
  · exact Or.inr (mem_prepareIssued env h)

/-- Every command of a call is framed right if and only if it is in time and the length of the call fits. -/
theorem issued_frame_iff {call : FlashCall} (h : call.NonNeg) : ∀ c ∈ issued env s call, ∀ k,
    FrameOk (sendAll env.space c k).1 ↔ spaceAfterAll env.space (c.map fun x => x.words.length) k ≠ none ∧ call.Fits := by
  intro c hc k
  cases call with
  | prepare => exact simple_frame_iff c (mem_prepareIssued env hc) k
  | unprepare =>
    rw [List.mem_singleton.1 hc]
    exact simple_frame_iff closeSends (by simp) k
  | read src len =>
    unfold issued at hc
    dsimp only at hc
    split_ifs at hc
    · exact absurd hc List.not_mem_nil
    · rw [List.mem_singleton.1 hc]
      exact simpleCommand_frame_iff qspiReadOp _ (by simp) (by decide) (by decide) k
  | readReg opcode =>
    -- either the command itself or one of the open and the close around it
    rcases mem_withLockIssued env s hc with hc | hc
    · rw [List.mem_singleton.1 hc]
      exact simpleCommand_frame_iff qspiReadDeviceRegOp _ (by simp) (by decide) (by decide) k
    · exact simple_frame_iff c hc k
  | write dst len buf =>
    unfold issued at hc
    dsimp only at hc
    split_ifs at hc with haligned
    · exact absurd hc List.not_mem_nil
    · have hfits : (FlashCall.write dst len buf).Fits ↔ DataFits len buf := by
        rw [dataFits_iff]
        exact ⟨fun hf => hf (not_not.1 haligned), fun hf _ => hf⟩
      rw [List.mem_singleton.1 hc, hfits]
      exact writeSends_frame_iff dst len buf k
  | writeReg opcode buf len =>
    rcases mem_withLockIssued env s hc with hc | hc
    · split_ifs at hc with hshift
      · exact absurd hc List.not_mem_nil
      · have hlen : (writeRegLen len).toNat < 2 ^ 11 := by
          have hzero := congrArg BitVec.toNat (not_not.1 hshift)
          rw [BitVec.toNat_ushiftRight, Nat.shiftRight_eq_div_pow] at hzero
          have hzero' : (writeRegLen len).toNat / 2 ^ 11 = 0 := hzero
          omega
        rw [List.mem_singleton.1 hc]
        exact writeRegSends_frame_iff opcode buf h hlen k
    · exact simple_frame_iff c hc k
  | erase off =>
    unfold issued at hc
    dsimp only at hc
    split_ifs at hc
    · exact absurd hc List.not_mem_nil
    · rw [List.mem_singleton.1 hc]
      exact simpleCommand_frame_iff qspiEraseOp _ (by simp) (by decide) (by decide) k

theorem fits_of_issued_nil {call : FlashCall} (h : issued env s call = []) : call.Fits := by
  cases call with
  | write dst len buf =>
    intro haligned
    have hnone : (if dst &&& 3 ≠ 0 then [] else [writeSends dst len buf]) = [] := h
    rw [if_neg (not_not.2 haligned)] at hnone
    exact absurd hnone (List.cons_ne_nil _ _)
  | prepare => trivial
  | unprepare => trivial
  | read src len => trivial
  | readReg opcode => trivial
  | writeReg opcode buf len => trivial
  | erase off => trivial

/-- The commands of a call, whatever the responses are, are a header and the words it announces, with the last one and no other in `LAST_WORD`
and the data of a write counted right, if and only if every word finds space in time and the length of a write fits. -/
theorem frames_right_iff (call : FlashCall) (h : call.NonNeg) :
    (∃ sent, (runCall env s call).1.mailbox.commands = sent ++ s.mailbox.commands ∧ ∀ g ∈ sent, FrameOk g) ↔
      Timely env.space (issued env s call) s.mailbox.reads ∧ call.Fits := by
  have hsent : (runCall env s call).1.mailbox.commands =
      (sendGroups env.space (issued env s call) s.mailbox.reads).reverse ++ s.mailbox.commands := by
    rw [runCall_mailbox, foldl_sendCommand]
  have hframes := frames_iff (issued_frame_iff env s h) s.mailbox.reads
  have hfits : issued env s call = [] ∨ call.Fits ↔ call.Fits := or_iff_right_of_imp (fits_of_issued_nil env s)
  rw [hfits] at hframes
  rw [← hframes, hsent]
  constructor
  · rintro ⟨sent, heq, hok⟩ g hg
    apply hok
    rw [← List.append_cancel_right heq]
    exact List.mem_reverse.2 hg
  · intro hok
    exact ⟨_, rfl, fun g hg => hok g (List.mem_reverse.1 hg)⟩

end

/-- A mailbox that always has space. -/
def roomy : SdmEnv := ⟨fun _ => 1024, fun _ => 0, true⟩

theorem six_bytes_framed : ∃ sent, (runCall roomy ⟨⟨0, []⟩, 0, true⟩ (.write 4 6 [1, 2, 3, 4, 5, 6])).1.mailbox.commands = sent ++ [] ∧
    ∀ g ∈ sent, FrameOk g := by
  refine (frames_right_iff roomy ⟨⟨0, []⟩, 0, true⟩ (.write 4 6 [1, 2, 3, 4, 5, 6]) trivial).2 ⟨?_, fun _ => ?_⟩
  · unfold Timely
    decide
  · unfold LengthFits
    decide

/-- A write of 4097 bytes announces 1024 words of data and sends 1025. -/
theorem long_write_not_framed : ¬ ∀ (env : SdmEnv) (s : Sdm) (call : FlashCall), call.NonNeg →
    ∃ sent, (runCall env s call).1.mailbox.commands = sent ++ s.mailbox.commands ∧ ∀ g ∈ sent, FrameOk g := by
  intro h
  obtain ⟨sent, heq, hok⟩ := h roomy ⟨⟨0, []⟩, 0, true⟩ (.write 0 4097 (List.replicate 4097 0)) trivial
  rw [runCall_mailbox, foldl_sendCommand] at heq
  have hsent : sent = [(sendAll roomy.space (writeSends 0 4097 (List.replicate 4097 0)) 0).1] := (List.append_cancel_right heq).symm
  have hframe := hok _ (hsent ▸ List.mem_cons_self)
  have hfits := (dataFits_iff 4097 _).1 ((writeSends_frame_iff 0 4097 _ 0).1 hframe).2
  have hle : (4097 : U64).toNat % 2 ^ 32 ≤ 4096 := hfits.2.1
  exact absurd hle (by decide)

end NdkSw.Boot

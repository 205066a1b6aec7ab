/-
Formatted output of items as JSON (`ni/core.h`, `ni/plugin_json.h`): sections, lists and items are printed as they are called, with
the separators kept in a stack of states, one for each open section or list. The sequences of calls that are properly nested
are the ones a call tree flattens to.
-/
import NdkSw.Json.Grammar
import NdkSw.Shared.Words

namespace NdkSw.Ni

open Json

/-! ## Data model -/

/-- `struct ni_json_item`. -/
structure NiJsonItem where
  key : Option (List Char)
  flags : U64
  deriving DecidableEq, Repr

/-- `_NI_JSON_TYPE_*`. -/
inductive NiJsonType where
  | common
  | array
  | object
  deriving DecidableEq, Repr

/-- `struct ni_json_stack_state`. -/
structure NiJsonStackState where
  currentIndex : BitVec 32
  currentType : NiJsonType
  nip : List Char
  deriving DecidableEq, Repr

/-- `struct ni_json_priv`, less what nothing reads. `s` is the number of the current stack state. -/
structure NiJsonPriv where
  decim : BitVec 8
  nls : List Char
  useNls : Bool
  indentSize : Int
  label : Option (List Char)
  ind : Int
  indent : Int
  s : Nat
  stackStates : Nat → NiJsonStackState

/-- The stack states there is room for. -/
def stackSize : Nat := 16

/-- `struct ni_json_item` that prints nothing. -/
def NiJsonItem.Skipped (item : NiJsonItem) : Prop := item.key = none ∧ item.flags = 0

instance (item : NiJsonItem) : Decidable item.Skipped := inferInstanceAs (Decidable (_ ∧ _))

/-- `ni_json_f_decim_dec`. -/
def niJsonFDecimDec (flags : U64) : BitVec 8 :=
  let digits : U64 := (flags.sshiftRight 32) &&& 0x7F
  (if flags.getLsbD 39 then -digits else digits).setWidth 8

/-- `printf("%*s", n, "")`. -/
def pad (n : Int) : List Char := List.replicate n.natAbs ' '

/-! ## Callbacks -/

namespace NiJsonPriv

def top (ctx : NiJsonPriv) : NiJsonStackState := ctx.stackStates ctx.s

def setTop (ctx : NiJsonPriv) (state : NiJsonStackState) : NiJsonPriv :=
  { ctx with stackStates := Function.update ctx.stackStates ctx.s state }

end NiJsonPriv

/-- `ni_json_init`; what `malloc` left in the other stack states does not matter. -/
def niJsonInit (stackStates : Nat → NiJsonStackState) : NiJsonPriv where
  decim := 0
  nls := ['\n']
  useNls := true
  indentSize := 4
  label := none
  ind := 0
  indent := 0
  s := 0
  stackStates := Function.update stackStates 0 { currentIndex := 0, currentType := .common, nip := [] }

/-- `ni_json_close`. -/
def niJsonClose : List Char := ['\n']

/-- The key and the bracket that `ni_json_section` and `ni_json_list` print; `none` for a key that is `NULL`. -/
def openText (ctx : NiJsonPriv) (withKey : Bool) (key : Option (List Char)) (bracket : Char) : Option (List Char) :=
  let start := ctx.top.nip ++ pad (ctx.indent * ctx.indentSize)
  if withKey then key.map fun key => start ++ '"' :: (key ++ ['"', ':', ' ', bracket]) else some (start ++ [bracket])

/-- The new stack state of `ni_json_section` and `ni_json_list`; `none` behind the end of the stack. -/
def push (ctx : NiJsonPriv) (type : NiJsonType) : Option NiJsonPriv :=
  let ctx := ctx.setTop { ctx.top with currentIndex := ctx.top.currentIndex + 1 }
  let ctx := { ctx with s := ctx.s + 1 }
  if ctx.s < stackSize then
    let ctx := ctx.setTop { currentIndex := 0, currentType := type, nip := if ctx.useNls then ['\n'] else [] }
    some { ctx with indent := ctx.indent + 1 }
  else none

/-- What `ni_json_endsection` and `ni_json_endlist` do for an item that is not skipped. -/
def pop (ctx : NiJsonPriv) (bracket : Char) : Option (NiJsonPriv × List Char) :=
  let ctx := { ctx with indent := ctx.indent - 1 }
  let text := if ctx.top.currentIndex = 0 then [bracket] else ctx.nls ++ (pad (ctx.indent * ctx.indentSize) ++ [bracket])
  match ctx.s with
  | 0 => none
  | s + 1 =>
    let ctx := { ctx with s }
    if ctx.top.currentType = .array ∨ ctx.top.currentType = .object then
      some (ctx.setTop { ctx.top with nip := if ctx.useNls then [',', '\n'] else [',', ' '] }, text)
    else some (ctx, text)

/-- `ni_json_section`. -/
def niJsonSection (item : NiJsonItem) (ctx : NiJsonPriv) : Option (NiJsonPriv × List Char) :=
  if item.Skipped then some (ctx, [])
  else do
    let text ← openText ctx (ctx.top.currentType = .object) item.key '{'
    let ctx ← push ctx .object
    some (ctx, text)

/-- `ni_json_endsection`. -/
def niJsonEndsection (item : NiJsonItem) (ctx : NiJsonPriv) : Option (NiJsonPriv × List Char) :=
  if item.Skipped then some (ctx, []) else pop ctx '}'

/-- `ni_json_list`: a list without a key is printed without one, also in a section. -/
def niJsonList (item : NiJsonItem) (ctx : NiJsonPriv) : Option (NiJsonPriv × List Char) :=
  if item.Skipped then some (ctx, [])
  else do
    let text ← openText ctx (ctx.top.currentType = .object ∧ item.key ≠ none) item.key '['
    let ctx ← push ctx .array
    some (ctx, text)

/-- `ni_json_endlist`. -/
def niJsonEndlist (item : NiJsonItem) (ctx : NiJsonPriv) : Option (NiJsonPriv × List Char) :=
  if item.Skipped then some (ctx, []) else pop ctx ']'

/-- `ni_json_prelude`; the last component is what it returns. -/
def niJsonPrelude (item : NiJsonItem) (ctx : NiJsonPriv) : Option (NiJsonPriv × List Char × Int) :=
  let ctx := { ctx with label := item.key, ind := if ctx.useNls then ctx.indent * ctx.indentSize else 0 }
  if item.Skipped then some (ctx, [], -1)
  else
    let ctx := { ctx with decim := niJsonFDecimDec item.flags }
    let start := ctx.top.nip ++ pad ctx.ind
    let text := if ctx.top.currentType ≠ .array then ctx.label.map fun label => start ++ '"' :: (label ++ ['"', ':', ' '])
      else some start
    text.map fun text => (ctx.setTop { ctx.top with nip := if ctx.useNls then [',', '\n'] else [',', ' '] }, text, 0)

/-- `ni_json_postlude`. -/
def niJsonPostlude (ctx : NiJsonPriv) : NiJsonPriv := ctx.setTop { ctx.top with currentIndex := ctx.top.currentIndex + 1 }

/-- `NI_ITEM_CB`; `value` is what the callback prints. -/
def niItem (item : NiJsonItem) (value : BitVec 8 → List Char) (ctx : NiJsonPriv) : Option (NiJsonPriv × List Char) :=
  (niJsonPrelude item ctx).map fun (ctx, text, ret) =>
    if ret = -1 then (ctx, text)
    else if ret ≥ 0 then (niJsonPostlude ctx, text ++ value ctx.decim)
    else (niJsonPostlude ctx, text)

/-! ## Calls -/

inductive NiCall where
  | section (i : Int)
  | endsection (i : Int)
  | list (i : Int)
  | endlist (i : Int)
  | item (i : Int) (value : BitVec 8 → List Char)

def niCall (items : Int → NiJsonItem) : NiCall → NiJsonPriv → Option (NiJsonPriv × List Char)
  | .section i => niJsonSection (items i)
  | .endsection i => niJsonEndsection (items i)
  | .list i => niJsonList (items i)
  | .endlist i => niJsonEndlist (items i)
  | .item i value => niItem (items i) value

/-- The calls one after the other, with all that they print. -/
def runCalls (items : Int → NiJsonItem) : List NiCall → NiJsonPriv → Option (NiJsonPriv × List Char)
  | [], ctx => some (ctx, [])
  | c :: calls, ctx => do
    let (ctx, text) ← niCall items c ctx
    let (ctx, rest) ← runCalls items calls ctx
    some (ctx, text ++ rest)

/-- What a root context prints from its creation to its end. -/
def printed (items : Int → NiJsonItem) (stackStates : Nat → NiJsonStackState) (calls : List NiCall) : Option (List Char) :=
  (runCalls items calls (niJsonInit stackStates)).map fun r => r.2 ++ niJsonClose

/-! ## Call trees -/

/-- Properly nested calls, with the JSON value that each callback is meant to print. -/
inductive Calls where
  | nil
  | item (i : Int) (value : BitVec 8 → List Char) (v : Tree) (rest : Calls)
  | section (i : Int) (calls rest : Calls)
  | list (i : Int) (calls rest : Calls)

namespace Calls

def flatten : Calls → List NiCall
  | nil => []
  | item i value _ rest => .item i value :: rest.flatten
  | .section i calls rest => .section i :: (calls.flatten ++ .endsection i :: rest.flatten)
  | list i calls rest => .list i :: (calls.flatten ++ .endlist i :: rest.flatten)

variable (items : Int → NiJsonItem)

/-- The key of a member, in which nothing is escaped. -/
def memberKey (key : Option (List Char)) : List StrChar := (key.getD []).map .plain

/-- What the tree stands for: skipped items are left out, skipped sections and lists replaced by their contents. -/
def elements : Calls → List (Option (List Char) × Tree)
  | nil => []
  | item i _ v rest => if (items i).Skipped then rest.elements else ((items i).key, v) :: rest.elements
  | .section i calls rest =>
    if (items i).Skipped then calls.elements ++ rest.elements
    else ((items i).key, .obj (calls.elements.map fun e => (memberKey e.1, e.2))) :: rest.elements
  | list i calls rest =>
    if (items i).Skipped then calls.elements ++ rest.elements
    else ((items i).key, .arr (calls.elements.map Prod.snd)) :: rest.elements

/-- The depth of the printed sections and lists. -/
def depth : Calls → Nat
  | nil => 0
  | item _ _ _ rest => rest.depth
  | .section i calls rest => max (if (items i).Skipped then calls.depth else calls.depth + 1) rest.depth
  | list i calls rest => max (if (items i).Skipped then calls.depth else calls.depth + 1) rest.depth

/-- A key that needs no escape. -/
def PlainKey (key : Option (List Char)) : Prop := ∃ k, key = some k ∧ ∀ c ∈ k, IsPlain c

/-- The calls fit into a section, into a list, or into the root, where no item is printed: what stands in a section has a key, and
the callbacks print the values. -/
def Fits : NiJsonType → Calls → Prop
  | _, nil => True
  | ty, item i value v rest =>
    (¬(items i).Skipped → ty ≠ .common ∧ (ty = .object → PlainKey (items i).key) ∧
      Value (value (niJsonFDecimDec (items i).flags)) v) ∧ Fits ty rest
  | ty, .section i calls rest =>
    (if (items i).Skipped then Fits ty calls else (ty = .object → PlainKey (items i).key) ∧ Fits .object calls) ∧ Fits ty rest
  | ty, list i calls rest =>
    (if (items i).Skipped then Fits ty calls else (ty = .object → PlainKey (items i).key) ∧ Fits .array calls) ∧ Fits ty rest

end Calls

/-! ## What stands in a section or list -/

/-- The separator behind an element; there is none in the root. -/
def following (ty : NiJsonType) (nip : List Char) : List Char := if ty = .common then nip else [',', '\n']

/-- The elements with the separators between them. -/
def joined (ty : NiJsonType) : List Char → List (List Char) → List Char
  | _, [] => []
  | nip, t :: ts => nip ++ (t ++ joined ty (following ty nip) ts)

/-- The separator behind some elements. -/
def behind (ty : NiJsonType) (nip : List Char) (ts : List (List Char)) : List Char := if ts = [] then nip else following ty nip

theorem following_following (ty : NiJsonType) (nip : List Char) : following ty (following ty nip) = following ty nip := by
  unfold following
  by_cases h : ty = .common
  · rw [if_pos h, if_pos h]
  · rw [if_neg h, if_neg h]

theorem behind_append (ty : NiJsonType) (nip : List Char) (ts ts' : List (List Char)) :
    behind ty (behind ty nip ts) ts' = behind ty nip (ts ++ ts') := by
  unfold behind
  cases ts with
  | nil => rfl
  | cons t ts =>
    cases ts' with
    | nil => rw [if_pos rfl, List.append_nil]
    | cons t' ts' =>
      rw [if_neg (List.cons_ne_nil _ _), if_neg (List.cons_ne_nil _ _), following_following]
      rfl

theorem joined_append (ty : NiJsonType) (ts ts' : List (List Char)) : ∀ nip,
    joined ty nip (ts ++ ts') = joined ty nip ts ++ joined ty (behind ty nip ts) ts' := by
  induction ts with
  | nil => exact fun nip => rfl
  | cons t ts ih =>
    intro nip
    have hb : behind ty nip (t :: ts) = behind ty (following ty nip) ts := by
      rw [behind, if_neg (List.cons_ne_nil _ _), behind]
      split
      · rfl
      · exact (following_following ty nip).symm
    rw [List.cons_append, joined, joined, ih, hb, List.append_assoc, List.append_assoc]

/-- An element as it is printed: indented, in a section behind its key. -/
def ElementText (ty : NiJsonType) (t : List Char) (e : Option (List Char) × Tree) : Prop :=
  ∃ w t₀, Ws w ∧ Value t₀ e.2 ∧ (ty = .object → Calls.PlainKey e.1) ∧
    t = w ++ if ty = .object then quote (Calls.memberKey e.1) ++ ':' :: ' ' :: t₀ else t₀

variable {w : List Char}

/-- The elements and the whitespace before the closing bracket, read as a list of a grammar's elements or members. -/
theorem joined_read {X : Type} {whole : X → List Char} {ok : X → Prop} {Y : Type} {read : X → Y} {want : Option (List Char) × Tree → Y}
    {ty : NiJsonType} (hty : ty ≠ .common) (hw : Ws w)
    (hcell : ∀ t e w, ElementText ty t e → Ws w → ∃ x, ok x ∧ whole x = '\n' :: (t ++ w) ∧ read x = want e) :
    ∀ {ts : List (List Char)} {es : List (Option (List Char) × Tree)} {t : List Char} {e : Option (List Char) × Tree},
      ElementText ty t e → List.Forall₂ (ElementText ty) ts es →
      ∃ x l, (∀ y ∈ x :: l, ok y) ∧ (x :: l).map read = (e :: es).map want ∧
        '\n' :: (t ++ (joined ty [',', '\n'] ts ++ w)) = whole x ++ l.flatMap fun y => ',' :: whole y := by
  intro ts
  induction ts with
  | nil =>
    intro es t e ht hes
    cases hes
    obtain ⟨x, hx, hwhole, hread⟩ := hcell t e w ht hw
    refine ⟨x, [], ?_, ?_, ?_⟩
    · intro y hy
      rwa [List.mem_singleton.1 hy]
    · rw [List.map_singleton, List.map_singleton, hread]
    · rw [hwhole, List.flatMap_nil, List.append_nil]
      rfl
  | cons t' ts ih =>
    intro es t e ht hes
    cases hes with
    | cons ht' hes =>
      obtain ⟨x, hx, hwhole, hread⟩ := hcell t e [] ht nofun
      obtain ⟨y, l, hok, hmap, htext⟩ := ih ht' hes
      refine ⟨x, y :: l, ?_, ?_, ?_⟩
      · intro z hz
        rcases List.mem_cons.1 hz with rfl | hz
        · exact hx
        · exact hok z hz
      · rw [List.map_cons, hmap, hread]
        rfl
      · rw [hwhole, List.flatMap_cons, List.cons_append, List.cons_append, ← htext, joined, following, if_neg hty, List.append_nil]
        simp

theorem newline_ws (hw : Ws w) : Ws ('\n' :: w) := by
  intro c hc
  rcases List.mem_cons.1 hc with rfl | hc
  · exact .inr (.inl rfl)
  · exact hw c hc

variable {key : Option (List Char)} {ts : List (List Char)} {es : List (Option (List Char) × Tree)}

theorem memberKey_ok (h : Calls.PlainKey key) : ∀ c ∈ Calls.memberKey key, c.Ok := by
  obtain ⟨k, rfl, hk⟩ := h
  intro c hc
  obtain ⟨x, hx, rfl⟩ := List.mem_map.1 hc
  exact hk x hx

theorem section_value (hw : Ws w) (h : List.Forall₂ (ElementText .object) ts es) :
    Value ('{' :: (joined .object ['\n'] ts ++ (w ++ ['}']))) (.obj (es.map fun e => (Calls.memberKey e.1, e.2))) := by
  cases h with
  | nil => exact .objNil hw
  | @cons t e ts es ht hes =>
    have hcell : ∀ t e w, ElementText .object t e → Ws w → ∃ m : Member, (m.Spaced ∧ Value m.elem.text m.elem.value) ∧
        m.whole = '\n' :: (t ++ w) ∧ (m.key, m.elem.value) = (Calls.memberKey e.1, e.2) := by
      rintro t e w ⟨w₀, t₀, hw₀, hv, hkey, rfl⟩ hw
      refine ⟨⟨'\n' :: w₀, Calls.memberKey e.1, [], ⟨[' '], t₀, w, e.2⟩⟩, ⟨?_, hv⟩, ?_, rfl⟩
      · refine ⟨newline_ws hw₀, memberKey_ok (hkey rfl), nofun, ?_, hw⟩
        intro c hc
        exact .inl (List.mem_singleton.1 hc)
      · simp [Member.whole, Elem.whole]
    obtain ⟨m, l, hok, hmap, htext⟩ := joined_read (by decide) hw hcell ht hes
    have hvalue := Value.obj (fun x hx => (hok x hx).1) fun x hx => (hok x hx).2
    rw [hmap] at hvalue
    have hwhole : '{' :: (joined .object ['\n'] (t :: ts) ++ (w ++ ['}'])) =
        '{' :: (m.whole ++ (l.flatMap (fun x => ',' :: x.whole) ++ ['}'])) := by
      rw [← List.append_assoc m.whole, ← htext, joined, following, if_neg (by decide)]
      simp
    rwa [hwhole]

theorem list_value (hw : Ws w) (h : List.Forall₂ (ElementText .array) ts es) :
    Value ('[' :: (joined .array ['\n'] ts ++ (w ++ [']']))) (.arr (es.map Prod.snd)) := by
  cases h with
  | nil => exact .arrNil hw
  | @cons t e ts es ht hes =>
    have hcell : ∀ t e w, ElementText .array t e → Ws w → ∃ x : Elem, (x.Spaced ∧ Value x.text x.value) ∧
        x.whole = '\n' :: (t ++ w) ∧ x.value = Prod.snd e := by
      rintro t e w ⟨w₀, t₀, hw₀, hv, -, rfl⟩ hw
      refine ⟨⟨'\n' :: w₀, t₀, w, e.2⟩, ⟨⟨newline_ws hw₀, hw⟩, hv⟩, ?_, rfl⟩
      simp [Elem.whole]
    obtain ⟨x, l, hok, hmap, htext⟩ := joined_read (by decide) hw hcell ht hes
    have hvalue := Value.arr (fun y hy => (hok y hy).1) fun y hy => (hok y hy).2
    rw [hmap] at hvalue
    have hwhole : '[' :: (joined .array ['\n'] (t :: ts) ++ (w ++ [']'])) =
        '[' :: (x.whole ++ (l.flatMap (fun y => ',' :: y.whole) ++ [']'])) := by
      rw [← List.append_assoc x.whole, ← htext, joined, following, if_neg (by decide)]
      simp
    rwa [hwhole]

/-! ## What calls print -/

/-- The plugin stands in a section, list or root of depth `n`. -/
structure At (n : Nat) (ty : NiJsonType) (ctx : NiJsonPriv) : Prop where
  s : ctx.s = n
  type : ctx.top.currentType = ty
  indent : ctx.indent = n
  nls : ctx.nls = ['\n']
  useNls : ctx.useNls = true
  indentSize : ctx.indentSize = 4

/-- The calls print some elements in the section of `ctx`. -/
structure Prints (items : Int → NiJsonItem) (n : Nat) (ty : NiJsonType) (calls : List NiCall) (ctx : NiJsonPriv)
    (ts : List (List Char)) (ctx' : NiJsonPriv) : Prop where
  run : runCalls items calls ctx = some (ctx', joined ty ctx.top.nip ts)
  stays : At n ty ctx'
  nip : ctx'.top.nip = behind ty ctx.top.nip ts
  below : ∀ j < n, ctx'.stackStates j = ctx.stackStates j

section

variable {items : Int → NiJsonItem} {n : Nat} {ty : NiJsonType} {ctx ctx' ctx'' : NiJsonPriv} {value : BitVec 8 → List Char}
  {calls : List NiCall}

theorem runCalls_append (calls calls' : List NiCall) : ∀ ctx, runCalls items (calls ++ calls') ctx =
    (runCalls items calls ctx).bind fun r => (runCalls items calls' r.1).map fun r' => (r'.1, r.2 ++ r'.2) := by
  induction calls with
  | nil =>
    intro ctx
    simp [runCalls]
  | cons c calls ih =>
    intro ctx
    simp only [List.cons_append, runCalls, ih]
    cases niCall items c ctx with
    | none => rfl
    | some r =>
      simp only [Option.bind_eq_bind, Option.bind_some]
      cases runCalls items calls r.1 with
      | none => rfl
      | some r₁ =>
        simp only [Option.bind_some]
        cases runCalls items calls' r₁.1 with
        | none => rfl
        | some r₂ => simp

theorem Prints.nil (h : At n ty ctx) : Prints items n ty [] ctx [] ctx :=
  ⟨rfl, h, rfl, fun _ _ => rfl⟩

theorem Prints.append {calls' : List NiCall} {ts' : List (List Char)} (h : Prints items n ty calls ctx ts ctx')
    (h' : Prints items n ty calls' ctx' ts' ctx'') : Prints items n ty (calls ++ calls') ctx (ts ++ ts') ctx'' := by
  constructor
  · rw [runCalls_append, h.run, Option.bind_some, h'.run, Option.map_some, joined_append, h.nip]
  · exact h'.stays
  · rw [h'.nip, h.nip, behind_append]
  · intro j hj
    rw [h'.below j hj, h.below j hj]

theorem pad_ws (n : Int) : Ws (pad n) := by
  intro c hc
  exact .inl (List.eq_of_mem_replicate hc)

theorem quote_memberKey (k : List Char) : quote (Calls.memberKey (some k)) = '"' :: (k ++ ['"']) := by
  have hplain : ∀ k : List Char, (k.map StrChar.plain).flatMap StrChar.text = k := by
    intro k
    induction k with
    | nil => rfl
    | cons c k ih =>
      rw [List.map_cons, List.flatMap_cons, ih]
      rfl
  unfold quote Calls.memberKey
  rw [Option.getD_some, hplain]

theorem openText_eq {withKey : Bool} (hkey : ty = .object → Calls.PlainKey key) (hwith : withKey = true ↔ ty = .object) (bracket : Char) :
    openText ctx withKey key bracket = some (ctx.top.nip ++ (pad (ctx.indent * ctx.indentSize) ++
      if ty = .object then quote (Calls.memberKey key) ++ [':', ' ', bracket] else [bracket])) := by
  unfold openText
  by_cases ho : ty = .object
  · obtain ⟨k, rfl, -⟩ := hkey ho
    rw [if_pos (hwith.2 ho), if_pos ho, quote_memberKey]
    simp
  · rw [if_neg fun h => ho (hwith.1 h), if_neg ho]
    simp

/-- A section or list is opened in a new stack state. -/
structure Pushed (n : Nat) (type : NiJsonType) (ctx ctx' : NiJsonPriv) : Prop where
  inside : At (n + 1) type ctx'
  nip : ctx'.top.nip = ['\n']
  below : ∀ j < n, ctx'.stackStates j = ctx.stackStates j
  outer : (ctx'.stackStates n).currentType = ctx.top.currentType ∧ (ctx'.stackStates n).nip = ctx.top.nip

theorem push_pushed (h : At n ty ctx) (hn : n < 15) (type : NiJsonType) :
    ∃ ctx', push ctx type = some ctx' ∧ Pushed n type ctx ctx' := by
  obtain ⟨rfl, htype, hindent, hnls, huse, hsize⟩ := h
  have hroom : ctx.s + 1 < stackSize := Nat.succ_lt_succ hn
  refine ⟨_, if_pos hroom, ?_⟩
  constructor
  case inside =>
    constructor
    case s => rfl
    case type => simp [NiJsonPriv.setTop, NiJsonPriv.top]
    case indent =>
      show ctx.indent + 1 = _
      rw [hindent]
      rfl
    case nls => exact hnls
    case useNls => exact huse
    case indentSize => exact hsize
  case nip => simp [NiJsonPriv.setTop, NiJsonPriv.top, huse]
  case below =>
    intro j hj
    simp only [NiJsonPriv.setTop]
    rw [Function.update_of_ne (by omega), Function.update_of_ne (by omega)]
  case outer =>
    simp only [NiJsonPriv.setTop]
    rw [Function.update_of_ne (by omega), Function.update_self]
    exact ⟨rfl, rfl⟩

/-- A section or list is closed behind whitespace, and the outer one goes on behind it. -/
theorem pop_popped (bracket : Char) (h : At (n + 1) ty ctx) : ∃ ctx' w, pop ctx bracket = some (ctx', w ++ [bracket]) ∧ Ws w ∧
    At n (ctx.stackStates n).currentType ctx' ∧
      ctx'.top.nip = following (ctx.stackStates n).currentType (ctx.stackStates n).nip ∧
      ∀ j < n, ctx'.stackStates j = ctx.stackStates j := by
  obtain ⟨decim, nls, useNls, indentSize, label, ind, indent, s, states⟩ := ctx
  obtain ⟨rfl, -, rfl, rfl, rfl, rfl⟩ := h
  have hspace : ∀ m, Ws (['\n'] ++ pad m) := fun m => newline_ws (pad_ws m)
  have htext : ∀ m, ∃ w, (if (states (n + 1)).currentIndex = 0 then [bracket] else ['\n'] ++ (pad m ++ [bracket])) =
      w ++ [bracket] ∧ Ws w := by
    intro m
    by_cases hi : (states (n + 1)).currentIndex = 0
    · rw [if_pos hi]
      exact ⟨[], rfl, nofun⟩
    · rw [if_neg hi, ← List.append_assoc]
      exact ⟨_, rfl, hspace m⟩
  unfold pop NiJsonPriv.top
  dsimp only
  obtain ⟨w, hw, hws⟩ := htext ((((n + 1 : Nat) : Int) - 1) * 4)
  rw [hw]
  have hindent : ((n + 1 : Nat) : Int) - 1 = n := by omega
  by_cases hcommon : (states n).currentType = .common
  · have hroot : ¬((states n).currentType = .array ∨ (states n).currentType = .object) := by
      rw [hcommon]
      decide
    rw [if_neg hroot, following, if_pos hcommon]
    exact ⟨_, w, rfl, hws, ⟨rfl, rfl, hindent, rfl, rfl, rfl⟩, rfl, fun _ _ => rfl⟩
  · have hinside : (states n).currentType = .array ∨ (states n).currentType = .object := by
      cases htype : (states n).currentType with
      | common => exact absurd htype hcommon
      | array => exact .inl rfl
      | object => exact .inr rfl
    rw [if_pos hinside, following, if_neg hcommon]
    refine ⟨_, w, rfl, hws, ⟨rfl, ?_, hindent, rfl, rfl, rfl⟩, ?_, ?_⟩
    · simp [NiJsonPriv.setTop, NiJsonPriv.top]
    · simp [NiJsonPriv.setTop]
    · intro j hj
      exact Function.update_of_ne (Nat.ne_of_lt hj) _ _

/-- Calls print some elements. -/
def Renders (items : Int → NiJsonItem) (n : Nat) (ty : NiJsonType) (calls : List NiCall) (ctx : NiJsonPriv)
    (es : List (Option (List Char) × Tree)) : Prop :=
  ∃ ts ctx', Prints items n ty calls ctx ts ctx' ∧ List.Forall₂ (ElementText ty) ts es

theorem Renders.append {calls' : List NiCall} {es' : List (Option (List Char) × Tree)} (h : Renders items n ty calls ctx es)
    (h' : ∀ {ctx'}, At n ty ctx' → Renders items n ty calls' ctx' es') : Renders items n ty (calls ++ calls') ctx (es ++ es') := by
  obtain ⟨ts, ctx₁, h₁, hes⟩ := h
  obtain ⟨ts', ctx₂, h₂, hes'⟩ := h' h₁.stays
  exact ⟨ts ++ ts', ctx₂, h₁.append h₂, List.rel_append hes hes'⟩

/-- A section or list with what is called in it is one element. -/
theorem prints_container (withKey : Bool) {type : NiJsonType} {o c : NiCall} {bo bc : Char} {v : Tree} (h : At n ty ctx) (hn : n < 15)
    (hkey : ty = .object → Calls.PlainKey key) (hwith : withKey = true ↔ ty = .object)
    (hopen : ∀ ctx', push ctx type = some ctx' → niCall items o ctx = (openText ctx withKey key bo).map fun t => (ctx', t))
    (hclose : ∀ ctx, niCall items c ctx = pop ctx bc) (hinner : ∀ ctx', At (n + 1) type ctx' → Renders items (n + 1) type calls ctx' es)
    (hvalue : ∀ {ts w}, Ws w → List.Forall₂ (ElementText type) ts es → Value (bo :: (joined type ['\n'] ts ++ (w ++ [bc]))) v) :
    Renders items n ty (o :: (calls ++ [c])) ctx [(key, v)] := by
  obtain ⟨ctx₁, hpush, hp⟩ := push_pushed h hn type
  obtain ⟨ts, ctx₂, hin, hes⟩ := hinner ctx₁ hp.inside
  obtain ⟨ctx₃, w, hpop, hw, hat, hnip, hbelow⟩ := pop_popped bc hin.stays
  have houter : ctx₂.stackStates n = ctx₁.stackStates n := hin.below n (Nat.lt_succ_self n)
  rw [houter, hp.outer.1, h.type] at hat
  rw [houter, hp.outer.1, hp.outer.2, h.type] at hnip
  have hfirst := hopen ctx₁ hpush
  rw [openText_eq hkey hwith, Option.map_some] at hfirst
  refine ⟨[_], ctx₃, ?_, .cons ⟨pad (ctx.indent * ctx.indentSize), _, pad_ws _, hvalue hw hes, hkey, rfl⟩ .nil⟩
  constructor
  · have hlast : runCalls items [c] ctx₂ = some (ctx₃, w ++ [bc]) := by
      simp only [runCalls, hclose, hpop, Option.bind_eq_bind, Option.bind_some, List.append_nil]
    have hrest : runCalls items (calls ++ [c]) ctx₁ = some (ctx₃, joined type ['\n'] ts ++ (w ++ [bc])) := by
      rw [runCalls_append, hin.run, Option.bind_some, hlast, Option.map_some, hp.nip]
    simp only [runCalls, hfirst, hrest, Option.bind_eq_bind, Option.bind_some, joined]
    by_cases ho : ty = .object
    · rw [if_pos ho, if_pos ho]
      simp
    · rw [if_neg ho, if_neg ho]
      simp
  · exact hat
  · exact hnip
  · intro j hj
    rw [hbelow j hj, hin.below j (by omega), hp.below j hj]

theorem prints_item {i : Int} {v : Tree} (h : At n ty ctx) (hprint : ¬(items i).Skipped) (hty : ty ≠ .common)
    (hkey : ty = .object → Calls.PlainKey (items i).key) (hv : Value (value (niJsonFDecimDec (items i).flags)) v) :
    Renders items n ty [.item i value] ctx [((items i).key, v)] := by
  obtain ⟨decim, nls, useNls, indentSize, label, ind, indent, s, states⟩ := ctx
  obtain ⟨hs, htype, hindent, rfl, rfl, rfl⟩ := h
  dsimp only [NiJsonPriv.top] at hs htype hindent
  subst hs hindent
  have hprelude : ∃ ctx', niCall items (.item i value) ⟨decim, ['\n'], true, 4, label, ind, s, s, states⟩ = some (ctx',
      (states s).nip ++ (pad ((s : Int) * 4) ++ if ty = .object then
        quote (Calls.memberKey (items i).key) ++ ':' :: ' ' :: value (niJsonFDecimDec (items i).flags)
        else value (niJsonFDecimDec (items i).flags))) ∧
      At s ty ctx' ∧ ctx'.top.nip = [',', '\n'] ∧ ∀ j < s, ctx'.stackStates j = states j := by
    have hcall : niJsonPrelude (items i) ⟨decim, ['\n'], true, 4, label, ind, s, s, states⟩ = some (
        ⟨niJsonFDecimDec (items i).flags, ['\n'], true, 4, (items i).key, s * 4, s, s,
          Function.update states s { states s with nip := [',', '\n'] }⟩,
        (states s).nip ++ (pad ((s : Int) * 4) ++
          if ty = .object then quote (Calls.memberKey (items i).key) ++ [':', ' '] else []), 0) := by
      unfold niJsonPrelude
      dsimp only
      rw [if_neg hprint]
      cases hty' : ty with
      | common => exact absurd hty' hty
      | array => simp [NiJsonPriv.top, NiJsonPriv.setTop, htype, hty']
      | object =>
        obtain ⟨k, hk, -⟩ := hkey hty'
        simp [NiJsonPriv.top, NiJsonPriv.setTop, htype, hty', hk, quote_memberKey]
    refine ⟨niJsonPostlude ⟨niJsonFDecimDec (items i).flags, ['\n'], true, 4, (items i).key, s * 4, s, s,
      Function.update states s { states s with nip := [',', '\n'] }⟩, ?_, ⟨rfl, ?_, rfl, rfl, rfl, rfl⟩, ?_, ?_⟩
    · rw [niCall, niItem, hcall]
      by_cases ho : ty = .object
      · simp [ho]
      · simp [ho]
    · simp [niJsonPostlude, NiJsonPriv.top, NiJsonPriv.setTop, htype]
    · simp [niJsonPostlude, NiJsonPriv.top, NiJsonPriv.setTop]
    · intro j hj
      simp only [niJsonPostlude, NiJsonPriv.setTop]
      rw [Function.update_of_ne (Nat.ne_of_lt hj), Function.update_of_ne (Nat.ne_of_lt hj)]
  obtain ⟨ctx', hcall, hat, hnip, hbelow⟩ := hprelude
  refine ⟨[_], ctx', ?_, .cons ⟨pad ((s : Int) * 4), _, pad_ws _, hv, hkey, rfl⟩ .nil⟩
  constructor
  · simp only [runCalls, hcall, Option.bind_eq_bind, Option.bind_some, joined, List.append_nil]
    rfl
  · exact hat
  · rw [hnip, behind, if_neg (List.cons_ne_nil _ _), following, if_neg hty]
  · exact hbelow

theorem prints_skipped {i : Int} (h : At n ty ctx) (hskip : (items i).Skipped) :
    Renders items n ty [.item i value] ctx [] := by
  have hcall : niCall items (.item i value) ctx = some ({ ctx with
      label := (items i).key, ind := if ctx.useNls then ctx.indent * ctx.indentSize else 0 }, []) := by
    simp only [niCall, niItem, niJsonPrelude, if_pos hskip, Option.map_some]
    rfl
  refine ⟨[], { ctx with label := (items i).key, ind := if ctx.useNls then ctx.indent * ctx.indentSize else 0 }, ⟨?_,
    ⟨h.s, h.type, h.indent, h.nls, h.useNls, h.indentSize⟩, rfl, fun _ _ => rfl⟩, .nil⟩
  simp only [runCalls, hcall, Option.bind_eq_bind, Option.bind_some, joined, List.append_nil]

theorem Renders.within {o c : NiCall} (ho : ∀ ctx, niCall items o ctx = some (ctx, [])) (hc : ∀ ctx, niCall items c ctx = some (ctx, []))
    (h : Renders items n ty calls ctx es) : Renders items n ty (o :: (calls ++ [c])) ctx es := by
  obtain ⟨ts, ctx', hp, hes⟩ := h
  refine ⟨ts, ctx', ⟨?_, hp.stays, hp.nip, hp.below⟩, hes⟩
  have hlast : runCalls items [c] ctx' = some (ctx', []) := by
    simp only [runCalls, hc, Option.bind_eq_bind, Option.bind_some, List.append_nil]
  have hrest : runCalls items (calls ++ [c]) ctx = some (ctx', joined ty ctx.top.nip ts) := by
    rw [runCalls_append, hp.run, Option.bind_some, hlast, Option.map_some, List.append_nil]
  simp only [runCalls, ho, hrest, Option.bind_eq_bind, Option.bind_some, List.nil_append]

/-- Every call tree that fits prints its elements. -/
theorem prints_calls (f : Calls) : ∀ {n : Nat} {ty : NiJsonType} {ctx : NiJsonPriv}, At n ty ctx → f.Fits items ty →
    n + f.depth items ≤ 15 → Renders items n ty f.flatten ctx (f.elements items) := by
  induction f with
  | nil =>
    intro n ty ctx h _ _
    exact ⟨[], ctx, .nil h, .nil⟩
  | item i value v rest ih =>
    intro n ty ctx h hfit hdepth
    obtain ⟨hitem, hrest⟩ := hfit
    by_cases hskip : (items i).Skipped
    · rw [Calls.elements, if_pos hskip]
      exact (prints_skipped h hskip).append fun h₁ => ih h₁ hrest hdepth
    · obtain ⟨hty, hkey, hv⟩ := hitem hskip
      rw [Calls.elements, if_neg hskip]
      exact (prints_item h hskip hty hkey hv).append fun h₁ => ih h₁ hrest hdepth
  | «section» i calls rest ih ih' =>
    intro n ty ctx h hfit hdepth
    obtain ⟨hin, hrest⟩ := hfit
    have hflat : (Calls.section i calls rest).flatten = (NiCall.section i :: (calls.flatten ++ [.endsection i])) ++ rest.flatten := by
      simp [Calls.flatten]
    rw [hflat, Calls.elements]
    rw [Calls.depth] at hdepth
    by_cases hskip : (items i).Skipped
    · rw [if_pos hskip] at hin hdepth ⊢
      -- what is in a skipped section is printed on the level outside
      refine Renders.append (.within ?_ ?_ (ih h hin (by omega))) fun h₁ => ih' h₁ hrest (by omega)
      · exact fun ctx => by rw [niCall, niJsonSection, if_pos hskip]
      · exact fun ctx => by rw [niCall, niJsonEndsection, if_pos hskip]
    · rw [if_neg hskip] at hin hdepth ⊢
      have hopen : ∀ ctx', push ctx .object = some ctx' → niCall items (.section i) ctx =
          (openText ctx (ctx.top.currentType = .object) (items i).key '{').map fun t => (ctx', t) := fun ctx' hpush => by
        rw [niCall, niJsonSection, if_neg hskip, hpush]
        cases openText ctx (ctx.top.currentType = .object) (items i).key '{' <;> rfl
      have hclose : ∀ ctx, niCall items (.endsection i) ctx = pop ctx '}' := fun ctx => by
        rw [niCall, niJsonEndsection, if_neg hskip]
      have hone := prints_container (ctx.top.currentType = .object) h (by omega) hin.1 (by rw [decide_eq_true_iff, h.type]) hopen hclose
        (fun ctx' hat => ih hat hin.2 (by omega)) section_value
      exact hone.append fun h₁ => ih' h₁ hrest (by omega)
  | list i calls rest ih ih' =>
    intro n ty ctx h hfit hdepth
    obtain ⟨hin, hrest⟩ := hfit
    have hflat : (Calls.list i calls rest).flatten = (NiCall.list i :: (calls.flatten ++ [.endlist i])) ++ rest.flatten := by
      simp [Calls.flatten]
    rw [hflat, Calls.elements]
    rw [Calls.depth] at hdepth
    by_cases hskip : (items i).Skipped
    · rw [if_pos hskip] at hin hdepth ⊢
      refine Renders.append (.within ?_ ?_ (ih h hin (by omega))) fun h₁ => ih' h₁ hrest (by omega)
      · exact fun ctx => by rw [niCall, niJsonList, if_pos hskip]
      · exact fun ctx => by rw [niCall, niJsonEndlist, if_pos hskip]
    · rw [if_neg hskip] at hin hdepth ⊢
      have hopen : ∀ ctx', push ctx .array = some ctx' → niCall items (.list i) ctx =
          (openText ctx (ctx.top.currentType = .object ∧ (items i).key ≠ none) (items i).key '[').map fun t => (ctx', t) :=
        fun ctx' hpush => by
          rw [niCall, niJsonList, if_neg hskip, hpush]
          cases openText ctx (ctx.top.currentType = .object ∧ (items i).key ≠ none) (items i).key '[' <;> rfl
      have hclose : ∀ ctx, niCall items (.endlist i) ctx = pop ctx ']' := fun ctx => by
        rw [niCall, niJsonEndlist, if_neg hskip]
      have hwith : decide (ctx.top.currentType = .object ∧ (items i).key ≠ none) = true ↔ ty = .object := by
        rw [decide_eq_true_iff, h.type]
        constructor
        · exact fun hk => hk.1
        · intro ho
          obtain ⟨k, hk, -⟩ := hin.1 ho
          rw [hk]
          exact ⟨ho, Option.some_ne_none k⟩
      have hone := prints_container _ h (by omega) hin.1 hwith hopen hclose (fun ctx' hat => ih hat hin.2 (by omega)) list_value
      exact hone.append fun h₁ => ih' h₁ hrest (by omega)

end

/-- Properly nested calls with one printed root, a section or list, print a JSON text, and it stands for their tree and for nothing
else. -/
theorem json_text (items : Int → NiJsonItem) (stackStates : Nat → NiJsonStackState) (f : Calls) (key : Option (List Char))
    (v : Tree) (hroot : f.elements items = [(key, v)]) (hfit : f.Fits items .common) (hdepth : f.depth items ≤ 15) :
    ∃ t, printed items stackStates f.flatten = some t ∧ Text t v ∧ ∀ v', Text t v' → v' = v := by
  have hat : At 0 .common (niJsonInit stackStates) := ⟨rfl, rfl, rfl, rfl, rfl, rfl⟩
  obtain ⟨ts, ctx, hp, hes⟩ := prints_calls f hat hfit (by omega)
  rw [hroot] at hes
  obtain ⟨t, rfl⟩ : ∃ t, ts = [t] := by
    cases hes with
    | cons _ hnil =>
      cases hnil
      exact ⟨_, rfl⟩
  obtain ⟨w, t₀, hw, hv, -, rfl⟩ : ElementText .common t (key, v) := by
    cases hes with
    | cons he _ => exact he
  have htext : Text (w ++ (t₀ ++ niJsonClose)) v := ⟨w, t₀, niJsonClose, rfl, hw, newline_ws nofun, hv⟩
  refine ⟨w ++ (t₀ ++ niJsonClose), ?_, htext, fun v' hv' => hv'.unique htext⟩
  rw [printed, hp.run, Option.map_some, Option.some.injEq]
  show joined .common [] [w ++ if NiJsonType.common = .object then _ else t₀] ++ niJsonClose = _
  rw [if_neg (by decide), joined, joined]
  simp

/-- A root without a key, an item, a list and an item that is not printed. -/
def sampleItems : Int → NiJsonItem
  | 0 => ⟨none, 1⟩
  | 1 => ⟨some ['a'], 0⟩
  | 2 => ⟨some ['l'], 0⟩
  | _ => ⟨none, 0⟩

/-- A section with an item and, in a section that is not printed, an empty list. -/
def sampleCalls : Calls :=
  .section 0 (.item 1 (fun _ => ['t', 'r', 'u', 'e']) (.bool true) (.section 3 (.list 2 .nil .nil) .nil)) .nil

theorem json_text_sample : ∃ t, printed sampleItems (fun _ => ⟨0, .common, []⟩) sampleCalls.flatten = some t ∧
    Text t (.obj [([.plain 'a'], .bool true), ([.plain 'l'], .arr [])]) ∧
      ∀ v, Text t v → v = .obj [([.plain 'a'], .bool true), ([.plain 'l'], .arr [])] := by
  have hkey : ∀ c, IsPlain c → Calls.PlainKey (some [c]) := fun c hc => ⟨[c], rfl, fun x hx => List.mem_singleton.1 hx ▸ hc⟩
  have hitem : ¬(sampleItems 1).Skipped → NiJsonType.object ≠ .common ∧
      (NiJsonType.object = .object → Calls.PlainKey (sampleItems 1).key) ∧ Value ['t', 'r', 'u', 'e'] (.bool true) :=
    fun _ => ⟨by decide, fun _ => hkey 'a' ⟨by decide, by decide, by decide⟩, .true⟩
  have hlist : NiJsonType.object = .object → Calls.PlainKey (sampleItems 2).key :=
    fun _ => hkey 'l' ⟨by decide, by decide, by decide⟩
  exact json_text sampleItems _ sampleCalls none _ rfl ⟨⟨nofun, hitem, ⟨⟨hlist, trivial⟩, trivial⟩, trivial⟩, trivial⟩ (by decide)

end NdkSw.Ni

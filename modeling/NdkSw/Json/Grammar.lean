/-
The grammar of JSON texts, as a relation between a text and the value it stands for. Whitespace may stand where the grammar has
it, strings and numbers are kept as they are written. A text stands for one value at most, and a value in a longer text ends
where it must.
-/
import Mathlib.Tactic

namespace Json

/-! ## Values -/

/-- A character of a string as it is written. -/
inductive StrChar where
  | plain (c : Char)
  | escape (c : Char)
  | unicode (a b c d : Char)
  deriving DecidableEq, Repr

/-- A JSON value. -/
inductive Tree where
  | null
  | bool (b : Bool)
  | num (text : List Char)
  | str (s : List StrChar)
  | arr (l : List Tree)
  | obj (l : List (List StrChar × Tree))

/-! ## Tokens -/

def IsWs (c : Char) : Prop := c = ' ' ∨ c = '\n' ∨ c = '\r' ∨ c = '\t'

/-- Whitespace. -/
def Ws (w : List Char) : Prop := ∀ c ∈ w, IsWs c

def IsHex (c : Char) : Prop := c.isDigit ∨ c ∈ ['a', 'b', 'c', 'd', 'e', 'f', 'A', 'B', 'C', 'D', 'E', 'F']

/-- A character that needs no escape. -/
def IsPlain (c : Char) : Prop := 0x20 ≤ c.toNat ∧ c ≠ '"' ∧ c ≠ '\\'

def StrChar.Ok : StrChar → Prop
  | .plain c => IsPlain c
  | .escape c => c ∈ ['"', '\\', '/', 'b', 'f', 'n', 'r', 't']
  | .unicode a b c d => IsHex a ∧ IsHex b ∧ IsHex c ∧ IsHex d

def StrChar.text : StrChar → List Char
  | .plain c => [c]
  | .escape c => ['\\', c]
  | .unicode a b c d => ['\\', 'u', a, b, c, d]

/-- A string in its quotes. -/
def quote (s : List StrChar) : List Char := '"' :: (s.flatMap StrChar.text ++ ['"'])

def Digits (t : List Char) : Prop := t ≠ [] ∧ ∀ c ∈ t, c.isDigit

/-- A number: a minus or not, a whole part without a leading zero, a fraction or not, an exponent or not. -/
structure IsNumber (t : List Char) : Prop where
  parts : ∃ sign whole frac exp, t = sign ++ whole ++ frac ++ exp ∧ (sign = [] ∨ sign = ['-']) ∧
    (whole = ['0'] ∨ Digits whole ∧ whole.head? ≠ some '0') ∧
    (frac = [] ∨ ∃ ds, frac = '.' :: ds ∧ Digits ds) ∧
    (exp = [] ∨ ∃ e s ds, exp = e :: (s ++ ds) ∧ (e = 'e' ∨ e = 'E') ∧ (s = [] ∨ s = ['+'] ∨ s = ['-']) ∧ Digits ds)

/-! ## Texts -/

/-- An element of an array, or the value of a member, with the whitespace around it. -/
structure Elem where
  before : List Char
  text : List Char
  after : List Char
  value : Tree

def Elem.whole (e : Elem) : List Char := e.before ++ (e.text ++ e.after)

def Elem.Spaced (e : Elem) : Prop := Ws e.before ∧ Ws e.after

/-- A member of an object: whitespace, the key, whitespace, the colon and an element. -/
structure Member where
  before : List Char
  key : List StrChar
  mid : List Char
  elem : Elem

def Member.whole (m : Member) : List Char := m.before ++ (quote m.key ++ (m.mid ++ ':' :: m.elem.whole))

structure Member.Spaced (m : Member) : Prop where
  before : Ws m.before
  key : ∀ c ∈ m.key, c.Ok
  mid : Ws m.mid
  elem : m.elem.Spaced

/-- A text stands for a value. -/
inductive Value : List Char → Tree → Prop
  | null : Value ['n', 'u', 'l', 'l'] .null
  | true : Value ['t', 'r', 'u', 'e'] (.bool true)
  | false : Value ['f', 'a', 'l', 's', 'e'] (.bool false)
  | num {t : List Char} : IsNumber t → Value t (.num t)
  | str {s : List StrChar} : (∀ c ∈ s, c.Ok) → Value (quote s) (.str s)
  | arrNil {w : List Char} : Ws w → Value ('[' :: (w ++ [']'])) (.arr [])
  | arr {e : Elem} {l : List Elem} : (∀ x ∈ e :: l, x.Spaced) → (∀ x ∈ e :: l, Value x.text x.value) →
      Value ('[' :: (e.whole ++ (l.flatMap (fun x => ',' :: x.whole) ++ [']']))) (.arr ((e :: l).map Elem.value))
  | objNil {w : List Char} : Ws w → Value ('{' :: (w ++ ['}'])) (.obj [])
  | obj {m : Member} {l : List Member} : (∀ x ∈ m :: l, x.Spaced) → (∀ x ∈ m :: l, Value x.elem.text x.elem.value) →
      Value ('{' :: (m.whole ++ (l.flatMap (fun x => ',' :: x.whole) ++ ['}'])))
        (.obj ((m :: l).map fun x => (x.key, x.elem.value)))

/-- A JSON text: a value, with whitespace around it. -/
def Text (t : List Char) (v : Tree) : Prop := ∃ w t₀ w', t = w ++ (t₀ ++ w') ∧ Ws w ∧ Ws w' ∧ Value t₀ v

/-! ## One reading -/

variable {t r r' w : List Char} {v : Tree} {close : Char}

theorem span_unique {P : Char → Prop} {t' : List Char} (ht : ∀ c ∈ t, P c) (ht' : ∀ c ∈ t', P c) (hr : ∀ c ∈ r.head?, ¬P c)
    (hr' : ∀ c ∈ r'.head?, ¬P c) (h : t ++ r = t' ++ r') : t = t' ∧ r = r' := by
  induction t generalizing t' with
  | nil =>
    cases t' with
    | nil => exact ⟨rfl, h⟩
    | cons c t' =>
      rw [List.nil_append] at h
      rw [h] at hr
      exact absurd (ht' c List.mem_cons_self) (hr c (by simp))
  | cons c t ih =>
    cases t' with
    | nil =>
      rw [List.nil_append] at h
      rw [← h] at hr'
      exact absurd (ht c List.mem_cons_self) (hr' c (by simp))
    | cons c' t' =>
      rw [List.cons_append, List.cons_append, List.cons.injEq] at h
      obtain ⟨rfl, h⟩ := h
      obtain ⟨rfl, hrest⟩ := ih (fun x hx => ht x (List.mem_cons_of_mem _ hx)) (fun x hx => ht' x (List.mem_cons_of_mem _ hx)) h
      exact ⟨rfl, hrest⟩

theorem str_unique : ∀ {s s' : List StrChar} {r r' : List Char}, (∀ c ∈ s, c.Ok) → (∀ c ∈ s', c.Ok) →
    s.flatMap StrChar.text ++ '"' :: r = s'.flatMap StrChar.text ++ '"' :: r' → s = s' ∧ r = r' := by
  have hquote : ∀ c : StrChar, c.Ok → c.text.head? ≠ some '"' := by
    rintro (c | c | ⟨a, b, c, d⟩) hc
    · exact fun h => hc.2.1 (Option.some.inj h)
    · exact fun h => absurd (Option.some.inj h) (by decide)
    · exact fun h => absurd (Option.some.inj h) (by decide)
  have hchar : ∀ {c c' : StrChar} {r r' : List Char}, c.Ok → c'.Ok → c.text ++ r = c'.text ++ r' → c = c' ∧ r = r' := by
    rintro (c | c | ⟨a, b, c, d⟩) (c' | c' | ⟨a', b', c', d'⟩) r r' hc hc' h
    all_goals simp only [StrChar.text, List.cons_append, List.nil_append, List.cons.injEq] at h
    · exact ⟨congrArg _ h.1, h.2⟩
    · exact absurd h.1 hc.2.2
    · exact absurd h.1 hc.2.2
    · exact absurd h.1.symm hc'.2.2
    · exact ⟨congrArg _ h.2.1, h.2.2⟩
    · rw [StrChar.Ok, h.2.1] at hc
      exact absurd hc (by decide)
    · exact absurd h.1.symm hc'.2.2
    · rw [StrChar.Ok, ← h.2.1] at hc'
      exact absurd hc' (by decide)
    · obtain ⟨-, -, rfl, rfl, rfl, rfl, rfl⟩ := h
      exact ⟨rfl, rfl⟩
  intro s
  induction s with
  | nil =>
    intro s' r r' _ hs' h
    cases s' with
    | nil => exact ⟨rfl, (List.cons.inj h).2⟩
    | cons c s' =>
      -- no character of a string begins with the closing quote
      have hc := hquote c (hs' c List.mem_cons_self)
      rw [List.flatMap_cons, List.append_assoc] at h
      cases ht : c.text with
      | nil => cases c <;> cases ht
      | cons x l =>
        rw [ht] at h hc
        exact absurd (congrArg some (List.cons.inj h).1).symm hc
  | cons c s ih =>
    intro s' r r' hs hs' h
    cases s' with
    | nil =>
      have hc := hquote c (hs c List.mem_cons_self)
      rw [List.flatMap_cons, List.append_assoc] at h
      cases ht : c.text with
      | nil => cases c <;> cases ht
      | cons x l =>
        rw [ht] at h hc
        exact absurd (congrArg some (List.cons.inj h).1) hc
    | cons c' s' =>
      rw [List.flatMap_cons, List.flatMap_cons, List.append_assoc, List.append_assoc] at h
      obtain ⟨rfl, hrest⟩ := hchar (hs c List.mem_cons_self) (hs' c' List.mem_cons_self) h
      obtain ⟨rfl, hr⟩ := ih (fun x hx => hs x (List.mem_cons_of_mem _ hx)) (fun x hx => hs' x (List.mem_cons_of_mem _ hx)) hrest
      exact ⟨rfl, hr⟩

theorem quote_unique {s s' : List StrChar} (hs : ∀ c ∈ s, c.Ok) (hs' : ∀ c ∈ s', c.Ok) (h : quote s ++ r = quote s' ++ r') :
    s = s' ∧ r = r' := by
  simp only [quote, List.cons_append, List.append_assoc, List.cons.injEq, List.nil_append] at h
  exact str_unique hs hs' h.2

/-- The characters of numbers. -/
def NumChar (c : Char) : Prop := c.isDigit ∨ c ∈ ['-', '+', '.', 'e', 'E']

instance (c : Char) : Decidable (NumChar c) := inferInstanceAs (Decidable (_ ∨ _))

instance (c : Char) : Decidable (IsWs c) := inferInstanceAs (Decidable (_ ∨ _))

theorem IsNumber.numChars (h : IsNumber t) : ∀ c ∈ t, NumChar c := by
  obtain ⟨sign, whole, frac, exp, rfl, hsign, hwhole, hfrac, hexp⟩ := h.parts
  have hdigits : ∀ {ds : List Char}, Digits ds → ∀ c ∈ ds, NumChar c := fun hd c hc => .inl (hd.2 c hc)
  intro c hc
  simp only [List.mem_append] at hc
  obtain ((hc | hc) | hc) | hc := hc
  · obtain rfl | rfl := hsign
    · cases hc
    · rw [List.mem_singleton] at hc
      subst hc
      exact .inr (by decide)
  · obtain rfl | ⟨hd, -⟩ := hwhole
    · rw [List.mem_singleton] at hc
      subst hc
      exact .inl (by decide)
    · exact hdigits hd c hc
  · obtain rfl | ⟨ds, rfl, hd⟩ := hfrac
    · cases hc
    · rcases List.mem_cons.1 hc with rfl | hc
      · exact .inr (by decide)
      · exact hdigits hd c hc
  · obtain rfl | ⟨e, s, ds, rfl, he, hs, hd⟩ := hexp
    · cases hc
    · rcases List.mem_cons.1 hc with rfl | hc
      · obtain rfl | rfl := he
        · exact .inr (by decide)
        · exact .inr (by decide)
      · rcases List.mem_append.1 hc with hc | hc
        · obtain rfl | rfl | rfl := hs
          · cases hc
          · rw [List.mem_singleton] at hc
            subst hc
            exact .inr (by decide)
          · rw [List.mem_singleton] at hc
            subst hc
            exact .inr (by decide)
        · exact hdigits hd c hc

theorem IsNumber.ne_nil (h : IsNumber t) : t ≠ [] := by
  obtain ⟨sign, whole, frac, exp, rfl, -, hwhole, -⟩ := h.parts
  have hne : whole ≠ [] := by
    obtain rfl | ⟨hd, -⟩ := hwhole
    · exact List.cons_ne_nil _ _
    · exact hd.1
  simp [hne]

/-- What a value of a kind begins with. -/
def Begins (c : Char) : Tree → Prop
  | .null => c = 'n'
  | .bool b => c = if b then 't' else 'f'
  | .num _ => NumChar c
  | .str _ => c = '"'
  | .arr _ => c = '['
  | .obj _ => c = '{'

theorem Value.begins (h : Value t v) : ∃ c t₁, t = c :: t₁ ∧ Begins c v := by
  cases h with
  | null => exact ⟨_, _, rfl, rfl⟩
  | true => exact ⟨_, _, rfl, rfl⟩
  | false => exact ⟨_, _, rfl, rfl⟩
  | num hn =>
    cases t with
    | nil => exact absurd rfl hn.ne_nil
    | cons c t => exact ⟨c, t, rfl, hn.numChars c List.mem_cons_self⟩
  | str hs => exact ⟨_, _, rfl, rfl⟩
  | arrNil hw => exact ⟨_, _, rfl, rfl⟩
  | arr hs hv => exact ⟨_, _, rfl, rfl⟩
  | objNil hw => exact ⟨_, _, rfl, rfl⟩
  | obj hs hv => exact ⟨_, _, rfl, rfl⟩

theorem Begins.not_sep {c : Char} (h : Begins c v) : ¬IsWs c ∧ c ≠ ']' ∧ c ≠ '}' ∧ c ≠ ',' := by
  have hne : ∀ x, ¬NumChar x → NumChar c → c ≠ x := by
    rintro x hx hc rfl
    exact hx hc
  cases v with
  | num t =>
    refine ⟨?_, hne ']' (by decide) h, hne '}' (by decide) h, hne ',' (by decide) h⟩
    rintro (rfl | rfl | rfl | rfl)
    all_goals exact absurd (show NumChar _ from h) (by decide)
  | bool b =>
    cases b
    · rw [show c = 'f' from h]
      decide
    · rw [show c = 't' from h]
      decide
  | null => rw [show c = 'n' from h]; decide
  | str s => rw [show c = '"' from h]; decide
  | arr l => rw [show c = '[' from h]; decide
  | obj l => rw [show c = '{' from h]; decide

/-- The kind of a value, by a character. -/
def Tree.kind : Tree → Char
  | .null => 'n'
  | .bool b => if b then 't' else 'f'
  | .num _ => '0'
  | .str _ => '"'
  | .arr _ => '['
  | .obj _ => '{'

theorem Begins.kind {c : Char} (h : Begins c v) : v.kind = if NumChar c then '0' else c := by
  cases v with
  | num t => exact (if_pos h).symm
  | bool b =>
    cases b
    · rw [show c = 'f' from h]
      decide
    · rw [show c = 't' from h]
      decide
  | null => rw [show c = 'n' from h]; decide
  | str s =>
    rw [show c = '"' from h]
    exact (if_neg (by decide)).symm
  | arr l =>
    rw [show c = '[' from h]
    exact (if_neg (by decide)).symm
  | obj l =>
    rw [show c = '{' from h]
    exact (if_neg (by decide)).symm

theorem kind_eq {t' : List Char} {v' : Tree} (h : Value t v) (h' : Value t' v') (heq : t ++ r = t' ++ r') : v.kind = v'.kind := by
  obtain ⟨c, t₁, rfl, hb⟩ := h.begins
  obtain ⟨c', t₁', rfl, hb'⟩ := h'.begins
  rw [List.cons_append, List.cons_append, List.cons.injEq] at heq
  rw [hb.kind, hb'.kind, heq.1]

/-! ### Ends -/

/-- What may stand behind a value. -/
def Stops (r : List Char) : Prop := ∀ c ∈ r.head?, IsWs c ∨ c = ',' ∨ c = ']' ∨ c = '}'

/-- What may stand behind an element. -/
def Sep (r : List Char) : Prop := ∃ c r₁, r = c :: r₁ ∧ (c = ',' ∨ c = ']' ∨ c = '}')

theorem Stops.not_numChar (h : Stops r) : ∀ c ∈ r.head?, ¬NumChar c := by
  intro c hc
  obtain (rfl | rfl | rfl | rfl) | rfl | rfl | rfl := h c hc
  all_goals decide

theorem Sep.not_ws (h : Sep r) : ∀ c ∈ r.head?, ¬IsWs c := by
  obtain ⟨c, r₁, rfl, hc⟩ := h
  intro x hx
  rw [List.head?_cons, Option.mem_some_iff] at hx
  subst hx
  obtain rfl | rfl | rfl := hc
  all_goals decide

theorem Sep.stops_append (hw : Ws w) (h : Sep r) : Stops (w ++ r) := by
  intro c hc
  cases w with
  | nil =>
    obtain ⟨x, r₁, rfl, hx⟩ := h
    rw [List.nil_append, List.head?_cons, Option.mem_some_iff] at hc
    subst hc
    exact .inr hx
  | cons x w =>
    rw [List.cons_append, List.head?_cons, Option.mem_some_iff] at hc
    subst hc
    exact .inl (hw x List.mem_cons_self)

/-- The value at the beginning of a text can only be this one. -/
def Alone (t : List Char) (v : Tree) : Prop :=
  ∀ t' v' r r', Value t' v' → Stops r → Stops r' → t ++ r = t' ++ r' → t = t' ∧ v = v'

theorem Value.head_not_ws (h : Value t v) : ∀ c ∈ (t ++ r).head?, ¬IsWs c := by
  obtain ⟨c, t₁, rfl, hb⟩ := h.begins
  intro x hx
  rw [List.cons_append, List.head?_cons, Option.mem_some_iff] at hx
  subst hx
  exact hb.not_sep.1

theorem elem_unique {e e' : Elem} (hs : e.Spaced) (hv : Value e.text e.value) (ha : Alone e.text e.value) (hs' : e'.Spaced)
    (hv' : Value e'.text e'.value) (hr : Sep r) (hr' : Sep r') (h : e.whole ++ r = e'.whole ++ r') : e = e' ∧ r = r' := by
  obtain ⟨b, t, a, v⟩ := e
  obtain ⟨b', t', a', v'⟩ := e'
  simp only [Elem.whole, List.append_assoc] at h
  obtain ⟨rfl, h₁⟩ := span_unique hs.1 hs'.1 hv.head_not_ws hv'.head_not_ws h
  obtain ⟨rfl, rfl⟩ := ha _ _ _ _ hv' (hr.stops_append hs.2) (hr'.stops_append hs'.2) h₁
  obtain ⟨rfl, h₂⟩ := span_unique hs.2 hs'.2 hr.not_ws hr'.not_ws (List.append_cancel_left h₁)
  exact ⟨rfl, h₂⟩

theorem quote_not_ws (s : List StrChar) (r : List Char) : ∀ c ∈ (quote s ++ r).head?, ¬IsWs c := by
  intro c hc
  rw [quote, List.cons_append, List.head?_cons, Option.mem_some_iff] at hc
  subst hc
  decide

theorem colon_not_ws (r : List Char) : ∀ c ∈ (':' :: r).head?, ¬IsWs c := by
  intro c hc
  rw [List.head?_cons, Option.mem_some_iff] at hc
  subst hc
  decide

theorem member_unique {m m' : Member} (hs : m.Spaced) (hv : Value m.elem.text m.elem.value) (ha : Alone m.elem.text m.elem.value)
    (hs' : m'.Spaced) (hv' : Value m'.elem.text m'.elem.value) (hr : Sep r) (hr' : Sep r') (h : m.whole ++ r = m'.whole ++ r') :
    m = m' ∧ r = r' := by
  obtain ⟨b, k, w, e⟩ := m
  obtain ⟨b', k', w', e'⟩ := m'
  simp only [Member.whole, List.append_assoc, List.cons_append] at h
  obtain ⟨rfl, h₁⟩ := span_unique hs.before hs'.before (quote_not_ws _ _) (quote_not_ws _ _) h
  obtain ⟨rfl, h₂⟩ := quote_unique hs.key hs'.key h₁
  obtain ⟨rfl, h₃⟩ := span_unique hs.mid hs'.mid (colon_not_ws _) (colon_not_ws _) h₂
  obtain ⟨rfl, h₄⟩ := elem_unique hs.elem hv ha hs'.elem hv' hr hr' (List.cons.inj h₃).2
  exact ⟨rfl, h₄⟩

theorem sep_tail {X : Type} (whole : X → List Char) (hclose : close = ']' ∨ close = '}') (l : List X)
    (r : List Char) : Sep (l.flatMap (fun x => ',' :: whole x) ++ close :: r) := by
  cases l with
  | nil => exact ⟨close, r, rfl, .inr hclose⟩
  | cons x l => exact ⟨',', _, rfl, .inl rfl⟩

theorem tail_unique {X : Type} {whole : X → List Char} {ok : X → Prop} (hclose : close = ']' ∨ close = '}') :
    ∀ {l l' : List X} {r r' : List Char},
      (∀ x ∈ l, ∀ x' r r', ok x' → Sep r → Sep r' → whole x ++ r = whole x' ++ r' → x = x' ∧ r = r') →
      (∀ x ∈ l', ok x) →
      l.flatMap (fun x => ',' :: whole x) ++ close :: r = l'.flatMap (fun x => ',' :: whole x) ++ close :: r' →
      l = l' ∧ r = r' := by
  have hcomma : close ≠ ',' := by
    obtain rfl | rfl := hclose
    all_goals decide
  have hsep := sep_tail whole hclose
  intro l
  induction l with
  | nil =>
    intro l' r r' _ _ h
    cases l' with
    | nil => exact ⟨rfl, (List.cons.inj h).2⟩
    | cons x' l' => exact absurd (List.cons.inj h).1 hcomma
  | cons x l ih =>
    intro l' r r' hx hok h
    cases l' with
    | nil => exact absurd (List.cons.inj h).1.symm hcomma
    | cons x' l' =>
      rw [List.flatMap_cons, List.flatMap_cons, List.cons_append, List.cons_append, List.append_assoc, List.append_assoc] at h
      obtain ⟨rfl, hrest⟩ := hx x List.mem_cons_self x' _ _ (hok x' List.mem_cons_self) (hsep _ _) (hsep _ _) (List.cons.inj h).2
      obtain ⟨rfl, hr⟩ := ih (fun y hy => hx y (List.mem_cons_of_mem _ hy)) (fun y hy => hok y (List.mem_cons_of_mem _ hy)) hrest
      exact ⟨rfl, hr⟩

theorem closing {b s : List Char} (hw : Ws w) (hb : Ws b) (hclose : ¬IsWs close) (hs : ∀ c ∈ s.head?, ¬IsWs c)
    (h : w ++ close :: r = b ++ s) : close :: r = s := by
  refine (span_unique hw hb ?_ hs h).2
  intro c hc
  rw [List.head?_cons, Option.mem_some_iff] at hc
  rwa [← hc]

theorem not_closing_elem {e : Elem} (hw : Ws w) (hs : e.Spaced) (hv : Value e.text e.value) : w ++ ']' :: r ≠ e.whole ++ r' := by
  intro h
  rw [Elem.whole, List.append_assoc, List.append_assoc] at h
  have hclose := closing hw hs.1 (by decide) hv.head_not_ws h
  obtain ⟨c, t₁, ht, hb⟩ := hv.begins
  rw [ht, List.cons_append, List.cons.injEq] at hclose
  exact hb.not_sep.2.1 hclose.1.symm

theorem not_closing_member {m : Member} (hw : Ws w) (hs : m.Spaced) : w ++ '}' :: r ≠ m.whole ++ r' := by
  intro h
  rw [Member.whole, List.append_assoc, List.append_assoc] at h
  have hclose := closing hw hs.before (by decide) (quote_not_ws _ _) h
  rw [quote, List.cons_append, List.cons.injEq] at hclose
  exact absurd hclose.1 (by decide)

/-- The first item of a container and the others behind commas, up to the bracket. -/
theorem items_unique {X : Type} {whole : X → List Char} (ok : X → Prop) (hclose : close = ']' ∨ close = '}') {x x' : X} {l l' : List X}
    (hok : ∀ y ∈ x' :: l', ok y)
    (hone : ∀ y ∈ x :: l, ∀ y' r r', ok y' → Sep r → Sep r' → whole y ++ r = whole y' ++ r' → y = y' ∧ r = r')
    (h : whole x ++ (l.flatMap (fun y => ',' :: whole y) ++ close :: r) = whole x' ++ (l'.flatMap (fun y => ',' :: whole y) ++ close :: r')) :
    x = x' ∧ l = l' := by
  have hsep := sep_tail whole hclose
  obtain ⟨rfl, hrest⟩ := hone x List.mem_cons_self x' _ _ (hok x' List.mem_cons_self) (hsep _ _) (hsep _ _) h
  obtain ⟨rfl, -⟩ := tail_unique hclose (fun y hy => hone y (List.mem_cons_of_mem _ hy)) (fun y hy => hok y (List.mem_cons_of_mem _ hy)) hrest
  exact ⟨rfl, rfl⟩

theorem bracket_not_ws (hclose : close = ']' ∨ close = '}') (r : List Char) : ∀ c ∈ (close :: r).head?, ¬IsWs c := by
  intro c hc
  rw [List.head?_cons, Option.mem_some_iff] at hc
  subst hc
  obtain rfl | rfl := hclose
  all_goals decide

/-- A value in a longer text ends in one place and is one value. -/
theorem Value.alone (h : Value t v) : Alone t v := by
  -- The first character tells the kind of the other value, and by its kind how it was built but for the empty containers.
  induction h with
  | null =>
    intro t' v' r r' h' _ _ heq
    have hk := kind_eq .null h' heq
    cases h' with
    | null => exact ⟨rfl, rfl⟩
    | _ => simp [Tree.kind] at hk
  | true =>
    intro t' v' r r' h' _ _ heq
    have hk := kind_eq .true h' heq
    cases h' with
    | true => exact ⟨rfl, rfl⟩
    | _ => simp [Tree.kind] at hk
  | false =>
    intro t' v' r r' h' _ _ heq
    have hk := kind_eq .false h' heq
    cases h' with
    | false => exact ⟨rfl, rfl⟩
    | _ => simp [Tree.kind] at hk
  | num hn =>
    intro t' v' r r' h' hr hr' heq
    have hk := kind_eq (.num hn) h' heq
    cases h' with
    | num hn' =>
      obtain ⟨rfl, -⟩ := span_unique hn.numChars hn'.numChars hr.not_numChar hr'.not_numChar heq
      exact ⟨rfl, rfl⟩
    | _ => simp [Tree.kind] at hk
  | str hs =>
    intro t' v' r r' h' _ _ heq
    have hk := kind_eq (.str hs) h' heq
    cases h' with
    | str hs' =>
      obtain ⟨rfl, -⟩ := quote_unique hs hs' heq
      exact ⟨rfl, rfl⟩
    | _ => simp [Tree.kind] at hk
  | arrNil hw =>
    intro t' v' r r' h' _ _ heq
    have hk := kind_eq (.arrNil hw) h' heq
    cases h' with
    | arrNil hw' =>
      simp only [List.cons_append, List.append_assoc, List.cons.injEq, true_and, List.nil_append] at heq
      obtain ⟨rfl, -⟩ := span_unique hw hw' (bracket_not_ws (.inl rfl) r) (bracket_not_ws (.inl rfl) r') heq
      exact ⟨rfl, rfl⟩
    | arr hs hv =>
      simp only [List.cons_append, List.append_assoc, List.cons.injEq, true_and, List.nil_append] at heq
      exact absurd heq (not_closing_elem hw (hs _ List.mem_cons_self) (hv _ List.mem_cons_self))
    | _ => simp [Tree.kind] at hk
  | arr hs hv ih =>
    intro t' v' r r' h' _ _ heq
    have hk := kind_eq (.arr hs hv) h' heq
    cases h' with
    | arrNil hw' =>
      simp only [List.cons_append, List.append_assoc, List.cons.injEq, true_and, List.nil_append] at heq
      exact absurd heq.symm (not_closing_elem hw' (hs _ List.mem_cons_self) (hv _ List.mem_cons_self))
    | arr hs' hv' =>
      simp only [List.cons_append, List.append_assoc, List.cons.injEq, true_and, List.nil_append] at heq
      obtain ⟨rfl, rfl⟩ := items_unique (fun x => x.Spaced ∧ Value x.text x.value) (.inl rfl) (fun x hx => ⟨hs' x hx, hv' x hx⟩)
        (fun x hx _ _ _ hx' => elem_unique (hs x hx) (hv x hx) (ih x hx) hx'.1 hx'.2) heq
      exact ⟨rfl, rfl⟩
    | _ => simp [Tree.kind] at hk
  | objNil hw =>
    intro t' v' r r' h' _ _ heq
    have hk := kind_eq (.objNil hw) h' heq
    cases h' with
    | objNil hw' =>
      simp only [List.cons_append, List.append_assoc, List.cons.injEq, true_and, List.nil_append] at heq
      obtain ⟨rfl, -⟩ := span_unique hw hw' (bracket_not_ws (.inr rfl) r) (bracket_not_ws (.inr rfl) r') heq
      exact ⟨rfl, rfl⟩
    | obj hs hv =>
      simp only [List.cons_append, List.append_assoc, List.cons.injEq, true_and, List.nil_append] at heq
      exact absurd heq (not_closing_member hw (hs _ List.mem_cons_self))
    | _ => simp [Tree.kind] at hk
  | obj hs hv ih =>
    intro t' v' r r' h' _ _ heq
    have hk := kind_eq (.obj hs hv) h' heq
    cases h' with
    | objNil hw' =>
      simp only [List.cons_append, List.append_assoc, List.cons.injEq, true_and, List.nil_append] at heq
      exact absurd heq.symm (not_closing_member hw' (hs _ List.mem_cons_self))
    | obj hs' hv' =>
      simp only [List.cons_append, List.append_assoc, List.cons.injEq, true_and, List.nil_append] at heq
      obtain ⟨rfl, rfl⟩ := items_unique (fun x => x.Spaced ∧ Value x.elem.text x.elem.value) (.inr rfl) (fun x hx => ⟨hs' x hx, hv' x hx⟩)
        (fun x hx _ _ _ hx' => member_unique (hs x hx) (hv x hx) (ih x hx) hx'.1 hx'.2) heq
      exact ⟨rfl, rfl⟩
    | _ => simp [Tree.kind] at hk

theorem Text.unique {v' : Tree} (h : Text t v) (h' : Text t v') : v = v' := by
  obtain ⟨w, t₀, w₁, rfl, hw, hw₁, hv⟩ := h
  obtain ⟨w', t₀', w₁', heq, hw', hw₁', hv'⟩ := h'
  obtain ⟨rfl, hrest⟩ := span_unique hw hw' hv.head_not_ws hv'.head_not_ws heq
  have hstops : ∀ {w : List Char}, Ws w → Stops w := by
    intro w hw c hc
    exact .inl (hw c (List.mem_of_mem_head? hc))
  exact (hv.alone _ _ _ _ hv' (hstops hw₁) (hstops hw₁') hrest).2

end Json

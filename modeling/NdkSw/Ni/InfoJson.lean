/-
`nfb-info -j` and JSON: the calls nest and their text is JSON if every BAR node has a size below 1 TiB and every string that is
printed needs no escape. A BAR node without a size leaves its section open, a larger size is scaled beyond the table of units.
-/
import NdkSw.Ni.Info

namespace NdkSw.Ni

open Json Shared

/-! ## Values -/

section

variable {n : Nat} {decim : BitVec 8}

theorem digits_decimal : Digits (Nat.toDigits 10 n) := ⟨Nat.toDigits_ne_nil, fun _ hc => decimal_digit hc⟩

theorem isNumber_decimal (negative : Bool) {frac : List Char} (hfrac : frac = [] ∨ ∃ ds, frac = '.' :: ds ∧ Digits ds) :
    IsNumber ((if negative then ['-'] else []) ++ Nat.toDigits 10 n ++ frac) := by
  refine ⟨if negative then ['-'] else [], Nat.toDigits 10 n, frac, [], (List.append_nil _).symm, ?_, ?_, hfrac, .inl rfl⟩
  · cases negative
    · exact .inl rfl
    · exact .inr rfl
  · rcases Nat.eq_zero_or_pos n with rfl | hn
    · exact .inl rfl
    · exact .inr ⟨digits_decimal, decimal_head hn⟩

theorem value_int (val : BitVec 32) : ∃ v, Value (niDefPrintIntJson val decim) v := by
  have h := isNumber_decimal (n := val.toInt.natAbs) (val.toInt < 0) (.inl rfl)
  rw [List.append_nil] at h
  refine ⟨_, .num ?_⟩
  simpa only [niDefPrintIntJson, decimalText, decide_eq_true_eq] using h

theorem value_xreg (val : U64) : ∃ v, Value (niDefPrintXregJson val decim) v := by
  have h := isNumber_decimal (n := val.toNat) false (.inl rfl)
  rw [List.append_nil] at h
  exact ⟨_, .num h⟩

theorem Fixed.isNumber {places : Nat} (x : Fixed places) : IsNumber x.text := by
  apply isNumber_decimal
  by_cases hp : places = 0
  · exact .inl (if_pos hp)
  · refine .inr ⟨_, if_neg hp, ?_, ?_⟩
    · intro hnil
      exact hp (List.ofFn_eq_nil_iff.1 hnil)
    · intro c hc
      obtain ⟨i, rfl⟩ := List.mem_ofFn.1 hc
      generalize x.digits i = d
      decide +revert

theorem value_double (val : Double) : ∃ v, Value (niDefPrintDoubleJson val decim) v := by
  unfold niDefPrintDoubleJson
  split
  · exact ⟨_, .num (val 6).isNumber⟩
  · exact ⟨_, .num (val decim.toNat).isNumber⟩

/-- The characters can stand in a JSON string as they are. -/
def StringContent (s : List Char) : Prop := ∃ l : List StrChar, (∀ c ∈ l, c.Ok) ∧ s = l.flatMap StrChar.text

theorem value_str (val : List Char) : (∃ v, Value (niDefPrintStrJson val decim) v) ↔ StringContent val := by
  constructor
  · rintro ⟨v, hv⟩
    generalize ht : niDefPrintStrJson val decim = t at hv
    cases hv with
    | @str l hl =>
      rw [niDefPrintStrJson, quote, List.cons.injEq] at ht
      exact ⟨l, hl, List.append_cancel_right ht.2⟩
    | num hn => exact absurd (hn.numChars '"' (ht ▸ List.mem_cons_self)) (by decide)
    | _ => cases (List.cons.inj ht).1
  · rintro ⟨l, hl, rfl⟩
    exact ⟨.str l, .str hl⟩

theorem content_plain {s : List Char} (hs : ∀ c ∈ s, IsPlain c) : StringContent s := by
  refine ⟨s.map .plain, ?_, ?_⟩
  · intro c hc
    obtain ⟨x, hx, rfl⟩ := List.mem_map.1 hc
    exact hs x hx
  · rw [List.flatMap_map]
    exact (List.flatMap_singleton' s).symm

end

/-! ## Items -/

theorem niItems_index (item : NiItems) : niItems item.index = item.json := by cases item <;> rfl

instance (c : Char) : Decidable (IsPlain c) := inferInstanceAs (Decidable (_ ∧ _))

theorem plain_of_all {s : List Char} (h : s.all (decide <| IsPlain ·) = true) : ∀ c ∈ s, IsPlain c :=
  fun c hc => of_decide_eq_true (List.all_eq_true.1 h c hc)

theorem NiItems.key_plain (item : NiItems) : ∀ k ∈ item.json.key, ∀ c ∈ k, IsPlain c := by
  have hall : ∀ k ∈ item.json.key, k.all (decide <| IsPlain ·) = true := by cases item <;> decide
  exact fun k hk => plain_of_all (hall k hk)

theorem NiItems.key_some {item : NiItems} (hitem : item.json ≠ niJsonE) (hprint : ¬item.json.Skipped) :
    Calls.PlainKey item.json.key := by
  cases hkey : item.json.key with
  | some k => exact ⟨k, rfl, item.key_plain k hkey⟩
  | none => cases item <;> first | exact absurd rfl hitem | exact absurd ⟨rfl, rfl⟩ hprint | cases hkey

section

variable {n : Nat} {item : NiItems}

theorem nests_item {value : BitVec 8 → List Char} (hitem : item.json ≠ niJsonE)
    (hvalue : ¬item.json.Skipped → ∃ v, Value (value (niJsonFDecimDec item.json.flags)) v) :
    Nests niItems .object n [.item item.index value] := by
  apply Nests.item
  · rw [niItems_index]
    exact NiItems.key_some hitem
  · rw [niItems_index]
    exact hvalue

theorem nests_int (hitem : item.json ≠ niJsonE) (val : BitVec 32) : Nests niItems .object n [niItemInt item val] :=
  nests_item hitem fun _ => value_int val

theorem nests_str (hitem : item.json ≠ niJsonE) {val : List Char} (hval : ¬item.json.Skipped → StringContent val) :
    Nests niItems .object n [niItemStr item val] :=
  nests_item hitem fun hprint => (value_str val).2 (hval hprint)

end

/-! ## Sizes -/

theorem sizeUnit_lt (left : Nat) : ∀ (i : Nat) {size : U64}, 0 < size.toNat →
    ((sizeUnit left i size).1 < i + left ↔ size.toNat < 1024 ^ left) := by
  induction left with
  | zero =>
    intro i size hpos
    show i < i + 0 ↔ size.toNat < 1
    omega
  | succ left ih =>
    intro i size hpos
    rw [sizeUnit]
    by_cases hlarge : 1024 ≤ size.toNat
    · have hshift : (size >>> 10).toNat = size.toNat / 1024 := by
        rw [BitVec.toNat_ushiftRight, Nat.shiftRight_eq_div_pow]
      have hnext : 0 < (size >>> 10).toNat := by omega
      rw [if_pos hlarge, show i + (left + 1) = i + 1 + left by omega, ih (i + 1) hnext, hshift,
        Nat.div_lt_iff_lt_mul (by decide), Nat.pow_succ]
    · have hpow : 1 ≤ 1024 ^ left := Nat.one_le_pow _ _ (by decide)
      rw [if_neg hlarge, Nat.pow_succ]
      constructor
      · intro _
        omega
      · intro _
        show i < i + (left + 1)
        omega

theorem sprintSize_some {size : U64} (hsize : size ≠ 0) : (sprintSize 64 size).isSome ↔ size.toNat < 2 ^ 40 := by
  have hpos : 0 < size.toNat := by
    rw [Nat.pos_iff_ne_zero]
    intro h0
    exact hsize (BitVec.eq_of_toNat_eq h0)
  have hunit := sizeUnit_lt 4 0 hpos
  obtain ⟨⟨i, rest⟩, hr⟩ : ∃ r, sizeUnit units.length 0 size = r := ⟨_, rfl⟩
  have hr' : sizeUnit 4 0 size = (i, rest) := hr
  rw [hr'] at hunit
  unfold sprintSize
  rw [hr, show (2 : Nat) ^ 40 = 1024 ^ 4 by decide, ← hunit]
  dsimp only
  constructor
  · intro h
    cases hi : units[i]? with
    | none =>
      rw [hi] at h
      cases h
    | some unit => exact (List.getElem?_eq_some_iff.1 hi).1
  · intro h
    have hi : i < 4 := h
    obtain ⟨unit, hunit, hlen⟩ : ∃ unit, units[i]? = some unit ∧ unit.length ≤ 3 := by
      interval_cases i
      · exact ⟨_, rfl, by decide⟩
      · exact ⟨_, rfl, by decide⟩
      · exact ⟨_, rfl, by decide⟩
      · exact ⟨_, rfl, by decide⟩
    have hdigits : (Nat.toDigits 10 rest.toNat).length ≤ 20 := by
      apply (Nat.length_toDigits_le_iff (by decide) (by decide)).2
      calc rest.toNat
        _ < 2 ^ 64 := rest.isLt
        _ < 10 ^ 20 := by decide
    have hroom : (Nat.toDigits 10 rest.toNat ++ ' ' :: unit).length < 64 := by
      rw [List.length_append, List.length_cons]
      omega
    simp only [hunit, Option.bind_some, if_pos hroom, Option.isSome_some]

/-! ## BARs -/

/-- The property tells a size that has a unit. -/
def SizeFits (prop : Option FdtProp) : Prop := ∃ p, prop = some p ∧ p.value.length = 8 ∧ p.read64.toNat < 2 ^ 40

/-- Every BAR node of the endpoints has a size that has a unit. -/
def BarsFit (fdt : Fdt) : Prop :=
  ∀ endpoint ∈ endpoints fdt, ∀ bar < 6, ∀ node, barNode fdt (endpointId (fdt.getName endpoint)) bar = some node →
    SizeFits (fdt.getprop (some node) "mmap_size".toList)

section

variable {n : Nat} {fdt : Fdt} {devId : BitVec 32} {bar : Nat} {calls : List NiCall}

theorem barCalls_nests
    (h : ∀ node, barNode fdt devId bar = some node → SizeFits (fdt.getprop (some node) "mmap_size".toList)) :
    ∃ calls, barCalls fdt devId bar = some calls ∧ Nests niItems .array (n + 1) calls := by
  unfold barCalls
  cases hnode : barNode fdt devId bar with
  | none => exact ⟨[], rfl, .nil⟩
  | some node =>
    obtain ⟨prop, hprop, hlen, hsize⟩ := h node hnode
    have htext : ∃ text, (if prop.read64 = 0 then some "unmapped!".toList else sprintSize 64 prop.read64) = some text := by
      by_cases hzero : prop.read64 = 0
      · exact ⟨_, if_pos hzero⟩
      · rw [if_neg hzero]
        exact Option.isSome_iff_exists.1 ((sprintSize_some hzero).2 hsize)
    obtain ⟨text, htext⟩ := htext
    simp only [hprop, hlen, ne_eq, not_true_eq_false, if_false, htext, Option.map_some]
    have hid : Nests niItems .object n [niItemInt .barId (BitVec.ofNat 32 bar)] := nests_int (by decide) _
    have hstr : Nests niItems .object n [niItemStr .barSizeStr text] :=
      nests_str (by decide) fun hprint => absurd ⟨rfl, rfl⟩ hprint
    have hint : Nests niItems .object n [niItemInt .barSize (prop.read64.setWidth 32)] := nests_int (by decide) _
    have hsection : Nests niItems .array (n + 1) (niSection .sec2PciBar :: (_ ++ [niEndsection .sec2PciBar])) :=
      Nests.section (by decide) nofun (hid.append (hstr.append hint))
    exact ⟨_, rfl, hsection⟩

theorem barCalls_open (h : barCalls fdt devId bar = some calls) : 0 ≤ openSections calls ∧
    (openSections calls = 0 → ∀ node, barNode fdt devId bar = some node →
      SizeFits (fdt.getprop (some node) "mmap_size".toList)) := by
  unfold barCalls at h
  cases hnode : barNode fdt devId bar with
  | none =>
    rw [hnode] at h
    cases h
    exact ⟨Int.le_refl 0, fun _ _ hn => nomatch hn⟩
  | some node =>
    rw [hnode] at h
    cases hprop : fdt.getprop (some node) "mmap_size".toList with
    | none =>
      simp only [hprop, Option.some.injEq] at h
      subst h
      exact ⟨Int.one_nonneg, fun hzero => absurd hzero (by decide)⟩
    | some prop =>
      simp only [hprop] at h
      by_cases hlen : prop.value.length = 8
      · rw [if_neg (not_not.2 hlen)] at h
        obtain ⟨text, htext, rfl⟩ := Option.map_eq_some_iff.1 h
        refine ⟨Int.le_refl 0, ?_⟩
        intro _ node' hnode'
        rw [← Option.some.inj hnode', hprop]
        refine ⟨prop, rfl, hlen, ?_⟩
        by_cases hzero : prop.read64 = 0
        · rw [hzero]
          exact Nat.two_pow_pos 40
        · rw [if_neg hzero] at htext
          exact (sprintSize_some hzero).1 (Option.isSome_iff_exists.2 ⟨text, htext⟩)
      · rw [if_pos hlen, Option.some.injEq] at h
        subst h
        exact ⟨Int.one_nonneg, fun hzero => absurd hzero (by decide)⟩

end

/-! ## Loops -/

variable {calls : List NiCall}

section

variable {α : Type} {f : α → Option (List NiCall)} {l : List α}

theorem gather_cons {x : α} : gather f (x :: l) = some calls ↔
    ∃ part rest, f x = some part ∧ gather f l = some rest ∧ calls = part ++ rest := by
  simp only [gather, Option.bind_eq_bind, Option.bind_eq_some_iff, Option.some.injEq]
  constructor
  · rintro ⟨part, hpart, rest, hrest, rfl⟩
    exact ⟨part, rest, hpart, hrest, rfl⟩
  · rintro ⟨part, rest, hpart, hrest, rfl⟩
    exact ⟨part, hpart, rest, hrest, rfl⟩

theorem gather_nests {items : Int → NiJsonItem} {ty : NiJsonType} {n : Nat}
    (h : ∀ x ∈ l, ∃ calls, f x = some calls ∧ Nests items ty n calls) : ∃ calls, gather f l = some calls ∧ Nests items ty n calls := by
  induction l with
  | nil => exact ⟨[], rfl, .nil⟩
  | cons x l ih =>
    obtain ⟨part, hpart, hnests⟩ := h x List.mem_cons_self
    obtain ⟨rest, hrest, hnests'⟩ := ih fun y hy => h y (List.mem_cons_of_mem _ hy)
    exact ⟨part ++ rest, gather_cons.2 ⟨part, rest, hpart, hrest, rfl⟩, hnests.append hnests'⟩

theorem gather_open (h : ∀ x ∈ l, ∀ part, f x = some part → 0 ≤ openSections part) :
    ∀ {calls : List NiCall}, gather f l = some calls → 0 ≤ openSections calls ∧
      (openSections calls = 0 → ∀ x ∈ l, ∃ part, f x = some part ∧ openSections part = 0) := by
  induction l with
  | nil =>
    intro calls hcalls
    cases hcalls
    exact ⟨Int.le_refl 0, fun _ x hx => nomatch hx⟩
  | cons x l ih =>
    intro calls hcalls
    obtain ⟨part, rest, hpart, hrest, rfl⟩ := gather_cons.1 hcalls
    obtain ⟨hnonneg, hothers⟩ := ih (fun y hy => h y (List.mem_cons_of_mem _ hy)) hrest
    have hfirst := h x List.mem_cons_self part hpart
    rw [openSections_append]
    refine ⟨Int.add_nonneg hfirst hnonneg, ?_⟩
    intro hzero y hy
    rcases List.mem_cons.1 hy with rfl | hy
    · exact ⟨part, hpart, by omega⟩
    · exact hothers (by omega) y hy

theorem gather_mem {x : α} (hx : x ∈ l) :
    ∀ {calls : List NiCall}, gather f l = some calls → ∃ part, f x = some part ∧ ∀ c ∈ part, c ∈ calls := by
  induction l with
  | nil => cases hx
  | cons y l ih =>
    intro calls hcalls
    obtain ⟨part, rest, hpart, hrest, rfl⟩ := gather_cons.1 hcalls
    rcases List.mem_cons.1 hx with rfl | hx
    · exact ⟨part, hpart, fun c hc => List.mem_append_left _ hc⟩
    · obtain ⟨part', hpart', hmem⟩ := ih hx hrest
      exact ⟨part', hpart', fun c hc => List.mem_append_right _ (hmem c hc)⟩

end

/-! ## Strings -/

/-- The property, if it is there, can stand in a JSON string as it is. -/
def PropOk (fdt : Fdt) (fdtOffset : Option Nat) (propName : String) : Prop :=
  ∀ prop, fdt.getprop fdtOffset propName.toList = some prop → StringContent prop.text

/-- The type of a node, if one is told, can stand in a JSON string as it is. -/
def TypeOk (fdt : Fdt) (fdtOffset : Option Nat) : Prop :=
  ∀ prop, fdt.getprop fdtOffset "type".toList = some prop → 0 < prop.value.length → StringContent prop.text

/-- The strings among the properties of the firmware. -/
def firmwareStrings : List (NiItems × String) :=
  [(.cardName, "card-name"), (.projectName, "project-name"), (.projectVariant, "project-variant"),
    (.projectVersion, "project-version"), (.buildTool, "build-tool"), (.buildAuthor, "build-author"),
    (.buildRevision, "build-revision")]

/-- The strings of the device tree that are printed need no escape. -/
structure StringsOk (fdt : Fdt) (verbose : Nat) : Prop where
  board : PropOk fdt (fdt.pathOffset "/board/".toList) "board-name"
  serial : (∀ prop, fdt.getprop (fdt.pathOffset "/board/".toList) "serial-number".toList = some prop → prop.value.length ≠ 4) →
    PropOk fdt (fdt.pathOffset "/board/".toList) "serial-number-string"
  firmware : ∀ p ∈ firmwareStrings, PropOk fdt (fdt.pathOffset "/firmware/".toList) p.2
  transceivers : verbose ≠ 0 → ∀ offset ∈ transceivers fdt, TypeOk fdt offset
  channels : verbose ≠ 0 → ∀ offset ∈ channelTypes fdt, TypeOk fdt offset
  slots : ∀ endpoint ∈ endpoints fdt, PropOk fdt (some endpoint) "pci-slot"

variable {offsets : List (Option Nat)}

section

variable {n : Nat} {fdt : Fdt} {fdtOffset : Option Nat} {propName : String} {item : NiItems}

theorem nests_propStr (hitem : item.json ≠ niJsonE) (h : PropOk fdt fdtOffset propName) :
    Nests niItems .object n (niFdtPropStr item fdt fdtOffset propName) := by
  unfold niFdtPropStr
  cases hprop : fdt.getprop fdtOffset propName.toList with
  | none => exact .nil
  | some prop => exact nests_str hitem fun _ => h prop hprop

theorem nests_prop32 (hitem : item.json ≠ niJsonE) : Nests niItems .object n (niFdtProp32 item fdt fdtOffset propName) := by
  unfold niFdtProp32
  split
  · exact .nil
  · split
    · exact nests_int hitem _
    · exact .nil

theorem nests_propUint64Tx (hitem : item.json ≠ niJsonE) :
    Nests niItems .object n (niFdtPropUint64Tx item fdt fdtOffset propName) := by
  unfold niFdtPropUint64Tx
  split
  · exact .nil
  · split
    · exact nests_item hitem fun _ => value_xreg _
    · exact .nil

theorem plain_decimal (z : Int) : ∀ c ∈ decimalText z, IsPlain c := by
  have hdigit : ∀ c : Char, c.isDigit = true → IsPlain c := by
    intro c hc
    rw [Char.isDigit, Bool.and_eq_true, decide_eq_true_eq, decide_eq_true_eq] at hc
    refine ⟨Nat.le_trans (by decide) (show 48 ≤ c.toNat from hc.1), ?_, ?_⟩
    · rintro rfl
      exact absurd hc.1 (by decide)
    · rintro rfl
      exact absurd hc.2 (by decide)
  intro c hc
  rcases List.mem_append.1 hc with hc | hc
  · split at hc
    · rw [List.mem_singleton.1 hc]
      decide
    · cases hc
  · exact hdigit c (decimal_digit hc)

theorem content_serial {verbose : Nat} (h : StringsOk fdt verbose) {text : List Char}
    (htext : serialNumber fdt (fdt.pathOffset "/board/".toList) = some text) : StringContent text := by
  have hstring : (∀ prop, fdt.getprop (fdt.pathOffset "/board/".toList) "serial-number".toList = some prop →
      prop.value.length ≠ 4) →
      (fdt.getprop (fdt.pathOffset "/board/".toList) "serial-number-string".toList).map FdtProp.text = some text →
      StringContent text := by
    intro hserial hmap
    obtain ⟨prop, hprop, rfl⟩ := Option.map_eq_some_iff.1 hmap
    exact h.serial hserial prop hprop
  unfold serialNumber at htext
  cases hprop : fdt.getprop (fdt.pathOffset "/board/".toList) "serial-number".toList with
  | none =>
    rw [hprop] at htext
    apply hstring _ htext
    intro prop hp
    rw [hprop] at hp
    cases hp
  | some prop =>
    simp only [hprop] at htext
    by_cases hlen : prop.value.length = 4
    · rw [if_pos hlen, Option.some.injEq] at htext
      rw [← htext]
      exact content_plain fun c hc => plain_decimal _ c (List.mem_of_mem_take hc)
    · rw [if_neg hlen] at htext
      apply hstring _ htext
      intro prop' hp
      rw [hprop] at hp
      rwa [← Option.some.inj hp]

theorem content_type (h : TypeOk fdt fdtOffset) : StringContent (typeText (fdt.getprop fdtOffset "type".toList)) := by
  have hunknown : StringContent "Unknown".toList := content_plain (plain_of_all (by decide))
  cases hprop : fdt.getprop fdtOffset "type".toList with
  | none => exact hunknown
  | some prop =>
    unfold typeText
    dsimp only
    split
    case isTrue hlen => exact h prop hprop hlen
    case isFalse => exact hunknown

/-! ## Sections -/

theorem nests_section {ty : NiJsonType} (hprint : ¬item.json.Skipped) (hkey : ty = .object → item.json ≠ niJsonE)
    (h : Nests niItems .object n calls) : Nests niItems ty (n + 1) (niSection item :: (calls ++ [niEndsection item])) := by
  rw [← niItems_index] at hprint
  apply Nests.section hprint _ h
  intro ho
  rw [niItems_index] at hprint ⊢
  exact NiItems.key_some (hkey ho) hprint

theorem nests_list (hprint : ¬item.json.Skipped) (hkey : item.json ≠ niJsonE) (h : Nests niItems .array n calls) :
    Nests niItems .object (n + 1) (niList item :: (calls ++ [niEndlist item])) := by
  rw [← niItems_index] at hprint
  apply Nests.list hprint _ h
  intro _
  rw [niItems_index] at hprint ⊢
  exact NiItems.key_some hkey hprint

theorem nests_typeSections {sec id type : NiItems} (hsec : ¬sec.json.Skipped) (hid : id.json ≠ niJsonE) (htype : type.json ≠ niJsonE)
    (h : ∀ offset ∈ offsets, TypeOk fdt offset) : Nests niItems .array (n + 1) (typeSections sec id type fdt offsets) := by
  apply Nests.flatten
  intro calls hcalls
  obtain ⟨⟨offset, i⟩, hmem, rfl⟩ := List.mem_map.1 hcalls
  have htext := content_type (h offset (List.fst_mem_of_mem_zipIdx hmem))
  have hsection : Nests niItems .array (n + 1) (niSection sec :: (_ ++ [niEndsection sec])) :=
    nests_section hsec nofun ((nests_int hid (BitVec.ofNat 32 i)).append (nests_str htype fun _ => htext))
  exact hsection

end

section

variable {n : Nat} {dev : Device} {verbose : Nat} {strftime : BitVec 32 → List Char}

theorem nests_board (h : StringsOk dev.fdt verbose) : Nests niItems .object (n + 2) (boardCalls dev verbose) := by
  unfold boardCalls
  refine (((Nests.append ?name ?serial).append ?uid).append ?count).append ?verbose
  case name => exact nests_propStr (by decide) h.board
  case serial =>
    cases htext : serialNumber dev.fdt (dev.fdt.pathOffset "/board/".toList) with
    | none => exact .nil
    | some text => exact nests_str (by decide) fun _ => content_serial h htext
  case uid =>
    split
    · exact nests_propUint64Tx (by decide)
    · exact .nil
  case count => exact nests_int (by decide) _
  case verbose =>
    split
    case isTrue hv =>
      have htypes : Nests niItems .array (n + 1) (typeSections .sec1NetIfcs .ifcId .ifcType dev.fdt (transceivers dev.fdt)) :=
        nests_typeSections (by decide) (by decide) (by decide) (h.transceivers hv)
      exact (nests_list (by decide) (by decide) htypes).append (nests_item (by decide) fun _ => value_double _)
    case isFalse => exact .nil

theorem nests_buildTime {fdt : Fdt} {fdtOffset : Option Nat} : Nests niItems .object n (buildTime fdt fdtOffset strftime) := by
  unfold buildTime
  split
  · exact .nil
  · split
    · exact (nests_str (by decide) fun hprint => absurd ⟨rfl, rfl⟩ hprint).append (nests_int (by decide) _)
    · exact .nil

theorem nests_firmware (h : StringsOk dev.fdt verbose) :
    Nests niItems .object (n + 2) (firmwareCalls dev verbose strftime) := by
  have hstring : ∀ p ∈ firmwareStrings,
      Nests niItems .object (n + 2) (niFdtPropStr p.1 dev.fdt (dev.fdt.pathOffset "/firmware/".toList) p.2) := by
    intro p hp
    have hitem : ∀ q ∈ firmwareStrings, q.1.json ≠ niJsonE := by decide
    exact nests_propStr (hitem p hp) (h.firmware p hp)
  unfold firmwareCalls
  refine ((((((((Nests.append ?card ?name).append ?variant).append ?version).append ?time).append ?tool).append ?author).append
    ?revision).append ?counts).append ?verbose
  case card => exact hstring (.cardName, "card-name") (by decide)
  case name => exact hstring (.projectName, "project-name") (by decide)
  case variant => exact hstring (.projectVariant, "project-variant") (by decide)
  case version => exact hstring (.projectVersion, "project-version") (by decide)
  case time => exact nests_buildTime
  case tool => exact hstring (.buildTool, "build-tool") (by decide)
  case author => exact hstring (.buildAuthor, "build-author") (by decide)
  case revision => exact hstring (.buildRevision, "build-revision") (by decide)
  case counts =>
    have havailable : ∀ (c : Prop) [Decidable c] (a b : NiItems) (val : BitVec 32), a.json ≠ niJsonE → b.json ≠ niJsonE →
        Nests niItems .object (n + 2) [niItemInt (if c then a else b) val] := by
      intro c _ a b val ha hb
      split
      · exact nests_int ha val
      · exact nests_int hb val
    exact (nests_int (by decide) _).append ((havailable _ _ _ _ (by decide) (by decide)).append
      ((nests_int (by decide) _).append ((havailable _ _ _ _ (by decide) (by decide)).append (nests_int (by decide) _))))
  case verbose =>
    split
    case isTrue hv =>
      have htypes : Nests niItems .array (n + 1)
          (typeSections .sec1EthChannels .ethChannelId .ethChannelType dev.fdt (channelTypes dev.fdt)) :=
        nests_typeSections (by decide) (by decide) (by decide) (h.channels hv)
      exact nests_list (by decide) (by decide) htypes
    case isFalse => exact .nil

end

section

variable {n : Nat} {fdt : Fdt} {node : Nat}

theorem plain_speed (speed : BitVec 32) : ∀ c ∈ pciSpeedString speed, IsPlain c := by
  apply plain_of_all
  unfold pciSpeedString
  repeat' split
  all_goals decide

theorem nests_endpointItems (h : PropOk fdt (some node) "pci-slot") :
    Nests niItems .object n (endpointItems fdt node) := by
  refine Nests.append (nests_int (by decide) _) ((((Nests.append ?slot ?speed).append ?width).append ?numa))
  case slot => exact nests_propStr (by decide) h
  case speed =>
    cases fdt.getprop (some node) "pci-speed".toList with
    | none => exact .nil
    | some prop => exact nests_str (by decide) fun _ => content_plain (plain_speed _)
  case width => exact nests_prop32 (by decide)
  case numa => exact nests_prop32 (by decide)

theorem nests_endpoint (hslot : PropOk fdt (some node) "pci-slot")
    (hbars : ∀ bar < 6, ∀ node', barNode fdt (endpointId (fdt.getName node)) bar = some node' →
      SizeFits (fdt.getprop (some node') "mmap_size".toList)) :
    ∃ calls, printEndpointInfo fdt node = some calls ∧ Nests niItems .object (n + 2) calls := by
  have hturn : ∀ bar ∈ List.range 6, ∃ calls, barCalls fdt (endpointId (fdt.getName node)) bar = some calls ∧
      Nests niItems .array (n + 1) calls := fun bar hbar => barCalls_nests (hbars bar (List.mem_range.1 hbar))
  obtain ⟨bars, hgather, hnests⟩ := gather_nests hturn
  unfold printEndpointInfo
  rw [hgather]
  exact ⟨_, rfl, (nests_endpointItems hslot).append (nests_list (by decide) (by decide) hnests)⟩

theorem nests_common {dev : Device} {verbose : Nat} {strftime : BitVec 32 → List Char} (hbars : BarsFit dev.fdt)
    (hstrings : StringsOk dev.fdt verbose) :
    ∃ calls, printCommonInfo dev verbose strftime = some calls ∧ Nests niItems .object 5 calls := by
  have hturn : ∀ node ∈ endpoints dev.fdt, ∃ calls,
      ((printEndpointInfo dev.fdt node).map fun calls => niSection .sec1Pciep :: (calls ++ [niEndsection .sec1Pciep])) =
        some calls ∧ Nests niItems .array 3 calls := by
    intro node hnode
    obtain ⟨calls, hcalls, hnests⟩ := nests_endpoint (n := 0) (hstrings.slots node hnode) (hbars node hnode)
    rw [hcalls]
    exact ⟨_, rfl, nests_section (by decide) nofun hnests⟩
  obtain ⟨calls, hgather, hnests⟩ := gather_nests hturn
  unfold printCommonInfo endpointCalls
  rw [hgather]
  refine ⟨_, rfl, (Nests.append ?board ?firmware).append ?system⟩
  case board => exact nests_section (by decide) (fun _ => by decide) (nests_board hstrings)
  case firmware => exact nests_section (by decide) (fun _ => by decide) (nests_firmware hstrings)
  case system => exact nests_section (by decide) (fun _ => by decide) (nests_list (by decide) (by decide) hnests)

end

/-! ## Sections left open -/

section

variable {fdt : Fdt} {dev : Device} {verbose : Nat} {strftime : BitVec 32 → List Char} {calls : List NiCall} {item : NiItems}
  {fdtOffset : Option Nat} {propName : String}

theorem openSections_items {l : List NiCall} (h : ∀ c ∈ l, ∃ i value, c = .item i value) : openSections l = 0 := by
  induction l with
  | nil => rfl
  | cons c l ih =>
    obtain ⟨i, value, rfl⟩ := h c List.mem_cons_self
    exact ih fun c hc => h c (List.mem_cons_of_mem _ hc)

theorem openSections_propStr : openSections (niFdtPropStr item fdt fdtOffset propName) = 0 := by
  unfold niFdtPropStr
  split <;> rfl

theorem openSections_prop32 : openSections (niFdtProp32 item fdt fdtOffset propName) = 0 := by
  unfold niFdtProp32
  split
  · rfl
  · split <;> rfl

theorem openSections_propUint64Tx : openSections (niFdtPropUint64Tx item fdt fdtOffset propName) = 0 := by
  unfold niFdtPropUint64Tx
  split
  · rfl
  · split <;> rfl

theorem openSections_strings {α : Type} {l : List α} {f : α → List Char} : openSections (l.map fun x => niItemStr item (f x)) = 0 := by
  apply openSections_items
  intro c hc
  obtain ⟨x, -, rfl⟩ := List.mem_map.1 hc
  exact ⟨_, _, rfl⟩

theorem openSections_typeSections {sec id type : NiItems} : openSections (typeSections sec id type fdt offsets) = 0 := by
  apply openSections_parts
  intro calls hcalls
  obtain ⟨x, -, rfl⟩ := List.mem_map.1 hcalls
  rfl

theorem openSections_list : openSections (niList item :: (calls ++ [niEndlist item])) = openSections calls := by
  show openSections (calls ++ [niEndlist item]) = _
  rw [openSections_append]
  exact Int.add_zero _

theorem openSections_section : openSections (niSection item :: (calls ++ [niEndsection item])) = openSections calls := by
  show openSections (calls ++ [niEndsection item]) + 1 = _
  rw [openSections_append]
  exact Int.sub_add_cancel _ 1

theorem openSections_ite {c : Prop} [Decidable c] (h : openSections calls = 0) : openSections (if c then calls else []) = 0 := by
  split
  · exact h
  · rfl

theorem openSections_board : openSections (boardCalls dev verbose) = 0 := by
  have hserial : openSections ((serialNumber dev.fdt (dev.fdt.pathOffset "/board/".toList)).toList.map
      (niItemStr .serialNumber)) = 0 := openSections_strings
  unfold boardCalls
  simp only [openSections_append, openSections_propStr, hserial]
  rw [openSections_ite openSections_propUint64Tx, openSections_ite]
  · rfl
  · rw [openSections_append, openSections_list, openSections_typeSections]
    rfl

theorem openSections_firmware : openSections (firmwareCalls dev verbose strftime) = 0 := by
  have htime : openSections (buildTime dev.fdt (dev.fdt.pathOffset "/firmware/".toList) strftime) = 0 := by
    unfold buildTime
    split
    · rfl
    · split <;> rfl
  unfold firmwareCalls
  simp only [openSections_append, openSections_propStr, htime]
  rw [openSections_ite]
  · rfl
  · rw [openSections_list, openSections_typeSections]

theorem openSections_endpointItems {node : Nat} : openSections (endpointItems fdt node) = 0 := by
  show openSections (_ ++ _) = 0
  simp only [openSections_append, openSections_propStr, openSections_prop32, openSections_strings]
  rfl

theorem endpoint_open {node : Nat} (h : printEndpointInfo fdt node = some calls) : 0 ≤ openSections calls ∧
    (openSections calls = 0 → ∀ bar < 6, ∀ node', barNode fdt (endpointId (fdt.getName node)) bar = some node' →
      SizeFits (fdt.getprop (some node') "mmap_size".toList)) := by
  obtain ⟨bars, hbars, rfl⟩ := Option.map_eq_some_iff.1 h
  obtain ⟨hnonneg, hturns⟩ := gather_open (fun bar _ part hpart => (barCalls_open hpart).1) hbars
  rw [openSections_append, openSections_endpointItems, openSections_list, Int.zero_add]
  refine ⟨hnonneg, ?_⟩
  intro hzero bar hbar
  obtain ⟨part, hpart, hclosed⟩ := hturns hzero bar (List.mem_range.2 hbar)
  exact (barCalls_open hpart).2 hclosed

theorem info_open (h : infoCalls dev verbose strftime = some calls) (hclosed : openSections calls = 0) : BarsFit dev.fdt := by
  obtain ⟨common, hcommon, rfl⟩ := Option.map_eq_some_iff.1 h
  obtain ⟨ends, hends, rfl⟩ := Option.map_eq_some_iff.1 hcommon
  have hturn : ∀ node ∈ endpoints dev.fdt, ∀ part,
      ((printEndpointInfo dev.fdt node).map fun calls => niSection .sec1Pciep :: (calls ++ [niEndsection .sec1Pciep])) =
        some part → 0 ≤ openSections part := by
    intro node _ part hpart
    obtain ⟨inner, hinner, rfl⟩ := Option.map_eq_some_iff.1 hpart
    rw [openSections_section]
    exact (endpoint_open hinner).1
  rw [openSections_section, openSections_append, openSections_append, openSections_section, openSections_section,
    openSections_section, openSections_list, openSections_board, openSections_firmware, Int.zero_add, Int.zero_add] at hclosed
  intro node hnode
  obtain ⟨part, hpart, hzero⟩ := (gather_open hturn hends).2 hclosed node hnode
  obtain ⟨inner, hinner, rfl⟩ := Option.map_eq_some_iff.1 hpart
  rw [openSections_section] at hzero
  exact (endpoint_open hinner).2 hzero

end

/-! ## The output -/

/-- The output for a device is right: no table and no buffer is overrun, the calls are properly nested, and the text is JSON. -/
def InfoRight (dev : Device) (verbose : Nat) (strftime : BitVec 32 → List Char) : Prop :=
  ∃ calls, infoCalls dev verbose strftime = some calls ∧ (∃ t : Calls, t.flatten = calls) ∧
    ∀ stackStates, ∃ text v, printed niItems stackStates calls = some text ∧ Text text v

/-- Every value is printed as a JSON value of its own. -/
def ValuesRight (dev : Device) (verbose : Nat) (strftime : BitVec 32 → List Char) : Prop :=
  ∀ calls, infoCalls dev verbose strftime = some calls → ∀ i value, NiCall.item i value ∈ calls → ¬(niItems i).Skipped →
    ∃ v, Value (value (niJsonFDecimDec (niItems i).flags)) v

section

variable {dev : Device} {verbose : Nat} {strftime : BitVec 32 → List Char} {calls : List NiCall} {fdtOffset : Option Nat}

theorem info_parts (h : infoCalls dev verbose strftime = some calls) : (∀ c ∈ boardCalls dev verbose, c ∈ calls) ∧
    (∀ c ∈ firmwareCalls dev verbose strftime, c ∈ calls) ∧
    ∃ ends, endpointCalls dev.fdt = some ends ∧ ∀ c ∈ ends, c ∈ calls := by
  obtain ⟨common, hcommon, rfl⟩ := Option.map_eq_some_iff.1 h
  obtain ⟨ends, hends, rfl⟩ := Option.map_eq_some_iff.1 hcommon
  refine ⟨?_, ?_, ends, hends, ?_⟩
  · intro c hc
    simp [hc]
  · intro c hc
    simp [hc]
  · intro c hc
    simp [hc]

theorem mem_propStr {fdt : Fdt} {propName : String} {prop : FdtProp} (item : NiItems)
    (hprop : fdt.getprop fdtOffset propName.toList = some prop) :
    niItemStr item prop.text ∈ niFdtPropStr item fdt fdtOffset propName := by
  unfold niFdtPropStr
  rw [hprop]
  exact List.mem_singleton.2 rfl

theorem mem_typeSections {fdt : Fdt} {sec id type : NiItems} (hmem : fdtOffset ∈ offsets) :
    niItemStr type (typeText (fdt.getprop fdtOffset "type".toList)) ∈ typeSections sec id type fdt offsets := by
  obtain ⟨i, hi, rfl⟩ := List.mem_iff_getElem.1 hmem
  refine List.mem_flatten.2 ⟨_, List.mem_map.2 ⟨(offsets[i], i), ?_, rfl⟩, ?_⟩
  · exact List.mk_mem_zipIdx_iff_getElem?.2 (List.getElem?_eq_getElem hi)
  · exact List.mem_cons_of_mem _ (List.mem_cons_of_mem _ List.mem_cons_self)

/-- If all that is printed as a string can stand in one, the properties can. -/
theorem strings_ok (h : infoCalls dev verbose strftime = some calls)
    (hvalues : ∀ item val, ¬item.json.Skipped → niItemStr item val ∈ calls → StringContent val) :
    StringsOk dev.fdt verbose := by
  obtain ⟨hboard, hfirmware, ends, hends, hmem⟩ := info_parts h
  have htype : ∀ {sec id type : NiItems} {offsets : List (Option Nat)}, ¬type.json.Skipped →
      (∀ c ∈ typeSections sec id type dev.fdt offsets, c ∈ calls) → ∀ offset ∈ offsets, TypeOk dev.fdt offset := by
    intro sec id type offsets hprint hsub offset hoffset prop hprop hlen
    have hval := hvalues _ _ hprint (hsub _ (mem_typeSections hoffset))
    have htext : typeText (dev.fdt.getprop offset "type".toList) = prop.text := by
      rw [hprop]
      exact if_pos hlen
    rwa [htext] at hval
  constructor
  case board =>
    intro prop hprop
    apply hvalues .boardName _ (by decide)
    apply hboard
    simp only [boardCalls, List.mem_append, mem_propStr .boardName hprop, true_or]
  case serial =>
    intro hserial prop hprop
    have htext : serialNumber dev.fdt (dev.fdt.pathOffset "/board/".toList) = some prop.text := by
      unfold serialNumber
      rw [hprop]
      cases hnumber : dev.fdt.getprop (dev.fdt.pathOffset "/board/".toList) "serial-number".toList with
      | none => rfl
      | some number => exact if_neg (hserial number hnumber)
    apply hvalues .serialNumber _ (by decide)
    apply hboard
    simp only [boardCalls, List.mem_append, htext, Option.toList_some, List.map_cons, List.mem_cons, true_or, or_true]
  case firmware =>
    intro p hp prop hprop
    have hprint : ∀ q ∈ firmwareStrings, ¬q.1.json.Skipped := by decide
    have hin := mem_propStr p.1 hprop
    apply hvalues p.1 _ (hprint p hp)
    apply hfirmware
    simp only [firmwareStrings, List.mem_cons, List.not_mem_nil, or_false] at hp
    rcases hp with rfl | rfl | rfl | rfl | rfl | rfl | rfl
    all_goals simp only [firmwareCalls, List.mem_append, hin, true_or, or_true]
  case transceivers =>
    intro hv
    apply htype (by decide : ¬NiItems.ifcType.json.Skipped)
    intro c (hc : c ∈ typeSections .sec1NetIfcs .ifcId _ dev.fdt _)
    apply hboard
    simp only [boardCalls, if_pos hv, List.mem_append, List.mem_cons, hc, true_or, or_true]
  case channels =>
    intro hv
    apply htype (by decide : ¬NiItems.ethChannelType.json.Skipped)
    intro c (hc : c ∈ typeSections .sec1EthChannels .ethChannelId _ dev.fdt _)
    apply hfirmware
    simp only [firmwareCalls, if_pos hv, List.mem_append, List.mem_cons, hc, true_or, or_true]
  case slots =>
    intro node hnode prop hprop
    obtain ⟨part, hpart, hsub⟩ := gather_mem hnode hends
    obtain ⟨inner, hinner, rfl⟩ := Option.map_eq_some_iff.1 hpart
    obtain ⟨bars, -, rfl⟩ := Option.map_eq_some_iff.1 hinner
    apply hvalues .pciSlot _ (by decide)
    apply hmem
    apply hsub
    simp only [endpointItems, List.mem_cons, List.mem_append, mem_propStr .pciSlot hprop, true_or, or_true]

/-- The output is right for no device with a BAR node that has no size of eight bytes, or a size of 1 TiB or more. It is right, with every
value printed as a JSON value, if and only if every BAR node has a smaller size and no string that is printed needs an escape. -/
theorem info_json (dev : Device) (verbose : Nat) (strftime : BitVec 32 → List Char) :
    (InfoRight dev verbose strftime → BarsFit dev.fdt) ∧
      (InfoRight dev verbose strftime ∧ ValuesRight dev verbose strftime ↔ BarsFit dev.fdt ∧ StringsOk dev.fdt verbose) := by
  have hbars : InfoRight dev verbose strftime → BarsFit dev.fdt := by
    rintro ⟨calls, hcalls, ⟨t, rfl⟩, -⟩
    exact info_open hcalls (openSections_flatten t)
  refine ⟨hbars, ?_, ?_⟩
  · rintro ⟨hright, hvalues⟩
    obtain ⟨calls, hcalls, -, -⟩ := id hright
    refine ⟨hbars hright, strings_ok hcalls ?_⟩
    intro item val hprint hmem
    have hval := hvalues calls hcalls item.index _ hmem
    rw [niItems_index] at hval
    exact (value_str val).1 (hval hprint)
  · rintro ⟨hfit, hstrings⟩
    obtain ⟨common, hcommon, hnests⟩ : ∃ common, printCommonInfo dev verbose strftime = some common ∧
        Nests niItems .object 5 common := nests_common hfit hstrings
    have hcalls : infoCalls dev verbose strftime = some (niSection .secRoot :: (common ++ [niEndsection .secRoot])) := by
      rw [infoCalls, hcommon]
      rfl
    have hroot : Nests niItems .common 6 (niSection .secRoot :: (common ++ [niEndsection .secRoot])) :=
      nests_section (by decide) nofun hnests
    constructor
    · obtain ⟨t, ht, -⟩ := id hroot
      refine ⟨_, hcalls, ⟨t, ht⟩, ?_⟩
      exact Nests.text (by decide) hnests (by decide)
    · intro calls hcalls' i value hmem hprint
      rw [hcalls, Option.some.injEq] at hcalls'
      subst hcalls'
      exact hroot.values hmem hprint

end

/-- A device with an endpoint, whose first BAR has a node without properties. -/
def sampleDevice : Device where
  fdt := {
    pathOffset path :=
      if path = "/system/device/".toList then some 0
      else if path = "/drivers/mi/PCI0,BAR0".toList then some 2
      else none
    getName _ := some "endpoint0".toList
    getprop _ _ := none
    subnodes _ := [1]
    compatible _ := []
    nodeOffsetByPhandleRef _ _ := none }
  rxQueueCount := 0
  rxQueueAvailableCount := 0
  txQueueCount := 0
  txQueueAvailableCount := 0
  temperature _ := ⟨false, 0, fun _ => 0⟩

/-- The section of a BAR without a size is never closed. -/
theorem bar_stays_open : ¬InfoRight sampleDevice 0 fun _ => [] := by
  rintro ⟨calls, hcalls, ⟨t, rfl⟩, -⟩
  have hopen : (infoCalls sampleDevice 0 fun _ => []).map openSections = some 1 := by decide
  rw [hcalls, Option.map_some, openSections_flatten] at hopen
  exact absurd hopen (by decide)

end NdkSw.Ni

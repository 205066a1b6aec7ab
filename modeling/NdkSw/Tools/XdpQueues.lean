/-
The queue table of the XDP modes of ndptool (`tools/ndptool/xdp/xdp_common.c`): it is as long as the ranges of the selection together,
it is filled with the selected channels that exist, and the loops take the last entry with the number of their queue.
-/
import NdkSw.Tools.ListRange

namespace NdkSw.Tools

open Ndp

/-! ## The table -/

/-- What sysfs says about a channel. -/
structure XdpChannel where
  index : U32
  ifname : List Char
  status : U32

/-- `struct ndp_mode_xdp_xsk_data`; the rings are made later. -/
structure XskData where
  alive : U32
  ethQid : U32
  nfbQid : U32
  ifname : List Char
  deriving DecidableEq, Repr

/-- An entry as `calloc` leaves it. -/
def XskData.zero : XskData := ⟨0, 0, 0, []⟩

/-- The entry of a channel. -/
def fillXskData (channels : Nat → XdpChannel) (ch : Nat) : XskData :=
  ⟨(channels ch).status, (channels ch).index, BitVec.ofNat 32 ch, (channels ch).ifname⟩

/-- `queue_data_arr` with the writes to it, the index of each and what was written. -/
structure QueueTable where
  entries : List XskData
  dataIdx : Nat
  writes : List (Nat × XskData)
  deriving DecidableEq, Repr

/-- One turn of the loop over the channels. -/
def fillEntry (queueRange : ListRange) (channels : Nat → XdpChannel) (t : QueueTable) (ch : Nat) : QueueTable :=
  if listRangeContains queueRange (BitVec.ofNat 32 ch) then
    { entries := t.entries.set t.dataIdx (fillXskData channels ch)
      dataIdx := t.dataIdx + 1
      writes := t.writes ++ [(t.dataIdx, fillXskData channels ch)] }
  else t

/-- The selection and the number of entries: without a selection, all channels. -/
def tableSize (queueRange : ListRange) (channelTotal : U32) : ListRange × U32 :=
  if listRangeCount queueRange = 0 then ((listRangeAddRange queueRange 0 channelTotal).getD queueRange, channelTotal)
  else (queueRange, listRangeCount queueRange)

/-- `xdp_mode_common_parse_queues`; none where it exits, as `calloc` cannot serve a negative count. -/
def xdpModeCommonParseQueues (queueRange : ListRange) (channelTotal : U32) (channels : Nat → XdpChannel) : Option QueueTable :=
  let size := tableSize queueRange channelTotal
  if size.2.slt 0 then none
  else
    let table := (List.range channelTotal.toNat).foldl (fillEntry size.1 channels) ⟨List.replicate size.2.toNat .zero, 0, []⟩
    if size.2 = 0 then none else some table

/-- The lookup of the loops: the index of the last entry with this number. -/
def xskLookup (entries : List XskData) (queueIndex : U32) : Option Nat :=
  entries.zipIdx.foldl (fun found e => if queueIndex = e.1.nfbQid then some e.2 else found) none

/-! ## What is to hold -/

/-- The selected ones of some channels. -/
def selectedOf (queueRange : ListRange) (l : List Nat) : List Nat :=
  l.filter fun ch => listRangeContains queueRange (BitVec.ofNat 32 ch)

/-- The channels that exist and are selected. -/
def selectedChannels (queueRange : ListRange) (channelTotal : U32) : List Nat := selectedOf queueRange (List.range channelTotal.toNat)

/-- The channels that the loops are to find: those that are selected, or all where nothing is. -/
def wantedChannels (queueRange : ListRange) (channelTotal : U32) : List Nat :=
  if listRangeCount queueRange = 0 then List.range channelTotal.toNat else selectedChannels queueRange channelTotal

/-- All writes go to the table, and for every wanted channel the lookup finds the entry that was filled for it. -/
structure TableRight (queueRange : ListRange) (channelTotal : U32) (channels : Nat → XdpChannel) : Prop where
  inside : ∀ t, xdpModeCommonParseQueues queueRange channelTotal channels = some t → ∀ w ∈ t.writes, w.1 < t.entries.length
  found : ∀ ch ∈ wantedChannels queueRange channelTotal, ∃ t i,
    xdpModeCommonParseQueues queueRange channelTotal channels = some t ∧
    xskLookup t.entries (BitVec.ofNat 32 ch) = some i ∧ (i, fillXskData channels ch) ∈ t.writes ∧
    t.entries[i]? = some (fillXskData channels ch)

/-- No count at all; or a count that is not negative, with no more existing channels selected, and just as many if channel 0 is among
them; or a negative count and no existing channel. -/
def CountRight (queueRange : ListRange) (channelTotal : U32) : Prop :=
  let count := listRangeCount queueRange
  let selected := selectedChannels queueRange channelTotal
  count = 0 ∨ (count.slt 0 = true ∧ selected = []) ∨
    (count.slt 0 = false ∧ selected.length ≤ count.toNat ∧ (0 ∈ selected → selected.length = count.toNat))

/-! ## Filling -/

section

variable (queueRange : ListRange) (channels : Nat → XdpChannel)

theorem fillLoop_writes (l : List Nat) (t : QueueTable) :
    (l.foldl (fillEntry queueRange channels) t).writes =
        t.writes ++ ((selectedOf queueRange l).zipIdx t.dataIdx).map (fun e => (e.2, fillXskData channels e.1)) ∧
      (l.foldl (fillEntry queueRange channels) t).entries.length = t.entries.length := by
  induction l generalizing t with
  | nil => exact ⟨(List.append_nil _).symm, rfl⟩
  | cons ch l ih =>
    obtain ⟨hwrites, hlen⟩ := ih (fillEntry queueRange channels t ch)
    rw [List.foldl_cons, hwrites, hlen, fillEntry]
    by_cases hsel : listRangeContains queueRange (BitVec.ofNat 32 ch) = true
    · have hcons : selectedOf queueRange (ch :: l) = ch :: selectedOf queueRange l := List.filter_cons_of_pos hsel
      rw [if_pos hsel, hcons]
      refine ⟨?_, List.length_set ..⟩
      rw [List.zipIdx_cons, List.map_cons, List.append_assoc]
      rfl
    · have hcons : selectedOf queueRange (ch :: l) = selectedOf queueRange l := List.filter_cons_of_neg hsel
      rw [if_neg hsel, hcons]
      exact ⟨rfl, rfl⟩

/-- With room for all of them, the entries stand at the start of the table. -/
theorem fillLoop_entries (l : List Nat) : ∀ (before : List XskData) (writes : List (Nat × XskData)) (left : Nat),
    (selectedOf queueRange l).length ≤ left →
    (l.foldl (fillEntry queueRange channels) ⟨before ++ List.replicate left .zero, before.length, writes⟩).entries =
      before ++ (selectedOf queueRange l).map (fillXskData channels) ++ List.replicate (left - (selectedOf queueRange l).length) .zero := by
  induction l with
  | nil =>
    intro before writes left _
    rw [selectedOf, List.filter_nil, List.map_nil, List.append_nil]
    rfl
  | cons ch l ih =>
    intro before writes left hle
    rw [List.foldl_cons, fillEntry]
    by_cases hsel : listRangeContains queueRange (BitVec.ofNat 32 ch) = true
    · have hcons : selectedOf queueRange (ch :: l) = ch :: selectedOf queueRange l := List.filter_cons_of_pos hsel
      rw [hcons, List.length_cons] at hle
      obtain ⟨left, rfl⟩ := Nat.exists_eq_add_one_of_ne_zero (show left ≠ 0 by omega)
      have hset : (before ++ List.replicate (left + 1) XskData.zero).set before.length (fillXskData channels ch) =
          (before ++ [fillXskData channels ch]) ++ List.replicate left .zero := by
        rw [List.set_append_right _ _ (Nat.le_refl _), Nat.sub_self, List.replicate_succ, List.set_cons_zero, List.append_assoc]
        rfl
      have hlen : (before ++ [fillXskData channels ch]).length = before.length + 1 := List.length_append
      rw [if_pos hsel]
      dsimp only
      rw [hset, ← hlen, ih _ _ left (by omega), hcons, List.map_cons, List.length_cons, Nat.add_sub_add_right, List.append_assoc before]
      rfl
    · have hcons : selectedOf queueRange (ch :: l) = selectedOf queueRange l := List.filter_cons_of_neg hsel
      rw [if_neg hsel, hcons]
      rw [hcons] at hle
      exact ih before writes left hle

/-! ## Lookups -/

theorem lookup_none (q : U32) : ∀ (l : List XskData) (n : Nat) (found : Option Nat), (∀ e ∈ l, q ≠ e.nfbQid) →
    (l.zipIdx n).foldl (fun found e => if q = e.1.nfbQid then some e.2 else found) found = found := by
  intro l
  induction l with
  | nil => exact fun n found _ => rfl
  | cons e l ih =>
    intro n found h
    rw [List.zipIdx_cons, List.foldl_cons, if_neg (h e List.mem_cons_self)]
    exact ih (n + 1) found fun e' he' => h e' (List.mem_cons_of_mem _ he')

theorem xskLookup_last {q : U32} {before after : List XskData} {e : XskData} (he : q = e.nfbQid)
    (hafter : ∀ e' ∈ after, q ≠ e'.nfbQid) : xskLookup (before ++ e :: after) q = some before.length := by
  rw [xskLookup, List.zipIdx_append, List.foldl_append, Nat.zero_add, List.zipIdx_cons, List.foldl_cons, if_pos he]
  exact lookup_none q after _ _ hafter

/-! ## The table -/

/-- The table that is filled for so many channels, with `size` entries. -/
def filledTable (queueRange : ListRange) (channels : Nat → XdpChannel) (total size : Nat) : QueueTable :=
  (List.range total).foldl (fillEntry queueRange channels) ⟨List.replicate size .zero, 0, []⟩

section

variable {queueRange} {total size : Nat}

theorem mem_writes {w : Nat × XskData} : w ∈ (filledTable queueRange channels total size).writes ↔
    ∃ ch, (selectedOf queueRange (List.range total))[w.1]? = some ch ∧ w.2 = fillXskData channels ch := by
  have hwrites := (fillLoop_writes queueRange channels (List.range total)
    ⟨List.replicate size .zero, 0, []⟩).1
  rw [filledTable, hwrites, List.nil_append, List.mem_map]
  constructor
  · rintro ⟨⟨ch, i⟩, hmem, rfl⟩
    exact ⟨ch, List.mem_zipIdx_iff_getElem?.1 hmem, rfl⟩
  · rintro ⟨ch, hch, hw⟩
    exact ⟨(ch, w.1), List.mem_zipIdx_iff_getElem?.2 hch, Prod.ext rfl hw.symm⟩

theorem length_entries_table : (filledTable queueRange channels total size).entries.length = size := by
  rw [filledTable, (fillLoop_writes queueRange channels (List.range total) _).2]
  exact List.length_replicate ..

theorem tableWrites_inside_iff : (∀ w ∈ (filledTable queueRange channels total size).writes,
      w.1 < (filledTable queueRange channels total size).entries.length) ↔
    (selectedOf queueRange (List.range total)).length ≤ size := by
  rw [length_entries_table]
  constructor
  · intro h
    by_contra hlong
    have hlt : size < (selectedOf queueRange (List.range total)).length := by omega
    have hw := h (size, fillXskData channels (selectedOf queueRange (List.range total))[size])
      ((mem_writes channels).2 ⟨_, List.getElem?_eq_getElem hlt, rfl⟩)
    exact absurd hw (Nat.lt_irrefl size)
  · intro h w hw
    obtain ⟨ch, hch, -⟩ := (mem_writes channels).1 hw
    obtain ⟨hlt, -⟩ := List.getElem?_eq_some_iff.1 hch
    omega

/-- A selected channel is found, if it is not channel 0 or there are no entries left over. -/
theorem table_found (htotal : total < 2 ^ 32) (hle : (selectedOf queueRange (List.range total)).length ≤ size) {ch : Nat}
    (hch : ch ∈ selectedOf queueRange (List.range total))
    (hzero : ch ≠ 0 ∨ (selectedOf queueRange (List.range total)).length = size) :
    ∃ i, xskLookup (filledTable queueRange channels total size).entries (BitVec.ofNat 32 ch) = some i ∧
      (i, fillXskData channels ch) ∈ (filledTable queueRange channels total size).writes ∧
      (filledTable queueRange channels total size).entries[i]? = some (fillXskData channels ch) := by
  have hentries := fillLoop_entries queueRange channels (List.range total) [] [] size hle
  have hsmall : ∀ c ∈ selectedOf queueRange (List.range total), c < 2 ^ 32 := fun c hc =>
    (List.mem_range.1 (List.mem_of_mem_filter hc)).trans htotal
  have hnodup : (selectedOf queueRange (List.range total)).Nodup := List.nodup_range.filter _
  obtain ⟨before, after, hsel⟩ := List.append_of_mem hch
  have hsplit : (filledTable queueRange channels total size).entries =
      before.map (fillXskData channels) ++ fillXskData channels ch ::
        (after.map (fillXskData channels) ++
          List.replicate (size - (selectedOf queueRange (List.range total)).length) XskData.zero) := by
    refine hentries.trans ?_
    rw [List.nil_append, hsel, List.map_append, List.map_cons, List.append_assoc]
    rfl
  have hafter : ∀ e ∈ after.map (fillXskData channels) ++
      List.replicate (size - (selectedOf queueRange (List.range total)).length) XskData.zero, BitVec.ofNat 32 ch ≠ e.nfbQid := by
    intro e he heq
    rcases List.mem_append.1 he with he | he
    · obtain ⟨c, hc, rfl⟩ := List.mem_map.1 he
      have hcsel : c ∈ selectedOf queueRange (List.range total) := by
        rw [hsel]
        exact List.mem_append_right _ (List.mem_cons_of_mem _ hc)
      have hsame : ch = c := by
        have hnat := congrArg BitVec.toNat heq
        rw [fillXskData, BitVec.toNat_ofNat, BitVec.toNat_ofNat, Nat.mod_eq_of_lt (hsmall ch hch),
          Nat.mod_eq_of_lt (hsmall c hcsel)] at hnat
        exact hnat
      rw [hsel, List.nodup_append] at hnodup
      exact (List.nodup_cons.1 hnodup.2.1).1 (hsame ▸ hc)
    · obtain ⟨hpos, rfl⟩ := List.mem_replicate.1 he
      rcases hzero with hne | hfull
      · have hnat := congrArg BitVec.toNat heq
        rw [BitVec.toNat_ofNat, Nat.mod_eq_of_lt (hsmall ch hch)] at hnat
        exact hne hnat
      · exact hpos (by omega)
  refine ⟨before.length, ?_, ?_, ?_⟩
  · rw [hsplit, xskLookup_last (show BitVec.ofNat 32 ch = (fillXskData channels ch).nfbQid from rfl) hafter, List.length_map]
  · refine (mem_writes channels).2 ⟨ch, ?_, rfl⟩
    rw [hsel, List.getElem?_append_right (Nat.le_refl _), Nat.sub_self]
    rfl
  · rw [hsplit, List.getElem?_append_right (by rw [List.length_map]), List.length_map, Nat.sub_self]
    rfl

theorem table_zero (hlt : (selectedOf queueRange (List.range total)).length < size) :
    xskLookup (filledTable queueRange channels total size).entries 0 = some (size - 1) := by
  have hentries := fillLoop_entries queueRange channels (List.range total) [] [] size (Nat.le_of_lt hlt)
  have hlast : (filledTable queueRange channels total size).entries =
      ((selectedOf queueRange (List.range total)).map (fillXskData channels) ++
        List.replicate (size - (selectedOf queueRange (List.range total)).length - 1) XskData.zero) ++ XskData.zero :: [] := by
    refine hentries.trans ?_
    rw [List.nil_append, List.append_assoc, ← List.replicate_succ', Nat.sub_add_cancel (by omega)]
  rw [hlast, xskLookup_last (show (0 : U32) = XskData.zero.nfbQid from rfl) (fun e he => absurd he List.not_mem_nil),
    List.length_append, List.length_map, List.length_replicate]
  congr 1
  omega

end

end

/-! ## The result -/

section

variable {queueRange : ListRange} {channelTotal : U32} (channels : Nat → XdpChannel)

theorem parseQueues_some {range : ListRange} {size : U32} (hsize : tableSize queueRange channelTotal = (range, size))
    (hneg : size.slt 0 = false) (hne : size ≠ 0) : xdpModeCommonParseQueues queueRange channelTotal channels =
      some (filledTable range channels channelTotal.toNat size.toNat) := by
  unfold xdpModeCommonParseQueues
  rw [hsize]
  dsimp only
  rw [if_neg (by rw [hneg]; exact Bool.false_ne_true), if_neg hne]
  rfl

theorem tableRight_of {range : ListRange} {size : U32} (hsize : tableSize queueRange channelTotal = (range, size))
    (hneg : size.slt 0 = false) (hne : size ≠ 0)
    (hsub : ∀ ch ∈ wantedChannels queueRange channelTotal, ch ∈ selectedChannels range channelTotal)
    (hle : (selectedChannels range channelTotal).length ≤ size.toNat)
    (hzero : 0 ∈ selectedChannels range channelTotal → (selectedChannels range channelTotal).length = size.toNat) :
    TableRight queueRange channelTotal channels := by
  have hparse := parseQueues_some channels hsize hneg hne
  constructor
  · intro t ht
    rw [hparse] at ht
    cases ht
    exact (tableWrites_inside_iff channels).2 hle
  · intro ch hch
    have hsel := hsub ch hch
    have hcase : ch ≠ 0 ∨ (selectedChannels range channelTotal).length = size.toNat := by
      by_cases h : ch = 0
      · exact .inr (hzero (h ▸ hsel))
      · exact .inl h
    obtain ⟨i, hfound, hwrite, hentry⟩ := table_found channels channelTotal.isLt hle hsel hcase
    exact ⟨_, i, hparse, hfound, hwrite, hentry⟩

/-- The table is right if and only if the count of the selection is. -/
theorem table_right_iff (htotal : 1 ≤ channelTotal.toInt) :
    TableRight queueRange channelTotal channels ↔ CountRight queueRange channelTotal := by
  have hsmall : channelTotal.toNat < 2 ^ 31 ∧ 1 ≤ channelTotal.toNat := by
    have hlt := channelTotal.isLt
    rw [BitVec.toInt_eq_toNat_cond] at htotal
    split at htotal <;> omega
  have hpos : channelTotal.slt 0 = false := by
    rw [BitVec.slt_eq_decide, decide_eq_false_iff_not]
    exact not_lt.2 (Int.le_of_lt (Int.lt_of_lt_of_le Int.zero_lt_one htotal))
  have hne : channelTotal ≠ 0 := fun he => by
    rw [he] at hsmall
    exact absurd hsmall.2 (by decide)
  by_cases hcount : listRangeCount queueRange = 0
  · -- nothing counted: all channels are added, and there is an entry for each
    refine iff_of_true ?_ (.inl hcount)
    have hle : (0 : U32).toInt ≤ channelTotal.toInt := Int.le_of_lt (Int.lt_of_lt_of_le Int.zero_lt_one htotal)
    let range := queueRange ++ [{ min := 0, max := channelTotal, ordered := hle : RangeItem }]
    have hsize : tableSize queueRange channelTotal = (range, channelTotal) := by
      rw [tableSize, if_pos hcount, listRangeAddRange, dif_pos hle]
      rfl
    have hall : selectedChannels range channelTotal = List.range channelTotal.toNat := by
      refine List.filter_eq_self.2 fun ch hch => ?_
      have hlt := List.mem_range.1 hch
      refine contains_iff.2 ⟨_, List.mem_append_right _ (List.mem_singleton_self _), ?_⟩
      have htoInt : (BitVec.ofNat 32 ch).toInt = ch := by
        rw [BitVec.toInt_eq_toNat_of_lt, BitVec.toNat_ofNat, Nat.mod_eq_of_lt (by omega)]
        rw [BitVec.toNat_ofNat, Nat.mod_eq_of_lt (by omega)]
        omega
      have htotalInt : channelTotal.toInt = channelTotal.toNat := BitVec.toInt_eq_toNat_of_lt (by omega)
      rw [htoInt]
      show (0 : U32).toInt ≤ (ch : Int) ∧ (ch : Int) ≤ channelTotal.toInt
      rw [htotalInt]
      exact ⟨Int.natCast_nonneg ch, by omega⟩
    refine tableRight_of channels hsize hpos hne (fun ch hch => ?_) ?_ fun _ => ?_
    · rw [wantedChannels, if_pos hcount] at hch
      rw [hall]
      exact hch
    · rw [hall, List.length_range]
    · rw [hall, List.length_range]
  · have hsize : tableSize queueRange channelTotal = (queueRange, listRangeCount queueRange) := if_neg hcount
    have hwanted : wantedChannels queueRange channelTotal = selectedChannels queueRange channelTotal := if_neg hcount
    cases hneg : (listRangeCount queueRange).slt 0 with
    | true =>
      have hnone : xdpModeCommonParseQueues queueRange channelTotal channels = none := by
        unfold xdpModeCommonParseQueues
        rw [hsize]
        exact if_pos hneg
      constructor
      · intro h
        refine .inr (.inl ⟨hneg, List.eq_nil_iff_forall_not_mem.2 fun ch hch => ?_⟩)
        obtain ⟨t, i, ht, -⟩ := h.found ch (hwanted ▸ hch)
        rw [hnone] at ht
        cases ht
      · intro h
        have hnil : selectedChannels queueRange channelTotal = [] := by
          rcases h with hz | ⟨-, hnil⟩ | ⟨hno, -⟩
          · exact absurd hz hcount
          · exact hnil
          · exact nomatch hneg.symm.trans hno
        refine ⟨fun t ht => ?_, fun ch hch => ?_⟩
        · rw [hnone] at ht
          cases ht
        · rw [hwanted, hnil] at hch
          cases hch
    | false =>
      constructor
      · intro h
        have hparse := parseQueues_some channels hsize hneg hcount
        have hle := (tableWrites_inside_iff channels).1 (h.inside _ hparse)
        refine .inr (.inr ⟨hneg, hle, fun hzero => ?_⟩)
        by_contra hnot
        -- the lookup of channel 0 finds an entry that is left over
        have hlt : (selectedChannels queueRange channelTotal).length < (listRangeCount queueRange).toNat := lt_of_le_of_ne hle hnot
        obtain ⟨t, i, ht, hfound, hwrite, -⟩ := h.found 0 (hwanted ▸ hzero)
        rw [hparse] at ht
        cases ht
        obtain ⟨ch, hch, -⟩ := (mem_writes channels).1 hwrite
        obtain ⟨hi, -⟩ := List.getElem?_eq_some_iff.1 hch
        have hlast := Option.some.inj (hfound.symm.trans (table_zero channels hlt))
        have hi' : i < (selectedChannels queueRange channelTotal).length := hi
        omega
      · intro h
        rcases h with hz | ⟨hyes, -⟩ | ⟨-, hle, hzero⟩
        · exact absurd hz hcount
        · exact nomatch hneg.symm.trans hyes
        · exact tableRight_of channels hsize hneg hcount (fun ch hch => hwanted ▸ hch) hle hzero

end

def openChannels (ch : Nat) : XdpChannel := ⟨BitVec.ofNat 32 ch, ['n', 'f', 'b'], 1⟩

/-- A selection of channel 0 and another one, as the parser makes it. -/
def zeroAnd (x : U32) : ListRange := listRangeAddNumber (listRangeAddNumber [] 0) x

theorem table_right_two : TableRight (zeroAnd 1) 2 openChannels :=
  (table_right_iff openChannels (by decide)).2 (by right; right; decide)

/-- With a channel that does not exist beside it, channel 0 gets the entry that was not filled. -/
theorem table_loses_zero : ¬ TableRight (zeroAnd 100) 2 openChannels := by
  intro h
  have hparse : xdpModeCommonParseQueues (zeroAnd 100) 2 openChannels =
      some ⟨[fillXskData openChannels 0, .zero], 1, [(0, fillXskData openChannels 0)]⟩ := by decide
  obtain ⟨t, i, ht, hfound, hwrite, -⟩ := h.found 0 (by decide)
  rw [hparse] at ht
  cases ht
  have hlast : xskLookup [fillXskData openChannels 0, .zero] 0 = some 1 := by decide
  obtain rfl := Option.some.inj (hfound.symm.trans hlast)
  have hzero := congrArg Prod.fst (List.mem_singleton.1 hwrite)
  exact absurd hzero (by decide)

end NdkSw.Tools

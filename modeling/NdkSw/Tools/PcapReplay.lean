/-
The packet sources of the transmit mode of `ndptool` (`transmit.c`): packets of a PCAP file, read record by record, or from a cache that
was filled before. Memory can always be allocated, reading has no errors but the end of the file, and there are no limits.
-/
import NdkSw.Ndp.Channel
import NdkSw.Shared.Replay

namespace NdkSw.Pcap

open Ndp Shared

/-! ## Files -/

/-- `FILE`. -/
structure File where
  bytes : List U8
  pos : Nat
  eof : Bool
  deriving DecidableEq, Repr

/-- `fread(.., n, 1, file)`; nothing is read if not all of it is there. -/
def fread (file : File) (n : Nat) : Option (List U8) × File :=
  if n = 0 then (none, file)
  else if file.bytes.length < file.pos + n then (none, { file with pos := max file.pos file.bytes.length, eof := true })
  else (some ((file.bytes.drop file.pos).take n), { file with pos := file.pos + n })

/-- `fseek(.., SEEK_SET)`. -/
def fseek (file : File) (pos : Nat) : File := { file with pos := pos, eof := false }

/-- `sizeof(struct pcap_hdr_s)`. -/
def pcapHdrSize : Nat := 24

/-- `sizeof(struct pcaprec_hdr_s)`. -/
def pcaprecHdrSize : Nat := 16

/-- The member `incl_len` of a record header. -/
def inclLen (phdr : List U8) : U32 := phdr.getD 11 0 ++ phdr.getD 10 0 ++ phdr.getD 9 0 ++ phdr.getD 8 0

/-! ## The cache -/

/-- `struct pcap_cache`; the number of items is the length of the lists. -/
structure PcapCache where
  capacity : Nat
  packets : List (List U8)
  sizes : List U32
  offset : Nat
  deriving DecidableEq, Repr

def defaultCacheCapacity : Nat := 1024

/-- The loop of `pcap_cache_create`; no result if it needs more rounds. -/
def cacheLoop : Nat → PcapCache → File → Option (Int × PcapCache × File)
  | 0, _, _ => none
  | fuel + 1, cache, file =>
    match fread file pcaprecHdrSize with
    | (none, file) => some (if file.eof then 0 else -1, cache, file)
    | (some phdr, file) =>
      match fread file (inclLen phdr).toNat with
      | (none, file) => some (-1, cache, file)
      | (some data, file) =>
        let cache := { cache with sizes := cache.sizes ++ [inclLen phdr], packets := cache.packets ++ [data] }
        cacheLoop fuel (if cache.packets.length = cache.capacity then { cache with capacity := cache.capacity * 2 } else cache) file

/-! ## Sources -/

/-- `struct pcap_src`. -/
structure PcapSrc where
  isCached : Bool
  file : File
  loops : U32
  currentLoop : U32
  cache : PcapCache
  deriving DecidableEq, Repr

/-- `pcap_src_open`; the number of loops is cut to an `unsigned`. -/
def pcapSrcOpen (fuel : Nat) (bytes : List U8) (loops : U64) (doCache : Bool) : Option (Int × PcapSrc) :=
  let cache : PcapCache := ⟨defaultCacheCapacity, [], [], 0⟩
  match fread ⟨bytes, 0, false⟩ pcapHdrSize with
  | (none, file) => some (-1, ⟨doCache, file, loops.setWidth 32, 1, cache⟩)
  | (some _, file) =>
    if doCache then (cacheLoop fuel cache file).map fun r => (r.1, ⟨doCache, r.2.2, loops.setWidth 32, 1, r.2.1⟩)
    else some (0, ⟨doCache, file, loops.setWidth 32, 1, cache⟩)

/-- The test for another pass over the file. -/
def PcapSrc.again (src : PcapSrc) : Prop := src.loops = 0 ∨ src.currentLoop < src.loops

instance (src : PcapSrc) : Decidable src.again := inferInstanceAs (Decidable (_ ∨ _))

/-- The lengths of the packets that are left in this pass. -/
def fillMetaRest (src : PcapSrc) (cnt : Nat) : PcapSrc × List U32 :=
  let left := src.cache.sizes.length - src.cache.offset
  (src, (src.cache.sizes.drop src.cache.offset).take (if left ≤ cnt then left else cnt))

/-- `pcap_src_burst_fill_meta`, cached. -/
def fillMetaCached (src : PcapSrc) (cnt : Nat) : PcapSrc × List U32 :=
  if src.cache.offset = src.cache.sizes.length then
    if src.again then fillMetaRest { src with currentLoop := src.currentLoop + 1, cache := { src.cache with offset := 0 } } cnt
    else (src, [])
  else fillMetaRest src cnt

/-- `pcap_src_burst_fill_meta`, not cached. -/
def fillMetaFile (src : PcapSrc) : PcapSrc × List U32 :=
  match fread src.file pcaprecHdrSize with
  | (some phdr, file) => ({ src with file := file }, [inclLen phdr])
  | (none, file) =>
    if file.eof then
      if src.again then
        match fread (fseek file pcapHdrSize) pcaprecHdrSize with
        | (some phdr, file) => ({ src with file := file, currentLoop := src.currentLoop + 1 }, [inclLen phdr])
        | (none, file) => ({ src with file := file }, [])
      else ({ src with file := file }, [])
    else ({ src with file := file }, [])

/-- `pcap_src_burst_fill_meta`. -/
def pcapSrcBurstFillMeta (src : PcapSrc) (cnt : Nat) : PcapSrc × List U32 :=
  if cnt = 0 then (src, []) else if src.isCached then fillMetaCached src cnt else fillMetaFile src

/-- `pcap_src_burst_fill_data`, for packets of these lengths. -/
def pcapSrcBurstFillData (src : PcapSrc) (lens : List U32) : PcapSrc × List (List U8) :=
  if lens = [] then (src, [])
  else if src.isCached then
    ({ src with cache := { src.cache with offset := src.cache.offset + lens.length } },
      List.zipWith (fun len packet => packet.take len.toNat) lens (src.cache.packets.drop src.cache.offset))
  else
    match fread src.file (lens.headD 0).toNat with
    | (some data, file) => ({ src with file := file }, [data])
    | (none, file) => ({ src with file := file }, [])

/-! ## The loop -/

/-- What one round of the loop meets: the size of the burst, and for how many packets the queue has room in the end. -/
structure Round where
  burst : Nat
  grant : Nat
  burst_pos : 0 < burst
  grant_pos : 0 < grant

/-- A round of `ndp_mode_transmit_loop`: the packets that are sent; none at the end of the source. -/
def transmitRound (src : PcapSrc) (round : Round) : Option (PcapSrc × List (List U8)) :=
  let ready := pcapSrcBurstFillMeta src round.burst
  if ready.2 = [] then none else some (pcapSrcBurstFillData ready.1 (ready.2.take round.grant))

/-- The transmission of a file, until the source ends or the rounds are over; no result if the file cannot be opened. -/
def transmit (fuel : Nat) (bytes : List U8) (loops : U64) (doCache : Bool) (rounds : List Round) : Option (Delivery (List U8)) :=
  match pcapSrcOpen fuel bytes loops doCache with
  | some (ret, src) => if ret = 0 then some (runRounds transmitRound src rounds) else none
  | none => none

/-! ## Well-formed files -/

/-- A record with its packet, which is not empty. -/
structure Record where
  phdr : List U8
  data : List U8
  length_phdr : phdr.length = pcaprecHdrSize
  incl : (inclLen phdr).toNat = data.length
  pos : 0 < data.length

/-- A header and records. -/
structure PcapFile where
  hdr : List U8
  records : List Record
  length_hdr : hdr.length = pcapHdrSize

def Record.bytes (r : Record) : List U8 := r.phdr ++ r.data

def PcapFile.bytes (f : PcapFile) : List U8 := f.hdr ++ (f.records.map Record.bytes).flatten

/-- The packets of a file. -/
def PcapFile.packets (f : PcapFile) : List (List U8) := f.records.map Record.data

/-- What is asked of a source: it delivers the packets of the file as often as requested. -/
structure ReplaysFile (f : PcapFile) (loops : U64) (rounds : List Round) (out : Delivery (List U8)) : Prop where
  replays : Replays (repeated f.packets loops.toNat) rounds.length out
  all : loops ≠ 0 → out.ended = true → out.items = (List.replicate loops.toNat f.packets).flatten

/-- Both sources deliver what is asked, so they agree: one has delivered the first packets of the other one, whatever the bursts were. -/
structure SourcesAgree (f : PcapFile) (loops : U64) (fuel : Nat) : Prop where
  deliver : ∀ doCache rounds, ∃ out, transmit fuel f.bytes loops doCache rounds = some out ∧ ReplaysFile f loops rounds out
  agree : ∀ rounds rounds' out out', transmit fuel f.bytes loops true rounds = some out →
    transmit fuel f.bytes loops false rounds' = some out' →
    (out.items <+: out'.items ∨ out'.items <+: out.items) ∧ (out.ended = true → out'.ended = true → out.items = out'.items)

/-! ## Reading records -/

variable {n : Nat}

section

variable {pre rest : List U8} {eof : Bool}

theorem fread_here (bytes : List U8) (hb : bytes ≠ []) :
    fread ⟨pre ++ (bytes ++ rest), pre.length, eof⟩ bytes.length = (some bytes, ⟨pre ++ (bytes ++ rest), pre.length + bytes.length, eof⟩) := by
  have hpos := List.length_pos_of_ne_nil hb
  unfold fread
  dsimp only
  rw [if_neg (by omega), if_neg (by rw [List.length_append, List.length_append]; omega), List.drop_left, List.take_left]

theorem fread_end (hn : 0 < n) : fread ⟨pre, pre.length, eof⟩ n = (none, ⟨pre, pre.length, true⟩) := by
  unfold fread
  dsimp only
  rw [if_neg (by omega), if_pos (by omega), Nat.max_self]

end

section

variable {f : PcapFile} {r : Record} {j : Nat} {eof : Bool} {loops : U32} {src : PcapSrc}

/-- What is in front of a record. -/
def PcapFile.before (f : PcapFile) (j : Nat) : List U8 := f.hdr ++ ((f.records.take j).map Record.bytes).flatten

theorem before_zero (f : PcapFile) : f.before 0 = f.hdr := List.append_nil _

theorem before_all (f : PcapFile) : f.before f.records.length = f.bytes := by
  rw [PcapFile.before, List.take_length]
  rfl

theorem before_succ (hr : f.records[j]? = some r) : f.before (j + 1) = f.before j ++ r.phdr ++ r.data := by
  unfold PcapFile.before
  rw [List.take_add_one, hr, List.map_append, List.flatten_append]
  simp [Record.bytes]

theorem bytes_at (hr : f.records[j]? = some r) :
    f.bytes = f.before j ++ (r.phdr ++ (r.data ++ ((f.records.drop (j + 1)).map Record.bytes).flatten)) := by
  obtain ⟨hj, rfl⟩ := List.getElem?_eq_some_iff.1 hr
  have hsplit := List.take_append_drop j f.records
  rw [List.drop_eq_getElem_cons hj] at hsplit
  have hflat := congrArg (fun l => (l.map Record.bytes).flatten) hsplit
  rw [PcapFile.bytes, ← hflat]
  simp only [PcapFile.before, Record.bytes, List.map_append, List.map_cons, List.flatten_append, List.flatten_cons, List.append_assoc]

theorem phdr_ne_nil (r : Record) : r.phdr ≠ [] := by
  intro h
  have hlen := r.length_phdr
  rw [h] at hlen
  exact absurd hlen (by decide)

theorem data_ne_nil (r : Record) : r.data ≠ [] := List.ne_nil_of_length_pos r.pos

theorem fread_phdr (hr : f.records[j]? = some r) : fread ⟨f.bytes, (f.before j).length, eof⟩ pcaprecHdrSize =
    (some r.phdr, ⟨f.bytes, (f.before j ++ r.phdr).length, eof⟩) := by
  rw [bytes_at hr, ← r.length_phdr, fread_here r.phdr (phdr_ne_nil r), List.length_append]

theorem fread_data (hr : f.records[j]? = some r) : fread ⟨f.bytes, (f.before j ++ r.phdr).length, eof⟩ (inclLen r.phdr).toNat =
    (some r.data, ⟨f.bytes, (f.before (j + 1)).length, eof⟩) := by
  rw [bytes_at hr, r.incl, ← List.append_assoc, fread_here r.data (data_ne_nil r), before_succ hr, ← List.length_append]

theorem fread_last : fread ⟨f.bytes, (f.before f.records.length).length, eof⟩ pcaprecHdrSize =
    (none, ⟨f.bytes, (f.before f.records.length).length, true⟩) := by
  rw [before_all]
  exact fread_end (by decide)

theorem length_packets (f : PcapFile) : f.packets.length = f.records.length := List.length_map _

/-! ## Filling the cache -/

/-- The lengths in the cache. -/
def PcapFile.sizes (f : PcapFile) : List U32 := f.records.map fun r => inclLen r.phdr

/-- The cache holds the first `j` records, and there is room for one more. -/
structure CacheHolds (f : PcapFile) (j : Nat) (cache : PcapCache) : Prop where
  packets : cache.packets = f.packets.take j
  sizes : cache.sizes = f.sizes.take j
  offset : cache.offset = 0
  room : cache.packets.length < cache.capacity

theorem cacheLoop_spec (f : PcapFile) (eof : Bool) : ∀ k j cache, f.records.length - j = k → j ≤ f.records.length → CacheHolds f j cache → ∀ fuel > k,
    ∃ cache' file', cacheLoop fuel cache ⟨f.bytes, (f.before j).length, eof⟩ = some (0, cache', file') ∧
      CacheHolds f f.records.length cache' := by
  intro k
  induction k with
  | zero =>
    intro j cache hk hle hcache fuel hfuel
    obtain ⟨fuel, rfl⟩ := Nat.exists_eq_add_one_of_ne_zero (Nat.ne_of_gt hfuel)
    obtain rfl : j = f.records.length := by omega
    unfold cacheLoop
    rw [fread_last]
    exact ⟨cache, _, rfl, hcache⟩
  | succ k ih =>
    intro j cache hk hle hcache fuel hfuel
    obtain ⟨fuel, rfl⟩ := Nat.exists_eq_add_one_of_ne_zero (show fuel ≠ 0 by omega)
    have hj : j < f.records.length := by omega
    have hr : f.records[j]? = some f.records[j] := List.getElem?_eq_getElem hj
    have hpacket : f.packets[j]? = some f.records[j].data := by
      rw [PcapFile.packets, List.getElem?_map, hr]
      rfl
    have hsize : f.sizes[j]? = some (inclLen f.records[j].phdr) := by
      rw [PcapFile.sizes, List.getElem?_map, hr]
      rfl
    unfold cacheLoop
    rw [fread_phdr hr]
    dsimp only
    rw [fread_data hr]
    dsimp only
    refine ih (j + 1) _ (by omega) (by omega) ?_ fuel (by omega)
    have hroom := hcache.room
    have hpackets : cache.packets ++ [f.records[j].data] = f.packets.take (j + 1) := by
      rw [hcache.packets, List.take_add_one, hpacket]
      rfl
    have hsizes : cache.sizes ++ [inclLen f.records[j].phdr] = f.sizes.take (j + 1) := by
      rw [hcache.sizes, List.take_add_one, hsize]
      rfl
    have hlen : (cache.packets ++ [f.records[j].data]).length = cache.packets.length + 1 := List.length_append
    -- the capacity is doubled when the cache is full
    split_ifs with hfull
    · refine ⟨hpackets, hsizes, hcache.offset, ?_⟩
      dsimp only at hfull ⊢
      omega
    · refine ⟨hpackets, hsizes, hcache.offset, ?_⟩
      dsimp only at hfull ⊢
      omega

/-! ## The sources -/

theorem transmitRound_eq {ready : PcapSrc × List U32} {round : Round} (h : pcapSrcBurstFillMeta src round.burst = ready) :
    transmitRound src round = if ready.2 = [] then none else some (pcapSrcBurstFillData ready.1 (ready.2.take round.grant)) := by
  unfold transmitRound
  rw [h]

/-- The cached source has delivered `n` packets. -/
structure CachedAt (f : PcapFile) (loops : U32) (src : PcapSrc) (n : Nat) : Prop where
  cached : src.isCached = true
  loops_eq : src.loops = loops
  packets : src.cache.packets = f.packets
  sizes : src.cache.sizes = f.sizes
  cursor : Cursor f.packets.length loops.toNat n src.cache.offset src.currentLoop.toNat

/-- The source that is not cached has delivered `n` packets. -/
structure FileAt (f : PcapFile) (loops : U32) (src : PcapSrc) (n : Nat) : Prop where
  direct : src.isCached = false
  loops_eq : src.loops = loops
  cursor : ∃ j, src.file.bytes = f.bytes ∧ src.file.pos = (f.before j).length ∧
    Cursor f.packets.length loops.toNat n j src.currentLoop.toNat

theorem again_iff (h : src.loops = loops) : src.again ↔ loops.toNat = 0 ∨ src.currentLoop.toNat < loops.toNat := by
  have hzero : loops = 0 ↔ loops.toNat = 0 := ⟨fun he => he ▸ rfl, fun he => BitVec.eq_of_toNat_eq he⟩
  unfold PcapSrc.again
  rw [h, hzero]
  rfl

theorem Cursor.next {len : Nat} {current : U32} (h : Cursor len loops.toNat n len current.toNat)
    (hmore : loops.toNat = 0 ∨ current.toNat < loops.toNat) : Cursor len loops.toNat n 0 (current + 1).toNat := by
  obtain ⟨k, hn, hj, hk⟩ := h.wrap hmore
  refine ⟨k, hn, hj, ?_⟩
  have hlt := loops.isLt
  rcases hmore with hzero | hlt'
  · exact Or.inl hzero
  · have hsucc : (current + 1).toNat = current.toNat + 1 := by
      rw [BitVec.toNat_add]
      exact Nat.mod_eq_of_lt (lt_of_le_of_lt hlt' hlt)
    rwa [hsucc]

theorem zipWith_take_map (l : List Record) : ∀ m, List.zipWith (fun len packet => packet.take len.toNat)
    ((l.map fun r => inclLen r.phdr).take m) (l.map Record.data) = (l.map Record.data).take m := by
  induction l with
  | nil => intro m; simp
  | cons r l ih =>
    intro m
    cases m with
    | zero => rfl
    | succ m =>
      rw [List.map_cons, List.map_cons, List.take_succ_cons, List.take_succ_cons, List.zipWith_cons_cons, ih, r.incl, List.take_length]

/-- A round of the cached source inside a pass. -/
theorem cached_round (h : CachedAt f loops src n) (round : Round) (hlt : src.cache.offset < f.packets.length) :
    (fillMetaRest src round.burst).2 ≠ [] ∧ ∃ src' l, pcapSrcBurstFillData src ((fillMetaRest src round.burst).2.take round.grant) = (src', l) ∧
      l ≠ [] ∧ (∀ j < l.length, repeated f.packets loops.toNat (n + j) = l[j]?) ∧ CachedAt f loops src' (n + l.length) := by
  have hburst := round.burst_pos
  have hgrant := round.grant_pos
  have hsizes : src.cache.sizes.length = f.packets.length := by rw [h.sizes, PcapFile.sizes, List.length_map, length_packets]
  -- the number of packets that are sent
  obtain ⟨m, hm, hpos, hle⟩ : ∃ m, (fillMetaRest src round.burst).2.take round.grant = (src.cache.sizes.drop src.cache.offset).take m ∧
      0 < m ∧ src.cache.offset + m ≤ f.packets.length := by
    unfold fillMetaRest
    dsimp only
    rw [List.take_take]
    refine ⟨_, rfl, ?_, ?_⟩
    · split_ifs <;> omega
    · split_ifs <;> omega
  have hne : (src.cache.sizes.drop src.cache.offset).take m ≠ [] := by
    apply List.ne_nil_of_length_pos
    rw [List.length_take, List.length_drop]
    omega
  have hlen : ((src.cache.sizes.drop src.cache.offset).take m).length = m := by
    rw [List.length_take, List.length_drop]
    omega
  have hitems : ((f.packets.drop src.cache.offset).take m).length = m := by
    rw [List.length_take, List.length_drop]
    omega
  refine ⟨fun he => ?_, ?_⟩
  · rw [← hm, he] at hne
    exact hne List.take_nil
  · rw [hm]
    unfold pcapSrcBurstFillData
    rw [if_neg hne, h.cached, if_pos rfl, hlen, h.packets, h.sizes]
    have hzip : List.zipWith (fun len packet => packet.take len.toNat) ((f.sizes.drop src.cache.offset).take m) (f.packets.drop src.cache.offset) =
        (f.packets.drop src.cache.offset).take m := by
      unfold PcapFile.sizes PcapFile.packets
      rw [← List.map_drop, ← List.map_drop, zipWith_take_map]
    rw [hzip]
    refine ⟨_, _, rfl, List.ne_nil_of_length_pos (by omega), ?_, ?_⟩
    · intro j hj
      rw [hitems] at hj
      rw [h.cursor.repeated (by omega), List.getElem?_take_of_lt hj, List.getElem?_drop]
    · rw [hitems]
      exact ⟨rfl, h.loops_eq, h.packets, h.sizes, h.cursor.advance hle⟩

theorem repeated_of_packets_nil {loops : Nat} (h : f.packets.length = 0) : repeated f.packets loops n = none := by
  rw [List.eq_nil_of_length_eq_zero h, repeated_nil]

/-- A round of the cached source. -/
theorem cached_step (src : PcapSrc) (n : Nat) (round : Round) (h : CachedAt f loops src n) :
    (transmitRound src round = none ∧ repeated f.packets loops.toNat n = none) ∨
      ∃ src' l, transmitRound src round = some (src', l) ∧ l ≠ [] ∧
        (∀ j < l.length, repeated f.packets loops.toNat (n + j) = l[j]?) ∧ CachedAt f loops src' (n + l.length) := by
  have hsizes : src.cache.sizes.length = f.packets.length := by rw [h.sizes, PcapFile.sizes, List.length_map, length_packets]
  have hle : src.cache.offset ≤ f.packets.length := h.cursor.choose_spec.2.1
  have hmeta : pcapSrcBurstFillMeta src round.burst = fillMetaCached src round.burst := by
    unfold pcapSrcBurstFillMeta
    rw [if_neg (Nat.ne_of_gt round.burst_pos), h.cached, if_pos rfl]
  unfold fillMetaCached at hmeta
  rw [hsizes] at hmeta
  rcases Nat.lt_or_ge src.cache.offset f.packets.length with hlt | hge
  · obtain ⟨hne, src', l, hdata, hrest⟩ := cached_round h round hlt
    rw [if_neg (by omega)] at hmeta
    rw [transmitRound_eq hmeta, if_neg hne]
    exact Or.inr ⟨src', l, congrArg some hdata, hrest⟩
  · have hend : src.cache.offset = f.packets.length := le_antisymm hle hge
    have hcursor := h.cursor
    rw [hend] at hcursor
    rw [if_pos hend] at hmeta
    by_cases hmore : src.again
    · rw [if_pos hmore] at hmeta
      have hnext : CachedAt f loops { src with currentLoop := src.currentLoop + 1, cache := { src.cache with offset := 0 } } n :=
        ⟨h.cached, h.loops_eq, h.packets, h.sizes, Cursor.next hcursor ((again_iff h.loops_eq).1 hmore)⟩
      rcases Nat.eq_zero_or_pos f.packets.length with hzero | hpos
      · -- another pass over no packets
        have hnone : src.cache.sizes = [] := List.eq_nil_of_length_eq_zero (hsizes.trans hzero)
        unfold fillMetaRest at hmeta
        dsimp only at hmeta
        rw [hnone, List.drop_nil, List.take_nil] at hmeta
        rw [transmitRound_eq hmeta, if_pos rfl]
        exact Or.inl ⟨rfl, repeated_of_packets_nil hzero⟩
      · obtain ⟨hne, src', l, hdata, hrest⟩ := cached_round hnext round hpos
        rw [transmitRound_eq hmeta, if_neg hne]
        exact Or.inr ⟨src', l, congrArg some hdata, hrest⟩
    · rw [if_neg hmore] at hmeta
      rw [transmitRound_eq hmeta, if_pos rfl]
      exact Or.inl ⟨rfl, hcursor.repeated_end (mt (again_iff h.loops_eq).2 hmore)⟩

theorem file_round (src : PcapSrc) (hdirect : src.isCached = false) (hloops : src.loops = loops)
    (hcursor : Cursor f.packets.length loops.toNat n j src.currentLoop.toNat) (hr : f.records[j]? = some r)
    (hfile : src.file = ⟨f.bytes, (f.before j ++ r.phdr).length, eof⟩) (round : Round) :
    ∃ src' l, pcapSrcBurstFillData src ([inclLen r.phdr].take round.grant) = (src', l) ∧
      l ≠ [] ∧ (∀ j < l.length, repeated f.packets loops.toNat (n + j) = l[j]?) ∧ FileAt f loops src' (n + l.length) := by
  have hgrant : [inclLen r.phdr].take round.grant = [inclLen r.phdr] := List.take_of_length_le round.grant_pos
  obtain ⟨hj, rfl⟩ := List.getElem?_eq_some_iff.1 hr
  have hpacket : f.packets[j]? = some f.records[j].data := by
    rw [PcapFile.packets, List.getElem?_map, hr]
    rfl
  have hlt : j < f.packets.length := by rwa [length_packets]
  rw [hgrant]
  unfold pcapSrcBurstFillData
  rw [if_neg (List.cons_ne_nil _ _), hdirect, if_neg Bool.false_ne_true, List.headD_cons, hfile, fread_data hr]
  refine ⟨_, _, rfl, List.cons_ne_nil _ _, ?_, ?_⟩
  · intro i hi
    obtain rfl : i = 0 := Nat.lt_one_iff.1 hi
    rw [hcursor.repeated (by omega)]
    exact hpacket
  · exact ⟨rfl, hloops, j + 1, rfl, rfl, hcursor.advance (i := 1) hlt⟩

/-- A round of the source that is not cached. -/
theorem file_step (src : PcapSrc) (n : Nat) (round : Round) (h : FileAt f loops src n) :
    (transmitRound src round = none ∧ repeated f.packets loops.toNat n = none) ∨
      ∃ src' l, transmitRound src round = some (src', l) ∧ l ≠ [] ∧
        (∀ j < l.length, repeated f.packets loops.toNat (n + j) = l[j]?) ∧ FileAt f loops src' (n + l.length) := by
  obtain ⟨hdirect, hloops, j, hbytes, hpos, hcursor⟩ := h
  have hle : j ≤ f.packets.length := hcursor.choose_spec.2.1
  have hfile : src.file = ⟨f.bytes, (f.before j).length, src.file.eof⟩ := by
    rw [← hbytes, ← hpos]
  have hmeta : pcapSrcBurstFillMeta src round.burst = fillMetaFile src := by
    unfold pcapSrcBurstFillMeta
    rw [if_neg (Nat.ne_of_gt round.burst_pos), hdirect, if_neg Bool.false_ne_true]
  unfold fillMetaFile at hmeta
  rw [hfile] at hmeta
  rcases Nat.lt_or_ge j f.records.length with hlt | hge
  · have hr : f.records[j]? = some f.records[j] := List.getElem?_eq_getElem hlt
    obtain ⟨src', l, hdata, hrest⟩ := file_round
      { src with file := ⟨f.bytes, (f.before j ++ f.records[j].phdr).length, src.file.eof⟩ } hdirect hloops hcursor hr rfl round
    rw [fread_phdr hr] at hmeta
    rw [transmitRound_eq hmeta, if_neg (List.cons_ne_nil _ _)]
    exact Or.inr ⟨src', l, congrArg some hdata, hrest⟩
  · obtain rfl : j = f.records.length := le_antisymm (by rwa [length_packets] at hle) hge
    have hend := hcursor
    rw [← length_packets f] at hend
    rw [fread_last] at hmeta
    dsimp only at hmeta
    rw [if_pos rfl] at hmeta
    -- the file is at its end: it is read again from its first record, or the replay is over
    by_cases hmore : src.again
    · rw [if_pos hmore] at hmeta
      have hagain := Cursor.next hend ((again_iff hloops).1 hmore)
      have hseek : fseek ⟨f.bytes, (f.before f.records.length).length, true⟩ pcapHdrSize = ⟨f.bytes, (f.before 0).length, false⟩ := by
        rw [before_zero, f.length_hdr]
        rfl
      rw [hseek] at hmeta
      rcases Nat.eq_zero_or_pos f.records.length with hzero | hpos'
      · have hlast := @fread_last f false
        rw [hzero] at hlast
        rw [hlast] at hmeta
        rw [transmitRound_eq hmeta, if_pos rfl]
        exact Or.inl ⟨rfl, repeated_of_packets_nil (by rw [length_packets, hzero])⟩
      · have hr : f.records[0]? = some f.records[0] := List.getElem?_eq_getElem hpos'
        obtain ⟨src', l, hdata, hrest⟩ := file_round
          { src with file := ⟨f.bytes, (f.before 0 ++ f.records[0].phdr).length, false⟩, currentLoop := src.currentLoop + 1 }
          hdirect hloops hagain hr rfl round
        rw [fread_phdr hr] at hmeta
        rw [transmitRound_eq hmeta, if_neg (List.cons_ne_nil _ _)]
        exact Or.inr ⟨src', l, congrArg some hdata, hrest⟩
    · rw [if_neg hmore] at hmeta
      rw [transmitRound_eq hmeta, if_pos rfl]
      exact Or.inl ⟨rfl, hend.repeated_end (mt (again_iff hloops).2 hmore)⟩

/-! ## Transmissions -/

theorem fread_hdr (f : PcapFile) : fread ⟨f.bytes, 0, false⟩ pcapHdrSize = (some f.hdr, ⟨f.bytes, (f.before 0).length, false⟩) := by
  have hne : f.hdr ≠ [] := List.ne_nil_of_length_pos (by rw [f.length_hdr]; decide)
  rw [before_zero, ← f.length_hdr]
  exact (@fread_here [] _ false f.hdr hne).trans (by rw [List.nil_append, List.length_nil, Nat.zero_add]; rfl)

theorem open_cached (f : PcapFile) (loops : U64) (fuel : Nat) (hfuel : f.records.length < fuel) :
    ∃ src, pcapSrcOpen fuel f.bytes loops true = some (0, src) ∧ CachedAt f (loops.setWidth 32) src 0 := by
  have hall : f.sizes.length = f.records.length := List.length_map _
  obtain ⟨cache, file, hrun, hcache⟩ := cacheLoop_spec f false f.records.length 0 ⟨defaultCacheCapacity, [], [], 0⟩ (by omega) (Nat.zero_le _)
    ⟨rfl, rfl, rfl, by decide⟩ fuel hfuel
  unfold pcapSrcOpen
  rw [fread_hdr]
  dsimp only
  rw [if_pos rfl, hrun]
  refine ⟨_, rfl, rfl, rfl, ?_, ?_, ?_⟩
  · dsimp only
    rw [hcache.packets, ← length_packets, List.take_length]
  · dsimp only
    rw [hcache.sizes, ← hall, List.take_length]
  · dsimp only
    rw [hcache.offset]
    exact cursor_start _ _

theorem open_file (f : PcapFile) (loops : U64) (fuel : Nat) :
    ∃ src, pcapSrcOpen fuel f.bytes loops false = some (0, src) ∧ FileAt f (loops.setWidth 32) src 0 := by
  unfold pcapSrcOpen
  rw [fread_hdr]
  exact ⟨_, rfl, rfl, rfl, 0, rfl, rfl, cursor_start _ _⟩

theorem transmit_replays (f : PcapFile) (loops : U64) {fuel : Nat} (hfuel : f.records.length < fuel) (doCache : Bool) (rounds : List Round) :
    ∃ out, transmit fuel f.bytes loops doCache rounds = some out ∧
      Replays (repeated f.packets (loops.setWidth 32).toNat) rounds.length out := by
  have hzero : (fun m => repeated f.packets (loops.setWidth 32).toNat (0 + m)) = repeated f.packets (loops.setWidth 32).toNat := by
    funext m
    rw [Nat.zero_add]
  unfold transmit
  cases doCache with
  | true =>
    obtain ⟨src, hopen, hsrc⟩ := open_cached f loops fuel hfuel
    have hrun := runRounds_replays (fun s n i => cached_step (f := f) s n i) rounds src 0 hsrc
    rw [hopen]
    dsimp only
    rw [if_pos rfl]
    exact ⟨_, rfl, hzero ▸ hrun⟩
  | false =>
    obtain ⟨src, hopen, hsrc⟩ := open_file f loops fuel
    have hrun := runRounds_replays (fun s n i => file_step (f := f) s n i) rounds src 0 hsrc
    rw [hopen]
    dsimp only
    rw [if_pos rfl]
    exact ⟨_, rfl, hzero ▸ hrun⟩

/-- The sources do what is asked if and only if the number of loops fits in 32 bits, or there are no packets. -/
theorem sources_agree_iff (f : PcapFile) (loops : U64) (fuel : Nat) (hfuel : f.records.length < fuel) :
    SourcesAgree f loops fuel ↔ loops.toNat < 2 ^ 32 ∨ f.records = [] := by
  have hcut : (loops.setWidth 32).toNat = loops.toNat % 2 ^ 32 := BitVec.toNat_setWidth _ _
  constructor
  · intro hagree
    by_contra hnot
    obtain ⟨hbig, hne⟩ := not_or.1 hnot
    have hpackets : f.packets ≠ [] := fun he => hne (List.map_eq_nil_iff.1 he)
    choose outs hrun hok using fun r => hagree.deliver true (List.replicate r ⟨1, 1, Nat.one_pos, Nat.one_pos⟩)
    have hcode : ∀ r, Replays (repeated f.packets (loops.setWidth 32).toNat) r (outs r) := by
      intro r
      obtain ⟨out, hrun', hout⟩ := transmit_replays f loops hfuel true (List.replicate r ⟨1, 1, Nat.one_pos, Nat.one_pos⟩)
      rw [hrun r] at hrun'
      rw [List.length_replicate] at hout
      exact Option.some.inj hrun' ▸ hout
    have hwanted : ∀ r, Replays (repeated f.packets loops.toNat) r (outs r) := by
      intro r
      have h := (hok r).replays
      rwa [List.length_replicate] at h
    have hsame := Replays.streams_eq hcode hwanted (repeated_end_closed _ _) (repeated_end_closed _ _)
    have heq := repeated_inj hpackets hsame
    omega
  · intro hok
    have hsame : repeated f.packets (loops.setWidth 32).toNat = repeated f.packets loops.toNat := by
      rcases hok with hlt | hnil
      · rw [hcut, Nat.mod_eq_of_lt hlt]
      · funext n
        have hzero : f.packets.length = 0 := by rw [length_packets, hnil]; rfl
        rw [repeated_of_packets_nil hzero, repeated_of_packets_nil hzero]
    constructor
    · intro doCache rounds
      obtain ⟨out, hrun, hout⟩ := transmit_replays f loops hfuel doCache rounds
      rw [hsame] at hout
      exact ⟨out, hrun, hout, fun hloops hend => hout.eq_replicate (fun he => hloops (BitVec.eq_of_toNat_eq he)) hend⟩
    · intro rounds rounds' out out' hrun hrun'
      obtain ⟨o, ho, hout⟩ := transmit_replays f loops hfuel true rounds
      obtain ⟨o', ho', hout'⟩ := transmit_replays f loops hfuel false rounds'
      rw [hrun] at ho
      rw [hrun'] at ho'
      obtain rfl := Option.some.inj ho
      obtain rfl := Option.some.inj ho'
      exact ⟨hout.prefix_or hout', fun hend hend' => hout.eq_of_ended hout' hend hend'⟩

end

/-! ## A file -/

def oneRecord : Record := ⟨[0, 0, 0, 0, 0, 0, 0, 0, 1, 0, 0, 0, 1, 0, 0, 0], [7], rfl, rfl, Nat.one_pos⟩

def oneFile : PcapFile := ⟨List.replicate 24 0, [oneRecord], rfl⟩

theorem one_file_agrees : SourcesAgree oneFile 3 2 :=
  (sources_agree_iff oneFile 3 2 (by decide)).2 (Or.inl (by decide))

/-- With `2 ^ 32 + 1` loops the packet is sent once, and the source ends. -/
theorem loops_cut : ¬ SourcesAgree oneFile 0x100000001 2 := by
  intro h
  obtain ⟨out, hrun, hout⟩ := h.deliver true [⟨1, 1, Nat.one_pos, Nat.one_pos⟩, ⟨1, 1, Nat.one_pos, Nat.one_pos⟩]
  have hcode : transmit 2 oneFile.bytes 0x100000001 true [⟨1, 1, Nat.one_pos, Nat.one_pos⟩, ⟨1, 1, Nat.one_pos, Nat.one_pos⟩] = some ⟨[[7]], true⟩ := by
    decide +kernel
  rw [hcode] at hrun
  obtain rfl := Option.some.inj hrun
  have hnone := hout.replays.complete rfl
  exact absurd hnone (by decide)

end NdkSw.Pcap

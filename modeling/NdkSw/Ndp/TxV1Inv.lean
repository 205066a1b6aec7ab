/-
The byte stream of a protocol 1 TX channel. Ring positions are counted without bound: `p` bytes are published, the
hardware has read `h` of them, and only the holder of the lock has a window `[p, p + len)`, of which it has handed
out the first `u` bytes as frames. A get that takes its frames back leaves the queue with fewer bytes to give than
its window has, and with a data pointer that the next lock sets anew.
-/
import NdkSw.Ndp.TxV1

namespace NdkSw.Ndp

open Ring

variable {k p h : Nat}

/-! ## The queues -/

/-- The window of the holder of the lock. The data pointer counts only while there are bytes to give. -/
structure V1Window (k p h : Nat) (ch : Channel HdrCtrl) (q : QueueV1) (held : List (List Nat)) (len u : Nat) : Prop where
  lap : p + len < h + 2 ^ k
  le : u ≤ len
  pos : 0 < len
  hwptr : q.sync.hwptr = ch.swptr
  used : q.swptr.toNat = u
  bytes : q.bytes.toNat ≤ len - u
  data : q.bytes ≠ 0 → q.data = q.buffer + ((p % 2 ^ k + u : Nat) : Int)
  held : held.flatten = slots k p u

/-- The queue of `i`: with the lock it has a window and holds the frames handed out of it; without it, it has
nothing. -/
structure V1Queue (k p h : Nat) (ch : Channel HdrCtrl) (i : Nat) (q : QueueV1) (held : List (List Nat)) : Prop where
  k63 : k ≤ 63
  size : q.size.toNat = 2 ^ k
  locked : ch.lockedSub = some i → ∃ len u, V1Window k p h ch q held len u
  free : ch.lockedSub ≠ some i → q.swptr = 0 ∧ q.bytes = 0 ∧ held.flatten = []

variable {ch ch' : Channel HdrCtrl} {i ret : Nat} {q q' : QueueV1} {held : List (List Nat)} {frames : List V1Frame}
  {packets : List NdpPacket}

theorem V1Queue.congr {held' : List (List Nat)} (hq : V1Queue k p h ch i q held) (hheld : held'.flatten = held.flatten) :
    V1Queue k p h ch i q held' := by
  refine ⟨hq.k63, hq.size, fun hl => ?_, fun hl => hheld ▸ hq.free hl⟩
  obtain ⟨len, u, hw⟩ := hq.locked hl
  exact ⟨len, u, hw.lap, hw.le, hw.pos, hw.hwptr, hw.used, hw.bytes, hw.data, hheld.trans hw.held⟩

theorem QueueV1.isMask (hk : k ≤ 63) (hsize : q.size.toNat = 2 ^ k) : IsMask q.mask k := by
  have hpow : 2 ^ k ≤ 2 ^ 63 := Nat.pow_le_pow_right (by norm_num) hk
  have hpos : 0 < 2 ^ k := by positivity
  unfold IsMask QueueV1.mask
  rw [BitVec.toNat_sub, hsize, show (1 : U64).toNat = 1 from rfl]
  omega

theorem V1Queue.mask (hq : V1Queue k p h ch i q held) : IsMask q.mask k := QueueV1.isMask hq.k63 hq.size

/-- A call of another subscription leaves the queue of `j` alone. -/
theorem V1Queue.other {j p' h' : Nat} (hq : V1Queue k p h ch j q held) (hs : Synced k p h ch i p' h' ch') (hj : j ≠ i) :
    V1Queue k p' h' ch' j q held := by
  rcases hs.other with hs | ⟨rfl, rfl, hsw, hl, -⟩
  · obtain ⟨h1, h2⟩ := hs j hj
    exact ⟨hq.k63, hq.size, fun hl => absurd hl h2, fun _ => hq.free h1⟩
  · refine ⟨hq.k63, hq.size, fun hl' => ?_, fun hl' => hq.free (hl ▸ hl')⟩
    obtain ⟨len, u, hw⟩ := hq.locked (hl ▸ hl')
    exact ⟨len, u, hw.lap, hw.le, hw.pos, hw.hwptr.trans hsw.symm, hw.used, hw.bytes, hw.data, hw.held⟩

theorem Synced.trans {h₁ h₂ : Nat} {ch₁ ch₂ : Channel HdrCtrl} (h01 : Synced k p h ch i p h₁ ch₁)
    (h12 : Synced k p h₁ ch₁ i p h₂ ch₂) : Synced k p h ch i p h₂ ch₂ := by
  refine ⟨h12.inv, h12.startCount.trans h01.startCount, fun j => (h12.status j).trans (h01.status j), ?_⟩
  rcases h01.other with h1 | ⟨-, rfl, hsw1, hl1, hn1⟩
  · refine .inl fun j hj => ⟨(h1 j hj).1, ?_⟩
    rcases h12.other with h2 | ⟨-, -, -, hl2, -⟩
    · exact (h2 j hj).2
    · rw [hl2]; exact (h1 j hj).2
  · rcases h12.other with h2 | ⟨-, rfl, hsw2, hl2, hn2⟩
    · exact .inl fun j hj => ⟨hl1 ▸ (h2 j hj).1, (h2 j hj).2⟩
    · exact .inr ⟨rfl, rfl, hsw2.trans hsw1, hl2.trans hl1, hn1⟩

theorem Synced.refl (hI : ChanInv k p h ch) (i : Nat) : Synced k p h ch i p h ch := by
  refine ⟨hI, rfl, fun _ => rfl, ?_⟩
  by_cases hl : ch.lockedSub = some i
  · refine .inl fun j hj => ?_
    rw [hl]
    simpa using Ne.symm hj
  · exact .inr ⟨rfl, rfl, rfl, rfl, hl⟩

/-! ## Lock -/

/-- What a call of `i` that publishes nothing leaves of any queue it may go back to: with the new window it is in
order again. -/
def Restores (k p h : Nat) (ch : Channel HdrCtrl) (i h' : Nat) (ch' : Channel HdrCtrl) (sync : SubscriptionSync) : Prop :=
  ∀ q held, V1Queue k p h ch i q held → V1Queue k p h' ch' i { q with sync } held

/-- A lock publishes nothing; the window of the holder only grows. -/
theorem v1Lock_called (hI : ChanInv k p h ch) (hq : V1Queue k p h ch i q held) (hr : (ch.sub i).status = .running)
    (e : Nat) :
    ∃ h', Synced k p h ch i p h' (ncNdpV1TxLock hdrOps e i ch q).1 ∧
      V1Queue k p h' (ncNdpV1TxLock hdrOps e i ch q).1 i (ncNdpV1TxLock hdrOps e i ch q).2 held ∧
      Restores k p h ch i h' (ncNdpV1TxLock hdrOps e i ch q).1 (ncNdpV1TxLock hdrOps e i ch q).2.sync ∧
      (ncNdpV1TxLock hdrOps e i ch q).2.buffer = q.buffer ∧ (ncNdpV1TxLock hdrOps e i ch q).2.size = q.size := by
  have hpos : 0 < 2 ^ k := by positivity
  have hqm := hq.mask
  have hmask : q.mask = ch.ptrmask := hqm.unique hI.mask
  obtain ⟨h', len, hle, hs, hwin, hlen⟩ := txsync_synced (n := 2 ^ k - 1) (u := 0) hI e i
    { q.sync with swptr := (q.sync.hwptr - 1) &&& q.mask } (by rw [hmask]; exact toNat_lapRequest hI.mask)
    hI.lap (fun hl => by obtain ⟨_, _, hw⟩ := hq.locked hl; rw [hw.hwptr]; exact hI.swptr) (fun _ => rfl)
  unfold ncNdpV1TxLock
  simp only [ndpSubscriptionSync_running hr]
  generalize ndpChannelTxsync hdrOps e ch i { q.sync with swptr := (q.sync.hwptr - 1) &&& q.mask } = r at hs hwin
  obtain ⟨ch', sync⟩ := r
  simp only [Nat.add_zero] at hs hwin hlen
  simp only [ne_eq, not_true_eq_false, if_false]
  have hlap := hwin.lap
  -- a holder keeps its lock, with at least the window it had
  have hkeep : ∀ {q₀ : QueueV1} {held₀ : List (List Nat)} {len₀ u₀ : Nat}, ch.lockedSub = some i →
      V1Window k p h ch q₀ held₀ len₀ u₀ → ch'.lockedSub = some i ∧ len₀ ≤ len := by
    intro q₀ held₀ len₀ u₀ hl hw
    have hlap₀ := hw.lap
    have hpos₀ := hw.pos
    have hlen' : len = h' + 2 ^ k - 1 - p := by
      rcases hlen with hlen | ⟨-, j, hj, hlj⟩
      · have := hs.inv.le
        omega
      · rw [hl] at hlj
        exact absurd (Option.some.inj hlj).symm hj
    exact ⟨hwin.locked.2 (by omega), by omega⟩
  have hrestore : Restores k p h ch i h' ch' sync := by
    intro q₀ held₀ hq₀
    refine ⟨hq₀.k63, hq₀.size, fun hl' => ?_, fun hl' => ?_⟩
    · by_cases hl : ch.lockedSub = some i
      · obtain ⟨len₀, u₀, hw⟩ := hq₀.locked hl
        obtain ⟨-, hgrow⟩ := hkeep hl hw
        have hu := hw.le
        have hb := hw.bytes
        exact ⟨len, u₀, hlap, by omega, by have := hw.pos; omega, hwin.hwptr, hw.used, (show q₀.bytes.toNat ≤ len - u₀ by omega),
          hw.data, hw.held⟩
      · obtain ⟨hsw, hb, hnil⟩ := hq₀.free hl
        refine ⟨len, 0, hlap, Nat.zero_le _, Nat.pos_of_ne_zero (hwin.locked.1 hl'), hwin.hwptr, ?_, ?_, ?_, hnil⟩
        · exact congrArg BitVec.toNat hsw
        · exact (congrArg BitVec.toNat hb).le.trans (Nat.zero_le _)
        · exact fun hne => absurd hb hne
    · refine hq₀.free fun hl => hl' ?_
      obtain ⟨len₀, u₀, hw⟩ := hq₀.locked hl
      exact (hkeep hl hw).1
  refine ⟨h', hs, ?_, hrestore, ?_⟩
  rotate_left
  · simp
  -- the queue itself gets all of the new window
  have hbytes : ∀ u, q.swptr.toNat = u → u ≤ len →
      ((sync.swptr - sync.hwptr - q.swptr) &&& q.mask).toNat = len - u := by
    intro u hu hul
    have h1 : At k (sync.swptr - sync.hwptr) len := by
      have := At.sub hqm.le_width (at_of_mod hwin.swptr) (at_of_mod (by rw [hwin.hwptr]; exact hs.inv.swptr) : At k sync.hwptr p)
        (Nat.le_add_right p len)
      rwa [Nat.add_sub_cancel_left] at this
    have h2 : At k q.swptr u := by rw [← hu]; exact at_toNat _
    have hlt : len - u < 2 ^ k := by
      have := hs.inv.le
      omega
    rw [(At.sub hqm.le_width h1 h2 hul).toNat_and hqm, Nat.mod_eq_of_lt hlt]
  have hrest := hrestore q held hq
  refine ⟨hq.k63, hq.size, fun hl' => ?_, fun hl' => ?_⟩
  · obtain ⟨len', u, hw⟩ := hrest.locked hl'
    have hused : q.swptr.toNat = u := hw.used
    have hul : u ≤ len := by
      by_cases hl : ch.lockedSub = some i
      · obtain ⟨len₀, u₀, hw₀⟩ := hq.locked hl
        have := (hkeep hl hw₀).2
        have := hw₀.le
        have := hw₀.used
        omega
      · have h0 : q.swptr.toNat = 0 := congrArg BitVec.toNat (hq.free hl).1
        omega
    refine ⟨len, u, hlap, hul, Nat.pos_of_ne_zero (hwin.locked.1 hl'), hwin.hwptr, hused, (hbytes u hused hul).le, ?_, hw.held⟩
    intro _
    have hhw : sync.hwptr.toNat = p % 2 ^ k := by rw [hwin.hwptr]; exact hs.inv.swptr
    simp only [hhw, hused]
    push_cast
    ring
  · obtain ⟨hsw, -, hheld⟩ := hrest.free hl'
    have hlen0 : len = 0 := by
      by_contra hne
      exact hl' (hwin.locked.2 hne)
    refine ⟨hsw, BitVec.eq_of_toNat_eq ?_, hheld⟩
    have h0 : q.swptr.toNat = 0 := congrArg BitVec.toNat hsw
    show ((sync.swptr - sync.hwptr - q.swptr) &&& q.mask).toNat = 0
    rw [hbytes 0 h0 (Nat.zero_le _), hlen0]

theorem Restores.refl (hq : V1Queue k p h ch i q held) : Restores k p h ch i h ch q.sync := by
  intro q₀ held₀ hq₀
  refine ⟨hq₀.k63, hq₀.size, fun hl => ?_, hq₀.free⟩
  obtain ⟨len, u, hw⟩ := hq.locked hl
  obtain ⟨len₀, u₀, hw₀⟩ := hq₀.locked hl
  exact ⟨len₀, u₀, hw₀.lap, hw₀.le, hw₀.pos, hw.hwptr, hw₀.used, hw₀.bytes, hw₀.data, hw₀.held⟩

theorem Restores.trans {h₁ h₂ : Nat} {ch₁ ch₂ : Channel HdrCtrl} {sync₁ sync₂ : SubscriptionSync}
    (h01 : Restores k p h ch i h₁ ch₁ sync₁) (h12 : Restores k p h₁ ch₁ i h₂ ch₂ sync₂) :
    Restores k p h ch i h₂ ch₂ sync₂ :=
  fun q₀ held₀ hq₀ => h12 { q₀ with sync := sync₁ } held₀ (h01 q₀ held₀ hq₀)

/-! ## Frame sizes -/

theorem toNat_align8 (x : U32) : (align8 x).toNat = (x.toNat + 7) % 2 ^ 32 / 8 * 8 := by
  have hshift : ∀ y : U32, y &&& ~~~(7 : U32) = (y >>> 3) <<< 3 := by
    intro y
    ext j hj
    interval_cases j <;> simp
  have hlt : (x.toNat + 7) % 2 ^ 32 < 2 ^ 32 := Nat.mod_lt _ (by norm_num)
  unfold align8
  rw [hshift, BitVec.toNat_shiftLeft, BitVec.toNat_ushiftRight, BitVec.toNat_add, show (7 : U32).toNat = 7 from rfl,
    Nat.shiftRight_eq_div_pow, Nat.shiftLeft_eq]
  omega

/-- The bytes that a packet takes, without any bound. -/
def v1PaddedSize (p : NdpPacket) : Nat := (p.headerLength.toNat + 11) / 8 * 8 + (p.dataLength.toNat + 7) / 8 * 8

theorem toNat_v1HeaderSize (x : NdpPacket) : (v1HeaderSize x).toNat = (x.headerLength.toNat + 11) / 8 * 8 % 2 ^ 16 := by
  have hlt := x.headerLength.isLt
  have hsum : (x.headerLength.setWidth 32 + 4 : U32).toNat = x.headerLength.toNat + 4 := by
    rw [BitVec.toNat_add, BitVec.toNat_setWidth, show (4 : U32).toNat = 4 from rfl]
    omega
  unfold v1HeaderSize
  rw [BitVec.toNat_setWidth, toNat_align8, hsum]
  omega

theorem toNat_v1PacketSize (x : NdpPacket) : (v1PacketSize x).toNat = v1PaddedSize x % 2 ^ 16 := by
  have hlt := x.dataLength.isLt
  unfold v1PacketSize v1PaddedSize
  rw [BitVec.toNat_setWidth, BitVec.toNat_add, toNat_align8, BitVec.toNat_setWidth, toNat_v1HeaderSize]
  omega

/-- The frame of a packet lies in the `2 * size` bytes from `buffer` on, its header and data inside of it and one
behind the other. -/
structure V1Frame.Inside (buffer : Int) (size : Nat) (f : V1Frame) : Prop where
  lower : buffer ≤ f.addr
  header : f.addr + ndpPacketHeaderSize = f.packet.header
  data : f.packet.header + f.packet.headerLength.toNat ≤ f.packet.data
  last : f.packet.data + f.packet.dataLength.toNat ≤ f.addr + f.size.toNat
  upper : f.addr + f.size.toNat ≤ buffer + 2 * size

theorem v1PaddedSize_pos (x : NdpPacket) : 0 < v1PaddedSize x := by
  unfold v1PaddedSize
  omega

theorem v1Frame_inside {x : NdpPacket} (hfit : v1PaddedSize x < 2 ^ 16) {buffer : Int} {size o : Nat}
    (ho : o + (v1PacketSize x).toNat ≤ 2 * size) : (v1Frame (buffer + o) x).Inside buffer size := by
  have hsize := toNat_v1PacketSize x
  have hhdr := toNat_v1HeaderSize x
  unfold v1PaddedSize at hfit hsize
  constructor
  all_goals simp only [v1Frame, ndpPacketHeaderSize]
  all_goals omega

/-! ## Get -/

/-- The frames lie one behind the other from the `o`-th byte behind `base` on, less than `2 ^ k` bytes in all. Empty
frames may be anywhere. -/
def Placed (k : Nat) (base : Int) : Nat → List V1Frame → Prop
  | _, [] => True
  | o, f :: l => (0 < f.size.toNat → f.addr = base + o ∧ o + f.size.toNat < 2 ^ k) ∧ Placed k base (o + f.size.toNat) l

/-- Handing out one frame. -/
theorem V1Queue.advance (hI : ChanInv k p h ch) (hq : V1Queue k p h ch i q held) {size : U16}
    (hav : ¬ q.bytes < size.setWidth 64) :
    V1Queue k p h ch i (q.advance size) (held ++ [q.places q.data size.toNat]) ∧
      (q.advance size).swptr.toNat = q.swptr.toNat + size.toNat ∧
      (0 < size.toNat → q.data = q.buffer + (p % 2 ^ k : Nat) + q.swptr.toNat ∧ q.swptr.toNat + size.toNat < 2 ^ k) := by
  rcases Nat.eq_zero_or_pos size.toNat with h0 | hpos
  · -- an empty frame moves nothing
    obtain rfl : size = 0 := BitVec.eq_of_toNat_eq h0
    have hself : q.advance 0 = q := by simp [QueueV1.advance]
    rw [hself]
    refine ⟨hq.congr ?_, rfl, fun hpos => absurd hpos (lt_irrefl 0)⟩
    simp [QueueV1.places]
  have hle64 : size.toNat < 2 ^ 64 := lt_of_lt_of_le size.isLt (by norm_num)
  have hsize : (size.setWidth 64 : U64).toNat = size.toNat := by
    rw [BitVec.toNat_setWidth, Nat.mod_eq_of_lt hle64]
  have hav' : size.toNat ≤ q.bytes.toNat := by
    rw [← hsize]
    exact Nat.le_of_not_lt fun hlt => hav (BitVec.lt_def.2 hlt)
  -- there are bytes to give, so the lock is held
  have hl : ch.lockedSub = some i := by
    by_contra hl
    have h0 : q.bytes.toNat = 0 := congrArg BitVec.toNat (hq.free hl).2.1
    omega
  obtain ⟨len, u, hw⟩ := hq.locked hl
  have hbytes := hw.bytes
  have hlap := hw.lap
  have hused := hw.used
  have hle := hI.le
  have hlt : p % 2 ^ k < 2 ^ k := Nat.mod_lt _ (by positivity)
  have hpow : 2 ^ k ≤ 2 ^ 63 := Nat.pow_le_pow_right (by norm_num) hq.k63
  have hdata : q.data = q.buffer + ((p % 2 ^ k + u : Nat) : Int) := by
    refine hw.data fun h0 => ?_
    rw [h0] at hav'
    exact absurd hpos (Nat.not_lt.2 hav')
  have hplaces : q.places q.data size.toNat = slots k (p + u) size.toNat := by
    unfold QueueV1.places slots
    refine List.map_congr_left fun j _ => ?_
    have hx : q.data - q.buffer + (j : Int) = ((p % 2 ^ k + u + j : Nat) : Int) := by rw [hdata]; push_cast; ring
    unfold shadowSlot slot
    rw [hx, hq.size, ← Int.natCast_emod, Int.toNat_natCast, Nat.add_assoc, Nat.mod_add_mod, ← Nat.add_assoc]
  have hswptr : (q.advance size).swptr.toNat = q.swptr.toNat + size.toNat := by
    show (q.swptr + size.setWidth 64).toNat = _
    rw [BitVec.toNat_add, hsize, hused]
    omega
  refine ⟨⟨hq.k63, hq.size, fun _ => ?_, fun hn => absurd hl hn⟩, hswptr, fun _ => ⟨?_, by omega⟩⟩
  · refine ⟨len, u + size.toNat, hlap, by omega, hw.pos, hw.hwptr, by omega, ?_, fun _ => ?_, ?_⟩
    · show (q.bytes - size.setWidth 64).toNat ≤ _
      rw [BitVec.toNat_sub_of_le (BitVec.le_def.2 (by omega)), hsize]
      omega
    · show q.data + (size.toNat : Int) = q.buffer + _
      rw [hdata]
      push_cast
      ring
    · rw [List.flatten_append, hw.held, hplaces]
      simp only [List.flatten_cons, List.flatten_nil, List.append_nil]
      exact slots_append k p u size.toNat
  · rw [hdata, hused]
    push_cast
    ring

/-- What the rounds of a get, and the locks inside of it, make of the channel and the queue: nothing is published,
the frames written are handed out if the queue is kept, and the queue from before the get may be put back instead. -/
structure V1Gotten (k p h : Nat) (ch : Channel HdrCtrl) (i : Nat) (q : QueueV1) (held : List (List Nat)) (h' : Nat)
    (ch' : Channel HdrCtrl) (q' : QueueV1) (frames : List V1Frame) : Prop where
  synced : Synced k p h ch i p h' ch'
  queue : V1Queue k p h' ch' i q' (held ++ frames.map fun f => q.places f.addr f.size.toNat)
  restores : Restores k p h ch i h' ch' q'.sync
  buffer : q'.buffer = q.buffer
  size : q'.size = q.size
  placed : Placed k (q.buffer + (p % 2 ^ k : Nat)) q.swptr.toNat frames

theorem V1Gotten.none (hI : ChanInv k p h ch) (hq : V1Queue k p h ch i q held) :
    V1Gotten k p h ch i q held h ch q [] :=
  ⟨.refl hI i, by simpa using hq, .refl hq, rfl, rfl, trivial⟩

theorem V1Gotten.lock (hI : ChanInv k p h ch) (hq : V1Queue k p h ch i q held) (hr : (ch.sub i).status = .running)
    (e : Nat) :
    ∃ h', V1Gotten k p h ch i q held h' (ncNdpV1TxLock hdrOps e i ch q).1 (ncNdpV1TxLock hdrOps e i ch q).2 [] := by
  obtain ⟨h', hs, hq', hrestore, hb, hsz⟩ := v1Lock_called hI hq hr e
  exact ⟨h', hs, by simpa using hq', hrestore, hb, hsz, trivial⟩

theorem v1Lock_swptr (e i : Nat) (ch : Channel HdrCtrl) (q : QueueV1) : (ncNdpV1TxLock hdrOps e i ch q).2.swptr = q.swptr := by
  unfold ncNdpV1TxLock
  simp only
  split <;> rfl

theorem places_congr (hb : q'.buffer = q.buffer) (hsz : q'.size = q.size) (addr : Int) (n : Nat) :
    q'.places addr n = q.places addr n := by
  unfold QueueV1.places
  rw [hb, hsz]

theorem V1Gotten.cons {x : NdpPacket} (hI : ChanInv k p h ch) (hq : V1Queue k p h ch i q held)
    (hav : ¬ q.bytes < (v1PacketSize x).setWidth 64) {h' : Nat} {ch' : Channel HdrCtrl}
    {q' : QueueV1} {frames : List V1Frame}
    (hg : V1Gotten k p h ch i (q.advance (v1PacketSize x)) (held ++ [q.places q.data (v1PacketSize x).toNat]) h' ch' q' frames) :
    V1Gotten k p h ch i q held h' ch' q' (v1Frame q.data x :: frames) := by
  obtain ⟨-, hswptr, hdata⟩ := hq.advance hI hav
  have hqueue := hg.queue
  have hplaced := hg.placed
  rw [List.append_assoc] at hqueue
  rw [hswptr] at hplaced
  exact ⟨hg.synced, hqueue, hg.restores, hg.buffer, hg.size, hdata, hplaced⟩

theorem V1Gotten.trans {h₁ h₂ : Nat} {ch₁ ch₂ : Channel HdrCtrl} {q₁ q₂ : QueueV1} (h01 : V1Gotten k p h ch i q held h₁ ch₁ q₁ [])
    (hsw : q₁.swptr = q.swptr) (h12 : V1Gotten k p h₁ ch₁ i q₁ held h₂ ch₂ q₂ frames) : V1Gotten k p h ch i q held h₂ ch₂ q₂ frames := by
  have hqueue := h12.queue
  have hplaced := h12.placed
  simp only [places_congr h01.buffer h01.size] at hqueue
  rw [h01.buffer, hsw] at hplaced
  exact ⟨h01.synced.trans h12.synced, hqueue, h01.restores.trans h12.restores, h12.buffer.trans h01.buffer,
    h12.size.trans h01.size, hplaced⟩

theorem v1TxRounds_gotten (e : Nat → Nat) (packets : List NdpPacket) :
    ∀ (n h : Nat) (ch : Channel HdrCtrl) (q : QueueV1) (held : List (List Nat)), ChanInv k p h ch →
      V1Queue k p h ch i q held → (ch.sub i).status = .running →
      ∃ h', V1Gotten k p h ch i q held h' (v1TxRounds hdrOps e i n packets ch q).1 (v1TxRounds hdrOps e i n packets ch q).2.1
        (v1TxRounds hdrOps e i n packets ch q).2.2.1 := by
  induction packets with
  | nil => exact fun _ h _ _ _ hI hq _ => ⟨h, .none hI hq⟩
  | cons x packets ih =>
    intro n h ch q held hI hq hr
    -- the lock, if the bytes do not suffice
    obtain ⟨h₁, hg₁, hsw₁⟩ : ∃ h₁, V1Gotten k p h ch i q held h₁
        (if q.bytes < (v1PacketSize x).setWidth 64 then ncNdpV1TxLock hdrOps (e n) i ch q else (ch, q)).1
        (if q.bytes < (v1PacketSize x).setWidth 64 then ncNdpV1TxLock hdrOps (e n) i ch q else (ch, q)).2 [] ∧
        (if q.bytes < (v1PacketSize x).setWidth 64 then ncNdpV1TxLock hdrOps (e n) i ch q else (ch, q)).2.swptr = q.swptr := by
      split
      · obtain ⟨h₁, hg₁⟩ := V1Gotten.lock hI hq hr (e n)
        exact ⟨h₁, hg₁, v1Lock_swptr (e n) i ch q⟩
      · exact ⟨h, .none hI hq, rfl⟩
    unfold v1TxRounds
    generalize (if q.bytes < (v1PacketSize x).setWidth 64 then ncNdpV1TxLock hdrOps (e n) i ch q else (ch, q)) = r at hg₁ hsw₁ ⊢
    obtain ⟨ch₁, q₁⟩ := r
    simp only at hg₁ hsw₁ ⊢
    split
    · exact ⟨h₁, hg₁⟩
    · rename_i hav
      have hI₁ := hg₁.synced.inv
      have hq₁ : V1Queue k p h₁ ch₁ i q₁ held := by simpa using hg₁.queue
      obtain ⟨h', hg⟩ := ih (n + 1) h₁ ch₁ (q₁.advance (v1PacketSize x)) _ hI₁ (hq₁.advance hI₁ hav).1
        ((hg₁.synced.status i).trans hr)
      exact ⟨h', hg₁.trans hsw₁ (hg.cons hI₁ hq₁ hav)⟩

theorem v1TxRounds_frames {C E : Type} (ops : ChannelOps C E) (e : Nat → E) (packets : List NdpPacket) :
    ∀ (n : Nat) (ch : Channel C) (q : QueueV1),
      (∀ f ∈ (v1TxRounds ops e i n packets ch q).2.2.1, ∃ x ∈ packets, f = v1Frame f.addr x) ∧
      ((v1TxRounds ops e i n packets ch q).2.2.2 = true →
        List.Forall₂ (fun x f => f = v1Frame f.addr x) packets (v1TxRounds ops e i n packets ch q).2.2.1) ∧
      ((v1TxRounds ops e i n packets ch q).2.2.2 = false → packets ≠ []) := by
  induction packets with
  | nil => exact fun n ch q => ⟨fun f hf => absurd hf List.not_mem_nil, fun _ => .nil, fun h => nomatch h⟩
  | cons x packets ih =>
    intro n ch q
    unfold v1TxRounds
    generalize (if q.bytes < (v1PacketSize x).setWidth 64 then ncNdpV1TxLock ops (e n) i ch q else (ch, q)) = r
    obtain ⟨ch₁, q₁⟩ := r
    simp only
    split
    · exact ⟨fun f hf => absurd hf List.not_mem_nil, fun h => (nomatch h), fun _ => List.cons_ne_nil _ _⟩
    · obtain ⟨hmem, hall, -⟩ := ih (n + 1) ch₁ (q₁.advance (v1PacketSize x))
      refine ⟨fun f hf => ?_, fun hok => .cons rfl (hall hok), fun _ => List.cons_ne_nil _ _⟩
      rcases List.mem_cons.1 hf with rfl | hf
      · exact ⟨x, List.mem_cons_self, rfl⟩
      · obtain ⟨y, hy, hfy⟩ := hmem f hf
        exact ⟨y, List.mem_cons_of_mem x hy, hfy⟩

theorem V1Queue.flatten (hI : ChanInv k p h ch) (hq : V1Queue k p h ch i q held) :
    ∃ u, p + u < h + 2 ^ k ∧ held.flatten = slots k p u := by
  by_cases hl : ch.lockedSub = some i
  · obtain ⟨len, u, hw⟩ := hq.locked hl
    have hlap := hw.lap
    have hle := hw.le
    exact ⟨u, by omega, hw.held⟩
  · exact ⟨0, hI.lap, (hq.free hl).2.2⟩

/-- What a get of `i` has done: it published nothing, wrote its frames behind what is held, and either handed all of
them out or left the queue as it was in a window that may have grown. -/
structure V1GetDone (k p h : Nat) (ch : Channel HdrCtrl) (i : Nat) (q : QueueV1) (held : List (List Nat))
    (packets : List NdpPacket) (h' : Nat) (ch' : Channel HdrCtrl) (q' : QueueV1) (frames : List V1Frame) (ret : Nat) :
    Prop where
  synced : Synced k p h ch i p h' ch'
  buffer : q'.buffer = q.buffer
  size : q'.size = q.size
  placed : Placed k (q.buffer + (p % 2 ^ k : Nat)) q.swptr.toNat frames
  mem : ∀ f ∈ frames, ∃ x ∈ packets, f = v1Frame f.addr x
  written : ∃ u, p + u < h' + 2 ^ k ∧ (held ++ frames.map fun f => q.places f.addr f.size.toNat).flatten = slots k p u
  locked : ch'.lockedSub ≠ some i → (frames.map fun f => q.places f.addr f.size.toNat).flatten = []
  fail : ret = 0 → V1Queue k p h' ch' i q' held
  ok : ret ≠ 0 → V1Queue k p h' ch' i q' (held ++ frames.map fun f => q.places f.addr f.size.toNat)
  all : ret = packets.length → List.Forall₂ (fun x f => f = v1Frame f.addr x) packets frames
  ends : ret = 0 ∨ ret = packets.length

theorem v1Get_done (hI : ChanInv k p h ch) (hq : V1Queue k p h ch i q held) (hr : (ch.sub i).status = .running) (e : Nat → Nat)
    (hg : ncNdpV1TxBurstGet hdrOps e i ch q packets = (ch', q', frames, ret)) :
    ∃ h', V1GetDone k p h ch i q held packets h' ch' q' frames ret := by
  obtain ⟨h', hgot⟩ := v1TxRounds_gotten e packets 0 h ch q held hI hq hr
  obtain ⟨hmem, hall, hne⟩ := v1TxRounds_frames hdrOps (i := i) e packets 0 ch q
  unfold ncNdpV1TxBurstGet at hg
  rcases hrounds : v1TxRounds hdrOps e i 0 packets ch q with ⟨ch₁, q₁, written, ok⟩
  rw [hrounds] at hg hgot hmem hall hne
  have hflat := hgot.queue.flatten hgot.synced.inv
  have hlocked : ch₁.lockedSub ≠ some i → (written.map fun f => q.places f.addr f.size.toNat).flatten = [] := by
    intro hl
    have hnil := (hgot.queue.free hl).2.2
    rw [List.flatten_append] at hnil
    exact (List.append_eq_nil_iff.1 hnil).2
  refine ⟨h', ?_⟩
  cases ok with
  | true =>
    simp only [Prod.mk.injEq] at hg
    obtain ⟨rfl, rfl, rfl, rfl⟩ := hg
    refine ⟨hgot.synced, hgot.buffer, hgot.size, hgot.placed, hmem, hflat, hlocked, fun h0 => ?_, fun _ => hgot.queue,
      fun _ => hall rfl, .inr (hall rfl).length_eq.symm⟩
    have hnil : written = [] := List.eq_nil_of_length_eq_zero h0
    have hqueue := hgot.queue
    simpa [hnil] using hqueue
  | false =>
    simp only [Prod.mk.injEq] at hg
    obtain ⟨rfl, rfl, rfl, rfl⟩ := hg
    -- the old pointers are good for the window of the last lock as well
    refine ⟨hgot.synced, hgot.buffer, hgot.size, hgot.placed, hmem, hflat, hlocked, fun _ => ?_, fun h0 => absurd rfl h0,
      fun h0 => absurd (List.eq_nil_of_length_eq_zero h0.symm) (hne rfl), .inl rfl⟩
    have hback := hgot.restores q held hq
    have hb := hgot.buffer
    have hsz := hgot.size
    refine ⟨hback.k63, hsz ▸ hq.size, fun hl => ?_, fun hl => hback.free hl⟩
    obtain ⟨len, u, hw⟩ := hback.locked hl
    exact ⟨len, u, hw.lap, hw.le, hw.pos, hw.hwptr, hw.used, hw.bytes, hb ▸ hw.data, hw.held⟩

theorem Placed.mem {base : Int} : ∀ {o : Nat} {l : List V1Frame}, Placed k base o l → ∀ f ∈ l, 0 < f.size.toNat →
    ∃ n : Nat, f.addr = base + n ∧ n + f.size.toNat < 2 ^ k
  | _, _ :: _, hp, f, hf, hpos => by
    rcases List.mem_cons.1 hf with rfl | hf
    · exact ⟨_, hp.1 hpos⟩
    · exact Placed.mem hp.2 f hf hpos

theorem V1GetDone.inside {h' : Nat} (hd : V1GetDone k p h ch i q held packets h' ch' q' frames ret)
    (hfit : ∀ x ∈ packets, v1PaddedSize x < 2 ^ 16) : ∀ f ∈ frames, f.Inside q.buffer (2 ^ k) := by
  intro f hf
  obtain ⟨x, hx, hfx⟩ := hd.mem f hf
  have hsize : f.size = v1PacketSize x := by rw [hfx]; rfl
  have hpos : 0 < f.size.toNat := by
    rw [hsize, toNat_v1PacketSize, Nat.mod_eq_of_lt (hfit x hx)]
    exact v1PaddedSize_pos x
  obtain ⟨n, haddr, hn⟩ := hd.placed.mem f hf hpos
  have hlt : p % 2 ^ k < 2 ^ k := Nat.mod_lt _ (by positivity)
  have hbase : f.addr = q.buffer + ((p % 2 ^ k + n : Nat) : Int) := by
    rw [haddr]
    push_cast
    ring
  rw [hfx, hbase]
  exact v1Frame_inside (hfit x hx) (by rw [← hsize]; omega)

/-! ## Flush and put -/

/-- What a flush of `i` that ends in state `(ch', q')` has done: it published the `u` bytes that `i` held. -/
structure V1Flushed (k p h : Nat) (ch : Channel HdrCtrl) (i : Nat) (q : QueueV1) (held : List (List Nat))
    (ch' : Channel HdrCtrl) (q' : QueueV1) (u h' : Nat) : Prop where
  synced : Synced k p h ch i (p + u) h' ch'
  lap : u < 2 ^ k
  buffer : q'.buffer = q.buffer
  held : held.flatten = slots k p u
  queue : V1Queue k (p + u) h' ch' i q' []

theorem V1Flushed.pushed {u h' : Nat} (hI : ChanInv k p h ch) (hf : V1Flushed k p h ch i q held ch' q' u h') :
    ch'.ctrl.pushed = ch.ctrl.pushed ++ held.flatten := by
  have happ := slots_append k 0 p u
  rw [Nat.zero_add] at happ
  rw [hf.synced.inv.pushed, hI.pushed, hf.held, happ]

/-- A flush publishes all that the subscription holds and gives the lock back. -/
theorem v1Flush_flushed (hI : ChanInv k p h ch) (hq : V1Queue k p h ch i q held) (hr : (ch.sub i).status = .running)
    (e : Nat) :
    ∃ u h', V1Flushed k p h ch i q held (ncNdpV1TxBurstFlush hdrOps e i ch q).1 (ncNdpV1TxBurstFlush hdrOps e i ch q).2 u h' := by
  have hpos : 0 < 2 ^ k := by positivity
  have hqm := hq.mask
  obtain ⟨u, hu, hptr, hfree, hflat⟩ : ∃ u, p + u < h + 2 ^ k ∧
      (ch.lockedSub = some i → ((q.sync.hwptr + q.swptr) &&& q.mask).toNat = (p + u) % 2 ^ k) ∧
      (ch.lockedSub ≠ some i → u = 0) ∧ held.flatten = slots k p u := by
    by_cases hl : ch.lockedSub = some i
    · obtain ⟨len, u, hw⟩ := hq.locked hl
      have hlap := hw.lap
      have hul := hw.le
      refine ⟨u, by omega, fun _ => ?_, fun hn => absurd hl hn, hw.held⟩
      have h1 : At k q.sync.hwptr p := by rw [hw.hwptr]; exact at_of_mod hI.swptr
      have h2 : At k q.swptr u := by rw [← hw.used]; exact at_toNat _
      exact (At.add hqm.le_width h1 h2).toNat_and hqm
    · exact ⟨0, hI.lap, fun hc => absurd hc hl, fun _ => rfl, (hq.free hl).2.2⟩
  unfold ncNdpV1TxBurstFlush ncNdpV1TxUnlock
  simp only [ndpSubscriptionSync_running hr]
  -- the pointer where the hardware is told to read up to
  generalize (q.sync.hwptr + q.swptr) &&& q.mask = ptr at hptr
  obtain ⟨h', len, -, hs, hwin, hlen⟩ := txsync_synced (n := 0) (u := u) hI e i { q.sync with hwptr := ptr, swptr := ptr }
    (by simp) hu hptr hfree
  have hlen0 : len = 0 := by
    rcases hlen with hlen | ⟨hlen, -⟩
    · simpa using hlen
    · exact hlen
  subst hlen0
  have hnl : ¬ (ndpChannelTxsync hdrOps e ch i { q.sync with hwptr := ptr, swptr := ptr }).1.lockedSub = some i := by
    rw [hwin.locked]
    simp
  have hle := hI.le
  refine ⟨u, h', hs, by omega, rfl, hflat, hq.k63, hq.size, fun hl => absurd hl hnl, fun _ => ⟨rfl, rfl, rfl⟩⟩

/-! ## Runs -/

namespace TxV1

/-- The invariant of the system; the ring is mapped at `buffer i` for subscription `i`. -/
structure InvAt (k p h : Nat) (buffer : Nat → Int) (s : TxV1) : Prop where
  chan : ChanInv k p h s.ch
  queue : ∀ i, V1Queue k p h s.ch i (s.q i) (s.held i)
  mapped : ∀ i, (s.q i).buffer = buffer i
  account : Accounted s.ch.ctrl.pushed s.got s.sent s.held
  fresh : s.ch.startCount = 0 → p = 0 ∧ h = 0 ∧ s.ch.lockedSub = none
  running : ∀ i, (s.ch.sub i).status = .running → s.ch.startCount ≠ 0

def Inv (k : Nat) (buffer : Nat → Int) (s : TxV1) : Prop := ∃ p h, InvAt k p h buffer s

variable {buffer : Nat → Int} {s : TxV1}

theorem opened_inv (hk : k ≤ 63) (buffer : Nat → Int) : Inv k buffer (opened k buffer) := by
  have hpow : 2 ^ k ≤ 2 ^ 63 := Nat.pow_le_pow_right (by norm_num) hk
  have hpos : 0 < 2 ^ k := by positivity
  refine ⟨0, 0, ⟨isMask_ofNat (by omega), rfl, by simp [opened], rfl, by simp [opened], le_rfl, by omega, rfl⟩, fun i => ?_,
    fun _ => rfl, ⟨rfl, fun i => rfl⟩, fun _ => ⟨rfl, rfl, rfl⟩, fun _ h => nomatch h⟩
  refine ⟨hk, ?_, fun h => (nomatch h), fun _ => ⟨rfl, rfl, rfl⟩⟩
  show (BitVec.ofNat 64 (2 ^ k)).toNat = _
  rw [BitVec.toNat_ofNat, Nat.mod_eq_of_lt (by omega)]

theorem InvAt.called (hI : InvAt k p h buffer s) {p' h' : Nat} (hr : (s.ch.sub i).status = .running) (hs : Synced k p h s.ch i p' h' ch')
    (hb : q'.buffer = (s.q i).buffer) {got sent : List (Nat × List Nat)} {held : Nat → List (List Nat)}
    (hq : V1Queue k p' h' ch' i q' (held i)) (hheld : ∀ j, j ≠ i → held j = s.held j) (ha : Accounted ch'.ctrl.pushed got sent held) :
    InvAt k p' h' buffer { ch := ch', q := Function.update s.q i q', got, held, sent } := by
  refine ⟨hs.inv, fun j => ?_, fun j => ?_, ha, fun h0 => absurd (hs.startCount ▸ h0) (hI.running i hr), fun j hj => ?_⟩
  · by_cases hji : j = i
    · subst hji
      simpa using hq
    · simpa [hji, hheld j hji] using (hI.queue j).other hs hji
  · by_cases hji : j = i
    · subst hji
      simpa [hb] using hI.mapped j
    · simpa [hji] using hI.mapped j
  · show ch'.startCount ≠ 0
    rw [hs.startCount]
    exact hI.running j (hs.status j ▸ hj)

theorem flushed_inv (hI : InvAt k p h buffer s) {u h' : Nat} (hr : (s.ch.sub i).status = .running)
    (hf : V1Flushed k p h s.ch i (s.q i) (s.held i) ch' q' u h') : InvAt k (p + u) h' buffer (s.after i ch' q') := by
  have hs := hf.synced
  have hlap := hf.lap
  have hb : ∀ n, n % 2 ^ k < 2 ^ k := fun n => Nat.mod_lt _ (by positivity)
  have hmoved : ch'.swptr = s.ch.swptr ↔ u = 0 := by
    rw [(at_of_mod hs.inv.swptr).eq_iff (at_of_mod hI.chan.swptr) (by rw [hs.inv.swptr]; exact hb _)
      (by rw [hI.chan.swptr]; exact hb _) (by omega) (by omega)]
    omega
  have hpushed := hf.pushed hI.chan
  unfold after
  by_cases hu : u = 0
  · -- nothing was held
    have hnil : (s.held i).flatten = [] := by
      have hflat := hf.held
      rwa [hu, slots_zero] at hflat
    rw [if_neg (not_not.2 (hmoved.2 hu))]
    refine hI.called hr hs hf.buffer (hf.queue.congr hnil) (fun _ _ => rfl) ?_
    rw [hpushed, hnil, List.append_nil]
    exact hI.account
  · rw [if_pos (mt hmoved.1 hu)]
    refine hI.called hr hs hf.buffer (by rw [Function.update_self]; exact hf.queue)
      (fun j hj => Function.update_of_ne hj _ _) ?_
    rw [hpushed]
    exact hI.account.send i

theorem InvAt.after_self (hI : InvAt k p h buffer s) (i : Nat) : InvAt k p h buffer (s.after i s.ch (s.q i)) := by
  unfold after
  simpa using hI

theorem start_inv (hI : InvAt k p h buffer s) (i hw : Nat) : InvAt k p h buffer (s.step (.start i hw)) := by
  have hq0 : Function.update s.q i { s.q i with sync := (s.q i).sync } = s.q := Function.update_eq_self i s.q
  have hC := hI.chan
  unfold step ndpSubscriptionStart ndpChannelStart
  by_cases hst : (s.ch.sub i).status ≠ .subscribed
  · simp only [if_pos hst, hq0]
    exact hI
  simp only [if_neg hst]
  by_cases hc : s.ch.startCount = 0
  · obtain ⟨rfl, rfl, hl⟩ := hI.fresh hc
    simp only [if_pos hc, hdrOps, ne_eq, not_true_eq_false, if_false, hq0]
    refine ⟨⟨hC.mask, hC.mhp, by simp, rfl, by simp, le_rfl, hC.lap, hC.pushed⟩, fun j => ?_, hI.mapped, hI.account,
      fun h0 => absurd h0 (Nat.succ_ne_zero _), fun _ _ => Nat.succ_ne_zero _⟩
    have hj := hI.queue j
    exact ⟨hj.k63, hj.size, fun h => by simp [hl] at h, fun _ => hj.free (by rw [hl]; simp)⟩
  · simp only [if_neg hc, ne_eq, not_true_eq_false, if_false, hq0]
    refine ⟨⟨hC.mask, hC.mhp, hC.swptr, hC.shp, hC.hhp, hC.le, hC.lap, hC.pushed⟩, fun j => ?_, hI.mapped, hI.account,
      fun h0 => absurd h0 (Nat.succ_ne_zero _), fun _ _ => Nat.succ_ne_zero _⟩
    have hj := hI.queue j
    refine ⟨hj.k63, hj.size, fun hl => ?_, hj.free⟩
    obtain ⟨len, u, hw⟩ := hj.locked hl
    exact ⟨len, u, hw.lap, hw.le, hw.pos, hw.hwptr, hw.used, hw.bytes, hw.data, hw.held⟩

theorem get_inv (hI : InvAt k p h buffer s) (i : Nat) (hw : Nat → Nat) (packets : List NdpPacket) :
    ∃ h', InvAt k p h' buffer (s.step (.get i hw packets)) := by
  unfold step
  by_cases hr : (s.ch.sub i).status = .running
  · simp only [hr, ne_eq, not_true_eq_false, if_false]
    rcases hg : ncNdpV1TxBurstGet hdrOps hw i s.ch (s.q i) packets with ⟨ch', q', frames, ret⟩
    obtain ⟨h', hd⟩ := v1Get_done hI.chan (hI.queue i) hr hw hg
    have hs := hd.synced
    have hsw : ch'.swptr = s.ch.swptr := BitVec.eq_of_toNat_eq (by rw [hs.inv.swptr, hI.chan.swptr])
    have hpushed : ch'.ctrl.pushed = s.ch.ctrl.pushed := by rw [hs.inv.pushed, hI.chan.pushed]
    refine ⟨h', ?_⟩
    unfold after
    simp only [hsw, ne_eq, not_true_eq_false, if_false]
    split
    · rename_i hz
      exact hI.called hr hs hd.buffer (hd.fail hz) (fun _ _ => rfl) (hpushed ▸ hI.account)
    · rename_i hz
      unfold hand
      simp only [Function.update_self, places_congr hd.buffer hd.size]
      refine hI.called hr hs hd.buffer (by rw [Function.update_self]; exact hd.ok hz)
        (fun j hj => Function.update_of_ne hj _ _) ?_
      rw [hpushed]
      exact hI.account.hand i _
  · simp only [ne_eq, hr, not_false_eq_true, if_true]
    exact ⟨h, hI⟩

theorem step_inv (s : TxV1) (a : TxV1Act) (hI : Inv k buffer s) : Inv k buffer (s.step a) := by
  obtain ⟨p, h, hI⟩ := hI
  cases a with
  | start i hw => exact ⟨p, h, start_inv hI i hw⟩
  | get i hw packets =>
    obtain ⟨h', hg⟩ := get_inv hI i hw packets
    exact ⟨p, h', hg⟩
  | put i hw =>
    unfold step
    by_cases hr : (s.ch.sub i).status = .running
    · simp only [hr, ne_eq, not_true_eq_false, if_false]
      unfold ncNdpV1TxBurstPut
      split
      · obtain ⟨u, h', hf⟩ := v1Flush_flushed hI.chan (hI.queue i) hr hw
        exact ⟨p + u, h', flushed_inv hI hr hf⟩
      · exact ⟨p, h, hI.after_self i⟩
    · simp only [ne_eq, hr, not_false_eq_true, if_true]
      exact ⟨p, h, hI⟩
  | flush i hw =>
    unfold step
    by_cases hr : (s.ch.sub i).status = .running
    · simp only [hr, ne_eq, not_true_eq_false, if_false]
      obtain ⟨u, h', hf⟩ := v1Flush_flushed hI.chan (hI.queue i) hr hw
      exact ⟨p + u, h', flushed_inv hI hr hf⟩
    · simp only [ne_eq, hr, not_false_eq_true, if_true]
      exact ⟨p, h, hI⟩

theorem reachable_inv (hk : k ≤ 63) (buffer : Nat → Int) (acts : List TxV1Act) : Inv k buffer (run step (opened k buffer) acts) :=
  run_inv step_inv acts _ (opened_inv hk buffer)

/-! ## The stream -/

theorem InvAt.held_disjoint (hI : InvAt k p h buffer s) {j : Nat} (hij : i ≠ j) :
    List.Disjoint (s.held i).flatten (s.held j).flatten := by
  by_cases hi : s.ch.lockedSub = some i
  · have hj : s.ch.lockedSub ≠ some j := by rw [hi]; simpa using hij
    rw [((hI.queue j).free hj).2.2]
    exact List.disjoint_nil_right _
  · rw [((hI.queue i).free hi).2.2]
    exact List.disjoint_nil_left _

theorem InvAt.held_inFlight (hI : InvAt k p h buffer s) (i : Nat) :
    List.Disjoint (s.held i).flatten s.ch.ctrl.inFlight ∧ (s.held i).flatten.Nodup := by
  obtain ⟨u, hlap, hflat⟩ := (hI.queue i).flatten hI.chan
  have hle := hI.chan.le
  rw [hflat, hI.chan.inFlight]
  exact ⟨(slots_disjoint (by omega) (by omega)).symm, slots_nodup (by omega)⟩

/-- The places of the frames that a get of `i` writes. -/
def framePlaces (s : TxV1) (i : Nat) (frames : List V1Frame) : List Nat :=
  (frames.map fun f => (s.q i).places f.addr f.size.toNat).flatten

/-- What a get of `i` does in the ring that is mapped twice from `base` on: it returns 0 or hands out one frame for each
packet; it writes its frames, each with all of its pointers inside the mapping, over nothing that is held or that the
hardware still has to read; and if it returns 0, what `i` held is what a flush then publishes. -/
structure GetRight (k : Nat) (base : Int) (s : TxV1) (i : Nat) (hw : Nat → Nat) (packets : List NdpPacket)
    (ch' : Channel HdrCtrl) (frames : List V1Frame) (ret : Nat) : Prop where
  all : ret = 0 ∨ ret = packets.length ∧ List.Forall₂ (fun x f => f = v1Frame f.addr x) packets frames
  inside : ∀ f ∈ frames, f.Inside base (2 ^ k)
  nodup : (framePlaces s i frames).Nodup
  held : ∀ j, List.Disjoint (framePlaces s i frames) (s.held j).flatten
  inFlight : List.Disjoint (framePlaces s i frames) ch'.ctrl.inFlight
  fail : ret = 0 → (s.step (.get i hw packets)).held = s.held ∧
    ∀ e, ((s.step (.get i hw packets)).step (.flush i e)).ch.ctrl.pushed = s.ch.ctrl.pushed ++ (s.held i).flatten

/-- The frames of a get are behind what `i` holds, which is behind what is published. -/
theorem written_behind {h' : Nat} (hd : V1GetDone k p h s.ch i (s.q i) (s.held i) packets h' ch' q' frames ret) :
    (framePlaces s i frames).Nodup ∧ List.Disjoint (framePlaces s i frames) (s.held i).flatten ∧
      List.Disjoint (framePlaces s i frames) ch'.ctrl.inFlight := by
  obtain ⟨u, hlap, hflat⟩ := hd.written
  have hle := hd.synced.inv.le
  rw [List.flatten_append] at hflat
  have hnodup : ((s.held i).flatten ++ framePlaces s i frames).Nodup := by
    unfold framePlaces
    rw [hflat]
    exact slots_nodup (by omega)
  obtain ⟨-, hn, hdis⟩ := List.nodup_append'.1 hnodup
  refine ⟨hn, hdis.symm, ?_⟩
  have hfly : List.Disjoint ((s.held i).flatten ++ framePlaces s i frames) ch'.ctrl.inFlight := by
    unfold framePlaces
    rw [hflat, hd.synced.inv.inFlight]
    exact (slots_disjoint (by omega) (by omega)).symm
  exact (List.disjoint_append_left.1 hfly).2

theorem InvAt.getRight (hI : InvAt k p h buffer s) (hr : (s.ch.sub i).status = .running) (hw : Nat → Nat)
    (hfit : ∀ x ∈ packets, v1PaddedSize x < 2 ^ 16) (hg : ncNdpV1TxBurstGet hdrOps hw i s.ch (s.q i) packets = (ch', q', frames, ret)) :
    GetRight k (buffer i) s i hw packets ch' frames ret := by
  obtain ⟨h', hd⟩ := v1Get_done hI.chan (hI.queue i) hr hw hg
  obtain ⟨hnodup, hheld, hfly⟩ := written_behind hd
  refine ⟨hd.ends.imp_right fun h => ⟨h, hd.all h⟩, hI.mapped i ▸ hd.inside hfit, hnodup, fun j => ?_, hfly, fun h0 => ?_⟩
  · by_cases hji : j = i
    · rw [hji]
      exact hheld
    · by_cases hj : s.ch.lockedSub = some j
      · -- another subscription has the lock: nothing is written
        have hl : ch'.lockedSub ≠ some i := by
          rcases hd.synced.other with ho | ⟨-, -, -, hl, -⟩
          · exact absurd hj (ho j hji).1
          · rw [hl, hj]
            simpa using hji
        rw [show framePlaces s i frames = [] from hd.locked hl]
        exact List.disjoint_nil_left _
      · rw [((hI.queue j).free hj).2.2]
        exact List.disjoint_nil_right _
  · have hs := hd.synced
    have hsw : ch'.swptr = s.ch.swptr := BitVec.eq_of_toNat_eq (by rw [hs.inv.swptr, hI.chan.swptr])
    have hpushed : ch'.ctrl.pushed = s.ch.ctrl.pushed := by rw [hs.inv.pushed, hI.chan.pushed]
    have hstep : s.step (.get i hw packets) = { s with ch := ch', q := Function.update s.q i q' } := by
      simp only [step, hr, ne_eq, not_true_eq_false, if_false, hg, h0, if_true, after, hsw]
    rw [hstep]
    refine ⟨rfl, fun e => ?_⟩
    have hr' : (ch'.sub i).status = .running := (hs.status i).trans hr
    obtain ⟨u, h'', hf⟩ := v1Flush_flushed hs.inv (hd.fail h0) hr' e
    simp only [step, hr', ne_eq, not_true_eq_false, if_false, Function.update_self]
    rw [← hpushed, ← hf.pushed hs.inv]
    unfold after
    split <;> rfl

/-- In every state that calls of started subscriptions reach on a ring of `2 ^ k` bytes: the published bytes are the
sent frames in order, and what a subscription got is what it has sent and then what it holds; what is held is disjoint,
also from the bytes that the hardware still has to read; and the next get is right whatever its outcome. -/
theorem stream_right (hk : k ≤ 63) (buffer : Nat → Int) (acts : List TxV1Act) :
    let s := run step (opened k buffer) acts
    s.ch.ctrl.pushed = (s.sent.map (·.2)).flatten ∧
    (∀ i, s.got.filter (·.1 = i) = s.sent.filter (·.1 = i) ++ (s.held i).map (i, ·)) ∧
    (∀ i j, i ≠ j → List.Disjoint (s.held i).flatten (s.held j).flatten) ∧
    (∀ i, List.Disjoint (s.held i).flatten s.ch.ctrl.inFlight ∧ (s.held i).flatten.Nodup) ∧
    ∀ i hw packets, (s.ch.sub i).status = .running → (∀ x ∈ packets, v1PaddedSize x < 2 ^ 16) →
      ∀ ch' q' frames ret, ncNdpV1TxBurstGet hdrOps hw i s.ch (s.q i) packets = (ch', q', frames, ret) →
        GetRight k (buffer i) s i hw packets ch' frames ret := by
  intro s
  obtain ⟨p, h, hI⟩ := reachable_inv hk buffer acts
  exact ⟨hI.account.passed.symm, hI.account.hist, fun i j hij => hI.held_disjoint hij, hI.held_inFlight,
    fun i hw packets hr hx ch' q' frames ret hg => hI.getRight hr hw hx hg⟩

/-- Two subscriptions of a ring of 256 bytes. The first holds a frame of 72 bytes, fails to get three of 136, and
publishes; then the second gets one, which wraps around. -/
def rollbackThenWrap : List TxV1Act :=
  [.start 0 0, .start 1 0, .get 0 (fun _ => 0) [⟨0, 0, 64, 0, 0⟩],
    .get 0 (fun _ => 0) [⟨0, 0, 128, 0, 0⟩, ⟨0, 0, 128, 0, 0⟩, ⟨0, 0, 128, 0, 0⟩], .flush 0 100,
    .get 1 (fun _ => 0) [⟨0, 0, 200, 0, 0⟩], .flush 1 0]

theorem stream_right_rollback :
    8 ≤ 63 ∧ (run step (opened 8 fun _ => 4096) rollbackThenWrap).ch.ctrl.pushed.length = 280 ∧
      (run step (opened 8 fun _ => 4096) rollbackThenWrap).ch.ctrl.pushed =
        ((run step (opened 8 fun _ => 4096) rollbackThenWrap).sent.map (·.2)).flatten :=
  ⟨by decide, by decide +kernel, (stream_right (by decide) (fun _ => 4096) rollbackThenWrap).1⟩

end TxV1

end NdkSw.Ndp

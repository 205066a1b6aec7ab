/-
The release of an RX sync, for any controller: the scan over the running subscriptions finds the one that has released
the least, and the channel's pointer moves up to it. Positions are counted without bound: the running subscriptions
have released positions between `p` and `h`, and the channel knows of `h`.
-/
import NdkSw.Ndp.Channel

namespace NdkSw.Ndp

open Ring

variable {C E : Type} {k p h : Nat}

/-- The scan finds the smallest position: `m'` is at most that of every subscription in the list, and the
pointer found stands for it as soon as it is behind `h`. -/
theorem farthestSwptr_spec (ch : Channel C) (rel : Nat → Nat) (hm : IsMask ch.ptrmask k)
    (hh : At k ch.hwptr h) (hlap : h < p + 2 ^ k) : ∀ (l : List Nat) (acc : U64 × U64) (m : Nat),
    (∀ j ∈ l, (ch.sub j).swptr.toNat = rel j % 2 ^ k ∧ p ≤ rel j ∧ rel j ≤ h) → acc.1.toNat = h - m → p ≤ m → m ≤ h →
    (m < h → acc.2.toNat = m % 2 ^ k) →
    ∃ m', p ≤ m' ∧ m' ≤ m ∧ (m' < h → (farthestSwptr ch acc l).2.toNat = m' % 2 ^ k) ∧
      (m' = h → (farthestSwptr ch acc l).2 = acc.2) ∧ ∀ j ∈ l, m' ≤ rel j
  | [], acc, m, _, _, hp, _, hptr => ⟨m, hp, le_rfl, hptr, fun _ => rfl, fun j hj => by cases hj⟩
  | j :: l, acc, m, hl, hd, hp, hle, hptr => by
    obtain ⟨hsw, hpj, hjh⟩ := hl j List.mem_cons_self
    have hrest : ∀ i ∈ l, (ch.sub i).swptr.toNat = rel i % 2 ^ k ∧ p ≤ rel i ∧ rel i ≤ h :=
      fun i hi => hl i (List.mem_cons_of_mem _ hi)
    have hlock : ((ch.hwptr - (ch.sub j).swptr) &&& ch.ptrmask).toNat = h - rel j :=
      hh.toNat_sub_and hm (at_of_mod hsw) hjh (by omega)
    have hstep : farthestSwptr ch acc (j :: l) = farthestSwptr ch
        (if (ch.hwptr - (ch.sub j).swptr) &&& ch.ptrmask > acc.1
          then ((ch.hwptr - (ch.sub j).swptr) &&& ch.ptrmask, (ch.sub j).swptr) else acc) l := rfl
    rw [hstep]
    by_cases hgt : (ch.hwptr - (ch.sub j).swptr) &&& ch.ptrmask > acc.1
    · -- `j` is farther behind than all before
      have hlt : acc.1.toNat < h - rel j := by rw [← hlock]; exact BitVec.lt_def.1 hgt
      rw [if_pos hgt]
      obtain ⟨m', h1, h2, h3, h4, h5⟩ := farthestSwptr_spec ch rel hm hh hlap l
        ((ch.hwptr - (ch.sub j).swptr) &&& ch.ptrmask, (ch.sub j).swptr) (rel j) hrest hlock hpj hjh (fun _ => hsw)
      refine ⟨m', h1, by omega, h3, fun he => by omega, fun i hi => ?_⟩
      rcases List.mem_cons.1 hi with rfl | hi
      · exact h2
      · exact h5 i hi
    · have hge : h - rel j ≤ acc.1.toNat := by
        rw [← hlock]; exact Nat.le_of_not_lt fun hlt => hgt (BitVec.lt_def.2 hlt)
      rw [if_neg hgt]
      obtain ⟨m', h1, h2, h3, h4, h5⟩ := farthestSwptr_spec ch rel hm hh hlap l acc m hrest hd hp hle hptr
      refine ⟨m', h1, h2, h3, h4, fun i hi => ?_⟩
      rcases List.mem_cons.1 hi with rfl | hi
      · omega
      · exact h5 i hi

/-- The channel after a sync of `i` that released it up to the pointer `w`. -/
def Channel.rxsynced (ops : ChannelOps C E) (e : E) (ch : Channel C) (i : Nat) (swptr w : U64) : Channel C :=
  let hw := ops.getHwptr (ops.setSwptr ch.ctrl e w) e
  { ch with
    swptr := w, ctrl := hw.1, hwptr := hw.2
    sub := Function.update ch.sub i { ch.sub i with swptr, hwptr := hw.2 } }

theorem rxsync_eq (ops : ChannelOps C E) {ch : Channel C} {e : E} (hset : ops.setSwptr ch.ctrl e ch.swptr = ch.ctrl) (i : Nat)
    (sync : SubscriptionSync) {w : U64}
    (hw : (farthestSwptr { ch with sub := Function.update ch.sub i { ch.sub i with swptr := sync.swptr } }
      (0, sync.swptr) ch.listSubscriptions).2 = w) :
    ndpChannelRxsync ops e ch i sync =
      (ch.rxsynced ops e i sync.swptr w, { sync with hwptr := (ch.rxsynced ops e i sync.swptr w).hwptr }) := by
  unfold ndpChannelRxsync Channel.rxsynced
  simp only [Function.update_self, hw]
  by_cases hmove : w = ch.swptr
  · simp only [hmove, not_true_eq_false, if_false, hset, Function.update_idem, ne_eq, Function.update_self]
  · simp only [hmove, not_false_eq_true, if_true, Function.update_idem, ne_eq, Function.update_self]

/-- An RX sync of a running subscription that releases up to position `rel i`: the channel's pointer moves to a
position `p'` at or before what every running subscription has released. -/
theorem rxsync_released (ops : ChannelOps C E) {ch : Channel C} {e : E}
    (hset : ops.setSwptr ch.ctrl e ch.swptr = ch.ctrl) (hm : IsMask ch.ptrmask k) (hhw : ch.hwptr.toNat = h % 2 ^ k)
    (hle : p ≤ h) (hlap : h < p + 2 ^ k) (hlist : ∀ j, j ∈ ch.listSubscriptions ↔ (ch.sub j).status = .running) {i : Nat}
    (hr : (ch.sub i).status = .running) (sync : SubscriptionSync) (rel : Nat → Nat)
    (hrel : ∀ j, (ch.sub j).status = .running → j ≠ i → (ch.sub j).swptr.toNat = rel j % 2 ^ k ∧ p ≤ rel j ∧ rel j ≤ h)
    (hsw : sync.swptr.toNat = rel i % 2 ^ k) (hp : p ≤ rel i) (hh : rel i ≤ h) :
    ∃ p' w, p ≤ p' ∧ p' ≤ h ∧ w.toNat = p' % 2 ^ k ∧ (∀ j, (ch.sub j).status = .running → p' ≤ rel j) ∧
      ndpChannelRxsync ops e ch i sync =
        (ch.rxsynced ops e i sync.swptr w, { sync with hwptr := (ch.rxsynced ops e i sync.swptr w).hwptr }) := by
  -- the channel with the new pointer of `i`
  let ch₁ : Channel C := { ch with sub := Function.update ch.sub i { ch.sub i with swptr := sync.swptr } }
  have hself : ch₁.sub i = { ch.sub i with swptr := sync.swptr } := Function.update_self ..
  have hother : ∀ j, j ≠ i → ch₁.sub j = ch.sub j := fun j hj => Function.update_of_ne hj ..
  have hsub : ∀ j ∈ ch.listSubscriptions, (ch₁.sub j).swptr.toNat = rel j % 2 ^ k ∧ p ≤ rel j ∧ rel j ≤ h := by
    intro j hj
    by_cases hji : j = i
    · subst hji
      rw [hself]
      exact ⟨hsw, hp, hh⟩
    · rw [hother j hji]
      exact hrel j ((hlist j).1 hj) hji
  obtain ⟨m', h1, h2, h3, h4, h5⟩ := farthestSwptr_spec ch₁ rel hm (at_of_mod hhw) hlap ch.listSubscriptions
    (0, (ch₁.sub i).swptr) h hsub (by simp) hle le_rfl (fun hlt => absurd hlt (lt_irrefl _))
  have hmin : ∀ j, (ch.sub j).status = .running → m' ≤ rel j := fun j hj => h5 j ((hlist j).2 hj)
  refine ⟨m', (farthestSwptr ch₁ (0, (ch₁.sub i).swptr) ch.listSubscriptions).2, h1, h2, ?_, hmin,
    rxsync_eq ops hset i sync (by rw [hself])⟩
  have hi := hmin i hr
  rcases Nat.lt_or_ge m' h with hlt | hge
  · exact h3 hlt
  · rw [h4 (by omega), hself]
    show sync.swptr.toNat = _
    rw [hsw, show rel i = m' by omega]

end NdkSw.Ndp

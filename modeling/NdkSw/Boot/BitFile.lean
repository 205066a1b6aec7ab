/-
The loader of Xilinx bitstream files (`filetype_bit.c`): the start of the data is searched for in the first bytes, and the rest of
the file is read from there on. Memory can always be allocated.
-/
import NdkSw.Boot.BmcSpi

namespace NdkSw.Boot

open Ndp

/-! ## The search -/

/-- One of the inner loops: how many of `n` bytes are `0xFF`. -/
def countFF (data : List U8) (start : Nat) : Nat → Nat
  | 0 => 0
  | n + 1 => countFF data start n + if data.getD (start + n) 0 = 0xFF then 1 else 0

/-- The body of the loop over `i`: the index as it is left, and whether the bitstream is valid. -/
def bitRound (data : List U8) (i : Nat) : Nat × Bool :=
  if data.getD i 0 = 0xFF then
    let startPos := i
    let j := i + 32
    let r := if countFF data i 32 = 32 then (j + 16, countFF data (j + 8) 8) else (j, 0)
    if r.2 = 8 then (r.1, true) else (startPos, false)
  else (i, false)

/-- The index is put back where the search goes on. -/
theorem bitRound_back {data : List U8} {i : Nat} (h : (bitRound data i).2 = false) : (bitRound data i).1 = i := by
  unfold bitRound at h ⊢
  dsimp only at h ⊢
  split_ifs at h ⊢
  all_goals rfl

/-- The loop over `i`: the index behind the pattern. -/
def bitLoop (data : List U8) (i : Nat) : Option Nat :=
  if i < 512 then
    match h : (bitRound data i).2 with
    | true => some (bitRound data i).1
    | false => bitLoop data ((bitRound data i).1 + 1)
  else none
termination_by 512 - i
decreasing_by
  rw [bitRound_back h]
  omega

/-- `nfb_fw_open_bit_raw`: what it returns, and the buffer. -/
def nfbFwOpenBitRaw (file : List U8) : Int × Option (List U8) :=
  let size : Int := file.length
  if file.length < 1024 then (-1, none)
  else
    match bitLoop (file.take 1024) 0 with
    | none => (-1, none)
    | some i =>
      let offset := i - 48
      let size := size - offset
      let data32 := (file.drop offset).take size.toNat
      if data32.length < size.toNat then (-1, none)
      -- the offset is taken away for the second time
      else (size - offset, some data32)

/-! ## What is asked of the loader -/

/-- The pattern: 32 bytes `0xFF`, 8 bytes, 8 bytes `0xFF`. -/
structure Pattern (file : List U8) (s : Nat) : Prop where
  first : ∀ j < 32, file[s + j]? = some 0xFF
  second : ∀ j < 8, file[s + 40 + j]? = some 0xFF

/-- The first place of the pattern. -/
structure FirstPattern (file : List U8) (s : Nat) : Prop where
  near : s < 512
  here : Pattern file s
  least : ∀ t < s, ¬ Pattern file t

/-- The file from its pattern on, or a failure if there is none. -/
structure OpensRest (file : List U8) (run : Int × Option (List U8)) : Prop where
  fails : run.1 < 0 ↔ ∀ s < 512, ¬ Pattern file s
  rest : ∀ s, FirstPattern file s → run = (((file.length - s : Nat) : Int), some (file.drop s))

/-! ## The search finds the first place -/

section

variable {data file : List U8} {i s : Nat}

theorem countFF_le (data : List U8) (start : Nat) : ∀ n, countFF data start n ≤ n := by
  intro n
  induction n with
  | zero => exact le_refl _
  | succ n ih =>
    unfold countFF
    split_ifs <;> omega

theorem countFF_eq_iff (data : List U8) (start : Nat) : ∀ n, countFF data start n = n ↔ ∀ j < n, data.getD (start + j) 0 = 0xFF := by
  intro n
  induction n with
  | zero => exact ⟨fun _ j hj => absurd hj (Nat.not_lt_zero j), fun _ => rfl⟩
  | succ n ih =>
    have hle := countFF_le data start n
    unfold countFF
    constructor
    · intro h j hj
      split_ifs at h with hlast
      · rcases Nat.lt_succ_iff_lt_or_eq.1 hj with hlt | rfl
        · exact ih.1 (by omega) j hlt
        · exact hlast
      · omega
    · intro h
      rw [if_pos (h n (Nat.lt_succ_self n)), ih.2 fun j hj => h j (by omega)]

theorem getD_take_eq (h : 1024 ≤ file.length) (hi : i < 1024) : (file.take 1024).getD i 0 = 0xFF ↔ file[i]? = some 0xFF := by
  rw [List.getD_eq_getElem?_getD, List.getElem?_take_of_lt hi, List.getElem?_eq_getElem (by omega)]
  exact ⟨congrArg some, Option.some.inj⟩

theorem bitRound_eq (h : 1024 ≤ file.length) (hi : i < 512) :
    (Pattern file i ∧ bitRound (file.take 1024) i = (i + 48, true)) ∨ (¬ Pattern file i ∧ bitRound (file.take 1024) i = (i, false)) := by
  have hfirst : countFF (file.take 1024) i 32 = 32 ↔ ∀ j < 32, file[i + j]? = some 0xFF := by
    rw [countFF_eq_iff]
    exact forall₂_congr fun j hj => getD_take_eq h (by omega)
  have hsecond : countFF (file.take 1024) (i + 32 + 8) 8 = 8 ↔ ∀ j < 8, file[i + 40 + j]? = some 0xFF := by
    rw [countFF_eq_iff]
    exact forall₂_congr fun j hj => getD_take_eq h (by omega)
  have hhead := getD_take_eq h (i := i) (by omega)
  unfold bitRound
  dsimp only
  by_cases hff : (file.take 1024).getD i 0 = 0xFF
  · rw [if_pos hff]
    by_cases h₁ : countFF (file.take 1024) i 32 = 32
    · rw [if_pos h₁]
      by_cases h₂ : countFF (file.take 1024) (i + 32 + 8) 8 = 8
      · exact Or.inl ⟨⟨hfirst.1 h₁, hsecond.1 h₂⟩, if_pos h₂⟩
      · exact Or.inr ⟨fun hp => h₂ (hsecond.2 hp.second), if_neg h₂⟩
    · rw [if_neg h₁]
      exact Or.inr ⟨fun hp => h₁ (hfirst.2 hp.first), rfl⟩
  · rw [if_neg hff]
    exact Or.inr ⟨fun hp => hff (hhead.2 (hp.first 0 (by omega))), rfl⟩

theorem bitLoop_spec (h : 1024 ≤ file.length) : ∀ i ≤ 512, (∀ t < i, ¬ Pattern file t) →
    (∃ s, FirstPattern file s ∧ bitLoop (file.take 1024) i = some (s + 48)) ∨
      ((∀ s < 512, ¬ Pattern file s) ∧ bitLoop (file.take 1024) i = none) := by
  intro i
  induction hk : 512 - i generalizing i with
  | zero =>
    intro hi hnone
    obtain rfl : i = 512 := by omega
    rw [bitLoop, if_neg (by omega)]
    exact Or.inr ⟨hnone, rfl⟩
  | succ k ih =>
    intro hi hnone
    have hlt : i < 512 := by omega
    rw [bitLoop, if_pos hlt]
    rcases bitRound_eq h hlt with ⟨hp, hround⟩ | ⟨hp, hround⟩
    · rw [hround]
      exact Or.inl ⟨i, ⟨hlt, hp, hnone⟩, rfl⟩
    · rw [hround]
      refine ih (i + 1) (by omega) (by omega) fun t ht => ?_
      rcases Nat.lt_succ_iff_lt_or_eq.1 ht with hti | rfl
      · exact hnone t hti
      · exact hp

theorem nfbFwOpenBitRaw_cases (h : 1024 ≤ file.length) :
    ((∀ s < 512, ¬ Pattern file s) ∧ nfbFwOpenBitRaw file = (-1, none)) ∨
      ∃ s, FirstPattern file s ∧ nfbFwOpenBitRaw file = (((file.length - 2 * s : Nat) : Int), some (file.drop s)) := by
  unfold nfbFwOpenBitRaw
  dsimp only
  rw [if_neg (by omega)]
  rcases bitLoop_spec h 0 (by omega) (fun t ht => absurd ht (Nat.not_lt_zero t)) with ⟨s, hs, hloop⟩ | ⟨hnone, hloop⟩
  · right
    have hnear := hs.near
    have hsize : ((file.length : Int) - (s : Nat)).toNat = (file.drop s).length := by
      rw [List.length_drop]
      omega
    rw [hloop]
    refine ⟨s, hs, ?_⟩
    dsimp only
    rw [Nat.add_sub_cancel, hsize, List.take_length, if_neg (lt_irrefl _)]
    congr 1
    omega
  · rw [hloop]
    exact Or.inl ⟨hnone, rfl⟩

theorem FirstPattern.unique {t : Nat} (hs : FirstPattern file s) (ht : FirstPattern file t) : s = t := by
  rcases Nat.lt_trichotomy s t with hlt | heq | hgt
  · exact absurd hs.here (ht.least s hlt)
  · exact heq
  · exact absurd ht.here (hs.least t hgt)

/-- The loader does what is asked if and only if the pattern is nowhere, or at the start of the file. -/
theorem openBitRaw_rest_iff (file : List U8) (h : 1024 ≤ file.length) :
    OpensRest file (nfbFwOpenBitRaw file) ↔ ∀ s, FirstPattern file s → s = 0 := by
  rcases nfbFwOpenBitRaw_cases h with ⟨hnone, hrun⟩ | ⟨s, hs, hrun⟩
  · rw [hrun]
    constructor
    · intro _ s hs
      exact absurd hs.here (hnone s hs.near)
    · intro _
      exact ⟨⟨fun _ => hnone, fun _ => Int.negSucc_lt_zero 0⟩, fun s hs => absurd hs.here (hnone s hs.near)⟩
  · have hnear := hs.near
    rw [hrun]
    constructor
    · intro hok t ht
      obtain rfl := hs.unique ht
      have hsize := congrArg Prod.fst (hok.rest s hs)
      have hnat : file.length - 2 * s = file.length - s := Int.ofNat.inj hsize
      omega
    · intro hzero
      obtain rfl := hzero s hs
      refine ⟨⟨fun hneg => absurd hneg (Int.not_lt.2 (Int.natCast_nonneg _)), fun hnone => absurd hs.here (hnone 0 hs.near)⟩, ?_⟩
      intro t ht
      obtain rfl := hs.unique ht
      rfl

end

/-! ## A file -/

/-- One byte in front of the pattern. -/
def lateFile : List U8 := 0 :: (List.replicate 48 0xFF ++ List.replicate 975 0)

def promptFile : List U8 := List.replicate 48 0xFF ++ List.replicate 976 0

theorem length_lateFile : lateFile.length = 1024 := by
  rw [lateFile, List.length_cons, List.length_append, List.length_replicate, List.length_replicate]

theorem length_promptFile : promptFile.length = 1024 := by
  rw [promptFile, List.length_append, List.length_replicate, List.length_replicate]

theorem prompt_opens_rest : OpensRest promptFile (nfbFwOpenBitRaw promptFile) :=
  (openBitRaw_rest_iff promptFile (le_of_eq length_promptFile.symm)).2 fun s hs => by
    by_contra hne
    exact hs.least 0 (by omega) ⟨by decide, by decide⟩

/-- One byte in front of the pattern: the buffer has 1023 bytes, and the size is 1022. -/
theorem late_file_cut : ¬ OpensRest lateFile (nfbFwOpenBitRaw lateFile) := by
  intro hok
  have hfirst : FirstPattern lateFile 1 := by
    refine ⟨by omega, ⟨by decide, by decide⟩, fun t ht hp => ?_⟩
    obtain rfl : t = 0 := by omega
    exact absurd (hp.first 0 (by omega)) (by decide)
  rcases nfbFwOpenBitRaw_cases (le_of_eq length_lateFile.symm) with ⟨hnone, -⟩ | ⟨s, hs, hrun⟩
  · exact hnone 1 (by omega) hfirst.here
  · obtain rfl := hs.unique hfirst
    rw [hrun] at hok
    have hnat := Int.ofNat.inj (congrArg Prod.fst (hok.rest 1 hfirst))
    rw [length_lateFile] at hnat
    exact absurd hnat (by decide)

end NdkSw.Boot

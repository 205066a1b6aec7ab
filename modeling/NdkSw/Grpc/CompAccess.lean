/-
Access to a component through the gRPC extension (`client.cc`, `server.cc`). A call of the client passes the size check of
`nfb_comp_read` or `nfb_comp_write` (`nfb.c`), goes through `int` and the `int32` fields of the request, and ends in the same
function on the server's device.
-/
import NdkSw.Bits.Narrow
import NdkSw.Ndp.Channel

namespace NdkSw.Grpc.CompAccess

open Ndp Bits

abbrev I32 := BitVec 32
abbrev I64 := BitVec 64

/-! ## Buffers -/

/-- What a pointer points to. -/
abbrev Buffer := Nat → U8

/-- `memcpy` of `l` to the start of the buffer. -/
def Buffer.copy (b : Buffer) (l : List U8) : Buffer := fun i => (l[i]?).getD (b i)

/-- The first `n` bytes. -/
def Buffer.bytes (b : Buffer) (n : Nat) : List U8 := (List.range n).map b

@[simp] theorem Buffer.bytes_length (b : Buffer) (n : Nat) : (b.bytes n).length = n := by
  simp [Buffer.bytes]

theorem Buffer.copy_bytes (b c : Buffer) {n i : Nat} (h : i < n) : b.copy (c.bytes n) i = c i := by
  simp [Buffer.copy, Buffer.bytes, h]

theorem Buffer.copy_beyond (b : Buffer) {l : List U8} {i : Nat} (h : l.length ≤ i) : b.copy l i = b i := by
  simp [Buffer.copy, h]

/-! ## The device -/

/-- `struct nfb_comp`: where the component is on its bus. -/
structure NfbComp where
  base : BitVec 32
  size : BitVec 32

/-- The answers of a bus: the result of a read and what it stores, the result of a write. A read stays in its buffer and counts
no byte that it has not stored. -/
structure Bus where
  read : U64 → I64 → I64 × List U8
  write : I64 → List U8 → I64
  stored : ∀ nbyte offset, (read nbyte offset).2.length ≤ nbyte.toNat
  returned : ∀ nbyte offset, (read nbyte offset).1.toInt ≤ (read nbyte offset).2.length

/-- The bytes and where they go on the bus. -/
def written (offset : I64) (l : List U8) : List (I64 × U8) := l.mapIdx fun i b => (offset + BitVec.ofNat 64 i, b)

def Bus.readOp (d : Bus) (buf : Buffer) (nbyte : U64) (offset : I64) : I64 × Buffer :=
  (d.read nbyte offset).map id buf.copy

/-- `none` is an exception. -/
def Bus.writeOp (d : Bus) (buf : Buffer) (nbyte : U64) (offset : I64) : Option (I64 × List (I64 × U8)) :=
  some (d.write offset (buf.bytes nbyte.toNat), written offset (buf.bytes nbyte.toNat))

/-! ## libnfb -/

def NfbComp.base64 (comp : NfbComp) : I64 := comp.base.setWidth 64

/-- The check fails: `offset + nbyte > comp->size`, unsigned. -/
def NfbComp.Outside (comp : NfbComp) (nbyte : U64) (offset : I64) : Prop := comp.size.setWidth 64 < offset + nbyte

instance (comp : NfbComp) (nbyte : U64) (offset : I64) : Decidable (comp.Outside nbyte offset) := inferInstanceAs (Decidable (_ < _))

def nfbCompRead (comp : NfbComp) (read : Buffer → U64 → I64 → I64 × Buffer) (buf : Buffer) (nbyte : U64) (offset : I64) : I64 × Buffer :=
  if comp.Outside nbyte offset then (-1, buf) else read buf nbyte (offset + comp.base64)

def nfbCompWrite (comp : NfbComp) (write : Buffer → U64 → I64 → Option (I64 × List (I64 × U8))) (buf : Buffer) (nbyte : U64)
    (offset : I64) : Option (I64 × List (I64 × U8)) :=
  if comp.Outside nbyte offset then some (-1, []) else write buf nbyte (offset + comp.base64)

/-! ## Messages -/

structure ReadCompRequest where
  nbyte : I32
  offset : I32

structure ReadCompResponse where
  status : I32
  data : List U8

structure WriteCompRequest where
  nbyte : I32
  offset : I32
  data : List U8

structure WriteCompResponse where
  status : I32

/-! ## Server -/

/-- `ReadComp`; `heap` is what `new` returns. `none` is an exception, from `new` or from `std::string` of a negative length: the call
fails. -/
def readComp (comp : NfbComp) (d : Bus) (heap : Buffer) (req : ReadCompRequest) : Option ReadCompResponse :=
  if req.nbyte.toInt < 0 then none
  else
    let r := nfbCompRead comp d.readOp heap (req.nbyte.signExtend 64) (req.offset.signExtend 64)
    let nbyte : I32 := r.1.setWidth 32
    if nbyte.toInt < 0 then none else some { status := nbyte, data := r.2.bytes nbyte.toNat }

/-- `c_str()`. -/
def cStr (l : List U8) : Buffer := fun i => l.getD i 0

theorem bytes_cStr (b : Buffer) (n : Nat) : (cStr (b.bytes n)).bytes n = b.bytes n := by
  refine List.map_congr_left fun i hi => ?_
  have hlt : i < n := List.mem_range.1 hi
  simp [cStr, Buffer.bytes, hlt]

/-- `WriteComp`, with what goes on the bus. -/
def writeComp (comp : NfbComp) (d : Bus) (req : WriteCompRequest) : Option (WriteCompResponse × List (I64 × U8)) := do
  let r ← nfbCompWrite comp d.writeOp (cStr req.data) (req.nbyte.signExtend 64) (req.offset.signExtend 64)
  some ({ status := r.1.setWidth 32 }, r.2)

/-! ## Client -/

/-- `offset - m_base`, as the field takes it. -/
def reqOffset (comp : NfbComp) (offset : I32) : I32 := (offset.signExtend 64 - comp.base64).setWidth 32

/-- `NfbBus::comp_read`. -/
def clientCompRead (comp : NfbComp) (server : ReadCompRequest → Option ReadCompResponse) (buf : Buffer) (nbyte offset : I32) :
    I64 × Buffer :=
  match server { nbyte, offset := reqOffset comp offset } with
  | none => (-1, buf)
  | some resp => (BitVec.ofNat 64 resp.data.length, buf.copy resp.data)

/-- `NfbBus::comp_write`: `std::string` of a negative length throws. -/
def clientCompWrite (comp : NfbComp) (server : WriteCompRequest → Option (WriteCompResponse × List (I64 × U8))) (buf : Buffer)
    (nbyte offset : I32) : Option (I64 × List (I64 × U8)) :=
  if nbyte.toInt < 0 then none
  else
    match server { nbyte, offset := reqOffset comp offset, data := buf.bytes nbyte.toNat } with
    | none => some (-1, [])
    | some r => some (nbyte.signExtend 64, r.2)

def nfbBusGrpcRead (comp : NfbComp) (d : Bus) (heap buf : Buffer) (nbyte : U64) (offset : I64) : I64 × Buffer :=
  clientCompRead comp (readComp comp d heap) buf (nbyte.setWidth 32) (offset.setWidth 32)

def nfbBusGrpcWrite (comp : NfbComp) (d : Bus) (buf : Buffer) (nbyte : U64) (offset : I64) : Option (I64 × List (I64 × U8)) :=
  clientCompWrite comp (writeComp comp d) buf (nbyte.setWidth 32) (offset.setWidth 32)

/-! ## What the server is asked for -/

section Narrowed

variable (comp : NfbComp) (d : Bus) (buf heap : Buffer) (nbyte : U64) (offset : I64)

/-- The server's own checks let the narrowed call through. -/
def Served : Prop := 0 ≤ (nbyte.setWidth 32).toInt ∧ ¬comp.Outside (narrow 32 nbyte) (narrow 32 offset)

instance : Decidable (Served comp nbyte offset) := inferInstanceAs (Decidable (_ ∧ _))

/-- The answer of the bus to the narrowed call. -/
def served : I64 × List U8 := d.read (narrow 32 nbyte) (narrow 32 offset + comp.base64)

/-- The narrowed call has an answer that is no error. -/
def Answered : Prop := Served comp nbyte offset ∧ 0 ≤ ((served comp d nbyte offset).1.setWidth 32).toInt

instance : Decidable (Answered comp d nbyte offset) := inferInstanceAs (Decidable (_ ∧ _))

theorem reqOffset_eq : reqOffset comp ((offset + comp.base64).setWidth 32) = offset.setWidth 32 :=
  setWidth_narrow_add_sub (by decide) ..

theorem nfbBusGrpcRead_eq : nfbBusGrpcRead comp d heap buf nbyte (offset + comp.base64) =
    if Answered comp d nbyte offset then
      (((served comp d nbyte offset).1.setWidth 32).signExtend 64,
        buf.copy ((heap.copy (served comp d nbyte offset).2).bytes ((served comp d nbyte offset).1.setWidth 32).toNat))
    else (-1, buf) := by
  unfold nfbBusGrpcRead clientCompRead
  rw [reqOffset_eq]
  unfold readComp
  dsimp only
  by_cases hneg : (nbyte.setWidth 32).toInt < 0
  · rw [if_pos hneg, if_neg]
    rintro ⟨⟨hn, -⟩, -⟩
    exact absurd hneg (not_lt.2 hn)
  rw [if_neg hneg]
  unfold nfbCompRead
  by_cases hout : comp.Outside ((nbyte.setWidth 32).signExtend 64) ((offset.setWidth 32).signExtend 64)
  · rw [if_pos hout, if_pos (show ((-1 : I64).setWidth 32).toInt < 0 by decide), if_neg]
    rintro ⟨⟨-, hn⟩, -⟩
    exact hn hout
  rw [if_neg hout]
  have hs : Served comp nbyte offset := ⟨not_lt.1 hneg, hout⟩
  have hread : d.readOp heap ((nbyte.setWidth 32).signExtend 64) ((offset.setWidth 32).signExtend 64 + comp.base64) =
      ((served comp d nbyte offset).1, heap.copy (served comp d nbyte offset).2) := rfl
  rw [hread]
  dsimp only
  by_cases herr : ((served comp d nbyte offset).1.setWidth 32).toInt < 0
  · rw [if_pos herr, if_neg]
    rintro ⟨-, hn⟩
    exact absurd herr (not_lt.2 hn)
  · rw [if_neg herr, if_pos ⟨hs, not_lt.1 herr⟩]
    dsimp only
    rw [Buffer.bytes_length, ofNat_toNat_eq_signExtend (not_lt.1 herr)]

theorem nfbBusGrpcWrite_eq : nfbBusGrpcWrite comp d buf nbyte (offset + comp.base64) =
    if (nbyte.setWidth 32).toInt < 0 then none
    else some (narrow 32 nbyte, if comp.Outside (narrow 32 nbyte) (narrow 32 offset) then []
      else written (narrow 32 offset + comp.base64) (buf.bytes (nbyte.setWidth 32).toNat)) := by
  unfold nfbBusGrpcWrite clientCompWrite
  rw [reqOffset_eq]
  by_cases hneg : (nbyte.setWidth 32).toInt < 0
  · rw [if_pos hneg, if_pos hneg]
  rw [if_neg hneg, if_neg hneg]
  unfold writeComp nfbCompWrite
  dsimp only
  by_cases hout : comp.Outside (narrow 32 nbyte) (narrow 32 offset)
  · rw [if_pos hout, if_pos (show comp.Outside ((nbyte.setWidth 32).signExtend 64) ((offset.setWidth 32).signExtend 64) from hout)]
    rfl
  · rw [if_neg hout, if_neg (show ¬comp.Outside ((nbyte.setWidth 32).signExtend 64) ((offset.setWidth 32).signExtend 64) from hout)]
    have hlen : (narrow 32 nbyte).toNat = (nbyte.setWidth 32).toNat := toNat_signExtend_of_nonneg (by decide) (not_lt.1 hneg)
    show some (narrow 32 nbyte, written (narrow 32 offset + comp.base64) ((cStr (buf.bytes (nbyte.setWidth 32).toNat)).bytes
      (narrow 32 nbyte).toNat)) = _
    rw [hlen, bytes_cStr]

/-! ## Refinement -/

/-- The call as it is on the server's device, and through the client. -/
def localRead : I64 × Buffer := nfbCompRead comp d.readOp buf nbyte offset

def remoteRead : I64 × Buffer := nfbCompRead comp (nfbBusGrpcRead comp d heap) buf nbyte offset

def localWrite : Option (I64 × List (I64 × U8)) := nfbCompWrite comp d.writeOp buf nbyte offset

def remoteWrite : Option (I64 × List (I64 × U8)) := nfbCompWrite comp (nfbBusGrpcWrite comp d) buf nbyte offset

/-- The answer of the bus to the caller's own call. -/
def asked : I64 × List U8 := d.read nbyte (offset + comp.base64)

/-- The same result, the same bytes as far as the result counts them, and nothing stored beyond `nbyte`. -/
structure ReadRefines (buf : Buffer) (nbyte : U64) (l r : I64 × Buffer) : Prop where
  ret : r.1 = l.1
  data : ∀ i : Nat, (i : Int) < l.1.toInt → r.2 i = l.2 i
  within : ∀ i, nbyte.toNat ≤ i → r.2 i = buf i

/-- Length and offset come through the request as they are. -/
def Fits : Prop := nbyte.toNat < 2 ^ 31 ∧ FitsSigned 32 offset

/-- The bus answers the narrowed call as the caller's own. -/
def Coincides : Prop :=
  if Answered comp d nbyte offset then
    (asked comp d nbyte offset).1 = ((served comp d nbyte offset).1.setWidth 32).signExtend 64 ∧
      ∀ i < ((served comp d nbyte offset).1.setWidth 32).toNat,
        heap.copy (served comp d nbyte offset).2 i = heap.copy (asked comp d nbyte offset).2 i
  else (asked comp d nbyte offset).1 = -1

/-- The size check fails, or the call fits and the bus counts the bytes or fails with -1, or it does not fit and the bus makes no
difference between the call and its narrowed one. -/
def ReadRight : Prop :=
  comp.Outside nbyte offset ∨
  (Fits nbyte offset ∧ (0 ≤ (asked comp d nbyte offset).1.toInt ∨ (asked comp d nbyte offset).1 = -1)) ∨
  (¬Fits nbyte offset ∧ Coincides comp d heap nbyte offset)

/-- The size check fails, or the bus takes all the bytes, there are fewer than 2^31 of them and the offset fits (that of no bytes
is not looked at). -/
def WriteRight : Prop :=
  comp.Outside nbyte offset ∨
  (nbyte.toNat < 2 ^ 31 ∧ d.write (offset + comp.base64) (buf.bytes nbyte.toNat) = nbyte ∧ (nbyte = 0 ∨ FitsSigned 32 offset))

variable {comp d buf heap nbyte offset}

theorem Buffer.copy_congr (b c : Buffer) {l : List U8} {i : Nat} (h : i < l.length) : b.copy l i = c.copy l i := by
  simp [Buffer.copy, h]

theorem narrow_of_lt (h : nbyte.toNat < 2 ^ 31) : narrow 32 nbyte = nbyte ∧ (nbyte.setWidth 32).toInt = nbyte.toNat := by
  have hint : nbyte.toInt = nbyte.toNat := BitVec.toInt_eq_toNat_of_lt (by omega)
  have hfit : FitsSigned 32 nbyte := by
    unfold FitsSigned
    rw [hint]
    omega
  exact ⟨(narrow_eq_iff (by decide) (by decide)).2 hfit, by rw [toInt_setWidth_of_fits (by decide) (by decide) hfit, hint]⟩

theorem readRefines_iff_coincides (hin : ¬comp.Outside nbyte offset) :
    ReadRefines buf nbyte (localRead comp d buf nbyte offset) (remoteRead comp d buf heap nbyte offset) ↔
      Coincides comp d heap nbyte offset := by
  have hl : localRead comp d buf nbyte offset = ((asked comp d nbyte offset).1, buf.copy (asked comp d nbyte offset).2) := if_neg hin
  have hr : remoteRead comp d buf heap nbyte offset = nfbBusGrpcRead comp d heap buf nbyte (offset + comp.base64) := if_neg hin
  have hstored : (asked comp d nbyte offset).2.length ≤ nbyte.toNat := d.stored ..
  have hcounted : (asked comp d nbyte offset).1.toInt ≤ (asked comp d nbyte offset).2.length := d.returned ..
  rw [hl, hr, nfbBusGrpcRead_eq]
  unfold Coincides
  by_cases ha : Answered comp d nbyte offset
  · rw [if_pos ha, if_pos ha]
    have hnn := ha.2
    generalize (served comp d nbyte offset).1.setWidth 32 = n at hnn ⊢
    have hn : (n.signExtend 64).toInt = n.toNat := by
      rw [BitVec.toInt_signExtend_of_le (by decide), toNat_of_nonneg hnn]
    constructor
    · intro h
      have hret : n.signExtend 64 = (asked comp d nbyte offset).1 := h.ret
      refine ⟨hret.symm, fun i hi => ?_⟩
      rw [← hret, hn] at hcounted
      have hdata := h.data i (by rw [← hret, hn]; exact_mod_cast hi)
      dsimp only at hdata
      rw [Buffer.copy_bytes _ _ hi] at hdata
      rw [hdata]
      exact Buffer.copy_congr _ _ (by omega)
    · rintro ⟨hret, hdata⟩
      rw [hret, hn] at hcounted
      refine ⟨hret.symm, fun i hi => ?_, fun i hi => ?_⟩
      · dsimp only at hi ⊢
        rw [hret, hn] at hi
        rw [Buffer.copy_bytes _ _ (by omega), hdata i (by omega)]
        exact Buffer.copy_congr _ _ (by omega)
      · exact Buffer.copy_beyond _ (by rw [Buffer.bytes_length]; omega)
  · rw [if_neg ha, if_neg ha]
    constructor
    · intro h
      exact h.ret.symm
    · intro h
      refine ⟨h.symm, fun i hi => ?_, fun _ _ => rfl⟩
      dsimp only at hi
      rw [h] at hi
      exact absurd hi (not_lt.2 ((show ((-1 : I64).toInt ≤ 0) by decide).trans (Int.natCast_nonneg i)))

/-- A call that fits is the one the server makes. -/
theorem coincides_iff_of_fits (hf : Fits nbyte offset) (hin : ¬comp.Outside nbyte offset) :
    Coincides comp d heap nbyte offset ↔ 0 ≤ (asked comp d nbyte offset).1.toInt ∨ (asked comp d nbyte offset).1 = -1 := by
  obtain ⟨hn, hnn⟩ := narrow_of_lt hf.1
  have ho : narrow 32 offset = offset := (narrow_eq_iff (by decide) (by decide)).2 hf.2
  have hserved : served comp d nbyte offset = asked comp d nbyte offset := by
    unfold served asked
    rw [hn, ho]
  have hS : Served comp nbyte offset := ⟨by rw [hnn]; exact Int.natCast_nonneg _, by rwa [hn, ho]⟩
  have hstored : (asked comp d nbyte offset).2.length ≤ nbyte.toNat := d.stored ..
  have hcounted : (asked comp d nbyte offset).1.toInt ≤ (asked comp d nbyte offset).2.length := d.returned ..
  have hlt := hf.1
  have hA : Answered comp d nbyte offset ↔ 0 ≤ ((asked comp d nbyte offset).1.setWidth 32).toInt := by
    unfold Answered
    rw [hserved]
    exact and_iff_right hS
  unfold Coincides
  have hfit : 0 ≤ (asked comp d nbyte offset).1.toInt → FitsSigned 32 (asked comp d nbyte offset).1 := fun h => ⟨by omega, by omega⟩
  by_cases hr : 0 ≤ ((asked comp d nbyte offset).1.setWidth 32).toInt
  · rw [if_pos (hA.2 hr), hserved]
    constructor
    · rintro ⟨heq, -⟩
      left
      rwa [heq, BitVec.toInt_signExtend_of_le (by decide)]
    · rintro (h | h)
      · exact ⟨((narrow_eq_iff (by decide) (by decide)).2 (hfit h)).symm, fun _ _ => rfl⟩
      · rw [h] at hr
        exact absurd hr (by decide)
  · rw [if_neg (fun h => hr (hA.1 h))]
    constructor
    · exact Or.inr
    · rintro (h | h)
      · rw [toInt_setWidth_of_fits (by decide) (by decide) (hfit h)] at hr
        exact absurd h hr
      · exact h

theorem written_length (o : I64) (l : List U8) : (written o l).length = l.length := by
  simp [written]

theorem written_offset {o o' : I64} {l l' : List U8} (h : written o l = written o' l') (hl : l ≠ []) : o = o' := by
  cases l with
  | nil => exact absurd rfl hl
  | cons b l =>
    cases l' with
    | nil => simp [written] at h
    | cons b' l' =>
      simp only [written, List.mapIdx_cons, List.cons.injEq, Prod.mk.injEq] at h
      simpa using h.1.1

theorem write_eq_iff (hin : ¬comp.Outside nbyte offset) :
    remoteWrite comp d buf nbyte offset = localWrite comp d buf nbyte offset ↔
      nbyte.toNat < 2 ^ 31 ∧ d.write (offset + comp.base64) (buf.bytes nbyte.toNat) = nbyte ∧ (nbyte = 0 ∨ FitsSigned 32 offset) := by
  have hl : localWrite comp d buf nbyte offset = d.writeOp buf nbyte (offset + comp.base64) := if_neg hin
  have hr : remoteWrite comp d buf nbyte offset = nfbBusGrpcWrite comp d buf nbyte (offset + comp.base64) := if_neg hin
  rw [hl, hr, nfbBusGrpcWrite_eq]
  unfold Bus.writeOp
  constructor
  · intro h
    by_cases hneg : (nbyte.setWidth 32).toInt < 0
    · rw [if_pos hneg] at h
      cases h
    rw [if_neg hneg] at h
    obtain ⟨hret, hw⟩ := Prod.mk.inj (Option.some.inj h)
    have hnat := toNat_of_nonneg (not_lt.1 hneg)
    have hlt31 : (nbyte.setWidth 32).toInt < 2 ^ 31 := BitVec.toInt_lt
    by_cases hz : nbyte = 0
    · subst hz
      exact ⟨by decide, hret.symm.trans (by decide), Or.inl rfl⟩
    have hpos : 0 < nbyte.toNat := Nat.pos_of_ne_zero fun h0 => hz (BitVec.eq_of_toNat_eq h0)
    by_cases hout : comp.Outside (narrow 32 nbyte) (narrow 32 offset)
    · rw [if_pos hout] at hw
      have hlen := congrArg List.length hw
      rw [written_length, Buffer.bytes_length, List.length_nil] at hlen
      omega
    rw [if_neg hout] at hw
    have hlen := congrArg List.length hw
    rw [written_length, written_length, Buffer.bytes_length, Buffer.bytes_length] at hlen
    have hlt : nbyte.toNat < 2 ^ 31 := by omega
    have hoff := written_offset hw (List.ne_nil_of_length_pos (by rw [Buffer.bytes_length]; omega))
    refine ⟨hlt, by rw [← hret, (narrow_of_lt hlt).1], Or.inr ((narrow_eq_iff (by decide) (by decide)).1 ?_)⟩
    simpa using hoff
  · rintro ⟨hlt, hret, ho⟩
    obtain ⟨hn, hnn⟩ := narrow_of_lt hlt
    have hnat : (nbyte.setWidth 32).toNat = nbyte.toNat := by
      have := toNat_of_nonneg (x := nbyte.setWidth 32) (by omega)
      omega
    rw [if_neg (by omega), hret, hn, hnat]
    rcases ho with rfl | ho
    · have hnil : buf.bytes (0 : U64).toNat = [] := rfl
      rw [hnil]
      simp [written]
    · rw [(narrow_eq_iff (by decide) (by decide)).2 ho, if_neg hin]

variable (comp d buf heap nbyte offset)

/-- Every call of the client is the call on the server's device exactly under `ReadRight` and `WriteRight`. -/
theorem remote_refines_iff :
    (ReadRefines buf nbyte (localRead comp d buf nbyte offset) (remoteRead comp d buf heap nbyte offset) ↔
      ReadRight comp d heap nbyte offset) ∧
    (remoteWrite comp d buf nbyte offset = localWrite comp d buf nbyte offset ↔ WriteRight comp d buf nbyte offset) := by
  unfold ReadRight WriteRight
  by_cases hout : comp.Outside nbyte offset
  · have hl : localRead comp d buf nbyte offset = (-1, buf) := if_pos hout
    have hr : remoteRead comp d buf heap nbyte offset = (-1, buf) := if_pos hout
    have hlw : localWrite comp d buf nbyte offset = some (-1, []) := if_pos hout
    have hrw : remoteWrite comp d buf nbyte offset = some (-1, []) := if_pos hout
    rw [hl, hr, hlw, hrw]
    exact ⟨iff_of_true ⟨rfl, fun _ _ => rfl, fun _ _ => rfl⟩ (Or.inl hout), iff_of_true rfl (Or.inl hout)⟩
  · rw [readRefines_iff_coincides hout, write_eq_iff hout]
    refine ⟨?_, (or_iff_right hout).symm⟩
    rw [or_iff_right hout]
    by_cases hf : Fits nbyte offset
    · rw [coincides_iff_of_fits hf hout]
      exact ⟨fun h => Or.inl ⟨hf, h⟩, fun h => h.elim And.right fun h => absurd hf h.1⟩
    · exact ⟨fun h => Or.inr ⟨hf, h⟩, fun h => h.elim (fun h => absurd h.1 hf) And.right⟩

end Narrowed

/-- A bus that fails every access. -/
def deadBus : Bus where
  read _ _ := (-5, [])
  write _ _ := -1
  stored _ _ := Nat.zero_le _
  returned _ _ := by decide

/-- The write of four bytes fails on the device; the client reports four bytes. The error of the read becomes another one. -/
theorem failed_write_reported : localWrite ⟨0, 64⟩ deadBus (fun _ => 7) 4 0 = some (-1, written 0 [7, 7, 7, 7]) ∧
    remoteWrite ⟨0, 64⟩ deadBus (fun _ => 7) 4 0 = some (4, written 0 [7, 7, 7, 7]) ∧
    remoteWrite ⟨0, 64⟩ deadBus (fun _ => 7) 4 0 ≠ localWrite ⟨0, 64⟩ deadBus (fun _ => 7) 4 0 ∧
    (localRead ⟨0, 64⟩ deadBus (fun _ => 7) 4 0).1 = -5 ∧ (remoteRead ⟨0, 64⟩ deadBus (fun _ => 7) (fun _ => 0) 4 0).1 = -1 := by
  decide

end NdkSw.Grpc.CompAccess

/-
The size check of `nfb_comp_read` and `nfb_comp_write` (`nfb.c`): offset and length are added as unsigned numbers of 64 bits and
compared with the size of the component, and what passes goes on to the bus behind the component's base. On the MI bus that is a
copy from or to a mapping of the bus (`bus/mi.c`).
-/
import NdkSw.Grpc.CompAccess
import NdkSw.Nfb.MiCopy

namespace NdkSw.Nfb

open Ndp Grpc.CompAccess

/-! ## Accesses -/

/-- `nfb_comp_open_ext`: base and size of a component, from the cells of its `reg` property. -/
def nfbCompOpenExt (prop0 prop1 : U32) : NfbComp := ⟨prop0, prop1⟩

/-- The addresses of an access to the bus. -/
def busAddresses (nbyte : U64) (addr : I64) : List I64 := (List.range nbyte.toNat).map fun i => addr + BitVec.ofNat 64 i

/-- The address belongs to the component. -/
def Own (comp : NfbComp) (x : I64) : Prop := comp.base.toNat ≤ x.toNat ∧ x.toNat < comp.base.toNat + comp.size.toNat

/-- What calls with these arguments do, over every bus: they fail, without a call of the bus, or they are a call of the bus with
addresses of the component only. -/
structure StaysInside (comp : NfbComp) (nbyte : U64) (offset : I64) : Prop where
  read : (∀ read buf, nfbCompRead comp read buf nbyte offset = (-1, buf)) ∨
    ∃ n addr, (∀ read buf, nfbCompRead comp read buf nbyte offset = read buf n addr) ∧ ∀ x ∈ busAddresses n addr, Own comp x
  write : (∀ write buf, nfbCompWrite comp write buf nbyte offset = some (-1, [])) ∨
    ∃ n addr, (∀ write buf, nfbCompWrite comp write buf nbyte offset = write buf n addr) ∧ ∀ x ∈ busAddresses n addr, Own comp x

/-- The sum of offset and length passes 64 bits and comes out within the size. -/
def WrapsInside (comp : NfbComp) (nbyte : U64) (offset : I64) : Prop :=
  2 ^ 64 ≤ offset.toNat + nbyte.toNat ∧ offset.toNat + nbyte.toNat ≤ 2 ^ 64 + comp.size.toNat

instance (comp : NfbComp) (nbyte : U64) (offset : I64) : Decidable (WrapsInside comp nbyte offset) :=
  inferInstanceAs (Decidable (_ ∧ _))

/-! ## The MI bus -/

/-- `_nfb_bus_mi_memcopy_rd_noopt` on a mapping at `space`. -/
def miReadNoopt (arm : Bool) (space buf : Nat) (nbyte : U64) (addr : I64) : MiCopy × Nat :=
  memcopyNoopt arm buf (space + addr.toNat) nbyte.toNat addr.toNat false

/-- `_nfb_bus_mi_memcopy_rd_avx2_sse2`, the body of `nfb_bus_mi_read`. -/
def miReadAvx2Sse2 (arm mavx2 : Bool) (space buf : Nat) (nbyte : U64) (addr : I64) : MiCopy × Nat :=
  memcopyAvx2Sse2 arm mavx2 buf (space + addr.toNat) nbyte.toNat addr.toNat false

/-- `_nfb_bus_mi_memcopy_wr_noopt`. -/
def miWriteNoopt (arm : Bool) (space buf : Nat) (nbyte : U64) (addr : I64) : MiCopy × Nat :=
  memcopyNoopt arm (space + addr.toNat) buf nbyte.toNat addr.toNat false

/-- `_nfb_bus_mi_memcopy_wr_avx2_sse2`, the body of `nfb_bus_mi_write`. -/
def miWriteAvx2Sse2 (arm mavx2 : Bool) (space buf : Nat) (nbyte : U64) (addr : I64) : MiCopy × Nat :=
  memcopyAvx2Sse2 arm mavx2 (space + addr.toNat) buf nbyte.toNat addr.toNat false

/-- The place in the mapping that a pointer stands for. -/
def busAddress (space p : Nat) : I64 := BitVec.ofNat 64 p - BitVec.ofNat 64 space

theorem busAddress_add (space : Nat) (addr : I64) (i : Nat) :
    busAddress space (space + addr.toNat + i) = addr + BitVec.ofNat 64 i := by
  unfold busAddress
  rw [BitVec.ofNat_add, BitVec.ofNat_add, BitVec.ofNat_toNat, BitVec.setWidth_eq]
  grind

theorem read_addresses {space buf : Nat} {nbyte : U64} {addr : I64} {r : MiCopy × Nat} {offset : Nat}
    (h : CopyRight buf (space + addr.toNat) nbyte.toNat offset r) :
    (r.1.trace.flatMap (·.bytes)).map (fun p => busAddress space p.1) = busAddresses nbyte addr := by
  rw [h.copied.bytes, List.map_map]
  exact List.map_congr_left fun i _ => busAddress_add space addr i

theorem write_addresses {space buf : Nat} {nbyte : U64} {addr : I64} {r : MiCopy × Nat} {offset : Nat}
    (h : CopyRight (space + addr.toNat) buf nbyte.toNat offset r) :
    (r.1.trace.flatMap (·.bytes)).map (fun p => busAddress space p.2) = busAddresses nbyte addr := by
  rw [h.copied.bytes, List.map_map]
  exact List.map_congr_left fun i _ => busAddress_add space addr i

theorem mi_addresses (arm mavx2 : Bool) (space buf : Nat) (nbyte : U64) (addr : I64) :
    (∀ r ∈ [miReadNoopt arm space buf nbyte addr, miReadAvx2Sse2 arm mavx2 space buf nbyte addr],
      (r.1.trace.flatMap (·.bytes)).map (fun p => busAddress space p.1) = busAddresses nbyte addr) ∧
    ∀ r ∈ [miWriteNoopt arm space buf nbyte addr, miWriteAvx2Sse2 arm mavx2 space buf nbyte addr],
      (r.1.trace.flatMap (·.bytes)).map (fun p => busAddress space p.2) = busAddresses nbyte addr := by
  obtain ⟨hread, hread', -⟩ := memcopy_right arm mavx2 false buf (space + addr.toNat) nbyte.toNat addr.toNat
  obtain ⟨hwrite, hwrite', -⟩ := memcopy_right arm mavx2 false (space + addr.toNat) buf nbyte.toNat addr.toNat
  constructor
  · intro r hr
    simp only [List.mem_cons, List.not_mem_nil, or_false] at hr
    rcases hr with rfl | rfl
    · exact read_addresses hread'
    · exact read_addresses hread
  · intro r hr
    simp only [List.mem_cons, List.not_mem_nil, or_false] at hr
    rcases hr with rfl | rfl
    · exact write_addresses hwrite'
    · exact write_addresses hwrite

/-! ## The check -/

section

variable {comp : NfbComp} {nbyte : U64} {offset : I64}

theorem not_outside_iff : ¬comp.Outside nbyte offset ↔
    offset.toNat + nbyte.toNat ≤ comp.size.toNat ∨ WrapsInside comp nbyte offset := by
  have hsize := comp.size.isLt
  have hoff := offset.isLt
  have hn := nbyte.isLt
  unfold NfbComp.Outside WrapsInside
  rw [BitVec.lt_def, toNat_setWidth64, BitVec.toNat_add]
  omega

theorem own_iff (hin : ¬comp.Outside nbyte offset) :
    (∀ x ∈ busAddresses nbyte (offset + comp.base64), Own comp x) ↔ ¬WrapsInside comp nbyte offset := by
  have hbase := comp.base.isLt
  have hsize := comp.size.isLt
  have hoff := offset.isLt
  have hn := nbyte.isLt
  have haddr : ∀ i < nbyte.toNat, (offset + comp.base64 + BitVec.ofNat 64 i).toNat =
      (offset.toNat + comp.base.toNat + i) % 2 ^ 64 := by
    intro i hi
    rw [BitVec.toNat_add, BitVec.toNat_add, NfbComp.base64, toNat_setWidth64, BitVec.toNat_ofNat]
    omega
  have hmem : (∀ x ∈ busAddresses nbyte (offset + comp.base64), Own comp x) ↔
      ∀ i < nbyte.toNat, comp.base.toNat ≤ (offset.toNat + comp.base.toNat + i) % 2 ^ 64 ∧
        (offset.toNat + comp.base.toNat + i) % 2 ^ 64 < comp.base.toNat + comp.size.toNat := by
    simp only [busAddresses, List.forall_mem_map, List.mem_range, Own]
    exact forall₂_congr fun i hi => by rw [haddr i hi]
  rw [hmem]
  constructor
  · rintro h ⟨hlow, hhigh⟩
    have hpos : 0 < nbyte.toNat := by omega
    -- a small offset takes a length that runs past the end, a large one is in front of the base
    rcases Nat.lt_or_ge offset.toNat comp.size.toNat with hsmall | hlarge
    · obtain ⟨-, hend⟩ := h (comp.size.toNat - offset.toNat) (by omega)
      omega
    · obtain ⟨hstart, hend⟩ := h 0 hpos
      omega
  · intro hwrap i hi
    have hfit := (not_outside_iff.1 hin).resolve_right hwrap
    rw [Nat.mod_eq_of_lt (by omega)]
    omega

theorem staysInside_of_outside (h : comp.Outside nbyte offset) : StaysInside comp nbyte offset where
  read := .inl fun read buf => by rw [nfbCompRead, if_pos h]
  write := .inl fun write buf => by rw [nfbCompWrite, if_pos h]

theorem staysInside_iff_own (hin : ¬comp.Outside nbyte offset) :
    StaysInside comp nbyte offset ↔ ∀ x ∈ busAddresses nbyte (offset + comp.base64), Own comp x := by
  have hread : ∀ read buf, nfbCompRead comp read buf nbyte offset = read buf nbyte (offset + comp.base64) := by
    intro read buf
    rw [nfbCompRead, if_neg hin]
  have hwrite : ∀ write buf, nfbCompWrite comp write buf nbyte offset = write buf nbyte (offset + comp.base64) := by
    intro write buf
    rw [nfbCompWrite, if_neg hin]
  constructor
  · rintro ⟨hr | ⟨n, addr, hr, hown⟩, -⟩
    · -- a bus that reads nothing would return 0
      have hzero := hr (fun buf _ _ => (0, buf)) (fun _ => 0)
      rw [hread] at hzero
      cases hzero
    · have hn := hr (fun buf n _ => (n, buf)) (fun _ => 0)
      have haddr := hr (fun buf _ addr => (addr, buf)) (fun _ => 0)
      rw [hread, Prod.mk.injEq] at hn haddr
      rw [hn.1, haddr.1]
      exact hown
  · intro hown
    exact ⟨.inr ⟨nbyte, _, hread, hown⟩, .inr ⟨nbyte, _, hwrite, hown⟩⟩

end

/-- For every component of the device tree, every offset and every length: a read or a write fails without an access, or accesses
the component only, if and only if the sum of offset and length does not wrap to at most the size. -/
theorem stays_inside_iff (prop0 prop1 : U32) (nbyte : U64) (offset : I64) :
    StaysInside (nfbCompOpenExt prop0 prop1) nbyte offset ↔ ¬WrapsInside (nfbCompOpenExt prop0 prop1) nbyte offset := by
  by_cases hout : (nfbCompOpenExt prop0 prop1).Outside nbyte offset
  · have hwrap : ¬WrapsInside (nfbCompOpenExt prop0 prop1) nbyte offset := fun h => not_outside_iff.2 (.inr h) hout
    exact ⟨fun _ => hwrap, fun _ => staysInside_of_outside hout⟩
  · rw [staysInside_iff_own hout, own_iff hout]

/-- Eight bytes from four in front of a component of 256 bytes at 0x1000. -/
theorem neighbour_read : ¬StaysInside (nfbCompOpenExt 0x1000 0x100) 8 (-4) ∧
    (∀ read buf, nfbCompRead (nfbCompOpenExt 0x1000 0x100) read buf 8 (-4) = read buf 8 0xFFC) := by
  constructor
  · rw [staysInside_iff_own (by decide), own_iff (by decide)]
    decide
  · intro read buf
    rfl

end NdkSw.Nfb

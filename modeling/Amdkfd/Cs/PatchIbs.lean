import Amdkfd.Cs.Model
import Amdkfd.VmMap.ClearRange

/-!
# IBs that are parsed

For rings that emulate a VM, `amdgpu_cs_patch_ibs` looks up the mapping at the address of an IB and
hands its bytes to a parser. The place in the BO is counted from the start of the mapping, without
`mapping->offset`.
-/

namespace Amdkfd.Cs

open VmMap List

/-! ## Model -/

/-- The answers for an IB: the checks of `amdgpu_cs_find_mapping` behind the lookup,
`amdgpu_bo_kmap`, and the parser of the ring. -/
structure IbAnswers where
  find : Option Errno
  kmap : Option Errno
  parse : Option Errno

/-- The bytes of a BO that a parser is given. -/
structure Handed where
  boVa : Nat
  bo : VmMap.Bo
  offset : Nat
  length : Nat
  deriving DecidableEq

/-- `ib->gpu_addr & AMDGPU_GMC_HOLE_MASK`. -/
def Ib.vaStart (ib : Ib) : Nat := ib.gpuAddr % 2 ^ 48

/-- `ib->length_dw * 4`, in 32 bits. -/
def Ib.bytes (ib : Ib) : Nat := ib.lengthDw * 4 % 2 ^ 32

def lookupMapping (vm : Vm) (addr : Nat) : Option Mapping := vm.va.find? (·.overlaps addr addr)

def amdgpuCsFindMapping (vm : Vm) (ans : IbAnswers) (addr : Nat) :
    Except Errno (Nat × VmMap.Bo × Mapping) :=
  match lookupMapping vm (addr / gpuPageSize) with
  | none => .error .einval
  | some m =>
    match m.boVa with
    | none => .error .einval
    | some b =>
      match vm.bo b with
      | none => .error .einval
      | some bo =>
        match ans.find with
        | some e => .error e
        | none => .ok (b, bo, m)

/-- The loop of `amdgpu_cs_patch_ibs` up to the parser. -/
def patchIb (vm : Vm) (ans : IbAnswers) (ib : Ib) : Except Errno Handed :=
  match amdgpuCsFindMapping vm ans ib.vaStart with
  | .error e => .error e
  | .ok (b, bo, m) =>
    if (m.last + 1) * gpuPageSize < ib.vaStart + ib.bytes then .error .einval
    else
      match ans.kmap with
      | some e => .error e
      | none => .ok ⟨b, bo, ib.vaStart - m.start * gpuPageSize, ib.bytes⟩

def amdgpuCsPatchIbs (vm : Vm) : List (Ib × IbAnswers) → List Handed × Option Errno
  | [] => ([], none)
  | (ib, ans) :: ibs =>
    match patchIb vm ans ib with
    | .error e => ([], some e)
    | .ok h =>
      match ans.parse with
      | some e => ([h], some e)
      | none =>
        let r := amdgpuCsPatchIbs vm ibs
        (h :: r.1, r.2)

/-! ## What is to be shown -/

def Reaches (vm : Vm) (addr b byte : Nat) : Prop :=
  ∃ m ∈ vm.va, m.Covers (addr / gpuPageSize) ∧ m.boVa = some b ∧
    byte = m.offset + (addr - m.start * gpuPageSize)

structure RightBytes (vm : Vm) (ib : Ib) (h : Handed) : Prop where
  length : h.length = ib.bytes
  reaches : ∀ i < h.length, ∀ b byte, Reaches vm (ib.vaStart + i) b byte ↔
    b = h.boVa ∧ byte = h.offset + i
  inside : h.offset + h.length ≤ h.bo.size

/-- The mappings are apart, and none is larger than its BO. -/
structure Placed (vm : Vm) : Prop where
  disjoint : vm.Disjoint
  fits : ∀ m ∈ vm.va, ∀ b, m.boVa = some b → ∀ bo, vm.bo b = some bo →
    (m.last + 1 - m.start) * gpuPageSize ≤ bo.size

/-- The mapping that an IB begins in starts at the start of its BO. -/
def AtStart (vm : Vm) (ib : Ib) : Prop :=
  ∀ m ∈ vm.va, m.Covers (ib.vaStart / gpuPageSize) → m.offset = 0

/-! ## Placed mappings -/

section
variable {vm : Vm} {pageShift saddr eaddr b : Nat}

theorem bo_modify {c : Nat} {f : BoVa → BoVa} (hf : ∀ v, (f v).bo = v.bo) :
    (vm.modify c f).bo b = vm.bo b := by
  unfold Vm.bo
  by_cases hb : b = c
  · subst hb
    rw [modify_boVa_self]
    cases vm.boVa b with
    | none => rfl
    | some v => exact hf v
  · rw [modify_boVa_of_ne f hb]

theorem addPiece_bo (m : Mapping) : (addPiece vm m).bo b = vm.bo b := by
  unfold addPiece
  split
  · rfl
  · exact bo_modify fun _ => rfl

theorem gather_bo (c : ClearState) (t : Mapping) :
    (gather pageShift saddr eaddr c t).vm.bo b = c.vm.bo b := by
  have hdel : ∀ (vm : Vm) (c : Nat), (listDel vm c t).bo b = vm.bo b := fun _ _ =>
    bo_modify fun _ => rfl
  unfold gather
  cases t.boVa with
  | none => by_cases h1 : t.start < saddr <;> by_cases h2 : eaddr < t.last <;>
      simp [h1, h2, addPiece_bo]
  | some c => by_cases h1 : t.start < saddr <;> by_cases h2 : eaddr < t.last <;>
      simp [h1, h2, addPiece_bo, hdel]

theorem foldl_gather_bo (ts : List Mapping) (c : ClearState) :
    (ts.foldl (gather pageShift saddr eaddr) c).vm.bo b = c.vm.bo b := by
  induction ts generalizing c with
  | nil => rfl
  | cons t ts ih => exact (ih _).trans (gather_bo c t)

theorem clearPages_bo : (clearPages pageShift vm saddr eaddr).bo b = vm.bo b := by
  unfold clearPages Vm.bo
  dsimp only
  rw [(insertPiece_spec _ _).2.1, (insertPiece_spec _ _).2.1, (foldl_freeRemoved _ _).2.1]
  exact foldl_gather_bo _ _

theorem Placed.clearPages (h : Placed vm) (hle : saddr ≤ eaddr) :
    Placed (clearPages pageShift vm saddr eaddr) := by
  refine ⟨clearPages_apart h.disjoint hle, fun x hx c hc bo hbo => ?_⟩
  rw [clearPages_bo] at hbo
  rcases (mem_clearPages_va h.disjoint).mp hx with ⟨t, ht, hov, hp⟩ | ⟨hmem, -⟩
  · obtain ⟨hstart, hlast, -⟩ := piece_within hov hp
    have hown : t.boVa = some c := by
      rcases mem_piecesOf.mp hp with ⟨-, rfl⟩ | ⟨-, rfl⟩ <;> exact hc
    refine le_trans (Nat.mul_le_mul_right _ ?_) (h.fits t ht c hown bo hbo)
    omega
  · exact h.fits x hmem c hc bo hbo

theorem Placed.boMap (h : Placed vm) (dev : Device) (addr offset size : UInt64)
    (flags : BitVec 64) (kmalloc : Bool) :
    Placed (boMap dev vm b addr offset size flags kmalloc).1 := by
  unfold VmMap.boMap
  split
  · exact h
  · next hverify =>
    split_ifs with hover hmem
    · exact h
    · exact h
    · have hperm := itInsert_perm
        ⟨some b, startPage addr, lastPage addr size, offset.toNat, flags⟩ vm.va
      refine ⟨(hperm.pairwise_iff Mapping.Apart.symm).mpr (pairwise_cons.mpr
        ⟨fun u hu => ?_, h.disjoint⟩), fun x hx c hc bo hbo => ?_⟩
      · exact apart_of_not_overlaps fun hov => hover (any_eq_true.mpr ⟨u, hu, hov⟩)
      · replace hbo : vm.bo c = some bo :=
          Eq.trans (bo_modify (c := b) (f := fun v => { v with invalids := _ :: v.invalids })
            fun _ => rfl).symm hbo
        rcases mem_cons.mp (hperm.mem_iff.mp hx) with rfl | hmem
        · cases hc
          unfold verifyParameters at hverify
          split_ifs at hverify with halign hrange hany
          rw [not_or, not_or] at halign hrange
          rw [hbo] at hany
          have hsize : size.toNat ≠ 0 := fun hzero => hrange.2.2 (UInt64.toNat_inj.mp hzero)
          have hfits : offset.toNat + size.toNat ≤ bo.size := by simpa using hany
          simp only [startPage, lastPage, gpuPageSize] at halign ⊢
          omega
        · exact h.fits x hmem c hc bo hbo

end

/-! ## One IB -/

section
variable {vm : Vm} {ib : Ib} {ans : IbAnswers} {h : Handed}

theorem patchIb_spec (hp : patchIb vm ans ib = .ok h) : ∃ m ∈ vm.va,
    m.Covers (ib.vaStart / gpuPageSize) ∧ m.boVa = some h.boVa ∧ vm.bo h.boVa = some h.bo ∧
      ib.vaStart + ib.bytes ≤ (m.last + 1) * gpuPageSize ∧
      h.offset = ib.vaStart - m.start * gpuPageSize ∧ h.length = ib.bytes := by
  unfold patchIb amdgpuCsFindMapping at hp
  cases hlook : lookupMapping vm (ib.vaStart / gpuPageSize) with
  | none => simp [hlook] at hp
  | some m =>
    have hfound : vm.va.find? _ = some m := hlook
    have hm := mem_of_find?_eq_some hfound
    have hov := find?_some hfound
    have hcov := overlaps_iff.mp hov
    cases hb : m.boVa with
    | none => simp [hlook, hb] at hp
    | some b =>
      cases hbo : vm.bo b with
      | none => simp [hlook, hb, hbo] at hp
      | some bo =>
        cases hfind : ans.find with
        | some e => simp [hlook, hb, hbo, hfind] at hp
        | none =>
          cases hkmap : ans.kmap with
          | some e =>
            simp only [hlook, hb, hbo, hfind, hkmap] at hp
            split at hp <;> cases hp
          | none =>
            simp only [hlook, hb, hbo, hfind, hkmap] at hp
            split at hp
            · cases hp
            · next hend =>
              cases hp
              exact ⟨m, hm, hcov.symm, hb, hbo, not_lt.mp hend, rfl, rfl⟩

theorem rightBytes_iff (hvm : Placed vm) (hp : patchIb vm ans ib = .ok h) :
    RightBytes vm ib h ↔ ib.bytes = 0 ∨ AtStart vm ib := by
  obtain ⟨m, hm, hcov, hb, hbo, hend, hoff, hlen⟩ := patchIb_spec hp
  have hfits := hvm.fits m hm _ hb _ hbo
  have hlo : m.start * gpuPageSize ≤ ib.vaStart := (Nat.le_div_iff_mul_le (by decide)).mp hcov.1
  have hbytes : ∀ i < h.length, ∀ b byte, Reaches vm (ib.vaStart + i) b byte ↔
      b = h.boVa ∧ byte = m.offset + (h.offset + i) := by
    intro i hi b byte
    have hpage : m.Covers ((ib.vaStart + i) / gpuPageSize) := by
      unfold Mapping.Covers gpuPageSize at *
      omega
    have hadd : ib.vaStart + i - m.start * gpuPageSize = h.offset + i := by omega
    constructor
    · rintro ⟨u, hu, hcovu, hbu, hbyte⟩
      obtain rfl := hvm.disjoint.eq_of_covers hm hu hpage hcovu
      exact ⟨Option.some.inj (hbu.symm.trans hb), hadd ▸ hbyte⟩
    · rintro ⟨rfl, hbyte⟩
      exact ⟨m, hm, hpage, hb, hadd ▸ hbyte⟩
  constructor
  · intro hright
    refine or_iff_not_imp_left.mpr fun hpos u hu hcovu => ?_
    obtain rfl := hvm.disjoint.eq_of_covers hm hu hcov hcovu
    have h0 : 0 < h.length := by omega
    have heq := ((hbytes 0 h0 h.boVa _).symm.trans (hright.reaches 0 h0 h.boVa _)).mp ⟨rfl, rfl⟩
    omega
  · intro hcond
    refine ⟨hlen, fun i hi b byte => ?_, ?_⟩
    · have hzero : m.offset = 0 := hcond.resolve_left (by omega) m hm hcov
      rw [hbytes i hi, hzero, zero_add]
    · refine le_trans ?_ hfits
      rw [Nat.sub_mul]
      omega

end

/-- When all IBs are parsed, each parser was given the bytes at the addresses of its IB exactly when
the IBs that have bytes begin in mappings of the start of a BO. -/
theorem patchIbs_right_iff {vm : Vm} (hvm : Placed vm) {ibs : List (Ib × IbAnswers)}
    {handed : List Handed} (hok : amdgpuCsPatchIbs vm ibs = (handed, none)) :
    Forall₂ (fun x h => RightBytes vm x.1 h) ibs handed ↔
      ∀ x ∈ ibs, x.1.bytes = 0 ∨ AtStart vm x.1 := by
  induction ibs generalizing handed with
  | nil =>
    cases hok
    simp
  | cons x ibs ih =>
    obtain ⟨ib, ans⟩ := x
    unfold amdgpuCsPatchIbs at hok
    cases hp : patchIb vm ans ib with
    | error e => simp [hp] at hok
    | ok h =>
      cases hparse : ans.parse with
      | some e => simp [hp, hparse] at hok
      | none =>
        simp only [hp, hparse, Prod.mk.injEq] at hok
        obtain ⟨rfl, hrest⟩ := hok
        rw [forall₂_cons, forall_mem_cons, rightBytes_iff hvm hp, ih (Prod.ext rfl hrest)]

def exBoVm : Vm :=
  { va := []
    freed := []
    boVa := fun b =>
      if b = 0 then some ⟨some ⟨0x20000, none, false, false, false⟩, false, false, [], []⟩ else none
    pteSupportAts := false
    pte := fun _ => 0 }

theorem exMapped_fragment : 12 ≤ 12 := le_refl 12

def exMapped (offset : UInt64) : Vm :=
  (boMap (exClearDevice 12 exMapped_fragment) exBoVm 0 0x10000 offset 0x10000 0 true).1

theorem exBoVm_placed : Placed exBoVm :=
  ⟨List.Pairwise.nil, fun _ hm => absurd hm not_mem_nil⟩

theorem exMapped_placed (offset : UInt64) : Placed (exMapped offset) := exBoVm_placed.boMap ..

def exIbs : List (Ib × IbAnswers) := [({ gpuAddr := 0x12000, lengthDw := 16 }, ⟨none, none, none⟩)]

theorem patchIbs_right_exIbs :
    Forall₂ (fun x h => RightBytes (exMapped 0) x.1 h) exIbs
      [⟨0, ⟨0x20000, none, false, false, false⟩, 0x2000, 64⟩] :=
  (patchIbs_right_iff (exMapped_placed 0) (by decide +kernel)).mpr
    (by unfold AtStart; decide +kernel)

/-- The mapping begins at byte `0x10000` of the BO. The parser is given byte `0x2000`, where the GPU
reads byte `0x12000`. -/
theorem patchIbs_not_right :
    Placed (exMapped 0x10000) ∧ amdgpuCsPatchIbs (exMapped 0x10000) exIbs =
      ([⟨0, ⟨0x20000, none, false, false, false⟩, 0x2000, 64⟩], none) ∧
      ¬Forall₂ (fun x h => RightBytes (exMapped 0x10000) x.1 h) exIbs
        [⟨0, ⟨0x20000, none, false, false, false⟩, 0x2000, 64⟩] := by
  refine ⟨exMapped_placed _, by decide +kernel, fun h => ?_⟩
  have hreach : Reaches (exMapped 0x10000) 0x12000 0 0x12000 := by
    unfold Reaches
    decide +kernel
  exact absurd (((forall₂_cons.mp h).1.reaches 0 (by decide) 0 _).mp hreach).2 (by decide)

end Amdkfd.Cs

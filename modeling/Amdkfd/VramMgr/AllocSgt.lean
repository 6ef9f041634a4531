import Amdkfd.Ttm.ResCursor
import Amdkfd.VramMgr.Model

/-!
# The scatter table of exported VRAM

`amdgpu_vram_mgr_alloc_sgt`: one walk over the blocks of a resource counts the entries, a second one
maps and fills them. When a mapping fails, the entries with a length are unmapped.
-/

namespace Amdkfd.VramSgt

open Lib List
open Ttm (Cursor resFirst resNext)
open VramMgr (Block blocksSize)

/-! ## Model -/

def amdgpuMaxSgSegmentSize : Nat := 2 <<< 30

/-- `struct scatterlist`. -/
structure Sg where
  length : Nat
  dmaAddress : Nat
  dmaLen : Nat
  deriving DecidableEq

/-- A mapping that `dma_map_resource` has made. -/
structure Mapping where
  phys : Nat
  size : Nat
  addr : Nat
  deriving DecidableEq

/-- The mappings of a call, the ones that it unmaps, and the table that it returns. -/
structure Outcome where
  maps : List Mapping
  unmaps : List (Nat × Nat)
  result : Except Errno (List Sg)

def segmentSize (cur : Cursor) : Nat := min cur.size amdgpuMaxSgSegmentSize

/-- The walk that counts: `num_entries`. -/
def countEntries : Nat → Cursor → Nat
  | 0, _ => 0
  | fuel + 1, cur =>
    if cur.remaining ≠ 0 then countEntries fuel (resNext cur (segmentSize cur)) + 1 else 0

/-- The walk that fills the table from entry `i` on: the table, the mappings, and whether all were
made. `dma` is the address of the mapping of an entry, if it is made. -/
def fillTable (aperBase : Nat) (dma : Nat → Option Nat) :
    List Sg → Nat → Cursor → List Sg × List Mapping × Bool
  | [], _, _ => ([], [], true)
  | sg :: sgs, i, cur =>
    match dma i with
    | none => (sg :: sgs, [], false)
    | some addr =>
      let rest := fillTable aperBase dma sgs (i + 1) (resNext cur (segmentSize cur))
      (⟨segmentSize cur, addr, segmentSize cur⟩ :: rest.1,
        ⟨cur.start + aperBase, segmentSize cur, addr⟩ :: rest.2.1, rest.2.2)

def unmapTable (table : List Sg) : List (Nat × Nat) :=
  (table.filter fun sg => sg.length ≠ 0).map fun sg => (sg.dmaAddress, sg.length)

/-- `amdgpu_res_first`, also at the end of the blocks, where the cursor has nothing to go. -/
def firstCursor (bs : List Block) (offset length : Nat) : Cursor :=
  (resFirst (bs.map Block.extent) offset length).getD ⟨offset, length, length, []⟩

/-- `amdgpu_vram_mgr_alloc_sgt` for a resource with the blocks `bs`. `alloc` and `sgAllocTable` are
what `kmalloc` and `sg_alloc_table` do; an address that is not a mapping is `-ENOMEM`. -/
def amdgpuVramMgrAllocSgt (bs : List Block) (aperBase offset length : Nat) (alloc : Bool)
    (sgAllocTable : Nat → Option Errno) (dma : Nat → Option Nat) : Outcome :=
  if ¬ alloc then ⟨[], [], .error .enomem⟩
  else
    let numEntries := countEntries length (firstCursor bs offset length)
    match sgAllocTable numEntries with
    | some r => ⟨[], [], .error r⟩
    | none =>
      let table := replicate numEntries ⟨0, 0, 0⟩
      let filled := fillTable aperBase dma table 0 (firstCursor bs offset length)
      if filled.2.2 then ⟨filled.2.1, [], .ok filled.1⟩
      else ⟨filled.2.1, unmapTable filled.1, .error .enomem⟩

/-! ## What the table is for -/

def Mapping.extent (m : Mapping) : Extent := ⟨m.phys, m.size⟩

def Mapping.sg (m : Mapping) : Sg := ⟨m.size, m.addr, m.size⟩

/-- On success there are as many entries as were counted, each is that of a mapping of a size from 1
to the largest segment, and byte `k` of what is mapped is byte `offset + k` of the resource. On
failure each mapping is unmapped once. -/
structure Right (bs : List Block) (aperBase offset length : Nat) (out : Outcome) : Prop where
  entries : ∀ table, out.result = .ok table → table = out.maps.map Mapping.sg ∧
    table.length = countEntries length (firstCursor bs offset length)
  size : ∀ m ∈ out.maps, 0 < m.size ∧ m.size ≤ amdgpuMaxSgSegmentSize
  bytes : ∀ table, out.result = .ok table →
    Extent.total (out.maps.map Mapping.extent) = length ∧
      ∀ k < length, Extent.locate (out.maps.map Mapping.extent) k =
        (Extent.locate (bs.map Block.extent) (offset + k)).map (· + aperBase)
  kept : ∀ table, out.result = .ok table → out.unmaps = []
  undone : ∀ r, out.result = .error r → out.unmaps = out.maps.map fun m => (m.addr, m.size)

/-! ## The walks -/

section
variable {aperBase : Nat} {dma : Nat → Option Nat}

theorem segmentSize_spec {cur : Cursor} {blocks : List Extent} {pos remaining : Nat}
    (h : cur.At blocks pos remaining) (hpos : 0 < remaining) :
    0 < segmentSize cur ∧ segmentSize cur ≤ cur.size ∧ segmentSize cur ≤ remaining ∧
      segmentSize cur ≤ amdgpuMaxSgSegmentSize := by
  have hsize := h.size_pos hpos
  have hle := h.size_le hpos
  have hmax : 0 < amdgpuMaxSgSegmentSize := by decide
  unfold segmentSize
  omega

/-- What the filling walk leaves, when it starts with as many entries as the counting walk counts
from there. -/
structure Filled (aperBase : Nat) (blocks : List Extent) (pos remaining n : Nat)
    (out : List Sg × List Mapping × Bool) : Prop where
  table : out.1 = out.2.1.map Mapping.sg ++ replicate (n - out.2.1.length) ⟨0, 0, 0⟩
  size : ∀ m ∈ out.2.1, 0 < m.size ∧ m.size ≤ amdgpuMaxSgSegmentSize
  all : out.2.2 = true → out.2.1.length = n
  total : out.2.2 = true → Extent.total (out.2.1.map Mapping.extent) = remaining
  bytes : out.2.2 = true → ∀ k < remaining, Extent.locate (out.2.1.map Mapping.extent) k =
    (Extent.locate blocks (pos + k)).map (· + aperBase)

theorem fillTable_spec {fuel i : Nat} {cur : Cursor} {blocks : List Extent} {pos remaining : Nat}
    (h : cur.At blocks pos remaining) (hfuel : remaining ≤ fuel) :
    Filled aperBase blocks pos remaining (countEntries fuel cur)
      (fillTable aperBase dma (replicate (countEntries fuel cur) ⟨0, 0, 0⟩) i cur) := by
  induction fuel generalizing i cur pos remaining with
  | zero =>
    obtain rfl : remaining = 0 := Nat.le_zero.mp hfuel
    exact ⟨rfl, by simp [countEntries, fillTable], fun _ => rfl, fun _ => rfl, fun _ k hk =>
      absurd hk (Nat.not_lt_zero k)⟩
  | succ fuel ih =>
    obtain rfl | hpos := Nat.eq_zero_or_pos remaining
    · have hzero : countEntries (fuel + 1) cur = 0 := by
        rw [countEntries, if_neg (not_not.mpr h.remaining_eq)]
      rw [hzero]
      exact ⟨rfl, by simp [fillTable], fun _ => rfl, fun _ => rfl, fun _ k hk =>
        absurd hk (Nat.not_lt_zero k)⟩
    obtain ⟨hseg, hin, hle, hmax⟩ := segmentSize_spec h hpos
    have hnext := h.next hin hle
    have hcount : countEntries (fuel + 1) cur =
        countEntries fuel (resNext cur (segmentSize cur)) + 1 := by
      rw [countEntries, if_pos (by rw [h.remaining_eq]; omega)]
    rw [hcount, replicate_succ, fillTable]
    cases hdma : dma i with
    | none =>
      refine ⟨?_, by simp, fun hok => ?_, fun hok => ?_, fun hok => ?_⟩
      · simp [replicate_succ]
      all_goals cases hok
    | some addr =>
      obtain ⟨htable, hsize, hall, htotal, hbytes⟩ := @ih (i + 1) _ _ _ hnext (by omega)
      refine ⟨?_, ?_, fun hok => ?_, fun hok => ?_, fun hok k hk => ?_⟩
      · simp only [map_cons, cons_append, length_cons, Nat.add_sub_add_right]
        rw [htable]
        rfl
      · exact forall_mem_cons.mpr ⟨⟨hseg, hmax⟩, hsize⟩
      · exact congrArg (· + 1) (hall hok)
      · rw [map_cons, Extent.total_cons, htotal hok]
        exact Nat.add_sub_cancel' hle
      · obtain hlt | hge := lt_or_ge k (segmentSize cur)
        · have hbyte := h.locate hpos (show k < cur.size by omega)
          rw [hbyte, map_cons, Extent.locate_head hlt]
          simp only [Mapping.extent, Option.map_some, add_right_comm]
        · rw [map_cons, Extent.locate_tail hge]
          have hrest := hbytes hok (k - segmentSize cur) (by omega)
          rw [show pos + segmentSize cur + (k - segmentSize cur) = pos + k by omega] at hrest
          exact hrest

theorem fillTable_all {sgs : List Sg} {i : Nat} {cur : Cursor}
    (h : ∀ j < sgs.length, dma (i + j) ≠ none) : (fillTable aperBase dma sgs i cur).2.2 = true := by
  induction sgs generalizing i cur with
  | nil => rfl
  | cons sg sgs ih =>
    unfold fillTable
    cases hdma : dma i with
    | none => exact absurd hdma (h 0 (Nat.succ_pos _))
    | some addr =>
      refine ih fun j hj => ?_
      rw [add_assoc, add_comm 1 j]
      exact h (j + 1) (Nat.succ_lt_succ hj)

theorem unmapTable_eq {maps : List Mapping} (n : Nat) (h : ∀ m ∈ maps, 0 < m.size) :
    unmapTable (maps.map Mapping.sg ++ replicate n ⟨0, 0, 0⟩) =
      maps.map fun m => (m.addr, m.size) := by
  have hkept : ((maps.map Mapping.sg).filter fun sg => sg.length ≠ 0) = maps.map Mapping.sg := by
    rw [filter_eq_self]
    intro sg hsg
    obtain ⟨m, hm, rfl⟩ := mem_map.mp hsg
    have := h m hm
    exact decide_eq_true (show m.size ≠ 0 by omega)
  rw [unmapTable, filter_append, hkept, filter_replicate, map_append, map_map]
  simp [Function.comp_def, Mapping.sg]

end

/-! ## A call -/

/-- Inside the resource the cursor is at the first byte, if there is any. -/
theorem firstCursor_at {bs : List Block} {offset length : Nat}
    (hin : offset + length ≤ blocksSize bs) (hpos : 0 < length) :
    (firstCursor bs offset length).At (bs.map Block.extent) offset length := by
  have htotal : Extent.total (bs.map Block.extent) = blocksSize bs := by
    rw [Extent.total, blocksSize, map_map]
    rfl
  have hsizes : ∀ e ∈ bs.map Block.extent, 0 < e.size := by
    intro e he
    obtain ⟨b, -, rfl⟩ := mem_map.mp he
    exact b.size_pos
  have hstart : offset < Extent.total (bs.map Block.extent) := by omega
  have hend : offset + length ≤ Extent.total (bs.map Block.extent) := by omega
  obtain ⟨cur, hcur, hat⟩ := Ttm.resFirst_at hsizes hstart hend
  rw [firstCursor, hcur]
  exact hat

theorem filled_call {bs : List Block} {aperBase offset length : Nat} {dma : Nat → Option Nat}
    (hin : offset + length ≤ blocksSize bs) :
    Filled aperBase (bs.map Block.extent) offset length
      (countEntries length (firstCursor bs offset length))
      (fillTable aperBase dma
        (replicate (countEntries length (firstCursor bs offset length)) ⟨0, 0, 0⟩) 0
        (firstCursor bs offset length)) := by
  obtain rfl | hpos := Nat.eq_zero_or_pos length
  · exact ⟨rfl, by simp [countEntries, fillTable], fun _ => rfl, fun _ => rfl, fun _ k hk =>
      absurd hk (Nat.not_lt_zero k)⟩
  · exact fillTable_spec (firstCursor_at hin hpos) le_rfl

/-- For every range inside a resource and every outcome of the mappings. A table is returned when
there is memory for it and each entry is mapped. -/
theorem allocSgt_right (bs : List Block) (aperBase : Nat) {offset length : Nat}
    (hin : offset + length ≤ blocksSize bs) (alloc : Bool) (sgAllocTable : Nat → Option Errno)
    (dma : Nat → Option Nat) :
    Right bs aperBase offset length
      (amdgpuVramMgrAllocSgt bs aperBase offset length alloc sgAllocTable dma) ∧
    let numEntries := countEntries length (firstCursor bs offset length)
    (alloc = true → sgAllocTable numEntries = none → (∀ i < numEntries, dma i ≠ none) →
      ∃ table, (amdgpuVramMgrAllocSgt bs aperBase offset length alloc sgAllocTable dma).result =
        .ok table) := by
  refine ⟨?_, fun halloc hsg hdma => ?_⟩
  rotate_left
  · have hok := @fillTable_all aperBase dma
      (.replicate (countEntries length (firstCursor bs offset length)) ⟨0, 0, 0⟩) 0
      (firstCursor bs offset length) fun j hj => by
        rw [zero_add]
        exact hdma j (by rwa [length_replicate] at hj)
    simp [amdgpuVramMgrAllocSgt, halloc, hsg, hok]
  have hnothing : ∀ r, Right bs aperBase offset length ⟨[], [], .error r⟩ := fun r =>
    ⟨fun _ h => (by cases h), by simp, fun _ h => (by cases h), fun _ _ => rfl, fun _ _ => rfl⟩
  obtain ⟨htable, hsize, hall, htotal, hbytes⟩ := @filled_call bs aperBase offset length dma hin
  unfold amdgpuVramMgrAllocSgt
  split
  · exact hnothing _
  dsimp only
  split
  · exact hnothing _
  split
  · next hok =>
    refine ⟨fun table h => ?_, hsize, fun _ _ => ⟨htotal hok, hbytes hok⟩, fun _ _ => rfl,
      fun _ h => (by cases h)⟩
    cases h
    have hlen := hall hok
    rw [hlen, Nat.sub_self, replicate_zero, append_nil] at htable
    dsimp only
    rw [htable]
    exact ⟨rfl, by rw [length_map, hlen]⟩
  · refine ⟨fun _ h => (by cases h), hsize, fun _ h => (by cases h), fun _ h => (by cases h),
      fun r _ => ?_⟩
    dsimp only
    rw [htable]
    exact unmapTable_eq _ fun m hm => (hsize m hm).1

/-- The second half of a page and the first one of the next block, of which the second mapping fails
in the first call. -/
theorem allocSgt_right_at :
    Right [⟨0, 0⟩, ⟨0x4000, 1⟩] 0x100000 0x800 0x1000
      (amdgpuVramMgrAllocSgt [⟨0, 0⟩, ⟨0x4000, 1⟩] 0x100000 0x800 0x1000 true
        (fun n => if n = 0 then some .einval else none)
        (fun i => if i = 1 then none else some (0x8000 + i))) ∧
    ∃ table, (amdgpuVramMgrAllocSgt [⟨0, 0⟩, ⟨0x4000, 1⟩] 0x100000 0x800 0x1000 true
      (fun n => if n = 0 then some .einval else none) (fun i => some (0x8000 + i))).result =
        .ok table :=
  ⟨(allocSgt_right _ _ (by decide) _ _ _).1,
    (allocSgt_right _ _ (by decide) _ _ _).2 rfl (by decide +kernel) fun _ _ => nofun⟩

end Amdkfd.VramSgt

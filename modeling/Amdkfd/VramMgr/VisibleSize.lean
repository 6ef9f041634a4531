import Amdkfd.VramMgr.Accounting
import Mathlib.Algebra.BigOperators.Ring.List

/-!
# Start and visible size of a resource

`amdgpu_vram_mgr_new` takes as start of a resource the largest page that a block ends at, less the
size of the resource. `amdgpu_vram_mgr_bo_visible_size` takes a start outside the visible VRAM for
a resource outside it.
-/

namespace Amdkfd.VramMgr

open Lib List

/-! ## Model -/

def amdgpuVramMgrBoVisibleSize (adev : Adev) (realVramSize boSize : Nat) (v : Vres) : Nat :=
  if realVramSize = adev.visibleVramSize then boSize
  else if adev.visibleVramSize / pageSize ≤ v.start then 0
  else (v.blocks.map (visSize adev)).sum

/-! ## What is to be shown -/

/-- The blocks of the `drm_buddy` begin at pages, and those of a contiguous allocation follow one
another. -/
def Placed (contiguous : Bool) (bs : List Block) : Prop :=
  (∀ b ∈ bs, pageSize ∣ b.extent.start) ∧
    (contiguous = true → (bs.map Block.extent).IsChain Extent.Adjacent)

def VisibleSizeRight (adev : Adev) (realVramSize boSize : Nat) (v : Vres) : Prop :=
  realVramSize ≠ adev.visibleVramSize →
    amdgpuVramMgrBoVisibleSize adev realVramSize boSize v =
      (Extent.bytesBelow adev.visibleVramSize (v.blocks.map Block.extent)).card

/-- The start of a contiguous resource is the page of its first byte, and its bytes follow that. -/
def StartRight (v : Vres) : Prop :=
  v.contiguous = true →
    (∀ b ∈ v.blocks.head?, v.start = b.extent.start / pageSize) ∧
      ∀ o < v.size, Extent.locate (v.blocks.map Block.extent) o = some (v.start * pageSize + o)

/-! ## The start -/

theorem le_foldl_max {α : Type} {f : α → Nat} {xs : List α} {n a : Nat} :
    n ≤ xs.foldl (fun m x => max m (f x)) a ↔ n ≤ a ∨ ∃ x ∈ xs, n ≤ f x := by
  induction xs generalizing a with
  | nil => simp
  | cons x xs ih =>
    rw [foldl_cons, ih, le_max_iff, or_assoc]
    simp

def Block.lastPage (b : Block) : Nat := (b.extent.start + b.extent.size) / pageSize

variable {bs : List Block}

theorem le_resStart_iff {n size : Nat} (hsize : blocksSize bs = size) (hpage : pageSize ∣ size) :
    n ≤ resStart size bs ↔ n = 0 ∨ ∃ b ∈ bs, n + size / pageSize ≤ b.lastPage := by
  have hup : (max (blocksSize bs) size + (pageSize - 1)) / pageSize = size / pageSize := by
    obtain ⟨k, rfl⟩ := hpage
    rw [hsize, max_self, Nat.mul_div_cancel_left _ (by decide : 0 < pageSize)]
    unfold pageSize
    omega
  rw [resStart]
  simp only [hup]
  rw [le_foldl_max, Nat.le_zero]
  obtain rfl | hn := Nat.eq_zero_or_pos n
  · simp
  refine or_congr_right (exists_congr fun b => and_congr_right fun _ => ?_)
  unfold Block.lastPage
  split <;> omega

theorem blocksSize_eq_total (bs : List Block) :
    blocksSize bs = Extent.total (bs.map Block.extent) := by
  rw [blocksSize, Extent.total, map_map]
  rfl

theorem pageSize_dvd_blocksSize (bs : List Block) : pageSize ∣ blocksSize bs := by
  refine dvd_sum fun n hn => ?_
  obtain ⟨b, -, rfl⟩ := mem_map.mp hn
  exact Nat.dvd_mul_right ..

theorem resStart_of_adjacent {b : Block} {size : Nat} (hsize : blocksSize (b :: bs) = size)
    (hpage : pageSize ∣ b.extent.start) (h : ((b :: bs).map Block.extent).IsChain Extent.Adjacent) :
    resStart size (b :: bs) = b.extent.start / pageSize := by
  have hdvd : pageSize ∣ size := hsize ▸ pageSize_dvd_blocksSize (b :: bs)
  have htotal : Extent.total ((b :: bs).map Block.extent) = size := by
    rw [← blocksSize_eq_total, hsize]
  obtain ⟨k, hk⟩ := hpage
  obtain ⟨m, hm⟩ := hdvd
  have hpos : 0 < pageSize := by decide
  refine eq_of_forall_le_iff fun n => ?_
  rw [le_resStart_iff hsize (hm ▸ Nat.dvd_mul_right ..), hk, hm, Nat.mul_div_cancel_left _ hpos,
    Nat.mul_div_cancel_left _ hpos]
  constructor
  · rintro (rfl | ⟨c, hc, hle⟩)
    · exact Nat.zero_le _
    · have hend := Extent.end_le_of_adjacent h c.extent (mem_map_of_mem hc)
      rw [map_cons] at htotal
      rw [htotal, hk, hm, ← Nat.mul_add] at hend
      have hlast : c.lastPage ≤ k + m := by
        unfold Block.lastPage
        exact (Nat.div_le_div_right hend).trans_eq (Nat.mul_div_cancel_left _ hpos)
      omega
  · intro hle
    obtain ⟨e, he, hend⟩ := Extent.exists_last_of_adjacent h
    obtain ⟨c, hc, rfl⟩ := mem_map.mp (show e ∈ (b :: bs).map Block.extent from he)
    rw [map_cons] at htotal
    rw [htotal, hk, hm, ← Nat.mul_add] at hend
    refine .inr ⟨c, hc, ?_⟩
    rw [Block.lastPage, hend, Nat.mul_div_cancel_left _ hpos]
    omega

/-! ## What `amdgpu_is_vram_mgr_blocks_contiguous` tells -/

theorem contiguousFrom_iff {b : Block} :
    contiguousFrom b bs = true ↔ ((b :: bs).map Block.extent).IsChain Extent.Adjacent := by
  induction bs generalizing b with
  | nil => simp [contiguousFrom]
  | cons c bs ih =>
    rw [contiguousFrom, map_cons, map_cons, isChain_cons_cons, ← map_cons, ← ih]
    unfold Extent.Adjacent
    split
    · next hne => simp [hne]
    · next heq => simp [not_not.mp heq]

theorem adjacent_of_contiguous (h : isBlocksContiguous bs = true) :
    (bs.map Block.extent).IsChain Extent.Adjacent := by
  cases bs with
  | nil => cases h
  | cons b bs => exact contiguousFrom_iff.mp h

/-! ## A new resource -/

section
variable {adev : Adev} {s s' : Mgr} {tbo : Tbo} {place : Place} {alloc : Bool}
  {answers : List Answer} {id : Nat} {v : Vres}

/-- What `amdgpu_vram_mgr_new` makes of the blocks. -/
structure MadeOf (tbo : Tbo) (place : Place) (bs : List Block) (v : Vres) : Prop where
  blocks : v.blocks = bs
  size : v.size = tbo.size
  start : v.start = resStart tbo.size bs
  contiguous : v.contiguous = (place.contiguous || isBlocksContiguous bs)

theorem vramMgrNew_madeOf (hnew : vramMgrNew adev s tbo place alloc answers = (s', .ok id))
    (hv : s'.live.head? = some v) :
    ∃ bs, MadeOf tbo place bs v ∧
      (tbo.size = 0 ∧ bs = [] ∨ answers.head? = some (.ok bs)) := by
  unfold vramMgrNew at hnew
  split at hnew
  · cases hnew
  · dsimp only at hnew
    split at hnew
    · cases hnew
    · split at hnew
      · cases hnew
      · next bs hbs =>
        cases hnew
        obtain rfl := Option.some.inj hv
        exact ⟨bs, ⟨rfl, rfl, rfl, rfl⟩, allocLoop_eq hbs⟩

theorem visibleSize_iff {bs : List Block} (hmade : MadeOf tbo place bs v)
    (hsize : blocksSize bs = tbo.size) (hapart : (bs.map Block.extent).Pairwise Extent.Apart)
    (realVramSize boSize : Nat) :
    VisibleSizeRight adev realVramSize boSize v ↔
      realVramSize = adev.visibleVramSize ∨
        (∀ b ∈ bs, adev.visibleVramSize ≤ b.extent.start) ∨
        0 < adev.visibleVramSize / pageSize ∧
          ∀ b ∈ bs, b.lastPage < adev.visibleVramSize / pageSize + tbo.size / pageSize := by
  have hcard : (Extent.bytesBelow adev.visibleVramSize (bs.map Block.extent)).card =
      visTotal adev bs := by
    rw [Extent.card_bytesBelow _ hapart, map_map, visTotal]
    congr 1
    exact map_congr_left fun b _ => (visSize_eq adev b).symm
  have hstart : adev.visibleVramSize / pageSize ≤ v.start ↔
      ¬ (0 < adev.visibleVramSize / pageSize ∧
        ∀ b ∈ bs, b.lastPage < adev.visibleVramSize / pageSize + tbo.size / pageSize) := by
    rw [hmade.start, le_resStart_iff hsize (hsize ▸ pageSize_dvd_blocksSize bs)]
    simp only [not_and_or, not_lt, Nat.le_zero, not_forall, exists_prop]
  unfold VisibleSizeRight amdgpuVramMgrBoVisibleSize
  rw [hmade.blocks, hcard]
  by_cases hfull : realVramSize = adev.visibleVramSize
  · simp [hfull]
  simp only [hfull, if_false, not_false_eq_true, ne_eq, true_implies, false_or]
  split
  · next hle =>
    -- The start is outside the visible pages, and 0 is returned.
    rw [or_iff_left (hstart.mp hle), ← visTotal_eq_zero]
    exact eq_comm
  · next hlt =>
    exact iff_of_true rfl (.inr (not_not.mp fun hnot => hlt (hstart.mpr hnot)))

theorem start_right {bs : List Block} (hmade : MadeOf tbo place bs v)
    (hsize : blocksSize bs = tbo.size) (hplaced : Placed place.contiguous bs) : StartRight v := by
  intro hcontiguous
  have hadj : (bs.map Block.extent).IsChain Extent.Adjacent := by
    rw [hmade.contiguous, Bool.or_eq_true] at hcontiguous
    exact hcontiguous.elim hplaced.2 adjacent_of_contiguous
  rw [hmade.blocks, hmade.size, hmade.start]
  cases bs with
  | nil =>
    obtain hzero : tbo.size = 0 := hsize.symm
    exact ⟨by simp, by simp [hzero]⟩
  | cons b bs =>
    have hpage := hplaced.1 b mem_cons_self
    have hstart := resStart_of_adjacent hsize hpage hadj
    refine ⟨by simpa using hstart, fun o ho => ?_⟩
    rw [blocksSize_eq_total] at hsize
    rw [hstart, Nat.div_mul_cancel hpage]
    exact Extent.locate_of_adjacent hadj (hsize ▸ ho)

/-- The start and the visible size of a new resource are right exactly when all VRAM is visible, or
no block begins in the visible VRAM, or no block ends as many pages behind it as the resource has.
The `drm_buddy` hands out free blocks that begin at pages, and ones that follow one another when a
contiguous allocation is asked for. -/
theorem visibleSize_right_iff (hnew : vramMgrNew adev s tbo place alloc answers = (s', .ok id))
    (hv : s'.live.head? = some v)
    (hbuddy : ∀ a ∈ answers.head?, HandsOut s (allocCall adev tbo place tbo.size) a)
    (hplaced : ∀ bs, answers.head? = some (.ok bs) → Placed place.contiguous bs)
    (realVramSize boSize : Nat) :
    VisibleSizeRight adev realVramSize boSize v ∧ StartRight v ↔
      realVramSize = adev.visibleVramSize ∨
        (∀ b ∈ v.blocks, adev.visibleVramSize ≤ b.extent.start) ∨
        0 < adev.visibleVramSize / pageSize ∧
          ∀ b ∈ v.blocks, b.lastPage < adev.visibleVramSize / pageSize + v.size / pageSize := by
  obtain ⟨bs, hmade, hfrom⟩ := vramMgrNew_madeOf hnew hv
  obtain ⟨hsize, hapart, hplacedBs⟩ : blocksSize bs = tbo.size ∧
      (bs.map Block.extent).Pairwise Extent.Apart ∧ Placed place.contiguous bs := by
    obtain ⟨hzero, rfl⟩ | hhead := hfrom
    · exact ⟨hzero.symm, List.Pairwise.nil, by simp [Placed]⟩
    · obtain ⟨hapart, -, hsize, -⟩ := hbuddy _ hhead
      exact ⟨hsize, hapart, hplaced bs hhead⟩
  rw [and_iff_left (start_right hmade hsize hplacedBs), visibleSize_iff hmade hsize hapart,
    hmade.blocks, hmade.size]

end

def exSplit : Vres :=
  { id := 0, size := 0x2000, start := 14, contiguous := false, cached := false
    flags := { topdown := false, contiguous := false, range := false }
    blocks := [⟨0, 0⟩, ⟨0xf000, 0⟩] }

def exPages : Vres :=
  { id := 0, size := 0x2000, start := 0, contiguous := true, cached := false
    flags := { topdown := false, contiguous := false, range := false }
    blocks := [⟨0, 0⟩, ⟨0x1000, 0⟩] }

theorem visibleSize_right_at :
    VisibleSizeRight exAdev 0x10000 0x2000 exPages ∧ StartRight exPages :=
  (@visibleSize_right_iff exAdev init (vramMgrNew exAdev init ⟨0x2000, true, 0⟩
      ⟨0, 0, false, false⟩ true [.ok exPages.blocks]).1 ⟨0x2000, true, 0⟩ ⟨0, 0, false, false⟩ true
    [.ok exPages.blocks] 0 exPages (Prod.ext rfl (by decide +kernel)) (by decide +kernel)
    (by decide +kernel) (fun bs h => by cases h; exact ⟨by decide, by decide⟩) 0x10000
    0x2000).mpr (by decide)

/-- The first page is visible, but the start is that of the second one, less a page. -/
theorem visibleSize_wrong :
    (vramMgrNew exAdev init ⟨0x2000, true, 0⟩ ⟨0, 0, false, false⟩ true
        [.ok [⟨0, 0⟩, ⟨0xf000, 0⟩]]).1.live.head? = some exSplit ∧
      HandsOut init (allocCall exAdev ⟨0x2000, true, 0⟩ ⟨0, 0, false, false⟩ 0x2000)
        (.ok [⟨0, 0⟩, ⟨0xf000, 0⟩]) ∧
      amdgpuVramMgrBoVisibleSize exAdev 0x10000 0x2000 exSplit = 0 ∧
      ¬ VisibleSizeRight exAdev 0x10000 0x2000 exSplit := by
  refine ⟨by decide +kernel, by decide +kernel, by decide, fun h => ?_⟩
  have hnone := Finset.card_eq_zero.mp (h (by decide)).symm
  have hfirst : 0 ∈ Extent.bytesBelow exAdev.visibleVramSize (exSplit.blocks.map Block.extent) :=
    Extent.mem_bytesBelow.mpr ⟨by decide, by decide⟩
  rw [hnone] at hfirst
  exact Finset.notMem_empty 0 hfirst

end Amdkfd.VramMgr

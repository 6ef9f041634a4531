import Amdkfd.Ttm.ResCursor
import Mathlib.Data.Nat.Bitwise
import Mathlib.Tactic.Ring

/-!
# The windows of the GART

`amdgpu_ttm_map_buffer`: a piece of a buffer is mapped for the copy engine, at the address it has or
through one of two windows of 512 entries at the start of the GART. The entries of a window come
from the page array of the buffer, or from its place in VRAM.

An entry maps 4 KB, whatever the size of a CPU page is. A resource is what the source calls
`struct ttm_resource`, with the page array of its buffer object beside it.
-/

namespace Amdkfd.Ttm

open Lib List

/-! ## Model -/

def gpuPageSize : Nat := 4096

def gttMaxTransferSize : Nat := 512

def gttNumTransferWindows : Nat := 2

def pteValid : Nat := 1
def pteSystem : Nat := 2
def pteSnooped : Nat := 4
def pteTmz : Nat := 8
def pteReadable : Nat := 32
def pteWriteable : Nat := 64

def pteAddrMask : Nat := 0x0000FFFFFFFFF000

/-- What is read of `struct amdgpu_device`: the size of a CPU page, and where the VRAM and the GART
lie in the address space of the GPU. The rest is how the hardware and the driver set them up. -/
structure Device where
  pageSize : Nat
  vramStart : Nat
  vramSize : Nat
  gartStart : Nat
  gartSize : Nat
  vramBaseOffset : Nat
  gartPteFlags : Nat
  page : pageSize = 4096 ∨ pageSize = 65536
  apart : vramStart + vramSize ≤ gartStart ∨ gartStart + gartSize ≤ vramStart
  /-- The windows are before the space that the GTT manager hands out. -/
  windows : gttMaxTransferSize * gttNumTransferWindows * pageSize ≤ gartSize
  base_aligned : vramBaseOffset % gpuPageSize = 0
  base_room : vramBaseOffset + vramSize + pageSize ≤ 2 ^ 48
  flags_addr : gartPteFlags &&& pteAddrMask = 0
  flags_system : gartPteFlags &&& pteSystem = 0

def Device.ratio (adev : Device) : Nat := adev.pageSize / gpuPageSize

inductive MemType
  | vram | tt | preempt
  deriving DecidableEq

/-- `struct ttm_resource`: `start` is a page number, `none` for `AMDGPU_BO_INVALID_OFFSET`. The
blocks are those of the VRAM manager, or the `drm_mm_node` of the GTT manager in bytes. -/
structure Resource where
  memType : MemType
  start : Option Nat
  size : Nat
  blocks : List Extent
  /-- `bus.caching` is `ttm_cached`. -/
  busCached : Bool
  deriving DecidableEq

/-- `struct amdgpu_copy_mem`, with what is read of the `ttm` of its buffer object. -/
structure CopyMem where
  mem : Resource
  dmaAddress : List Nat
  /-- `ttm->caching` is `ttm_cached`. -/
  cached : Bool
  readonly : Bool
  offset : Nat
  deriving DecidableEq

def domainStart (adev : Device) : MemType → Nat
  | .tt => adev.gartStart
  | .vram => adev.vramStart
  | .preempt => 0

/-- `amdgpu_ttm_tt_pde_flags`, of a resource in memory that the GPU reaches. -/
def ttPdeFlags (m : CopyMem) : Nat :=
  pteValid
    ||| (if m.mem.memType = .tt ∨ m.mem.memType = .preempt then
        pteSystem ||| (if m.cached then pteSnooped else 0) else 0)
    ||| (if m.mem.memType = .vram ∧ m.mem.busCached then pteSnooped else 0)

def ttPteFlags (adev : Device) (m : CopyMem) : Nat :=
  ttPdeFlags m ||| adev.gartPteFlags ||| pteReadable ||| (if m.readonly then 0 else pteWriteable)

def mapFlags (adev : Device) (m : CopyMem) (tmz : Bool) : Nat :=
  ttPteFlags adev m ||| (if tmz then pteTmz else 0)

/-- The value that `amdgpu_gmc_set_pte_pde` writes. -/
def setPtePde (addr flags : Nat) : Nat := addr &&& pteAddrMask ||| flags

/-- `amdgpu_gart_map`: the entries it writes, each with its index from `dst` on. -/
def gartMap (adev : Device) (offset pages : Nat) (dmaAddr : Nat → Nat) (flags : Nat) :
    List (Nat × Nat) :=
  (range pages).flatMap fun i =>
    (range adev.ratio).map fun j =>
      (offset / gpuPageSize + i * adev.ratio + j, setPtePde (dmaAddr i + j * gpuPageSize) flags)

def pfnUp (adev : Device) (x : Nat) : Nat := (x + adev.pageSize - 1) / adev.pageSize

def numPages (adev : Device) (cur : Cursor) (size : Nat) : Nat :=
  min (pfnUp adev (size + cur.start % adev.pageSize)) gttMaxTransferSize

/-- What `amdgpu_ttm_map_buffer` hands back, the indexes of `dma_address` that it reads and the
entries of the GART that the job it submits writes. -/
structure Mapping where
  size : Nat
  addr : Nat
  indexes : List Nat
  entries : List (Nat × Nat)
  deriving DecidableEq

def windowEntries (adev : Device) (m : CopyMem) (cur : Cursor) (tmz : Bool) (pages : Nat) :
    List (Nat × Nat) :=
  if m.mem.memType = .tt then
    gartMap adev 0 pages (fun i => m.dmaAddress.getD (cur.start / adev.pageSize + i) 0)
      (mapFlags adev m tmz)
  else
    (range pages).flatMap fun i =>
      gartMap adev (i * adev.pageSize) 1
        (fun _ => cur.start + adev.vramBaseOffset + i * adev.pageSize) (mapFlags adev m tmz)

/-- A piece that can be accessed directly. -/
def directMap (adev : Device) (m : CopyMem) (cur : Cursor) (size : Nat) : Mapping where
  size := size
  addr := domainStart adev m.mem.memType + cur.start
  indexes := []
  entries := []

/-- A piece through a window. -/
def windowMap (adev : Device) (m : CopyMem) (cur : Cursor) (window : Nat) (tmz : Bool)
    (size : Nat) : Mapping where
  size := min size (numPages adev cur size * adev.pageSize - cur.start % adev.pageSize)
  addr :=
    adev.gartStart + window * gttMaxTransferSize * gpuPageSize + cur.start % adev.pageSize
  indexes :=
    if m.mem.memType = .tt then
      (range (numPages adev cur size)).map fun i => cur.start / adev.pageSize + i
    else []
  entries :=
    (windowEntries adev m cur tmz (numPages adev cur size)).map fun e =>
      (window * gttMaxTransferSize + e.1, e.2)

/-- `amdgpu_ttm_map_buffer`, with a job that is submitted; `none` is `-EINVAL`. -/
def mapBuffer (adev : Device) (m : CopyMem) (cur : Cursor) (window : Nat) (tmz : Bool)
    (size : Nat) : Option Mapping :=
  if m.mem.memType = .preempt then none
  else if tmz = false ∧ m.mem.start.isSome then some (directMap adev m cur size)
  else some (windowMap adev m cur window tmz size)

/-- The entries of the GART, once a job has written some of them. -/
def writeEntries (table : Nat → Nat) (entries : List (Nat × Nat)) : Nat → Nat :=
  entries.foldl (fun t e => Function.update t e.1 e.2) table

/-! ## Addresses -/

inductive Loc
  | vram (offset : Nat)
  | system (addr : Nat)
  deriving DecidableEq

/-- What an entry of the GART makes of a byte of its page. -/
def entryLoc (adev : Device) (pte byte : Nat) : Option Loc :=
  if pte &&& pteValid = 0 then none
  else if pte &&& pteSystem = 0 then
    some (.vram ((pte &&& pteAddrMask) + byte - adev.vramBaseOffset))
  else some (.system ((pte &&& pteAddrMask) + byte))

def translate (adev : Device) (table : Nat → Nat) (addr : Nat) : Option Loc :=
  if adev.vramStart ≤ addr ∧ addr < adev.vramStart + adev.vramSize then
    some (.vram (addr - adev.vramStart))
  else if adev.gartStart ≤ addr ∧ addr < adev.gartStart + adev.gartSize then
    entryLoc adev (table ((addr - adev.gartStart) / gpuPageSize))
      ((addr - adev.gartStart) % gpuPageSize)
  else none

/-- Byte `k` of a resource. -/
def CopyMem.loc (adev : Device) (m : CopyMem) (k : Nat) : Option Loc :=
  match m.mem.memType with
  | .vram => (Extent.locate m.mem.blocks k).map Loc.vram
  | .tt => m.dmaAddress[k / adev.pageSize]?.map fun a => Loc.system (a + k % adev.pageSize)
  | .preempt => none

/-- A resource as its manager makes it. The GTT manager hands out one node, at page `0` without an
address in the GART and behind the windows with one. -/
inductive CopyMem.Ok (adev : Device) (m : CopyMem) : Prop
  | vram (hmem : m.mem.memType = .vram) (hstart : m.mem.start.isSome)
      (hpos : ∀ e ∈ m.mem.blocks, 0 < e.size)
      (hin : ∀ e ∈ m.mem.blocks, e.start + e.size ≤ adev.vramSize)
      (hsize : m.mem.size ≤ Extent.total m.mem.blocks)
  | gtt (first : Nat) (hmem : m.mem.memType = .tt)
      (hblocks : m.mem.blocks = [⟨first * adev.pageSize, m.dmaAddress.length * adev.pageSize⟩])
      (hnodup : m.dmaAddress.Nodup)
      (hdma : ∀ a ∈ m.dmaAddress, a % gpuPageSize = 0 ∧ a + adev.pageSize ≤ 2 ^ 48)
      (hnone : m.mem.start = none → first = 0)
      (hsome : ∀ s, m.mem.start = some s → s = first ∧
        gttMaxTransferSize * gttNumTransferWindows ≤ first ∧
        (first + m.dmaAddress.length) * adev.pageSize ≤ adev.gartSize)
      (hpos : 0 < m.dmaAddress.length)
      (hsize : m.mem.size ≤ m.dmaAddress.length * adev.pageSize)

/-- `amdgpu_ttm_gart_bind` has written the entries of a GTT resource with an address. -/
def Bound (adev : Device) (m : CopyMem) (table : Nat → Nat) : Prop :=
  ∀ first, m.mem.memType = .tt → m.mem.start = some first → ∃ tmz : Bool,
    ∀ e ∈ gartMap adev (first * adev.pageSize) m.dmaAddress.length
      (fun i => m.dmaAddress.getD i 0) (mapFlags adev m tmz), table e.1 = e.2

/-- A piece of `size` bytes at byte `pos` of the copy is mapped right: the page array is read
inside its bounds, the entries are those of the window, and the addresses lead to the bytes. -/
structure SideRight (adev : Device) (m : CopyMem) (window pos size : Nat) (map : Mapping)
    (table : Nat → Nat) : Prop where
  indexes : ∀ i ∈ map.indexes, i < m.dmaAddress.length
  inside : ∀ e ∈ map.entries,
    window * gttMaxTransferSize ≤ e.1 ∧ e.1 < (window + 1) * gttMaxTransferSize
  bytes : ∀ i < size, ∃ l, m.loc adev (m.offset + pos + i) = some l ∧
    translate adev table (map.addr + i) = some l

def Windowed (m : CopyMem) (tmz : Bool) : Prop := ¬(tmz = false ∧ m.mem.start.isSome)
  deriving Decidable

/-- A window can map the piece: the page array is the one of a resource that starts at page `0`,
the entries of its CPU pages fit, and a piece of VRAM starts in the first GPU page of its CPU
page. -/
structure Fits (adev : Device) (m : CopyMem) (cur : Cursor) (size : Nat) : Prop where
  start : m.mem.memType = .tt → m.mem.start = none
  entries : numPages adev cur size * adev.ratio ≤ gttMaxTransferSize
  aligned : m.mem.memType = .vram → cur.start % adev.pageSize < gpuPageSize

/-! ## Page sizes -/

namespace Device
variable (adev : Device)

theorem pageSize_eq : adev.pageSize = gpuPageSize * adev.ratio := by
  unfold ratio
  rcases adev.page with h | h <;> rw [h] <;> rfl

theorem ratio_cases : adev.ratio = 1 ∨ adev.ratio = 16 := by
  unfold ratio
  rcases adev.page with h | h <;> rw [h]
  · exact .inl rfl
  · exact .inr rfl

theorem ratio_pos : 0 < adev.ratio := by
  rcases adev.ratio_cases with h | h <;> omega

theorem pageSize_pos : 0 < adev.pageSize := by
  rcases adev.page with h | h <;> omega

variable (x : Nat)

theorem mod_pageSize :
    x % adev.pageSize = x / gpuPageSize % adev.ratio * gpuPageSize + x % gpuPageSize := by
  rw [adev.pageSize_eq, Nat.mod_mul]
  ring

theorem div_pageSize : x / adev.pageSize = x / gpuPageSize / adev.ratio := by
  rw [adev.pageSize_eq, Nat.div_div_eq_div_mul]

theorem div_gpuPageSize :
    x / gpuPageSize = x / adev.pageSize * adev.ratio + x / gpuPageSize % adev.ratio := by
  rw [adev.div_pageSize, Nat.div_add_mod']

theorem page_div (i x : Nat) :
    (i * adev.pageSize + x) / gpuPageSize = i * adev.ratio + x / gpuPageSize := by
  have heq : i * adev.pageSize = gpuPageSize * (i * adev.ratio) := by
    rw [adev.pageSize_eq]
    ring
  rw [heq, Nat.mul_add_div (by decide)]

theorem mul_pageSize_div (i : Nat) : i * adev.pageSize / gpuPageSize = i * adev.ratio :=
  adev.page_div i 0

theorem page_mod (i x : Nat) : (i * adev.pageSize + x) % gpuPageSize = x % gpuPageSize := by
  have heq : i * adev.pageSize = gpuPageSize * (i * adev.ratio) := by
    rw [adev.pageSize_eq]
    ring
  rw [heq, Nat.mul_add_mod]

theorem gpuPage_le : x / gpuPageSize % adev.ratio * gpuPageSize + gpuPageSize ≤ adev.pageSize := by
  have hlt := Nat.mod_lt (x / gpuPageSize) adev.ratio_pos
  rw [adev.pageSize_eq, ← Nat.succ_mul, mul_comm gpuPageSize]
  exact Nat.mul_le_mul_right _ hlt

theorem mod_mod_pageSize : x % adev.pageSize % gpuPageSize = x % gpuPageSize :=
  Nat.mod_mod_of_dvd x ⟨adev.ratio, adev.pageSize_eq⟩

end Device

/-! ## Entries -/

theorem and_pteAddrMask {a : Nat} (h : a < 2 ^ 48) :
    a &&& pteAddrMask = a / gpuPageSize * gpuPageSize := by
  have hmask : pteAddrMask = (2 ^ 36 - 1) * 2 ^ 12 := rfl
  have hpage : gpuPageSize = 2 ^ 12 := rfl
  refine Nat.eq_of_testBit_eq fun i => ?_
  rw [hmask, hpage, Nat.testBit_and, Nat.testBit_mul_two_pow, Nat.testBit_mul_two_pow,
    Nat.testBit_two_pow_sub_one, Nat.testBit_div_two_pow]
  by_cases hlow : 12 ≤ i
  · rw [Nat.sub_add_cancel hlow]
    by_cases hhigh : i - 12 < 36
    · simp [hlow, hhigh]
    · have hbit : a.testBit i = false :=
        Nat.testBit_lt_two_pow (h.trans_le (Nat.pow_le_pow_right (by decide) (by omega)))
      simp [hlow, hbit]
  · simp [hlow]

structure EntryFlags (flags : Nat) : Prop where
  valid : flags &&& pteValid ≠ 0
  addr : flags &&& pteAddrMask = 0

theorem setPtePde_addr {a flags : Nat} (h : EntryFlags flags) :
    setPtePde a flags &&& pteAddrMask = a &&& pteAddrMask := by
  rw [setPtePde, Nat.and_or_distrib_right, h.addr, Nat.and_assoc, Nat.and_self, Nat.or_zero]

theorem setPtePde_and {a flags bit : Nat} (h : pteAddrMask &&& bit = 0) :
    setPtePde a flags &&& bit = flags &&& bit := by
  rw [setPtePde, Nat.and_or_distrib_right, Nat.and_assoc, h, Nat.and_zero, Nat.zero_or]

variable {adev : Device} {m : CopyMem}

theorem entryLoc_system {a flags byte : Nat} (h : EntryFlags flags)
    (hsys : flags &&& pteSystem ≠ 0) (ha : a < 2 ^ 48) :
    entryLoc adev (setPtePde a flags) byte =
      some (.system (a / gpuPageSize * gpuPageSize + byte)) := by
  unfold entryLoc
  rw [setPtePde_and (by decide), if_neg h.valid, setPtePde_and (by decide), if_neg hsys,
    setPtePde_addr h, and_pteAddrMask ha]

theorem entryLoc_vram {a flags byte : Nat} (h : EntryFlags flags) (hsys : flags &&& pteSystem = 0)
    (ha : a < 2 ^ 48) :
    entryLoc adev (setPtePde a flags) byte =
      some (.vram (a / gpuPageSize * gpuPageSize + byte - adev.vramBaseOffset)) := by
  unfold entryLoc
  rw [setPtePde_and (by decide), if_neg h.valid, setPtePde_and (by decide), if_pos hsys,
    setPtePde_addr h, and_pteAddrMask ha]

theorem mapFlags_entry (adev : Device) (m : CopyMem) (tmz : Bool) :
    EntryFlags (mapFlags adev m tmz) := by
  constructor
  · intro h
    simp only [mapFlags, ttPteFlags, ttPdeFlags, Nat.and_or_distrib_right, Nat.or_eq_zero_iff] at h
    exact absurd h.1.1.1.1.1.1 (by decide)
  · simp only [mapFlags, ttPteFlags, ttPdeFlags, Nat.and_or_distrib_right, Nat.or_eq_zero_iff,
      adev.flags_addr]
    refine ⟨⟨⟨⟨⟨⟨by decide, ?_⟩, ?_⟩, trivial⟩, by decide⟩, ?_⟩, ?_⟩
    · split_ifs <;> decide
    · split_ifs <;> decide
    · split_ifs <;> decide
    · split_ifs <;> decide

theorem mapFlags_tt (adev : Device) (tmz : Bool) (h : m.mem.memType = .tt) :
    mapFlags adev m tmz &&& pteSystem ≠ 0 := by
  intro hzero
  simp only [mapFlags, ttPteFlags, ttPdeFlags, Nat.and_or_distrib_right, Nat.or_eq_zero_iff,
    h, true_or, if_true] at hzero
  exact absurd hzero.1.1.1.1.1.2.1 (by decide)

theorem mapFlags_vram (adev : Device) (tmz : Bool) (h : m.mem.memType = .vram) :
    mapFlags adev m tmz &&& pteSystem = 0 := by
  simp only [mapFlags, ttPteFlags, ttPdeFlags, Nat.and_or_distrib_right, Nat.or_eq_zero_iff,
    adev.flags_system]
  refine ⟨⟨⟨⟨⟨⟨by decide, ?_⟩, ?_⟩, trivial⟩, by decide⟩, ?_⟩, ?_⟩
  · rw [if_neg (by simp [h])]
    rfl
  · split_ifs <;> decide
  · split_ifs <;> decide
  · split_ifs <;> decide

variable {tmz : Bool} {e : Nat × Nat}

theorem entryLoc_page {a : Nat} (hmem : m.mem.memType = .tt)
    (ha : a % gpuPageSize = 0 ∧ a + adev.pageSize ≤ 2 ^ 48) (k : Nat) :
    entryLoc adev (setPtePde (a + k / gpuPageSize % adev.ratio * gpuPageSize)
      (mapFlags adev m tmz)) (k % gpuPageSize) = some (.system (a + k % adev.pageSize)) := by
  have hend := adev.gpuPage_le k
  have hpage : gpuPageSize = 4096 := rfl
  have hlt : a + k / gpuPageSize % adev.ratio * gpuPageSize < 2 ^ 48 := by omega
  have hdvd : (a + k / gpuPageSize % adev.ratio * gpuPageSize) % gpuPageSize = 0 := by
    rw [Nat.add_mul_mod_self_right, ha.1]
  rw [entryLoc_system (mapFlags_entry adev m tmz) (mapFlags_tt adev tmz hmem) hlt,
    Nat.div_mul_cancel (Nat.dvd_of_mod_eq_zero hdvd), adev.mod_pageSize k, add_assoc]

variable {entries : List (Nat × Nat)}

theorem writeEntries_of_ne {k : Nat} (table : Nat → Nat) (h : ∀ e ∈ entries, e.1 ≠ k) :
    writeEntries table entries k = table k := by
  induction entries generalizing table with
  | nil => rfl
  | cons e entries ih =>
    have hne := h e mem_cons_self
    refine (ih _ fun f hf => h f (mem_cons_of_mem e hf)).trans ?_
    exact Function.update_of_ne (Ne.symm hne) ..

theorem writeEntries_of_mem (table : Nat → Nat) (hmem : e ∈ entries)
    (h : ∀ f ∈ entries, f.1 = e.1 → f.2 = e.2) : writeEntries table entries e.1 = e.2 := by
  induction entries generalizing table with
  | nil => exact absurd hmem not_mem_nil
  | cons f entries ih =>
    by_cases hin : e ∈ entries
    · exact ih _ hin fun g hg => h g (mem_cons_of_mem f hg)
    · -- the last write to the index is the head's
      have hef : e = f := (mem_cons.mp hmem).resolve_right hin
      subst hef
      by_cases hlater : ∃ g ∈ entries, g.1 = e.1
      · obtain ⟨g, hg, hkey⟩ := hlater
        have hval := h g (mem_cons_of_mem e hg) hkey
        exact absurd (Prod.ext hkey hval ▸ hg) hin
      · push Not at hlater
        exact (writeEntries_of_ne _ hlater).trans (Function.update_self ..)

theorem mem_gartMap {offset pages flags : Nat} {dma : Nat → Nat} :
    e ∈ gartMap adev offset pages dma flags ↔ ∃ i < pages, ∃ j < adev.ratio,
      e = (offset / gpuPageSize + i * adev.ratio + j,
        setPtePde (dma i + j * gpuPageSize) flags) := by
  simp only [gartMap, mem_flatMap, mem_range, mem_map]
  constructor
  · rintro ⟨i, hi, j, hj, rfl⟩
    exact ⟨i, hi, j, hj, rfl⟩
  · rintro ⟨i, hi, j, hj, rfl⟩
    exact ⟨i, hi, j, hj, rfl⟩

/-- The address that the entries of a CPU page in a window are made from. -/
def pageAddr (adev : Device) (m : CopyMem) (cur : Cursor) (i : Nat) : Nat :=
  if m.mem.memType = .tt then m.dmaAddress.getD (cur.start / adev.pageSize + i) 0
  else cur.start + adev.vramBaseOffset + i * adev.pageSize

/-- What the entries of a window make of byte `x` behind its start. -/
def windowLoc (adev : Device) (m : CopyMem) (cur : Cursor) (tmz : Bool) (x : Nat) : Option Loc :=
  entryLoc adev (setPtePde
    (pageAddr adev m cur (x / adev.pageSize) + x / gpuPageSize % adev.ratio * gpuPageSize)
    (mapFlags adev m tmz)) (x % gpuPageSize)

theorem mem_windowEntries {cur : Cursor} {pages : Nat} :
    e ∈ windowEntries adev m cur tmz pages ↔ ∃ i < pages, ∃ j < adev.ratio,
      e = (i * adev.ratio + j,
        setPtePde (pageAddr adev m cur i + j * gpuPageSize) (mapFlags adev m tmz)) := by
  unfold windowEntries pageAddr
  by_cases htt : m.mem.memType = .tt
  · simp only [if_pos htt, mem_gartMap, Nat.zero_div, zero_add, mapFlags]
  · simp only [if_neg htt, mem_flatMap, mem_range, mem_gartMap, Nat.lt_one_iff,
      exists_eq_left, zero_mul, add_zero, mapFlags]
    simp only [adev.mul_pageSize_div]

theorem windowEntries_unique {cur : Cursor} {pages : Nat} {e f : Nat × Nat}
    (he : e ∈ windowEntries adev m cur tmz pages) (hf : f ∈ windowEntries adev m cur tmz pages)
    (h : f.1 = e.1) : f.2 = e.2 := by
  obtain ⟨i, -, j, hj, rfl⟩ := mem_windowEntries.mp he
  obtain ⟨i', -, j', hj', rfl⟩ := mem_windowEntries.mp hf
  dsimp only at h ⊢
  have hpos := adev.ratio_pos
  have hi : i' = i := by
    have hdiv := congrArg (· / adev.ratio) h
    simpa [mul_comm _ adev.ratio, Nat.mul_add_div hpos, Nat.div_eq_of_lt hj,
      Nat.div_eq_of_lt hj'] using hdiv
  subst hi
  have hj : j' = j := by omega
  rw [hj]

/-! ## A piece -/

theorem translate_vram {table : Nat → Nat} {n : Nat} (h : n < adev.vramSize) :
    translate adev table (adev.vramStart + n) = some (.vram n) := by
  unfold translate
  rw [if_pos ⟨Nat.le_add_right .., by omega⟩, Nat.add_sub_cancel_left]

theorem translate_gart {table : Nat → Nat} {n : Nat} (h : n < adev.gartSize) :
    translate adev table (adev.gartStart + n) =
      entryLoc adev (table (n / gpuPageSize)) (n % gpuPageSize) := by
  have hvram : ¬(adev.vramStart ≤ adev.gartStart + n ∧
      adev.gartStart + n < adev.vramStart + adev.vramSize) := by
    rcases adev.apart with hap | hap <;> omega
  unfold translate
  rw [if_neg hvram, if_pos ⟨Nat.le_add_right .., by omega⟩, Nat.add_sub_cancel_left]

theorem CopyMem.loc_tt {k : Nat} (hmem : m.mem.memType = .tt)
    (hk : k / adev.pageSize < m.dmaAddress.length) :
    m.loc adev k = some (.system (m.dmaAddress[k / adev.pageSize] + k % adev.pageSize)) := by
  unfold CopyMem.loc
  rw [hmem]
  dsimp only
  rw [getElem?_eq_getElem hk, Option.map_some]

theorem CopyMem.loc_vram {k a : Nat} (hmem : m.mem.memType = .vram)
    (hk : Extent.locate m.mem.blocks k = some a) : m.loc adev k = some (.vram a) := by
  unfold CopyMem.loc
  rw [hmem]
  dsimp only
  rw [hk, Option.map_some]

theorem locate_one {start size k a : Nat} (h : Extent.locate [⟨start, size⟩] k = some a) :
    k < size ∧ a = start + k := by
  rcases lt_or_ge k size with hlt | hge
  · have hhead : Extent.locate [⟨start, size⟩] k = some (start + k) := Extent.locate_head hlt
    exact ⟨hlt, Option.some.inj (h.symm.trans hhead)⟩
  · have htail : Extent.locate [⟨start, size⟩] k = none := Extent.locate_tail hge
    exact absurd (h.symm.trans htail) (by simp)

theorem locate_lt {es : List Extent} {k a : Nat}
    (hin : ∀ e ∈ es, e.start + e.size ≤ adev.vramSize) (h : Extent.locate es k = some a) :
    a < adev.vramSize := by
  induction es generalizing k with
  | nil => exact absurd h (by simp [Extent.locate])
  | cons e es ih =>
    rcases lt_or_ge k e.size with hlt | hge
    · have hle := hin e mem_cons_self
      have ha := Option.some.inj ((Extent.locate_head hlt).symm.trans h)
      omega
    · exact ih (fun f hf => hin f (mem_cons_of_mem e hf))
        ((Extent.locate_tail hge).symm.trans h)

section Piece
variable {adev : Device} {m : CopyMem} {cur : Cursor} {window pos rem n size : Nat} {tmz : Bool}
  {table : Nat → Nat}

/-- The byte of a GTT resource that a cursor stands at. -/
theorem gtt_start {first i : Nat} (hat : cur.At m.mem.blocks (m.offset + pos) rem) (hrem : 0 < rem)
    (hblocks : m.mem.blocks = [⟨first * adev.pageSize, m.dmaAddress.length * adev.pageSize⟩])
    (hi : i < cur.size) :
    m.offset + pos + i < m.dmaAddress.length * adev.pageSize ∧
      cur.start + i = first * adev.pageSize + (m.offset + pos + i) := by
  have hloc := hat.locate hrem hi
  rw [hblocks] at hloc
  exact locate_one hloc

/-- A byte of a GTT resource at the address that the resource has. -/
theorem translate_bound {first k : Nat} (hmem : m.mem.memType = .tt)
    (hdma : ∀ a ∈ m.dmaAddress, a % gpuPageSize = 0 ∧ a + adev.pageSize ≤ 2 ^ 48)
    (hs : m.mem.start = some first)
    (hend : (first + m.dmaAddress.length) * adev.pageSize ≤ adev.gartSize)
    (hbound : Bound adev m table) (hk : k < m.dmaAddress.length * adev.pageSize) :
    ∃ l, m.loc adev k = some l ∧
      translate adev table (adev.gartStart + (first * adev.pageSize + k)) = some l := by
  obtain ⟨tmz', hentries⟩ := hbound first hmem hs
  have hpage : k / adev.pageSize < m.dmaAddress.length :=
    (Nat.div_lt_iff_lt_mul adev.pageSize_pos).mpr hk
  have hroom : first * adev.pageSize + k < adev.gartSize := by
    rw [add_mul] at hend
    omega
  -- the entry that the resource has for the byte
  have hentry := hentries _ (mem_gartMap.mpr
    ⟨_, hpage, _, Nat.mod_lt (k / gpuPageSize) adev.ratio_pos, rfl⟩)
  dsimp only at hentry
  rw [adev.mul_pageSize_div, add_assoc, ← adev.div_gpuPageSize,
    getD_eq_getElem _ _ hpage] at hentry
  refine ⟨_, CopyMem.loc_tt hmem hpage, ?_⟩
  rw [translate_gart hroom, adev.page_div, adev.page_mod, hentry]
  exact entryLoc_page hmem (hdma _ (getElem_mem hpage)) k

theorem sideRight_direct (hok : m.Ok adev) (hdir : ¬ Windowed m tmz)
    (hat : cur.At m.mem.blocks (m.offset + pos) rem) (hrem : 0 < rem) (hcur : size ≤ cur.size)
    (hbound : Bound adev m table) :
    SideRight adev m window pos size (directMap adev m cur n) table := by
  have hstart : m.mem.start.isSome := (not_not.mp hdir).2
  refine ⟨fun i hi => absurd hi not_mem_nil, fun e he => absurd he not_mem_nil,
    fun i hi => ?_⟩
  have hi := hi.trans_le hcur
  show ∃ l, _ ∧ translate adev table (domainStart adev m.mem.memType + cur.start + i) = some l
  cases hok with
  | vram hmem _ _ hin _ =>
    have hloc := hat.locate hrem hi
    refine ⟨_, CopyMem.loc_vram hmem hloc, ?_⟩
    rw [hmem, domainStart, add_assoc]
    exact translate_vram (locate_lt hin hloc)
  | gtt first hmem hblocks _ hdma _ hsome _ _ =>
    obtain ⟨s, hs⟩ := Option.isSome_iff_exists.mp hstart
    obtain ⟨rfl, -, hend⟩ := hsome s hs
    obtain ⟨hk, hadd⟩ := gtt_start hat hrem hblocks hi
    rw [hmem, domainStart, add_assoc adev.gartStart, hadd]
    exact translate_bound hmem hdma hs hend hbound hk

theorem index_lt {pages i j : Nat} (hi : i < pages) (hj : j < adev.ratio) :
    i * adev.ratio + j < pages * adev.ratio := by
  have hle : (i + 1) * adev.ratio ≤ pages * adev.ratio := Nat.mul_le_mul_right _ hi
  rw [add_mul, one_mul] at hle
  omega

theorem translate_window {pages x : Nat} (hwin : window < gttNumTransferWindows)
    (hpages : pages * adev.ratio ≤ gttMaxTransferSize)
    (hentries : ∀ e ∈ windowEntries adev m cur tmz pages,
      e.1 < gttMaxTransferSize → table (window * gttMaxTransferSize + e.1) = e.2)
    (hx : x < pages * adev.pageSize) :
    translate adev table (adev.gartStart + window * gttMaxTransferSize * gpuPageSize + x) =
      windowLoc adev m cur tmz x := by
  have hroom : window * gttMaxTransferSize * gpuPageSize + x < adev.gartSize := by
    refine lt_of_lt_of_le ?_ adev.windows
    have hpg : gpuPageSize ≤ adev.pageSize := by
      rw [adev.pageSize_eq]
      exact Nat.le_mul_of_pos_right _ adev.ratio_pos
    have hx' : x < gttMaxTransferSize * gpuPageSize := by
      refine hx.trans_le ?_
      rw [adev.pageSize_eq, mul_left_comm, mul_comm gpuPageSize]
      exact Nat.mul_le_mul_right _ hpages
    simp only [gttMaxTransferSize, gttNumTransferWindows, gpuPageSize] at *
    omega
  have hpage : x / adev.pageSize < pages := (Nat.div_lt_iff_lt_mul adev.pageSize_pos).mpr hx
  have hsub := Nat.mod_lt (x / gpuPageSize) adev.ratio_pos
  have hentry := hentries _ (mem_windowEntries.mpr ⟨_, hpage, _, hsub, rfl⟩)
    ((index_lt hpage hsub).trans_le hpages)
  dsimp only at hentry
  rw [← adev.div_gpuPageSize] at hentry
  rw [add_assoc, translate_gart hroom, mul_comm (window * gttMaxTransferSize) gpuPageSize,
    Nat.mul_add_div (by decide), Nat.mul_add_mod, hentry, windowLoc]

theorem pfnUp_pos (hn : 0 < n) : 0 < pfnUp adev n :=
  Nat.div_pos (by have := adev.pageSize_pos; omega) adev.pageSize_pos

variable {i : Nat}

theorem lt_of_lt_numPages (h : i < numPages adev cur n) :
    i * adev.pageSize < n + cur.start % adev.pageSize := by
  have hlt : i + 1 ≤ pfnUp adev (n + cur.start % adev.pageSize) :=
    h.trans_le (min_le_left ..)
  have hle := (Nat.le_div_iff_mul_le adev.pageSize_pos).mp hlt
  have hpos := adev.pageSize_pos
  rw [add_mul, one_mul] at hle
  omega

theorem numPages_pos (hn : 0 < n) : 0 < numPages adev cur n :=
  lt_min (pfnUp_pos (by omega)) (by decide)

theorem windowMap_size_pos (hn : 0 < n) : 0 < (windowMap adev m cur window tmz n).size := by
  have hoff := Nat.mod_lt cur.start adev.pageSize_pos
  have hle : 1 * adev.pageSize ≤ numPages adev cur n * adev.pageSize :=
    Nat.mul_le_mul_right _ (numPages_pos hn)
  show 0 < min n (numPages adev cur n * adev.pageSize - cur.start % adev.pageSize)
  omega

theorem windowMap_size_le (hle : size ≤ (windowMap adev m cur window tmz n).size) :
    cur.start % adev.pageSize + size ≤ numPages adev cur n * adev.pageSize ∨ size = 0 := by
  have hmin : size ≤ min n (numPages adev cur n * adev.pageSize - cur.start % adev.pageSize) := hle
  omega

theorem windowLoc_vram {x : Nat} (hmem : m.mem.memType = .vram)
    (hlt : cur.start + adev.vramBaseOffset + x < 2 ^ 48) :
    windowLoc adev m cur tmz x = some (.vram (cur.start / gpuPageSize * gpuPageSize + x)) := by
  have haddr : pageAddr adev m cur (x / adev.pageSize) + x / gpuPageSize % adev.ratio * gpuPageSize
      = cur.start + adev.vramBaseOffset + x / gpuPageSize * gpuPageSize := by
    have hdiv := adev.div_gpuPageSize x
    have hpage : x / adev.pageSize * adev.pageSize =
        x / adev.pageSize * adev.ratio * gpuPageSize := by
      have heq : adev.pageSize = adev.ratio * gpuPageSize := by
        rw [adev.pageSize_eq, mul_comm]
      rw [mul_assoc, ← heq]
    unfold pageAddr
    rw [if_neg (by simp [hmem]), add_assoc, hpage, ← add_mul, ← hdiv]
  have hround := Nat.div_add_mod' x gpuPageSize
  have hbase := adev.base_aligned
  rw [windowLoc, haddr,
    entryLoc_vram (mapFlags_entry adev m tmz) (mapFlags_vram adev tmz hmem) (by omega)]
  congr 2
  rw [show gpuPageSize = 4096 from rfl] at *
  omega

theorem bytes_vram (hmem : m.mem.memType = .vram)
    (hin : ∀ e ∈ m.mem.blocks, e.start + e.size ≤ adev.vramSize)
    (hat : cur.At m.mem.blocks (m.offset + pos) rem) (hrem : 0 < rem) (hi : i < cur.size)
    (haligned : cur.start % adev.pageSize < gpuPageSize) :
    ∃ l, m.loc adev (m.offset + pos + i) = some l ∧
      windowLoc adev m cur tmz (cur.start % adev.pageSize + i) = some l := by
  have hloc := hat.locate hrem hi
  have hlt := locate_lt hin hloc
  have hroom := adev.base_room
  have hoff := Nat.mod_lt cur.start adev.pageSize_pos
  have hlow : cur.start % gpuPageSize = cur.start % adev.pageSize := by
    rw [← adev.mod_mod_pageSize, Nat.mod_eq_of_lt haligned]
  have hround := Nat.div_add_mod' cur.start gpuPageSize
  refine ⟨_, CopyMem.loc_vram hmem hloc, ?_⟩
  rw [windowLoc_vram hmem (by omega)]
  congr 2
  omega

/-- The bytes of a piece of a GTT resource that starts at page `0`. -/
theorem bytes_gtt (hmem : m.mem.memType = .tt)
    (hblocks : m.mem.blocks = [⟨0 * adev.pageSize, m.dmaAddress.length * adev.pageSize⟩])
    (hdma : ∀ a ∈ m.dmaAddress, a % gpuPageSize = 0 ∧ a + adev.pageSize ≤ 2 ^ 48)
    (hat : cur.At m.mem.blocks (m.offset + pos) rem) (hrem : 0 < rem) (hi : i < cur.size) :
    ∃ l, m.loc adev (m.offset + pos + i) = some l ∧
      windowLoc adev m cur tmz (cur.start % adev.pageSize + i) = some l := by
  obtain ⟨hk, hadd⟩ := gtt_start hat hrem hblocks hi
  rw [zero_mul, zero_add] at hadd
  -- the byte in the CPU page of the resource
  have hdiv : (cur.start + i) / adev.pageSize =
      cur.start / adev.pageSize + (cur.start % adev.pageSize + i) / adev.pageSize := by
    have hsplit := Nat.div_add_mod' cur.start adev.pageSize
    conv_lhs => rw [← hsplit, add_assoc, mul_comm, Nat.mul_add_div adev.pageSize_pos]
  have hmod : (cur.start + i) % adev.pageSize =
      (cur.start % adev.pageSize + i) % adev.pageSize := by
    rw [Nat.mod_add_mod]
  rw [hadd] at hdiv hmod
  generalize m.offset + pos + i = k at hk hdiv hmod ⊢
  have hpage : k / adev.pageSize < m.dmaAddress.length :=
    (Nat.div_lt_iff_lt_mul adev.pageSize_pos).mpr hk
  have haddr : pageAddr adev m cur ((cur.start % adev.pageSize + i) / adev.pageSize) =
      m.dmaAddress[k / adev.pageSize] := by
    refine (if_pos hmem).trans ?_
    rw [← hdiv]
    exact getD_eq_getElem _ _ hpage
  refine ⟨_, CopyMem.loc_tt hmem hpage, ?_⟩
  rw [windowLoc, haddr, entryLoc_page hmem (hdma _ (getElem_mem hpage)), hmod]

theorem windowMap_indexes (hmem : m.mem.memType = .tt) :
    i ∈ (windowMap adev m cur window tmz n).indexes ↔
      ∃ t < numPages adev cur n, i = cur.start / adev.pageSize + t := by
  have hidx : (windowMap adev m cur window tmz n).indexes =
      (range (numPages adev cur n)).map fun i => cur.start / adev.pageSize + i :=
    if_pos hmem
  simp only [hidx, mem_map, mem_range, eq_comm]

/-- A piece of a GTT resource that starts at page `0` is inside of the page array. -/
theorem windowMap_indexes_lt (hmem : m.mem.memType = .tt)
    (hblocks : m.mem.blocks = [⟨0 * adev.pageSize, m.dmaAddress.length * adev.pageSize⟩])
    (hat : cur.At m.mem.blocks (m.offset + pos) rem) (hrem : 0 < rem) (hn : n ≤ cur.size) :
    ∀ i ∈ (windowMap adev m cur window tmz n).indexes, i < m.dmaAddress.length := by
  intro i hi
  obtain ⟨t, ht, rfl⟩ := (windowMap_indexes hmem).mp hi
  have hlt := lt_of_lt_numPages ht
  have hpos := hat.size_pos hrem
  have hsplit := Nat.div_add_mod' cur.start adev.pageSize
  obtain ⟨hk, hadd⟩ := gtt_start hat hrem hblocks (Nat.sub_one_lt hpos.ne')
  refine Nat.lt_of_mul_lt_mul_right (?_ : _ * adev.pageSize < _ * adev.pageSize)
  rw [add_mul]
  omega

theorem windowMap_inside (hfit : numPages adev cur n * adev.ratio ≤ gttMaxTransferSize) :
    ∀ e ∈ (windowMap adev m cur window tmz n).entries,
      window * gttMaxTransferSize ≤ e.1 ∧ e.1 < (window + 1) * gttMaxTransferSize := by
  intro e he
  obtain ⟨f, hf, rfl⟩ := mem_map.mp he
  obtain ⟨i, hi, j, hj, rfl⟩ := mem_windowEntries.mp hf
  have hlt := (index_lt hi hj).trans_le hfit
  refine ⟨Nat.le_add_right .., ?_⟩
  rw [add_mul, one_mul]
  exact Nat.add_lt_add_left hlt _

theorem numPages_le (hpos : 0 < n)
    (hinside : ∀ e ∈ (windowMap adev m cur window tmz n).entries,
      e.1 < (window + 1) * gttMaxTransferSize) :
    numPages adev cur n * adev.ratio ≤ gttMaxTransferSize := by
  have hpages : 0 < numPages adev cur n := numPages_pos hpos
  have hratio := adev.ratio_pos
  have hlast := hinside _ (mem_map.mpr ⟨_, mem_windowEntries.mpr
    ⟨numPages adev cur n - 1, by omega, adev.ratio - 1, by omega, rfl⟩, rfl⟩)
  dsimp only at hlast
  have hcount : (numPages adev cur n - 1) * adev.ratio + adev.ratio =
      numPages adev cur n * adev.ratio := by
    rw [← Nat.succ_mul]
    congr 1
    omega
  rw [add_mul, one_mul] at hlast
  omega

theorem start_of_first {first : Nat} (hmem : m.mem.memType = .tt)
    (hblocks : m.mem.blocks = [⟨first * adev.pageSize, m.dmaAddress.length * adev.pageSize⟩])
    (hnodup : m.dmaAddress.Nodup)
    (hdma : ∀ a ∈ m.dmaAddress, a % gpuPageSize = 0 ∧ a + adev.pageSize ≤ 2 ^ 48)
    (hat : cur.At m.mem.blocks (m.offset + pos) rem) (hrem : 0 < rem)
    (hidx : cur.start / adev.pageSize < m.dmaAddress.length)
    (hfound : windowLoc adev m cur tmz (cur.start % adev.pageSize) = m.loc adev (m.offset + pos)) :
    first = 0 := by
  obtain ⟨hk, hadd⟩ := gtt_start hat hrem hblocks (hat.size_pos hrem)
  rw [add_zero] at hadd hk
  generalize m.offset + pos = k at hk hadd hfound
  have hpage : k / adev.pageSize < m.dmaAddress.length :=
    (Nat.div_lt_iff_lt_mul adev.pageSize_pos).mpr hk
  have haddr : pageAddr adev m cur (cur.start % adev.pageSize / adev.pageSize) =
      m.dmaAddress[cur.start / adev.pageSize] := by
    refine (if_pos hmem).trans ?_
    rw [Nat.div_eq_of_lt (Nat.mod_lt _ adev.pageSize_pos)]
    exact getD_eq_getElem _ _ hidx
  have hmod : cur.start % adev.pageSize % adev.pageSize = k % adev.pageSize := by
    rw [Nat.mod_mod, hadd, mul_comm, Nat.mul_add_mod]
  rw [windowLoc, haddr, entryLoc_page hmem (hdma _ (getElem_mem hidx)),
    CopyMem.loc_tt hmem hpage, hmod, Option.some.injEq, Loc.system.injEq] at hfound
  have hsame : cur.start / adev.pageSize = k / adev.pageSize :=
    (List.Nodup.getElem_inj_iff hnodup).mp (Nat.add_right_cancel hfound)
  have hdiv : cur.start / adev.pageSize = first + k / adev.pageSize := by
    rw [hadd, mul_comm, Nat.mul_add_div adev.pageSize_pos]
  omega

section
variable (hok : m.Ok adev) (hwin : window < gttNumTransferWindows)
  (hat : cur.At m.mem.blocks (m.offset + pos) rem) (hrem : 0 < rem)
  (hle : size ≤ (windowMap adev m cur window tmz n).size)
  (hentries : ∀ e ∈ windowEntries adev m cur tmz (numPages adev cur n),
    e.1 < gttMaxTransferSize → table (window * gttMaxTransferSize + e.1) = e.2)
include hok hwin hat hrem hle hentries

theorem sideRight_of_fits (hn : n ≤ cur.size) (hfits : Fits adev m cur n) :
    SideRight adev m window pos size (windowMap adev m cur window tmz n) table := by
  have hsize : size ≤ cur.size := (hle.trans (min_le_left ..)).trans hn
  have htrans (i : Nat) (hi : i < size) :=
    translate_window hwin hfits.entries hentries
      (show cur.start % adev.pageSize + i < numPages adev cur n * adev.pageSize by
        rcases windowMap_size_le hle with h | h <;> omega)
  refine ⟨?_, windowMap_inside hfits.entries, fun i hi => ?_⟩
  · cases hok with
    | vram hmem =>
      have hnil : (windowMap adev m cur window tmz n).indexes = [] := if_neg (by simp [hmem])
      rw [hnil]
      exact fun i hi => absurd hi not_mem_nil
    | gtt first hmem hblocks _ _ hnone =>
      obtain rfl := hnone (hfits.start hmem)
      exact windowMap_indexes_lt hmem hblocks hat hrem hn
  · have hcur := hi.trans_le hsize
    have hfound : ∃ l, m.loc adev (m.offset + pos + i) = some l ∧
        windowLoc adev m cur tmz (cur.start % adev.pageSize + i) = some l := by
      cases hok with
      | vram hmem _ _ hin =>
        exact bytes_vram hmem hin hat hrem hcur (hfits.aligned hmem)
      | gtt first hmem hblocks _ hdma hnone =>
        obtain rfl := hnone (hfits.start hmem)
        exact bytes_gtt hmem hblocks hdma hat hrem hcur
    rw [← htrans i hi, ← add_assoc] at hfound
    exact hfound

theorem fits_of_sideRight (hpos : 0 < size)
    (hright : SideRight adev m window pos size (windowMap adev m cur window tmz n) table) :
    Fits adev m cur n := by
  have hsize : 0 < n := hpos.trans_le (hle.trans (min_le_left ..))
  have hpages : 0 < numPages adev cur n := numPages_pos hsize
  have hfit := numPages_le hsize fun e he => (hright.inside e he).2
  -- the first byte
  have hoff := Nat.mod_lt cur.start adev.pageSize_pos
  have htrans := translate_window hwin hfit hentries
    (hoff.trans_le (Nat.le_mul_of_pos_left _ hpages))
  obtain ⟨l, hl, hat0⟩ := hright.bytes 0 hpos
  have hfound := htrans.symm.trans (hat0.trans hl.symm)
  cases hok with
  | vram hmem _ _ hin =>
    refine ⟨fun htt => absurd htt (by simp [hmem]), hfit, fun _ => ?_⟩
    have hloc := hat.locate hrem (hat.size_pos hrem)
    have hlt := locate_lt hin hloc
    have hroom := adev.base_room
    rw [windowLoc_vram hmem (by omega), CopyMem.loc_vram hmem hloc, Option.some.injEq,
      Loc.vram.injEq] at hfound
    have hlow := Nat.mod_lt cur.start (show 0 < gpuPageSize by decide)
    have hround := Nat.div_add_mod' cur.start gpuPageSize
    omega
  | gtt first hmem hblocks hnodup hdma _ hsome =>
    refine ⟨fun _ => ?_, hfit, fun hvram => absurd hvram (by simp [hmem])⟩
    have hidx := hright.indexes _ ((windowMap_indexes hmem).mpr ⟨0, hpages, rfl⟩)
    have hzero := start_of_first hmem hblocks hnodup hdma hat hrem hidx hfound
    -- an address in the GART is behind the windows
    cases hs : m.mem.start with
    | none => rfl
    | some s =>
      obtain ⟨rfl, hfirst, -⟩ := hsome s hs
      have hwide : 0 < gttMaxTransferSize * gttNumTransferWindows := by decide
      omega

theorem sideRight_window (hn : n ≤ cur.size) (hpos : 0 < size) :
    SideRight adev m window pos size (windowMap adev m cur window tmz n) table ↔
      Fits adev m cur n :=
  ⟨fits_of_sideRight hok hwin hat hrem hle hentries hpos,
    sideRight_of_fits hok hwin hat hrem hle hentries hn⟩

end

end Piece

end Amdkfd.Ttm

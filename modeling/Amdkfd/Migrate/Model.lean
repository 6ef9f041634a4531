import Amdkfd.Lib.FirstError
import Amdkfd.Lib.Ledger
import Amdkfd.Ttm.GartWindow

/-!
# Copying the pages of a migration

`svm_migrate_copy_to_vram` and `svm_migrate_copy_to_ram`, with the copies that
`svm_migrate_copy_memory_gart` makes for them and the clean-up of their callers. Both walk over the
pages of a range, collect those that can be copied at once, and release the pages they took when
something fails.

`scratch` is one array: addresses of system pages at its start, addresses in VRAM after those. The
pages that are held and the DMA mappings are on ledgers.
-/

namespace Amdkfd.Migrate

open Lib Function
open Ttm (Cursor resFirst resNext)

/-! ## Pages -/

/-- An entry of `migrate->src`: `MIGRATE_PFN_VALID`, `MIGRATE_PFN_MIGRATE` and a page frame. -/
structure SrcEntry where
  valid : Bool
  migrate : Bool
  pfn : Nat

def SrcEntry.page (e : SrcEntry) : Option Nat :=
  if e.valid then some e.pfn else none

/-- `struct migrate_vma` as `migrate_vma_setup` leaves it, `dst` apart. -/
structure MigrateVma where
  npages : Nat
  cpages : Nat
  cpages_le : cpages ≤ npages
  src : Nat → SrcEntry

/-- What is outside of the file. Calls are told apart by the page at which they are made, those for
a part of a copy also by its number. Error codes are numbers, `none` for 0. -/
structure Hw where
  /-- `adev->kfd.pgmap.range.start`. -/
  pgmapStart : Nat
  /-- What `svm_migrate_direct_mapping_addr` adds. -/
  vramStart : Nat
  /-- `is_zone_device_page`. -/
  isZoneDevicePage : Nat → Bool
  dmaMapPage : Nat → Nat
  /-- `alloc_page_vma`. The first page of the memory is never handed out. -/
  allocPage : Nat → Option Nat
  allocPage_ne : ∀ i, allocPage i ≠ some 0
  gartMap : Nat → Nat → Option Int
  copyBuffer : Nat → Nat → Option Int
  /-- What `r` of `svm_migrate_copy_memory_gart` has before it is written. -/
  uninit : Option Int

/-- `PAGE_SIZE`, which `svm_migrate_gart_map` takes for the size of a page of the GPU. -/
def pageSize : Nat := 4096

theorem pageSize_pos : 0 < pageSize := by decide

def dmaMappingErrorAddr : Nat := 2 ^ 64 - 1

/-- `dma_mapping_error`, which is `-ENOMEM`. -/
def dmaMappingError (addr : Nat) : Option Int :=
  if addr = dmaMappingErrorAddr then some (-12) else none

/-- `svm_is_valid_dma_mapping_addr`. `SVM_RANGE_VRAM_DOMAIN` is bit 0. -/
def isValidDmaMappingAddr (addr : Nat) : Bool :=
  addr ≠ 0 ∧ dmaMappingError addr = none ∧ addr % 2 = 0

def Hw.addrToPfn (hw : Hw) (addr : Nat) : Nat :=
  (addr + hw.pgmapStart) / pageSize

/-- `svm_migrate_addr`. Device pages lie in the range. -/
def Hw.migrateAddr (hw : Hw) (pfn : Nat) : Nat :=
  pfn * pageSize - hw.pgmapStart

/-- `spage && !is_zone_device_page(spage)`. -/
def Hw.Present (hw : Hw) (e : SrcEntry) : Prop :=
  ∃ pfn ∈ e.page, hw.isZoneDevicePage pfn = false
  deriving Decidable

def Hw.devicePage (hw : Hw) (e : SrcEntry) : Option Nat :=
  e.page.filter hw.isZoneDevicePage

/-! ## Memory -/

inductive Direction
  | ramToVram
  | vramToRam
  deriving DecidableEq

/-- A page that was copied: a DMA address and an address of the GPU. -/
structure PageCopy where
  direction : Direction
  sys : Nat
  vram : Nat
  deriving DecidableEq

/-- The arrays, the pages that are held, the DMA mappings and the copies made. An entry of
`migrate->dst` is a page frame, or `none` for 0. -/
structure Mem where
  scratch : Nat → Nat := fun _ => 0
  dst : Nat → Option Nat := fun _ => none
  pages : Ledger Nat := {}
  dma : Ledger Nat := {}
  copied : List PageCopy := []

def gttMaxPages : Nat := Ttm.gttMaxTransferSize

/-- The copy of one part: the window maps `sys` onwards, and VRAM is reached at one address. -/
def partCopies (hw : Hw) (dir : Direction) (scratch : Nat → Nat) (sys vram size : Nat) :
    List PageCopy :=
  (List.range size).map fun q =>
    { direction := dir
      sys := scratch (sys + q)
      vram := scratch vram + hw.vramStart + q * pageSize }

/-- The loop of `svm_migrate_copy_memory_gart`, with `r` as it is at its head. The first argument
bounds the rounds. -/
def copyParts (hw : Hw) (dir : Direction) (i : Nat) (scratch : Nat → Nat) :
    Nat → Nat → Nat → Nat → Nat → Option Int → List PageCopy × Option Int
  | 0, _, _, _, _, r => ([], r)
  | fuel + 1, part, sys, vram, npages, r =>
    if npages = 0 then ([], r)
    else
      let size := min gttMaxPages npages
      match hw.gartMap i part with
      | some e => ([], some e)
      | none =>
        match hw.copyBuffer i part with
        | some e => ([], some e)
        | none =>
          let rest := copyParts hw dir i scratch fuel (part + 1) (sys + size) (vram + size)
            (npages - size) none
          (partCopies hw dir scratch sys vram size ++ rest.1, rest.2)

/-- `svm_migrate_copy_memory_gart` of `npages` pages, at page `i`. The arrays start at places of
`scratch`. -/
def copyMemoryGart (hw : Hw) (dir : Direction) (i : Nat) (sys vram npages : Nat) (m : Mem) :
    Mem × Option Int :=
  let r := copyParts hw dir i m.scratch npages 0 sys vram npages hw.uninit
  ({ m with copied := m.copied ++ r.1 }, r.2)

/-- The clean-up loops: the pages of the first `i` entries are released, from the last one on. -/
def putPages (page : Nat → Nat) : Nat → Mem → Mem
  | 0, m => m
  | i + 1, m =>
    putPages page i { m with pages := m.pages.give (page i), dst := update m.dst i none }

/-! ## To VRAM -/

/-- `i`, `j` and the cursor, between two rounds of the loop. -/
structure VramState where
  i : Nat
  j : Nat
  cursor : Cursor
  m : Mem

/-- The copy of the `n` pages from page `i - j` on, after which the cursor moves by `bytes`. -/
def VramState.flush (hw : Hw) (cpages n bytes : Nat) (s : VramState) : VramState × Option Int :=
  let r := copyMemoryGart hw .ramToVram s.i (s.i - s.j) (cpages + (s.i - s.j)) n s.m
  andThen ({ s with m := r.1 }, r.2) fun s =>
    ({ s with i := s.i + 1, j := 0, cursor := resNext s.cursor bytes }, none)

/-- `svm_migrate_get_vram_page` of the destination at the cursor. `migrate_pfn` never gives 0. -/
def getVramPage (hw : Hw) (cpages : Nat) (s : VramState) : Mem :=
  let addr := s.cursor.start + s.j * pageSize
  let pfn := hw.addrToPfn addr
  { s.m with
    scratch := update s.m.scratch (cpages + s.i) addr
    dst := update s.m.dst s.i (some pfn)
    pages := s.m.pages.take pfn }

def vramStep (hw : Hw) (cpages : Nat) (src : Nat → SrcEntry) (s : VramState) :
    VramState × Option Int :=
  let s := { s with m := getVramPage hw cpages s }
  if hw.Present (src s.i) then
    let sys := hw.dmaMapPage s.i
    let s := { s with m := { s.m with scratch := update s.m.scratch s.i sys } }
    andThen (s, dmaMappingError sys) fun s =>
      let s := { s with m := { s.m with dma := s.m.dma.take sys } }
      -- the subtraction would wrap for a block without a whole page
      if 1 ≤ s.cursor.size / pageSize ∧ s.cursor.size / pageSize - 1 ≤ s.j ∧
          s.i < cpages - 1 then
        s.flush hw cpages (s.j + 1) ((s.j + 1) * pageSize)
      else ({ s with i := s.i + 1, j := s.j + 1 }, none)
  else if s.j ≠ 0 then s.flush hw cpages s.j ((s.j + 1) * pageSize)
  else ({ s with i := s.i + 1, cursor := resNext s.cursor pageSize }, none)

/-- `while (i--)` of `svm_migrate_copy_to_vram`, with `svm_migrate_put_vram_page`. -/
def putVramPages (hw : Hw) (cpages i : Nat) (m : Mem) : Mem :=
  putPages (fun k => hw.addrToPfn (m.scratch (cpages + k))) i m

/-- The cursor of the loop. Past the end of the blocks the source reads what is not a block. -/
def vramCursor (blocks : List Extent) (first cpages : Nat) : Cursor :=
  (resFirst blocks (first * pageSize) (cpages * pageSize)).getD ⟨0, 0, 0, []⟩

/-- `svm_migrate_copy_to_vram`, where `ttm_res_offset` is that of the page `first`. -/
def copyToVram (hw : Hw) (blocks : List Extent) (first : Nat) (migrate : MigrateVma) (m : Mem) :
    Mem × Option Int :=
  let npages := migrate.cpages
  let s : VramState := { i := 0, j := 0, cursor := vramCursor blocks first npages, m := m }
  let r :=
    andThen (timesUntil (vramStep hw npages migrate.src) npages s) fun s =>
      let r := copyMemoryGart hw .ramToVram s.i (s.i - s.j) (npages + (s.i - s.j)) s.j s.m
      ({ s with m := r.1 }, r.2)
  match r with
  | (s, none) => (s.m, none)
  | (s, some e) => (putVramPages hw npages s.i s.m, some e)

/-! ## To RAM -/

structure RamState where
  i : Nat
  j : Nat
  m : Mem

/-- The copy of the last `j` pages before page `i`. -/
def RamState.flush (hw : Hw) (npages : Nat) (s : RamState) : RamState × Option Int :=
  let r := copyMemoryGart hw .vramToRam s.i (s.i - s.j) (npages + (s.i - s.j)) s.j s.m
  ({ s with m := r.1 }, r.2)

def takeSysPage (hw : Hw) (s : RamState) : RamState × Option Int :=
  -- svm_migrate_get_sys_page
  match hw.allocPage s.i with
  | none => (s, some (-12))
  | some dpage =>
    let sys := hw.dmaMapPage s.i
    let s :=
      { s with
        m :=
          { s.m with
            pages := s.m.pages.take dpage
            scratch := update s.m.scratch s.i sys } }
    andThen (s, dmaMappingError sys) fun s =>
      ({ s with
          i := s.i + 1
          j := s.j + 1
          m :=
            { s.m with
              dma := s.m.dma.take sys
              dst := update s.m.dst s.i (some dpage) } },
        none)

def ramStep (hw : Hw) (npages : Nat) (src : Nat → SrcEntry) (s : RamState) :
    RamState × Option Int :=
  match hw.devicePage (src s.i) with
  | none =>
    if s.j ≠ 0 then
      andThen (s.flush hw npages) fun s => ({ s with i := s.i + 1, j := 0 }, none)
    else ({ s with i := s.i + 1 }, none)
  | some spage =>
    let addr := hw.migrateAddr spage
    let s :=
      { s with m := { s.m with scratch := update s.m.scratch (npages + s.i) addr } }
    if 0 < s.j ∧ addr ≠ s.m.scratch (npages + (s.i - 1)) + pageSize then
      andThen (s.flush hw npages) fun s => takeSysPage hw { s with j := 0 }
    else takeSysPage hw s

/-- `while (i--)` of `svm_migrate_copy_to_ram`, with `svm_migrate_put_sys_page`. -/
def putSysPages (i : Nat) (m : Mem) : Mem :=
  putPages (fun k => m.scratch k / pageSize) i m

def copyToRam (hw : Hw) (migrate : MigrateVma) (m : Mem) : Mem × Option Int :=
  let npages := migrate.npages
  let s : RamState := { i := 0, j := 0, m := m }
  let r := andThen (timesUntil (ramStep hw npages migrate.src) npages s) (RamState.flush hw npages)
  match r with
  | (s, none) => (s.m, none)
  | (s, some e) => (putSysPages s.i s.m, some e)

/-! ## The clean-up of the callers -/

def dmaUnmapPage (m : Mem) (i : Nat) : Mem :=
  if isValidDmaMappingAddr (m.scratch i) then
    { m with
      dma := m.dma.give (m.scratch i)
      scratch := update m.scratch i 0 }
  else m

/-- `svm_range_dma_unmap_dev(adev->dev, scratch, 0, npages)`. -/
def dmaUnmapDev (npages : Nat) (m : Mem) : Mem :=
  (List.range npages).foldl dmaUnmapPage m

end Amdkfd.Migrate

import Amdkfd.Basic
import Amdkfd.Lib.Extent
import Amdkfd.Lib.Run

/-!
# The VRAM manager

`amdgpu_vram_mgr.c`: VRAM is handed out in the blocks of a `drm_buddy`, to the resources of buffer
objects and to reservations. A reservation that cannot be served yet is pending, and every free
tries it again. What `drm_buddy_alloc_blocks` answers is part of the arguments of a call.
-/

namespace Amdkfd.VramMgr

open Lib

/-- `PAGE_SIZE`, also the chunk size of the `drm_buddy`. -/
def pageSize : Nat := 2 ^ 12

def reservedVram : Nat := 8 * 2 ^ 20

/-- What is read of `struct amdgpu_device` and of the managers that it holds. `hpagePmdNr` is
`HPAGE_PMD_NR`, or the pages of 2 MB without huge pages. -/
structure Adev where
  visibleVramSize : Nat
  mcVramSize : Nat
  connectedToCpu : Bool
  manSize : Nat
  mmSize : Nat
  hpagePmdNr : Nat
  deriving DecidableEq

/-- `struct drm_buddy_block`. -/
structure Block where
  offset : Nat
  order : Nat
  deriving DecidableEq

/-- `amdgpu_vram_mgr_block_start` and `amdgpu_vram_mgr_block_size`. -/
def Block.extent (b : Block) : Extent := { start := b.offset, size := pageSize * 2 ^ b.order }

theorem Block.size_pos (b : Block) : 0 < b.extent.size :=
  Nat.mul_pos (by decide) (Nat.two_pow_pos _)

def visSize (adev : Adev) (b : Block) : Nat :=
  let start := b.extent.start
  let «end» := start + b.extent.size
  if adev.visibleVramSize ≤ start then 0
  else (if adev.visibleVramSize < «end» then adev.visibleVramSize else «end») - start

def blocksSize (bs : List Block) : Nat := (bs.map fun b => b.extent.size).sum

/-- The loop of `amdgpu_is_vram_mgr_blocks_contiguous`. -/
def contiguousFrom (b : Block) : List Block → Bool
  | [] => true
  | c :: bs =>
    if b.extent.start + b.extent.size ≠ c.extent.start then false else contiguousFrom c bs

/-- `amdgpu_is_vram_mgr_blocks_contiguous`. -/
def isBlocksContiguous : List Block → Bool
  | [] => false
  | b :: bs => contiguousFrom b bs

/-- The flags of an allocation from the `drm_buddy`. -/
structure Flags where
  topdown : Bool
  contiguous : Bool
  range : Bool
  deriving DecidableEq

/-- The arguments of `drm_buddy_alloc_blocks`. -/
structure Call where
  start : Nat
  «end» : Nat
  size : Nat
  minBlockSize : Nat
  flags : Flags
  deriving DecidableEq

/-- The answer of `drm_buddy_alloc_blocks`: the blocks, or an error. -/
abbrev Answer := Except Errno (List Block)

/-- `struct amdgpu_vram_mgr_resource`, with the `struct ttm_resource` in it. `contiguous` is the
flag of its placement. -/
structure Vres where
  id : Nat
  size : Nat
  start : Nat
  contiguous : Bool
  cached : Bool
  flags : Flags
  blocks : List Block
  deriving DecidableEq

/-- `struct amdgpu_vram_reservation`. -/
structure Rsv where
  id : Nat
  start : Nat
  size : Nat
  allocated : List Block
  deriving DecidableEq

/-- `struct amdgpu_vram_mgr`, and the live resources and the counts of what was created. -/
structure Mgr where
  live : List Vres
  pending : List Rsv
  reserved : List Rsv
  visUsage : Int
  usage : Int
  nextRes : Nat
  nextRsv : Nat
  deriving DecidableEq

/-- `amdgpu_vram_mgr_init`. -/
def init : Mgr :=
  { live := [], pending := [], reserved := [], visUsage := 0, usage := 0, nextRes := 0
    nextRsv := 0 }

/-! ## Reservations -/

/-- What `amdgpu_vram_mgr_do_reserve` asks for. -/
def Rsv.call (r : Rsv) : Call :=
  { start := r.start, «end» := (r.start + r.size) % 2 ^ 64, size := r.size, minBlockSize := pageSize
    flags := { topdown := false, contiguous := false, range := true } }

/-- One round of `amdgpu_vram_mgr_do_reserve`. -/
def reserveOne (adev : Adev) (s : Mgr) (x : Rsv × Answer) : Mgr :=
  match x.2 with
  | .error _ => s
  | .ok bs =>
    match bs.head? with
    | none => s
    | some block =>
      -- only the first block is counted
      { s with
        visUsage := s.visUsage + visSize adev block
        usage := s.usage + x.1.size
        pending := s.pending.filter fun r => r.id ≠ x.1.id
        reserved := { x.1 with allocated := bs } :: s.reserved }

def doReserve (adev : Adev) (s : Mgr) (answers : List Answer) : Mgr :=
  run (reserveOne adev) s (s.pending.zip answers)

/-- The reservation on the list of those to be tried. -/
def addPending (s : Mgr) (start size : Nat) : Mgr :=
  { s with
    pending := s.pending ++ [{ id := s.nextRsv, start := start, size := size, allocated := [] }]
    nextRsv := s.nextRsv + 1 }

/-- `amdgpu_vram_mgr_reserve_range`. `alloc` is what `kzalloc` does. -/
def reserveRange (adev : Adev) (s : Mgr) (start size : Nat) (alloc : Bool)
    (answers : List Answer) : Mgr × Option Errno :=
  if alloc then (doReserve adev (addPending s start size) answers, none) else (s, some .enomem)

/-- The page `start` is in the range of the reservation. -/
def Rsv.inRange (r : Rsv) (start : Nat) : Bool :=
  r.start ≤ start && start < (r.start + r.size) % 2 ^ 64

def queryPageStatus (s : Mgr) (start : Nat) : Option Errno :=
  if s.pending.any fun r => r.inRange start then some .ebusy
  else if s.reserved.any fun r => r.inRange start then none
  else some .enoent

/-! ## Resources -/

/-- What is read of `struct ttm_buffer_object`. -/
structure Tbo where
  size : Nat
  kernel : Bool
  pageAlignment : Nat
  deriving DecidableEq

/-- `struct ttm_place`. -/
structure Place where
  fpfn : Nat
  lpfn : Nat
  contiguous : Bool
  topdown : Bool
  deriving DecidableEq

/-- The pages of a block that `amdgpu_vram_mgr_new` would like. -/
def pagesPerBlock (adev : Adev) (tbo : Tbo) (place : Place) : Nat :=
  if place.contiguous then 2 ^ 64 - 1 else max adev.hpagePmdNr tbo.pageAlignment

/-- What `amdgpu_vram_mgr_new` asks for when `remaining` bytes are missing. -/
def allocCall (adev : Adev) (tbo : Tbo) (place : Place) (remaining : Nat) : Call :=
  let last := place.lpfn * pageSize % 2 ^ 64
  let lpfn := if last = 0 ∨ adev.manSize < last then adev.manSize else last
  let fpfn := place.fpfn * pageSize % 2 ^ 64
  let perBlock := pagesPerBlock adev tbo place * pageSize % 2 ^ 64
  let minBlockSize := if tbo.pageAlignment ≠ 0 then tbo.pageAlignment * pageSize else pageSize
  { start := fpfn
    «end» := lpfn
    size := remaining
    minBlockSize :=
      if perBlock ≤ remaining ∧ remaining &&& (perBlock - 1) = 0 then perBlock else minBlockSize
    flags :=
      { topdown := place.topdown, contiguous := place.contiguous
        range := fpfn ≠ 0 ∨ lpfn ≠ adev.mmSize } }

/-- The loop of `amdgpu_vram_mgr_new`, with the blocks that it has. -/
def allocLoop (remaining : Nat) (blocks : List Block) (answers : List Answer) : Answer :=
  if _h : remaining = 0 then .ok blocks
  else
    match answers with
    | [] => .error .enospc
    | .error r :: _ => .error r
    | .ok bs :: answers =>
      let size := remaining
      allocLoop (if remaining < size then 0 else remaining - size) (blocks ++ bs) answers
termination_by remaining
decreasing_by split <;> omega

/-- The first page of the resource, as `amdgpu_vram_mgr_new` has it. -/
def resStart (size : Nat) (bs : List Block) : Nat :=
  let pfnUp := (max (blocksSize bs) size + (pageSize - 1)) / pageSize
  bs.foldl (fun start b =>
    let last := (b.extent.start + b.extent.size) / pageSize
    max start (if pfnUp < last then last - pfnUp else 0)) 0

/-- The limit of `amdgpu_vram_mgr_new` on what may be used. -/
def maxBytes (adev : Adev) (tbo : Tbo) : Nat :=
  if tbo.kernel then adev.mcVramSize else (adev.mcVramSize + 2 ^ 64 - reservedVram) % 2 ^ 64

/-- `amdgpu_vram_mgr_new`. `ttm_resource_init` and `ttm_resource_fini` add and take away the size
of the resource. -/
def vramMgrNew (adev : Adev) (s : Mgr) (tbo : Tbo) (place : Place) (alloc : Bool)
    (answers : List Answer) : Mgr × Except Errno Nat :=
  if ¬ alloc then (s, .error .enomem)
  else
    let s1 := { s with usage := s.usage + tbo.size }
    if (maxBytes adev tbo : Int) < s1.usage then
      ({ s1 with usage := s1.usage - tbo.size }, .error .enospc)
    else
      match allocLoop tbo.size [] answers with
      | .error r => ({ s1 with usage := s1.usage - tbo.size }, .error r)
      | .ok bs =>
        ({ s1 with
            live := { id := s.nextRes, size := tbo.size, start := resStart tbo.size bs
                      contiguous := place.contiguous || isBlocksContiguous bs
                      cached := adev.connectedToCpu
                      flags := (allocCall adev tbo place tbo.size).flags
                      blocks := bs } :: s.live
            nextRes := s.nextRes + 1
            visUsage := s.visUsage + (bs.map (visSize adev)).sum }, .ok s.nextRes)

def vramMgrDel (adev : Adev) (s : Mgr) (v : Vres) (answers : List Answer) : Mgr :=
  let visUsage := (v.blocks.map (visSize adev)).sum
  let s := doReserve adev { s with live := s.live.erase v } answers
  { s with visUsage := s.visUsage - visUsage, usage := s.usage - v.size }

/-! ## Runs -/

/-- The calls, with the answers of the `drm_buddy`. -/
inductive Op
  | new (tbo : Tbo) (place : Place) (alloc : Bool) (answers : List Answer)
  | del (v : Vres) (answers : List Answer)
  | reserveRange (start size : Nat) (alloc : Bool) (answers : List Answer)

def step (adev : Adev) (s : Mgr) : Op → Mgr
  | .new tbo place alloc answers => (vramMgrNew adev s tbo place alloc answers).1
  | .del v answers => if v ∈ s.live then vramMgrDel adev s v answers else s
  | .reserveRange start size alloc answers => (reserveRange adev s start size alloc answers).1

def Mgr.held (s : Mgr) : List Block :=
  s.live.flatMap (fun v => v.blocks) ++ s.reserved.flatMap fun r => r.allocated

/-- The `drm_buddy` hands out disjoint blocks that are free, add up to what is asked and are in
the range that is asked for. -/
def HandsOut (s : Mgr) (c : Call) : Answer → Prop
  | .error _ => True
  | .ok bs =>
    (bs.map Block.extent).Pairwise Extent.Apart ∧
      (∀ b ∈ bs, ∀ h ∈ s.held, b.extent.Apart h.extent) ∧ blocksSize bs = c.size ∧
      (c.flags.range = true →
        ∀ b ∈ bs, c.start ≤ b.extent.start ∧ b.extent.start + b.extent.size ≤ c.end)

instance (s : Mgr) (c : Call) (a : Answer) : Decidable (HandsOut s c a) := by
  cases a <;> unfold HandsOut <;> infer_instance

def ReservesOk (adev : Adev) (s : Mgr) (answers : List Answer) : Prop :=
  StepsOk (reserveOne adev) (fun s x => HandsOut s x.1.call x.2) s (s.pending.zip answers)
  deriving Decidable

def BuddyOk (adev : Adev) (s : Mgr) : Op → Prop
  | .new tbo place _ answers => ∀ a ∈ answers.head?,
    HandsOut s (allocCall adev tbo place tbo.size) a
  | .del v answers => ReservesOk adev { s with live := s.live.erase v } answers
  | .reserveRange start size _ answers => ReservesOk adev (addPending s start size) answers

instance (adev : Adev) (s : Mgr) (op : Op) : Decidable (BuddyOk adev s op) := by
  cases op <;> unfold BuddyOk <;> infer_instance

end Amdkfd.VramMgr

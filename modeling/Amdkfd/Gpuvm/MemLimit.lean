import Amdkfd.Basic
import Amdkfd.Lib.Run
import Mathlib.Algebra.BigOperators.Group.List.Basic
import Mathlib.Algebra.Group.Pi.Basic
import Mathlib.Algebra.Group.Prod
import Mathlib.Algebra.Ring.Int.Defs

/-!
# The memory limits of the KFD

`amdgpu_amdkfd_gpuvm.c`: an allocation reserves its size before the BO exists. From then on the
size is given back either by the unwinding of the allocation, or by the release notifier of the
BO, which finds it through the `kgd_mem` that is linked to the BO.
-/

namespace Amdkfd.MemLimit

open Lib

def reservedVram : Nat := 8 * 2 ^ 20
def vramAvailabilityAlign : Nat := 2 ^ 21
def pageSize : Nat := 2 ^ 12
def uintMax : Nat := 2 ^ 32 - 1

/-- `ALIGN` to a power of two in 64 bits. -/
def align (x a : Nat) : Nat := (x + (a - 1)) % 2 ^ 64 / a * a

/-- A signed counter or a difference as the `uint64_t` that it is compared as. -/
def toU64 (x : Int) : Nat := (x % 2 ^ 64).toNat

/-- What is read of `struct amdgpu_device`. `num` is the number of the device; `apu` is
`gmc.is_app_apu || flags & AMD_IS_APU`. -/
structure Dev where
  num : Nat
  apu : Bool
  memPartitions : Bool
  deriving DecidableEq

/-- `KFD_IOC_ALLOC_MEM_FLAGS_*`, as far as they decide the account. -/
structure Flags where
  vram : Bool := false
  gtt : Bool := false
  userptr : Bool := false
  doorbell : Bool := false
  mmioRemap : Bool := false
  aqlQueueMem : Bool := false
  deriving DecidableEq

structure KgdMem where
  id : Nat
  allocFlags : Flags
  aqlQueue : Bool
  deriving DecidableEq

/-- `AMDGPU_GEM_DOMAIN_*`. -/
inductive Domain
  | cpu
  | gtt
  | vram
  deriving DecidableEq

/-- A BO with its `kgd_mem`. `xcpId` is that of the BO, `reservedXcp` the one its memory was
reserved for; a negative one is `none`. `refs` counts the references, `freed` says that
`amdgpu_amdkfd_gpuvm_free_memory_of_gpu` is through. -/
structure Bo where
  mem : KgdMem
  dev : Dev
  size : Nat
  preferredDomain : Domain
  xcpId : Option Nat
  reservedXcp : Option Nat
  refs : Nat
  freed : Bool
  deriving DecidableEq

/-- `kfd_mem_limit` and the counters of the devices; the live BOs; and the `kgd_mem` that neither
a BO nor an allocation has, and that were not freed. -/
structure State where
  systemMemUsed : Int
  ttmMemUsed : Int
  vramUsed : Nat → Nat → Int
  vramUsedAligned : Nat → Nat → Int
  live : List Bo
  lost : List KgdMem
  next : Nat

def init : State :=
  { systemMemUsed := 0, ttmMemUsed := 0, vramUsed := fun _ _ => 0
    vramUsedAligned := fun _ _ => 0, live := [], lost := [], next := 0 }

/-! ## The limits -/

/-- The limits of an allocation: those of `kfd_mem_limit`, `KFD_XCP_MEMORY_SIZE` for a partition,
`amdgpu_amdkfd_total_mem_size` and `vram_pin_size`. -/
structure Limits where
  maxSystemMemLimit : Nat
  maxTtmMemLimit : Nat
  noSystemMemLimit : Bool
  xcpMemorySize : Nat → Nat
  totalMemSize : Nat
  vramPinSize : Nat

def estimatePtSize (memSize : Nat) : Nat := max (memSize / 2 ^ 14) reservedVram

def bump (f : Nat → Nat → Int) (d x : Nat) (n : Int) : Nat → Nat → Int :=
  fun d' x' => if d' = d ∧ x' = x then f d' x' + n else f d' x'

/-- What `amdgpu_amdkfd_reserve_mem_limit` needs. -/
structure Needed where
  system : Nat
  ttm : Nat
  vram : Nat
  vramSize : Nat
  deriving DecidableEq

/-- The first part of `amdgpu_amdkfd_reserve_mem_limit`. -/
def needed (dev : Dev) (size : Nat) (flags : Flags) (xcp : Option Nat) (l : Limits) :
    Except Errno Needed :=
  if flags.gtt then .ok ⟨size, size, 0, 0⟩
  else if flags.vram then
    match xcp with
    | none => .error .einval
    | some x =>
      let vramSize := l.xcpMemorySize x
      if dev.apu then .ok ⟨size, size, size, vramSize⟩ else .ok ⟨0, 0, size, vramSize⟩
  else if flags.userptr then .ok ⟨size, 0, 0, 0⟩
  else if ¬ (flags.doorbell ∨ flags.mmioRemap) then .error .enomem
  else .ok ⟨0, 0, 0, 0⟩

/-- The memory does not fit. -/
def exceeds (s : State) (dev : Dev) (n : Needed) (xcp : Option Nat) (l : Limits) : Bool :=
  (l.maxSystemMemLimit < toU64 (s.systemMemUsed + n.system) && !l.noSystemMemLimit) ||
    l.maxTtmMemLimit < toU64 (s.ttmMemUsed + n.ttm) ||
    match xcp with
    | none => false
    | some x => toU64 ((n.vramSize : Int) - estimatePtSize l.totalMemSize - l.vramPinSize) <
        toU64 (s.vramUsed dev.num x + n.vram)

def reserveMemLimit (s : State) (dev : Dev) (size : Nat) (flags : Flags) (xcp : Option Nat)
    (l : Limits) : Except Errno State :=
  match needed dev size flags xcp l with
  | .error e => .error e
  | .ok n =>
    if exceeds s dev n xcp l then .error .enomem
    else
      let s :=
        match xcp with
        | none => s
        | some x => { s with
            vramUsed := bump s.vramUsed dev.num x n.vram
            vramUsedAligned := bump s.vramUsedAligned dev.num x
              (if dev.apu then n.vram else align n.vram vramAvailabilityAlign : Nat) }
      .ok { s with
        systemMemUsed := s.systemMemUsed + n.system
        ttmMemUsed := s.ttmMemUsed + n.ttm }

def unreserveMemLimit (s : State) (dev : Dev) (size : Nat) (flags : Flags) (xcp : Option Nat) :
    State :=
  if flags.gtt then
    { s with systemMemUsed := s.systemMemUsed - size, ttmMemUsed := s.ttmMemUsed - size }
  else if flags.vram then
    match xcp with
    | none => s
    | some x =>
      let s := { s with vramUsed := bump s.vramUsed dev.num x (-size) }
      if dev.apu then
        { s with
          vramUsedAligned := bump s.vramUsedAligned dev.num x (-size)
          systemMemUsed := s.systemMemUsed - size
          ttmMemUsed := s.ttmMemUsed - size }
      else
        { s with
          vramUsedAligned :=
            bump s.vramUsedAligned dev.num x (-(align size vramAvailabilityAlign : Nat)) }
  else if flags.userptr then { s with systemMemUsed := s.systemMemUsed - size }
  else s

/-- `amdgpu_amdkfd_release_notify`, which also frees the `kgd_mem`. -/
def releaseNotify (s : State) (b : Bo) : State :=
  unreserveMemLimit s b.dev b.size b.mem.allocFlags b.xcpId

/-! ## Allocation -/

/-- The arguments of `amdgpu_amdkfd_gpuvm_alloc_memory_of_gpu`, and what its steps return. The
partition of the process is `none` for `AMDGPU_XCP_NO_PARTITION`; `offset` is the value that the
pointer has, if it is not NULL. -/
structure Args where
  dev : Dev
  size : Nat
  flags : Flags
  xcp : Option Nat
  offset : Option Nat
  limits : Limits
  sgTable : Bool
  kzalloc : Bool
  gemObjectCreate : Option Errno
  vmaNodeAllow : Option Errno
  gemHandleCreate : Option Errno
  /-- `init_user_pages`, `amdgpu_amdkfd_gpuvm_pin_bo` or `amdgpu_amdkfd_bo_validate_and_fence`. -/
  prepare : Option Errno

/-- Where the BO is allocated, and the partition that its memory is reserved for. -/
def place (a : Args) : Except Errno (Domain × Option Nat) :=
  if a.flags.vram then
    .ok (if a.dev.apu then .gtt else .vram, some (a.xcp.getD 0))
  else if a.flags.gtt then .ok (.gtt, none)
  else if a.flags.userptr then
    match a.offset with
    | none | some 0 => .error .einval
    | some _ => .ok (.cpu, none)
  else if a.flags.doorbell ∨ a.flags.mmioRemap then
    if uintMax < a.size then .error .einval
    else if a.sgTable then .ok (.cpu, none)
    else .error .enomem
  else .error .einval

/-- The size of the BO. An AQL queue is mapped twice and has half the memory. -/
def alignedSize (a : Args) : Nat :=
  align (if a.flags.aqlQueueMem then a.size / 2 else a.size) pageSize

def Args.mem (a : Args) (id : Nat) : KgdMem :=
  { id := id, allocFlags := a.flags, aqlQueue := a.flags.aqlQueueMem }

/-- The BO is one of a doorbell or of MMIO registers, which is pinned in GTT. A flag for it on user
memory is not looked at. -/
def Flags.pins (flags : Flags) : Bool :=
  (flags.doorbell || flags.mmioRemap) && !(flags.userptr && !flags.vram && !flags.gtt)

/-- The BO that `amdgpu_gem_object_create` makes, linked to its `kgd_mem`, with the reference of
its creation and that of its handle. A pinned one has the domain that it is pinned in. -/
def Args.bo (a : Args) (id : Nat) (domain : Domain) (xcp : Option Nat) : Bo :=
  { mem := a.mem id
    dev := a.dev
    size := align (alignedSize a) pageSize
    preferredDomain := if a.flags.pins then .gtt else domain
    xcpId := if a.dev.memPartitions then xcp else some 0
    reservedXcp := xcp
    refs := 2
    freed := false }

def allocMemoryOfGpu (s : State) (a : Args) : State × Except Errno Nat :=
  match place a with
  | .error e => (s, .error e)
  | .ok (domain, xcp) =>
    if ¬ a.kzalloc then (s, .error .enomem)
    else
      let mem := a.mem s.next
      match reserveMemLimit s a.dev (alignedSize a) a.flags xcp a.limits with
      | .error e => (s, .error e)
      | .ok s =>
        match a.gemObjectCreate with
        | some e => (unreserveMemLimit s a.dev (alignedSize a) a.flags xcp, .error e)
        | none =>
          -- the BO that is put here is not linked yet: no notifier, and no `kfree` of `mem`
          match a.vmaNodeAllow with
          | some e => ({ s with lost := mem :: s.lost }, .error e)
          | none =>
            match a.gemHandleCreate with
            | some e => ({ s with lost := mem :: s.lost }, .error e)
            | none =>
              let bo := a.bo s.next domain xcp
              match a.prepare with
              | some e => (releaseNotify s bo, .error e)
              | none => ({ s with live := bo :: s.live, next := s.next + 1 }, .ok s.next)

/-! ## Freeing -/

def putBo (s : State) (b : Bo) (n : Nat) (freed : Bool) : State :=
  let s := { s with live := s.live.erase b }
  if b.refs ≤ n then releaseNotify s b
  else { s with live := { b with refs := b.refs - n, freed := freed } :: s.live }

/-- `amdgpu_amdkfd_gpuvm_free_memory_of_gpu`. `mapped` says that the BO is still mapped, `reserve`
is what `reserve_bo_and_cond_vms` returns. -/
def freeMemoryOfGpu (s : State) (b : Bo) (mapped : Bool) (reserve : Option Errno) :
    State × Except Errno Nat :=
  if mapped then (s, .error .ebusy)
  else
    match reserve with
    | some e => (s, .error e)
    | none =>
      (putBo s b 2 true, .ok (if b.preferredDomain = .vram ∨
        b.dev.apu ∧ b.preferredDomain = .gtt then b.size else 0))

/-- The calls; `get` and `put` are references that others take and put, such as a DMA-buf. -/
inductive Op
  | alloc (a : Args)
  | free (b : Bo) (mapped : Bool) (reserve : Option Errno)
  | get (b : Bo)
  | put (b : Bo)

def Bo.held (b : Bo) : Bool := (if b.freed then 0 else 2) < b.refs

def step (s : State) : Op → State
  | .alloc a => (allocMemoryOfGpu s a).1
  | .free b mapped reserve =>
    if b ∈ s.live ∧ b.freed = false then (freeMemoryOfGpu s b mapped reserve).1 else s
  | .get b =>
    if b ∈ s.live then { s with live := { b with refs := b.refs + 1 } :: s.live.erase b } else s
  | .put b => if b ∈ s.live ∧ b.held then putBo s b 1 b.freed else s

/-! ## What is to be shown -/

abbrev Used := Int × Int × (Nat → Nat → Int) × (Nat → Nat → Int)

def State.used (s : State) : Used :=
  (s.systemMemUsed, s.ttmMemUsed, s.vramUsed, s.vramUsedAligned)

def charge (d : Nat) (xcp : Option Nat) (n : Int) : Nat → Nat → Int :=
  fun d' x => if d' = d ∧ xcp = some x then n else 0

/-- What a BO of a size is charged, by its allocation type. -/
def contribution (dev : Dev) (size : Nat) (flags : Flags) (xcp : Option Nat) : Used :=
  if flags.gtt then (size, size, 0, 0)
  else if flags.vram then
    if dev.apu then (size, size, charge dev.num xcp size, charge dev.num xcp size)
    else (0, 0, charge dev.num xcp size,
      charge dev.num xcp (align size vramAvailabilityAlign : Nat))
  else if flags.userptr then (size, 0, 0, 0)
  else 0

def Bo.contribution (b : Bo) : Used :=
  MemLimit.contribution b.dev b.size b.mem.allocFlags b.reservedXcp

/-- The counters are the sums over the live BOs, and no `kgd_mem` is lost. -/
structure Accounted (s : State) : Prop where
  used : s.used = (s.live.map Bo.contribution).sum
  lost : s.lost = []

def Fails (s : State) : Op → Prop
  | .alloc a => ∃ e, (allocMemoryOfGpu s a).2 = .error e
  | _ => False

/-- A call leaves the accounts right, and the counters as they are when it is an allocation that
fails. -/
def StepRight (s : State) (op : Op) : Prop :=
  Accounted (step s op) ∧ (Fails s op → (step s op).used = s.used)

/-- The allocation comes to its BO. -/
def Creates (s : State) (a : Args) : Prop :=
  ∃ domain xcp s', place a = .ok (domain, xcp) ∧ a.kzalloc = true ∧
    reserveMemLimit s a.dev (alignedSize a) a.flags xcp a.limits = .ok s' ∧
    a.gemObjectCreate = none

/-- The release gives back what was reserved: an account of VRAM is that of the same partition. -/
def Bo.SamePartition (b : Bo) : Prop :=
  b.mem.allocFlags.gtt = false → b.mem.allocFlags.vram = true → b.size ≠ 0 → b.xcpId = b.reservedXcp

/-- The BO goes with the call. -/
def Releases (b : Bo) : Op → Prop
  | .free b' mapped reserve =>
    b' = b ∧ b.freed = false ∧ mapped = false ∧ reserve = none ∧ b.refs ≤ 2
  | .put b' => b' = b ∧ b.held = true ∧ b.refs ≤ 1
  | _ => False

/-- No allocation fails between the creation of its BO and the link to its `kgd_mem`, and a BO is
released for the partition that its memory was reserved for. -/
def Linked (s : State) (op : Op) : Prop :=
  (∀ a, op = .alloc a → Creates s a → a.vmaNodeAllow = none ∧ a.gemHandleCreate = none ∧
    (a.prepare ≠ none → ∀ domain xcp, place a = .ok (domain, xcp) →
      (a.bo s.next domain xcp).SamePartition)) ∧
  ∀ b ∈ s.live, Releases b op → b.SamePartition

end Amdkfd.MemLimit

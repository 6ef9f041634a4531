import Amdkfd.Basic
import Amdkfd.Lib.Run

/-!
# Mapping a BO into GPU VMs

`amdgpu_amdkfd_gpuvm.c`: a BO is attached to a VM once and then mapped and unmapped. An
attachment says in `is_mapped` that its address is in the mapping tree of the VM, and the BO counts
the attachments that say so. A call holds the lock of the BO, so one call is one step; every place
where it can fail is an answer of the environment.
-/

namespace Amdkfd.MapMemory

open Lib

/-- `AMDGPU_GPU_PAGE_SIZE`. -/
def pageSize : Nat := 4096

/-- `AMDGPU_GEM_DOMAIN_*`. -/
inductive Domain
  | cpu
  | gtt
  | vram
  | other
  deriving DecidableEq

/-- `enum kfd_mem_attachment_type`. -/
inductive AttType
  | shared
  | userptr
  | dmabuf
  | sg
  deriving DecidableEq, Repr

abbrev Vm := Nat

/-- What `kfd_mem_attach` asks about the device of a VM and the device of the BO. `isBoAdev` says
that they are one device, `maxPfn` is `vm_manager.max_pfn`. -/
structure Peer where
  isBoAdev : Bool
  apu : Bool
  sameHive : Bool
  peerAccessible : Bool
  reuseDmamap : Bool
  maxPfn : Nat
  deriving DecidableEq

/-- `struct kgd_mem`, as far as it never changes, and what is read of its BO: `userptr` is
`amdgpu_ttm_tt_get_usermm`, `typeSg` is `ttm_bo_type_sg`. A BO has whole pages. -/
structure KgdMem where
  va : Nat
  size : Nat
  aqlQueue : Bool
  domain : Domain
  doorbell : Bool
  mmioRemap : Bool
  userptr : Bool
  typeSg : Bool
  peer : Vm → Peer
  va_lt : va < 2 ^ 64
  size_pos : 0 < size
  size_lt : size < 2 ^ 64
  size_pages : size % pageSize = 0

/-- The BO that is mapped: the one in `kgd_mem`, or one that was made for a peer device. -/
inductive Bo
  | own
  | peer (n : Nat)
  deriving DecidableEq

structure Attachment where
  vm : Vm
  va : Nat
  type : AttType
  bo : Bo
  isMapped : Bool
  deriving DecidableEq

/-- A mapping of one of the BOs in the tree of a VM; it is in one of the lists of the `bo_va`. -/
structure Mapping where
  bo : Bo
  start : Nat
  last : Nat
  deriving DecidableEq

/-- The attachments, the latest first; the count; the reference counts of the `bo_va`, where `0`
means that there is none; the trees of the VMs, as far as they hold these BOs; the BOs with an
`sg_table`; and the VM of the last call, when that was a map call and failed. -/
structure State where
  attachments : List Attachment
  mappedToGpuMemory : Nat
  boVa : Vm → Bo → Nat
  va : Vm → List Mapping
  sg : Bo → Bool
  nextBo : Nat
  failed : Option Vm

def init : State :=
  { attachments := [], mappedToGpuMemory := 0, boVa := fun _ _ => 0, va := fun _ => []
    sg := fun _ => false, nextBo := 0, failed := none }

def State.setVa (s : State) (v : Vm) (ms : List Mapping) : State :=
  { s with va := fun i => if i = v then ms else s.va i }

def State.setSg (s : State) (b : Bo) (x : Bool) : State :=
  { s with sg := fun i => if i = b then x else s.sg i }

def State.setBoVa (s : State) (v : Vm) (b : Bo) (n : Nat) : State :=
  { s with boVa := fun i j => if i = v ∧ j = b then n else s.boVa i j }

def State.setMapped (s : State) (a : Attachment) (x : Bool) : State :=
  { s with attachments := s.attachments.map fun b => if b = a then { b with isMapped := x } else b }

/-! ## `amdgpu_vm.c` -/

/-- `amdgpu_vm_verify_parameters` for a whole BO. -/
def verifyParameters (mem : KgdMem) (v : Vm) (saddr : Nat) : Bool :=
  saddr % pageSize = 0 ∧ mem.size % pageSize = 0 ∧ saddr + mem.size < 2 ^ 64 ∧ mem.size ≠ 0 ∧
    (saddr + mem.size - 1) / pageSize < (mem.peer v).maxPfn

def mappingOf (mem : KgdMem) (a : Attachment) : Mapping :=
  { bo := a.bo, start := a.va / pageSize, last := a.va / pageSize + (mem.size - 1) / pageSize }

def Mapping.overlaps (m n : Mapping) : Bool := m.start ≤ n.last ∧ n.start ≤ m.last

/-- What can go wrong for one attachment in `map_bo_to_gpuvm` and `vm_update_pds`. `conflict` says
that another BO is mapped there. -/
structure EntryEnv where
  conflict : Bool := false
  noMemory : Bool := false
  dmamap : Option Errno := none
  boUpdate : Option Errno := none
  syncFence : Option Errno := none
  updatePds : Option Errno := none
  deriving DecidableEq

def vmBoMap (mem : KgdMem) (s : State) (a : Attachment) (e : EntryEnv) : Except Errno State :=
  if ¬ verifyParameters mem a.vm a.va then .error .einval
  else if (s.va a.vm).any (·.overlaps (mappingOf mem a)) ∨ e.conflict then .error .einval
  else if e.noMemory then .error .enomem
  else .ok (s.setVa a.vm (mappingOf mem a :: s.va a.vm))

/-- `amdgpu_vm_bo_unmap`; what `amdgpu_vm_clear_freed` returns is not looked at. -/
def unmapBoFromGpuvm (s : State) (a : Attachment) : State :=
  s.setVa a.vm ((s.va a.vm).eraseP fun m => m.bo = a.bo ∧ m.start = a.va / pageSize)

def vmBoDel (s : State) (v : Vm) (b : Bo) : State :=
  s.setVa v ((s.va v).filter (·.bo ≠ b))

/-! ## DMA mappings -/

/-- `kfd_mem_dmamap_attachment`. A DMA mapping that fails leaves no `sg_table`. -/
def dmamapAttachment (s : State) (a : Attachment) (e : EntryEnv) : State × Option Errno :=
  match a.type with
  | .shared => (s, none)
  | .userptr => (s.setSg a.bo e.dmamap.isNone, e.dmamap)
  | .dmabuf => (s, e.dmamap)
  | .sg => if s.sg a.bo then (s, some .einval) else (s.setSg a.bo e.dmamap.isNone, e.dmamap)

def dmaunmapAttachment (s : State) (a : Attachment) : State :=
  match a.type with
  | .shared => s
  | .userptr => s.setSg a.bo false
  | .dmabuf => s
  | .sg => s.setSg a.bo false

/-! ## `kfd_mem_attach` -/

/-- What can go wrong for one attachment in `kfd_mem_attach`: its allocation, the BO for the peer
device, the reservation, and `amdgpu_vm_bo_add`. -/
structure AttachEnv where
  noMemory : Bool := false
  createBo : Option Errno := none
  reserve : Option Errno := none
  boAddFails : Bool := false
  deriving DecidableEq

/-- The BO of a peer that has to be reached over PCIe and cannot be. -/
def peerDenied (mem : KgdMem) (v : Vm) : Bool :=
  let p := mem.peer v
  !p.isBoAdev && !p.apu && (mem.domain = .vram || mem.doorbell || mem.mmioRemap) &&
    !(mem.domain = .vram && p.sameHive) && !p.peerAccessible

/-- `same_hive` of `kfd_mem_attach`. -/
def sameHive (mem : KgdMem) (v : Vm) : Bool :=
  let p := mem.peer v
  !p.isBoAdev && !p.apu && mem.domain = .vram && p.sameHive

def sharesOwn (mem : KgdMem) (v : Vm) : Bool :=
  let p := mem.peer v
  (p.isBoAdev && !mem.mmioRemap) || (mem.userptr && p.reuseDmamap) ||
    (mem.domain = .gtt && p.reuseDmamap) || sameHive mem v

/-- How the attachment reaches the BO; the second one shares what the first one has. -/
def attachmentType (mem : KgdMem) (v : Vm) (second : Bool) : Except Errno AttType :=
  if sharesOwn mem v then .ok .shared
  else if second then .ok .shared
  else if mem.userptr then .ok .userptr
  else if mem.typeSg then .ok .sg
  else if mem.domain = .gtt ∨ mem.domain = .vram then .ok .dmabuf
  else .error .einval

def attachBo (mem : KgdMem) (s : State) (v : Vm) (first : Option Bo) : Bo :=
  if sharesOwn mem v then .own else first.getD (.peer s.nextBo)

/-- One turn of the loop of `kfd_mem_attach`. `first` is the BO of the turn before. -/
def attachEntry (mem : KgdMem) (s : State) (v : Vm) (va : Nat) (first : Option Bo)
    (e : AttachEnv) : Except Errno (State × Attachment) :=
  if e.noMemory then .error .enomem
  else
    match attachmentType mem v first.isSome with
    | .error err => .error err
    | .ok type =>
      let made := type ≠ .shared
      let bo := attachBo mem s v first
      match (if made then e.createBo else none), e.reserve with
      | some err, _ => .error err
      | none, some err => .error err
      | none, none =>
        if s.boVa v bo = 0 ∧ e.boAddFails then .error .enomem
        else
          let a : Attachment :=
            { vm := v, va := va, type := type, bo := bo, isMapped := false }
          let s := s.setBoVa v bo (s.boVa v bo + 1)
          .ok ({ s with
            nextBo := if made then s.nextBo + 1 else s.nextBo
            attachments := a :: s.attachments }, a)

def unwindEntry (s : State) (a : Attachment) : State :=
  let s := s.setBoVa a.vm a.bo (s.boVa a.vm a.bo - 1)
  let s := if s.boVa a.vm a.bo = 0 then vmBoDel s a.vm a.bo else s
  { s with attachments := s.attachments.erase a }

def secondVa (mem : KgdMem) : Nat := (mem.va + mem.size) % 2 ^ 64

def kfdMemAttach (mem : KgdMem) (s : State) (v : Vm) (e : Nat → AttachEnv) : State × Option Errno :=
  if mem.va = 0 then (s, some .einval)
  else if peerDenied mem v then (s, some .einval)
  else
    match attachEntry mem s v mem.va none (e 0) with
    | .error err => (s, some err)
    | .ok (s, a) =>
      if mem.aqlQueue then
        match attachEntry mem s v (secondVa mem) (some a.bo) (e 1) with
        | .error err => (unwindEntry s a, some err)
        | .ok (s, _) => (s, none)
      else (s, none)

def isAttached (s : State) (v : Vm) : Bool := s.attachments.any (·.vm = v)

/-! ## `amdgpu_amdkfd_gpuvm_map_memory_to_gpu` -/

def updateGpuvmPte (s : State) (a : Attachment) (e : EntryEnv) : State × Option Errno :=
  match dmamapAttachment s a e with
  | (s, some err) => (s, some err)
  | (s, none) => (s, e.boUpdate <|> e.syncFence)

def mapBoToGpuvm (mem : KgdMem) (s : State) (a : Attachment) (e : EntryEnv) (noUpdatePte : Bool) :
    State × Option Errno :=
  match vmBoMap mem s a e with
  | .error err => (s, some err)
  | .ok s =>
    if noUpdatePte then (s, none)
    else
      match updateGpuvmPte s a e with
      | (s, none) => (s, none)
      | (s, some err) => (dmaunmapAttachment (unmapBoFromGpuvm s a) a, some err)

/-- One turn of the loop over the attachments. -/
def mapEntry (mem : KgdMem) (s : State) (a : Attachment) (e : EntryEnv) (noUpdatePte : Bool) :
    State × Option Errno :=
  match mapBoToGpuvm mem s a e noUpdatePte with
  | (s, some err) => (s, some err)
  | (s, none) =>
    match e.updatePds with
    | some err => (s, some err)
    | none =>
      ({ s.setMapped a true with mappedToGpuMemory := s.mappedToGpuMemory + 1 }, none)

def mapEntries (mem : KgdMem) (v : Vm) (e : Nat → EntryEnv) (noUpdatePte : Bool) :
    State → Nat → List Attachment → State × Option Errno
  | s, _, [] => (s, none)
  | s, k, a :: as =>
    if a.vm ≠ v ∨ a.isMapped then mapEntries mem v e noUpdatePte s k as
    else
      match mapEntry mem s a (e k) noUpdatePte with
      | (s, some err) => (s, some err)
      | (s, none) => mapEntries mem v e noUpdatePte s (k + 1) as

/-- The answers to a map call. `invalid` is `mem->invalid`, `inSystem` says that a userptr BO is
not validated yet. -/
structure MapEnv where
  attach : Nat → AttachEnv := fun _ => {}
  reserve : Option Errno := none
  validate : Option Errno := none
  invalid : Bool := false
  inSystem : Bool := false
  entry : Nat → EntryEnv := fun _ => {}

def mapMemoryToGpu (mem : KgdMem) (s : State) (v : Vm) (e : MapEnv) : State × Option Errno :=
  let isInvalidUserptr := mem.userptr && (e.invalid || e.inSystem)
  match (if isAttached s v then (s, none) else kfdMemAttach mem s v e.attach) with
  | (s, some err) => (s, some err)
  | (s, none) =>
    match e.reserve, e.validate with
    | some err, _ => (s, some err)
    | none, some err => (s, some err)
    | none, none => mapEntries mem v e.entry isInvalidUserptr s 0 s.attachments

/-! ## `amdgpu_amdkfd_gpuvm_unmap_memory_from_gpu` -/

structure UnmapEnv where
  reserve : Option Errno := none
  validate : Option Errno := none

def unmapEntry (s : State) (a : Attachment) : State :=
  { (unmapBoFromGpuvm s a).setMapped a false with mappedToGpuMemory := s.mappedToGpuMemory - 1 }

def unmapEntries (v : Vm) : State → List Attachment → State
  | s, [] => s
  | s, a :: as =>
    if a.vm ≠ v ∨ ¬ a.isMapped then unmapEntries v s as else unmapEntries v (unmapEntry s a) as

def unmapMemoryFromGpu (s : State) (v : Vm) (e : UnmapEnv) : State × Option Errno :=
  match e.reserve with
  | some err => (s, some err)
  | none =>
    if s.attachments.any fun a => a.vm = v ∧ a.isMapped then
      match e.validate with
      | some err => (s, some err)
      | none => (unmapEntries v s s.attachments, none)
    else (s, some .einval)

def dmaunmapMem (s : State) (v : Vm) (reserve : Option Errno) : State × Option Errno :=
  match reserve with
  | some err => (s, some err)
  | none =>
    (s.attachments.foldl
      (fun s a => if a.vm ≠ v ∨ ¬ s.sg a.bo then s else dmaunmapAttachment s a) s, none)

/-! ## Runs -/

inductive Op
  | map (v : Vm) (e : MapEnv)
  | unmap (v : Vm) (e : UnmapEnv)
  | dmaunmap (v : Vm) (reserve : Option Errno)

def step (mem : KgdMem) (s : State) : Op → State
  | .map v e =>
    let (s, r) := mapMemoryToGpu mem s v e
    { s with failed := if r = none then none else some v }
  | .unmap v e => { (unmapMemoryFromGpu s v e).1 with failed := none }
  | .dmaunmap v reserve => { (dmaunmapMem s v reserve).1 with failed := none }

/-! ## What the book-keeping promises -/

def VaMapped (s : State) (a : Attachment) : Prop :=
  ∃ m ∈ s.va a.vm, m.bo = a.bo ∧ m.start = a.va / pageSize

/-- Nothing but a failure that goes away keeps the BO from the VM: its address is one that the VM
takes, and the device can reach it. -/
def Mappable (mem : KgdMem) (v : Vm) : Prop :=
  mem.va ≠ 0 ∧ peerDenied mem v = false ∧ (∃ t, attachmentType mem v false = .ok t) ∧
    verifyParameters mem v mem.va ∧ (mem.aqlQueue → verifyParameters mem v (secondVa mem))

/-- Nothing fails in the call. -/
structure MapEnv.Clean (e : MapEnv) : Prop where
  attach : ∀ k, e.attach k = {}
  reserve : e.reserve = none
  validate : e.validate = none
  entry : ∀ k, e.entry k = {}

/-- No SG attachment of the VM that is not mapped still has an `sg_table`. -/
def SgClean (s : State) (v : Vm) : Prop :=
  ∀ a ∈ s.attachments, a.vm = v → a.isMapped = false → a.type = .sg → s.sg a.bo = false

/-- What holds in every state: the count is that of the attachments with `is_mapped`, which are
those whose address is in the tree; and a map call in which nothing fails succeeds, on the VM of a
call that failed and on every VM without an `sg_table` that is left. -/
structure Right (mem : KgdMem) (s : State) : Prop where
  count : s.mappedToGpuMemory = s.attachments.countP (·.isMapped)
  mapped : ∀ a ∈ s.attachments, a.isMapped = true ↔ VaMapped s a
  repeatable : ∀ v, s.failed = some v ∨ SgClean s v → Mappable mem v → ∀ e : MapEnv, e.Clean →
    (mapMemoryToGpu mem s v e).2 = none

end Amdkfd.MapMemory

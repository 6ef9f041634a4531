import Mathlib.Data.BitVec
import Amdkfd.Basic
import Amdkfd.Lib.Run

/-!
# Mappings of a GPU VM

`amdgpu_vm_bo_map`, `amdgpu_vm_bo_replace_map`, `amdgpu_vm_bo_unmap`,
`amdgpu_vm_bo_clear_mappings`, `amdgpu_vm_bo_del`, `amdgpu_vm_bo_update` and
`amdgpu_vm_clear_freed` of `amdgpu_vm.c`, on the lists of mappings and the page table entries.

Of an entry only its flags are kept. What the environment decides is an argument: whether an
allocation succeeds, and for each update of a range whether it succeeds and which entries it had
written when it failed. The status lists, the fences and the count of PRT users are left out.
-/

namespace Amdkfd.VmMap

/-! ## Page table entries -/

def gpuPageSize : Nat := 4096

def pteValid : BitVec 64 := 1

def pteSystem : BitVec 64 := 2

def pteSnooped : BitVec 64 := 4

def pteTmz : BitVec 64 := 8

def pteExecutable : BitVec 64 := 0x10

def pteReadable : BitVec 64 := 0x20

def pteWriteable : BitVec 64 := 0x40

def ptePrt : BitVec 64 := 1 <<< 51

def pteDefaultAtc : BitVec 64 :=
  pteSystem ||| pteSnooped ||| pteExecutable ||| pteReadable ||| pteWriteable ||| 2 <<< 57

def gmcHoleStart : Nat := 0x0000800000000000

/-- An entry has `AMDGPU_PTE_VALID`. -/
def isValid (pte : BitVec 64) : Bool :=
  pte.getLsbD 0

/-! ## Data -/

/-- The types of memory that the flags of an entry depend on. -/
inductive MemType
  | system
  | tt
  | vram
  | doorbell
  | preempt
  | other
  deriving DecidableEq

/-- `struct ttm_resource`. `cached`: its bus caching is `ttm_cached`. -/
structure Resource where
  memType : MemType
  cached : Bool
  deriving DecidableEq

/-- `struct amdgpu_bo`. `ttCached` and `readonly` are those of its `ttm_tt`. For an import from
another GPU over XGMI it is the BO that has the memory. -/
structure Bo where
  size : Nat
  resource : Option Resource
  ttCached : Bool
  readonly : Bool
  encrypted : Bool
  deriving DecidableEq

/-- `struct amdgpu_bo_va_mapping`, from page `start` to page `last`. -/
structure Mapping where
  boVa : Option Nat
  start : Nat
  last : Nat
  offset : Nat
  flags : BitVec 64
  deriving DecidableEq

/-- `struct amdgpu_bo_va`. -/
structure BoVa where
  bo : Option Bo
  moved : Bool
  cleared : Bool
  valids : List Mapping
  invalids : List Mapping
  deriving DecidableEq

/-- What is read of `struct amdgpu_device`, with the `PAGE_SHIFT` of the CPU. `getVmPte` is
`get_vm_pte` of `gmc_funcs`: it keeps `AMDGPU_PTE_VALID`, save for the mappings that `keepsValid`
excludes (those with `AMDGPU_PTE_PRT`, from GFX9 on). -/
structure Device where
  pageShift : Nat
  maxPfn : Nat
  gartPteFlags : BitVec 64
  keepsValid : Mapping → Bool
  getVmPte : Option Bo → Mapping → BitVec 64 → BitVec 64
  pageShift_ge : 12 ≤ pageShift
  gartPteFlags_valid : isValid gartPteFlags = false
  getVmPte_valid : ∀ bo m flags, isValid (getVmPte bo m flags) = (isValid flags && keepsValid m)

/-- `struct amdgpu_vm`. The interval tree `va` is given by its mappings in order, and `pte` has the
entry of each page. -/
structure Vm where
  va : List Mapping
  freed : List Mapping
  boVa : Nat → Option BoVa
  pteSupportAts : Bool
  pte : Nat → BitVec 64

/-- `amdgpu_vm_it_insert`. -/
def itInsert (m : Mapping) : List Mapping → List Mapping
  | [] => [m]
  | x :: xs => if x.start ≤ m.start then x :: itInsert m xs else m :: x :: xs

/-- A mapping leaves a list or the tree. The mappings in use are disjoint, so their contents tell
them apart. -/
def remove (m : Mapping) (ms : List Mapping) : List Mapping :=
  ms.filter (· ≠ m)

/-- A change of the `amdgpu_bo_va` at `b`. -/
def Vm.modify (vm : Vm) (b : Nat) (f : BoVa → BoVa) : Vm :=
  { vm with boVa := Function.update vm.boVa b ((vm.boVa b).map f) }

def Vm.bo (vm : Vm) (b : Nat) : Option Bo :=
  (vm.boVa b).bind (·.bo)

/-! ## Updating the page table -/

/-- What comes of `amdgpu_vm_update_range`: an error, with the pages whose entries have been
written, or none. -/
inductive Outcome
  | ok
  | fail (e : Errno) (written : Nat → Bool)

def updateRange (vm : Vm) (start last : Nat) (flags : BitVec 64) : Outcome → Vm × Option Errno
  | .ok => ({ vm with pte := fun x => if start ≤ x ∧ x ≤ last then flags else vm.pte x }, none)
  | .fail e written =>
    ({ vm with
        pte := fun x =>
          if start ≤ x ∧ x ≤ last then if written x then flags else vm.pte x else vm.pte x },
      some e)

/-! ## Mapping -/

def verifyParameters (dev : Device) (bo : Option Bo) (saddr offset size : UInt64) : Option Errno :=
  if saddr.toNat % gpuPageSize ≠ 0 ∨ offset.toNat % gpuPageSize ≠ 0 ∨
      size.toNat % gpuPageSize ≠ 0 then
    some .einval
  else if 2 ^ 64 ≤ saddr.toNat + size.toNat ∨ 2 ^ 64 ≤ offset.toNat + size.toNat ∨ size = 0 then
    some .einval
  else if bo.any fun bo => bo.size < offset.toNat + size.toNat then some .einval
  else if dev.maxPfn ≤ (saddr.toNat + size.toNat - 1) / gpuPageSize then some .einval
  else none

def startPage (saddr : UInt64) : Nat :=
  saddr.toNat / gpuPageSize

def lastPage (saddr size : UInt64) : Nat :=
  saddr.toNat / gpuPageSize + (size.toNat - 1) / gpuPageSize

def Mapping.overlaps (m : Mapping) (saddr eaddr : Nat) : Bool :=
  saddr ≤ m.last && m.start ≤ eaddr

def boInsertMap (vm : Vm) (b : Nat) (m : Mapping) : Vm :=
  let m := { m with boVa := some b }
  let vm := vm.modify b fun v => { v with invalids := m :: v.invalids }
  { vm with va := itInsert m vm.va }

def boMap (dev : Device) (vm : Vm) (b : Nat) (saddr offset size : UInt64) (flags : BitVec 64)
    (kmalloc : Bool) : Vm × Option Errno :=
  match verifyParameters dev (vm.bo b) saddr offset size with
  | some e => (vm, some e)
  | none =>
    if vm.va.any (·.overlaps (startPage saddr) (lastPage saddr size)) then (vm, some .einval)
    else if kmalloc = false then (vm, some .enomem)
    else
      (boInsertMap vm b
        { boVa := none, start := startPage saddr, last := lastPage saddr size,
          offset := offset.toNat, flags := flags }, none)

/-! ## Unmapping -/

def unmapTarget (v : BoVa) (saddr : Nat) : Option (Mapping × Bool) :=
  match v.valids.find? (·.start = saddr) with
  | some m => some (m, true)
  | none => (v.invalids.find? (·.start = saddr)).map (·, false)

/-- `list_del` of the list of its `amdgpu_bo_va` that the mapping is on. -/
def listDel (vm : Vm) (b : Nat) (m : Mapping) : Vm :=
  vm.modify b fun v => { v with valids := remove m v.valids, invalids := remove m v.invalids }

def boUnmap (vm : Vm) (b : Nat) (saddr : UInt64) : Vm × Option Errno :=
  match (vm.boVa b).bind (unmapTarget · (startPage saddr)) with
  | none => (vm, some .enoent)
  | some (m, valid) =>
    let vm := listDel vm b m
    let vm := { vm with va := remove m vm.va }
    (if valid then { vm with freed := { m with boVa := none } :: vm.freed } else vm, none)

/-- The locals of `amdgpu_vm_bo_clear_mappings`. -/
structure ClearState where
  vm : Vm
  before : Option Mapping
  after : Option Mapping
  removed : List Mapping

def addPiece (vm : Vm) (m : Mapping) : Vm :=
  match m.boVa with
  | none => vm
  | some b => vm.modify b fun v => { v with invalids := m :: v.invalids }

/-- The part of a mapping before page `saddr`. -/
def Mapping.before (m : Mapping) (saddr : Nat) : Mapping :=
  { m with last := saddr - 1 }

def Mapping.after (m : Mapping) (pageShift eaddr : Nat) : Mapping :=
  { m with
    start := eaddr + 1
    offset := (m.offset + (eaddr + 1 - m.start) * 2 ^ pageShift) % 2 ^ 64 }

def gather (pageShift saddr eaddr : Nat) (c : ClearState) (tmp : Mapping) : ClearState :=
  let c :=
    if tmp.start < saddr then
      { c with vm := addPiece c.vm (tmp.before saddr), before := some (tmp.before saddr) }
    else c
  let c :=
    if eaddr < tmp.last then
      { c with
        vm := addPiece c.vm (tmp.after pageShift eaddr)
        after := some (tmp.after pageShift eaddr) }
    else c
  { c with
    vm := match tmp.boVa with
      | none => c.vm
      | some b => listDel c.vm b tmp
    removed := tmp :: c.removed }

/-- What goes on `freed` of a mapping that is removed. -/
def Mapping.clip (m : Mapping) (saddr eaddr : Nat) : Mapping :=
  { m with boVa := none, start := max m.start saddr, last := min m.last eaddr }

def freeRemoved (saddr eaddr : Nat) (vm : Vm) (tmp : Mapping) : Vm :=
  { vm with va := remove tmp vm.va, freed := tmp.clip saddr eaddr :: vm.freed }

def insertPiece (vm : Vm) : Option Mapping → Vm
  | none => vm
  | some m => { vm with va := itInsert m vm.va }

/-- `amdgpu_vm_bo_clear_mappings` on the pages from `saddr` to `eaddr`, after the
allocations. -/
def clearPages (pageShift : Nat) (vm : Vm) (saddr eaddr : Nat) : Vm :=
  let c := (vm.va.filter (·.overlaps saddr eaddr)).foldl (gather pageShift saddr eaddr)
    { vm := vm, before := none, after := none, removed := [] }
  let vm := c.removed.foldl (freeRemoved saddr eaddr) c.vm
  insertPiece (insertPiece vm c.before) c.after

def boClearMappings (dev : Device) (vm : Vm) (saddr size : UInt64) (beforeOk afterOk : Bool) :
    Vm × Option Errno :=
  match verifyParameters dev none saddr 0 size with
  | some e => (vm, some e)
  | none =>
    if beforeOk = false ∨ afterOk = false then (vm, some .enomem)
    else (clearPages dev.pageShift vm (startPage saddr) (lastPage saddr size), none)

def boReplaceMap (dev : Device) (vm : Vm) (b : Nat) (saddr offset size : UInt64)
    (flags : BitVec 64) (kmalloc beforeOk afterOk : Bool) : Vm × Option Errno :=
  match verifyParameters dev (vm.bo b) saddr offset size with
  | some e => (vm, some e)
  | none =>
    if kmalloc = false then (vm, some .enomem)
    else
      match boClearMappings dev vm saddr size beforeOk afterOk with
      | (vm, some e) => (vm, some e)
      | (vm, none) =>
        (boInsertMap vm b
          { boVa := none, start := startPage saddr, last := lastPage saddr size,
            offset := offset.toNat, flags := flags }, none)

def boDel (vm : Vm) (b : Nat) : Vm :=
  match vm.boVa b with
  | none => vm
  | some v =>
    let vm := v.valids.foldl (fun vm m =>
      { vm with va := remove m vm.va, freed := { m with boVa := none } :: vm.freed }) vm
    let vm := v.invalids.foldl (fun vm m => { vm with va := remove m vm.va }) vm
    { vm with boVa := Function.update vm.boVa b none }

/-! ## Filling the page table -/

def ttmTtPdeFlags (bo : Bo) : Option Resource → BitVec 64
  | none => 0
  | some mem =>
    (if mem.memType ≠ .system then pteValid else 0) |||
    (if mem.memType = .tt ∨ mem.memType = .doorbell ∨ mem.memType = .preempt then
      pteSystem ||| if bo.ttCached then pteSnooped else 0
    else 0) |||
    (if mem.memType = .vram ∧ mem.cached then pteSnooped else 0)

def ttmTtPteFlags (dev : Device) (bo : Bo) (mem : Option Resource) : BitVec 64 :=
  ttmTtPdeFlags bo mem ||| dev.gartPteFlags ||| pteReadable |||
    if bo.readonly then 0 else pteWriteable

/-- The flags that `amdgpu_vm_bo_update` starts from. -/
def boFlags (dev : Device) (bo : Option Bo) (clear : Bool) : BitVec 64 :=
  match bo with
  | none => 0
  | some bo =>
    ttmTtPteFlags dev bo (if clear then none else bo.resource) |||
      if bo.encrypted then pteTmz else 0

def updateFlags (dev : Device) (bo : Option Bo) (clear : Bool) (m : Mapping) : BitVec 64 :=
  let flags := boFlags dev bo clear
  let flags := if m.flags &&& pteReadable = 0 then flags &&& ~~~pteReadable else flags
  let flags := if m.flags &&& pteWriteable = 0 then flags &&& ~~~pteWriteable else flags
  dev.getVmPte bo m flags

/-- The splice before the loop of `amdgpu_vm_bo_update`. -/
def splice (v : BoVa) (clear : Bool) : BoVa :=
  if (clear = false ∧ v.moved = true) ∨ v.cleared ≠ clear then
    { v with valids := [], invalids := v.valids ++ v.invalids }
  else v

def updateLoop (dev : Device) (bo : Option Bo) (clear : Bool) (outcome : Nat → Outcome) :
    List Mapping → Nat → Vm → Vm × Option Errno
  | [], _, vm => (vm, none)
  | m :: ms, i, vm =>
    match updateRange vm m.start m.last (updateFlags dev bo clear m) (outcome i) with
    | (vm, some e) => (vm, some e)
    | (vm, none) => updateLoop dev bo clear outcome ms (i + 1) vm

def boUpdate (dev : Device) (vm : Vm) (b : Nat) (clear : Bool) (outcome : Nat → Outcome) :
    Vm × Option Errno :=
  match vm.boVa b with
  | none => (vm, some .einval)
  | some v =>
    let v := splice v clear
    let vm := vm.modify b fun _ => v
    match updateLoop dev v.bo clear outcome v.invalids 0 vm with
    | (vm, some e) => (vm, some e)
    | (vm, none) =>
      (vm.modify b fun v =>
        { v with
          valids := v.invalids ++ v.valids, invalids := [], cleared := clear, moved := false },
        none)

def clearFreedLoop (outcome : Nat → Outcome) :
    List Mapping → Nat → BitVec 64 → Vm → Vm × Option Errno
  | [], _, _, vm => (vm, none)
  | m :: ms, i, initPteValue, vm =>
    let vm := { vm with freed := ms }
    let initPteValue :=
      if vm.pteSupportAts ∧ m.start < gmcHoleStart then pteDefaultAtc else initPteValue
    match updateRange vm m.start m.last initPteValue (outcome i) with
    | (vm, some e) => (vm, some e)
    | (vm, none) => clearFreedLoop outcome ms (i + 1) initPteValue vm

def clearFreed (vm : Vm) (outcome : Nat → Outcome) : Vm × Option Errno :=
  clearFreedLoop outcome vm.freed 0 0 vm

/-! ## Runs -/

/-- The calls on a VM. `boAdd` is `amdgpu_vm_bo_add`, and `boMove` stands for a BO that gets other
memory, of which `amdgpu_vm_bo_invalidate` tells the VM. -/
inductive Op
  | boAdd (b : Nat) (bo : Option Bo) (moved : Bool)
  | boMap (b : Nat) (saddr offset size : UInt64) (flags : BitVec 64) (kmalloc : Bool)
  | boReplaceMap (b : Nat) (saddr offset size : UInt64) (flags : BitVec 64)
      (kmalloc beforeOk afterOk : Bool)
  | boUnmap (b : Nat) (saddr : UInt64)
  | boClearMappings (saddr size : UInt64) (beforeOk afterOk : Bool)
  | boDel (b : Nat)
  | boUpdate (b : Nat) (clear : Bool) (outcome : Nat → Outcome)
  | clearFreed (outcome : Nat → Outcome)
  | boMove (b : Nat) (resource : Option Resource)

def boAdd (vm : Vm) (b : Nat) (bo : Option Bo) (moved : Bool) : Vm :=
  match vm.boVa b with
  | some _ => vm
  | none =>
    { vm with
      boVa := Function.update vm.boVa b
        (some { bo := bo, moved := moved, cleared := false, valids := [], invalids := [] }) }

def boMove (vm : Vm) (b : Nat) (resource : Option Resource) : Vm :=
  vm.modify b fun v =>
    { v with bo := v.bo.map fun bo => { bo with resource := resource }, moved := true }

/-- One call. Calls on an `amdgpu_bo_va` that does not exist are not made. -/
def step (dev : Device) (vm : Vm) : Op → Vm
  | .boAdd b bo moved => boAdd vm b bo moved
  | .boMap b saddr offset size flags kmalloc =>
    if (vm.boVa b).isSome then (boMap dev vm b saddr offset size flags kmalloc).1 else vm
  | .boReplaceMap b saddr offset size flags kmalloc beforeOk afterOk =>
    if (vm.boVa b).isSome then
      (boReplaceMap dev vm b saddr offset size flags kmalloc beforeOk afterOk).1
    else vm
  | .boUnmap b saddr => (boUnmap vm b saddr).1
  | .boClearMappings saddr size beforeOk afterOk =>
    (boClearMappings dev vm saddr size beforeOk afterOk).1
  | .boDel b => boDel vm b
  | .boUpdate b clear outcome => (boUpdate dev vm b clear outcome).1
  | .clearFreed outcome => (clearFreed vm outcome).1
  | .boMove b resource => boMove vm b resource

end Amdkfd.VmMap

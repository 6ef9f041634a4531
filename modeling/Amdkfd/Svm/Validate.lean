import Amdkfd.Svm.MapToGpu
import Amdkfd.Svm.Unmap

/-!
# Validating a range

`svm_range_validate_and_map` of `kfd_svm.c`: the pages of an interval of the range are
mapped on the GPUs that have access, one VMA of the process after the other. The loop counts
in bytes, the range and the page tables in pages. VMAs that cannot be read are to be unmapped
instead.

A GPU that cannot reach the VRAM of the range gets no mapping.
-/

namespace Amdkfd.Svm

open Lib

/-! ## The address space -/

/-- `struct vm_area_struct`: the pages from `start` up to but not including `stop`, with
`VM_READ` and `VM_WRITE`. -/
structure Vma where
  start : Nat
  stop : Nat
  read : Bool
  write : Bool
  deriving DecidableEq

def Vma.vmStart (v : Vma) : Nat :=
  v.start * 4096

def Vma.vmEnd (v : Vma) : Nat :=
  v.stop * 4096

/-- The VMAs of the process, in the order of their addresses. -/
structure Vmas where
  list : List Vma
  sorted : list.Pairwise fun v w => v.stop ≤ w.start

def vmaLookup (vmas : Vmas) (addr : Nat) : Option Vma :=
  vmas.list.find? fun v => v.vmStart ≤ addr ∧ addr < v.vmEnd

def Vmas.Readable (vmas : Vmas) (page : Nat) : Prop :=
  (vmaLookup vmas (page * 4096)).any (·.read) = true
  deriving Decidable

/-! ## GPUs -/

def flagGpuAlwaysMapped : BitVec 32 := 0x40

def validateBitmap (p : Process) (r : Range) (gpuidx : Nat) : Except Errno Bitmap :=
  let mapped (bitmap : Bitmap) : Bitmap :=
    if bitmap = ∅ ∧ (r.mappedToGpu ∨ r.attrs.flags &&& flagGpuAlwaysMapped ≠ 0) then r.attrs.access
    else bitmap
  if gpuidx < maxGpuInstance then .ok {gpuidx}
  else if p.xnackEnabled then
    if r.actualLoc ≠ 0 then
      match gpuidxFromGpuid p r.actualLoc with
      | none => .error .einval
      | some gpuidx =>
        .ok (mapped (if gpuidx ∈ r.attrs.access then insert gpuidx r.attrs.aip else r.attrs.aip))
    else .ok (mapped r.attrs.aip)
  else .ok (r.attrs.access ∪ r.attrs.aip)

def setBits (bitmap : Bitmap) : List Nat :=
  (List.range maxGpuInstance).filter (· ∈ bitmap)

/-- The outcome of what `svm_range_validate_and_map` calls. The first argument is the page at
which a round starts. `reach` tells whether the GPU is that of the VRAM BO, or in its hive;
`split` that the range is split in parallel. -/
structure ValidateEnv where
  kzalloc : Bool
  getPages : Nat → Option Errno
  getPagesDone : Nat → Bool
  split : Nat → Bool
  kvcalloc : Nat → Nat → Bool
  dmaPage : Nat → Nat → UInt64 × Option Errno
  bind : Nat → Nat → Bool
  reach : Nat → Bool
  map : Nat → Nat → MapEnv
  fence : Nat → Nat → Option Errno
  unmap : Nat → Nat → Bool

/-- The GPU can be mapped: the range has no VRAM BO, or the GPU reaches it. -/
def ValidateEnv.reaches (env : ValidateEnv) (r : Range) (gpuidx : Nat) : Bool :=
  !(r.svmBo.isSome && r.ttmRes.isSome) || env.reach gpuidx

/-! ## DMA addresses -/

/-- The loop of `svm_range_dma_map_dev`, from index `i` on. -/
def dmaMapPages (page : Nat → UInt64 × Option Errno) :
    Nat → Nat → List UInt64 → List UInt64 × Option Errno
  | 0, _, addr => (addr, none)
  | rounds + 1, i, addr =>
    let addr := addr.set i (page i).1
    match (page i).2 with
    | some e => (addr, some e)
    | none => dmaMapPages page rounds (i + 1) addr

def svmRangeDmaMapDev (env : ValidateEnv) (page : Nat) (prange : Range) (offset npages : Nat)
    (gpuidx : Nat) : Range × Option Errno :=
  let addr := (prange.dmaAddr[gpuidx]?).join
  if addr = none ∧ env.kvcalloc page gpuidx = false then (prange, some .enomem)
  else
    let addr := addr.getD (List.replicate prange.npages 0)
    let r := dmaMapPages (fun i => env.dmaPage gpuidx (prange.start + i)) npages offset addr
    ({ prange with dmaAddr := prange.dmaAddr.set gpuidx (some r.1) }, r.2)

def svmRangeDmaMap (p : Process) (env : ValidateEnv) (page offset npages : Nat) :
    List Nat → Range → Range × Option Errno
  | [], prange => (prange, none)
  | gpuidx :: gpus, prange =>
    if p.gpuIds.length ≤ gpuidx then (prange, some .einval)
    else
      match svmRangeDmaMapDev env page prange offset npages gpuidx with
      | (prange, some e) => (prange, some e)
      | (prange, none) => svmRangeDmaMap p env page offset npages gpus prange

/-! ## Page tables -/

def MapEnv.applied (env : MapEnv) (updates : List PteUpdate) : List PteUpdate :=
  (updates.zipIdx.filter fun u => (env.update u.2).isNone).map Prod.fst

/-- The page tables with the entries of one GPU that the calls write. -/
def setPtes (pte : Nat → Nat → Bool) (gpuidx : Nat) (updates : List PteUpdate) : Nat → Nat → Bool :=
  fun g x => if g = gpuidx ∧ x ∈ updates.flatMap PteUpdate.pages then true else pte g x

def svmRangeMapToGpus (p : Process) (env : ValidateEnv) (page offset npages : Nat)
    (readonly : Bool) :
    List Nat → Range → (Nat → Nat → Bool) → Range × (Nat → Nat → Bool) × Option Errno
  | [], prange, pte => (prange, pte, none)
  | gpuidx :: gpus, prange, pte =>
    if p.gpuIds.length ≤ gpuidx then (prange, pte, some .einval)
    else if env.bind page gpuidx = false then (prange, pte, some .einval)
    else if env.reaches prange gpuidx = false then
      svmRangeMapToGpus p env page offset npages readonly gpus prange pte
    else
      let menv := env.map page gpuidx
      let m := svmRangeMapToGpu menv prange offset npages readonly
        ((prange.dmaAddr[gpuidx]?).join.getD [])
      let prange := { prange with dmaAddr := prange.dmaAddr.set gpuidx (some m.dma) }
      let pte := setPtes pte gpuidx (menv.applied m.updates)
      match m.err.or (env.fence page gpuidx) with
      | some e => (prange, pte, some e)
      | none => svmRangeMapToGpus p env page offset npages readonly gpus prange pte

/-! ## The loop over the VMAs -/

def validateVma (p : Process) (env : ValidateEnv) (id mapStart mapLast : Nat) (gpus : List Nat)
    (readonly : Bool) (addr next : Nat) (mm : Mm) : Mm × Option Errno :=
  let page := addr / 4096
  let npages := (next - addr) / 4096
  match env.getPages page with
  | some e => (mm, some (if e = .ebusy then .eagain else e))
  | none =>
    let offset := page - (mm.svms.heap id).start
    match svmRangeDmaMap p env page offset npages gpus (mm.svms.heap id) with
    | (prange, some e) => ({ mm with svms := mm.svms.write id prange }, some e)
    | (prange, none) =>
      if env.getPagesDone page ∨ env.split page ∨ prange.children ≠ [] then
        ({ mm with svms := mm.svms.write id prange }, some .eagain)
      else
        let mapStartVma := max mapStart (prange.start + offset)
        let mapLastVma := min mapLast (prange.start + offset + npages - 1)
        let m :=
          if mapStartVma ≤ mapLastVma then
            svmRangeMapToGpus p env page (mapStartVma - prange.start)
              (mapLastVma - mapStartVma + 1) readonly gpus prange mm.pte
          else (prange, mm.pte, none)
        match m.2.2 with
        | some e => ({ mm with svms := mm.svms.write id m.1, pte := m.2.1 }, some e)
        | none =>
          let prange :=
            if next = (mapLast + 1) * 4096 then { m.1 with mappedToGpu := true } else m.1
          ({ mm with svms := mm.svms.write id prange, pte := m.2.1 }, none)

/-- A round for a VMA that cannot be read. `start` and `end` are in bytes, the bounds of the
range in pages. -/
def unmapVma (p : Process) (env : ValidateEnv) (id mapStart mapLast addr : Nat) (mm : Mm) :
    Mm × Option Errno :=
  let s := max (mapStart * 4096) (mm.svms.heap id).start
  let e := min ((mapLast + 1) * 4096) (mm.svms.heap id).last
  if s ≤ e then svmRangeUnmapFromGpus p (env.unmap (addr / 4096)) id s e mm else (mm, none)

def validateLoop (p : Process) (vmas : Vmas) (env : ValidateEnv) (id mapStart mapLast : Nat)
    (gpus : List Nat) : Nat → Nat → Mm → Mm × Option Errno
  | 0, _, mm => (mm, none)
  | rounds + 1, addr, mm =>
    if (mapLast + 1) * 4096 ≤ addr then (mm, none)
    else
      match vmaLookup vmas addr with
      | none => (mm, some .efault)
      | some vma =>
        let next := min vma.vmEnd ((mapLast + 1) * 4096)
        let r :=
          if vma.read then
            validateVma p env id mapStart mapLast gpus (!vma.write) addr next mm
          else unmapVma p env id mapStart mapLast addr mm
        match r.2 with
        | some e => (r.1, some e)
        | none => validateLoop p vmas env id mapStart mapLast gpus rounds next r.1

/-- `svm_range_validate_and_map`. Each round gets to the end of a page, at least. -/
def svmRangeValidateAndMap (p : Process) (vmas : Vmas) (env : ValidateEnv)
    (id mapStart mapLast gpuidx : Nat) (mm : Mm) : Mm × Option Errno :=
  let prange := mm.svms.heap id
  if env.kzalloc = false then (mm, some .enomem)
  else
    match validateBitmap p prange gpuidx with
    | .error e => (mm, some e)
    | .ok bitmap =>
      if bitmap = ∅ then (mm, none)
      else if prange.actualLoc ≠ 0 ∧ prange.ttmRes = none then (mm, some .einval)
      else
        validateLoop p vmas env id mapStart mapLast (setBits bitmap) (mapLast + 1 - mapStart)
          (mapStart * 4096) mm

end Amdkfd.Svm

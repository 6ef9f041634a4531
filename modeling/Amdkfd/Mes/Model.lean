import Amdkfd.Basic
import Amdkfd.Lib.Bitmap
import Amdkfd.Lib.Registry

/-!
# Processes, gangs and queues of the MES

`amdgpu_mes.c`: the six operations that enter processes, gangs and queues into the three id maps,
the lists and the bitmap of the kernel doorbells, and take them out. Objects live in heaps under
their addresses. Whether an allocation or a request to the firmware succeeds is an answer that comes
with the operation.
-/

namespace Amdkfd.Mes

open Function Lib

/-! ## State -/

/-- `struct amdgpu_mes_process`. -/
structure Process where
  pasid : Nat
  processQuantum : Nat
  gangList : List Nat
  deriving DecidableEq

/-- `struct amdgpu_mes_gang`. -/
structure Gang where
  gangId : Nat
  process : Nat
  priority : Int
  gangQuantum : Nat
  globalPriorityLevel : Int
  inprocessGangPriority : Int
  queueList : List Nat
  deriving DecidableEq

/-- `AMDGPU_RING_TYPE_*`, the types of a queue. -/
inductive RingType
  | gfx | compute | sdma
  deriving DecidableEq

/-- `struct amdgpu_mes_queue`. -/
structure Queue where
  queueId : Nat
  gang : Nat
  doorbellOff : Nat
  wptrGpuAddr : Nat
  queueType : RingType
  paging : Bool
  deriving DecidableEq

/-- What the device and the kernel are configured to: the first doorbell of the MES, `PAGE_SIZE`,
`doorbell_index.sdma_engine[0]` and the default quanta. -/
structure Config where
  dbStartDwOffset : UInt32
  pageShift : Nat
  pageShift_ge : 12 ≤ pageShift
  pageShift_le : pageShift ≤ 16
  sdmaEngine0 : Nat
  defaultProcessQuantum : Nat
  defaultGangQuantum : Nat

/-- `mes->num_mes_dbs`. -/
def Config.numMesDbs (cfg : Config) : Nat := 2 ^ cfg.pageShift / 8

/-- `struct amdgpu_mes` and the objects that it leads to. -/
structure AmdgpuMes where
  processes : Nat → Option Process
  gangs : Nat → Option Gang
  queues : Nat → Option Queue
  /-- The address of the next object. -/
  next : Nat
  pasidIdr : Nat → Option Nat
  gangIdIdr : Nat → Option Nat
  queueIdIdr : Nat → Option Nat
  doorbellBitmap : Bitmap

/-! ## Kernel doorbells -/

def priorityNumLevels : Nat := 5

def doorbellIndex (cfg : Config) (found : Nat) : Nat :=
  (cfg.dbStartDwOffset.toNat + found * 2) % 2 ^ 32

def relIndex (cfg : Config) (doorbellIndex : Nat) : Nat :=
  (doorbellIndex % 2 ^ 32 + 2 ^ 32 - cfg.dbStartDwOffset.toNat) % 2 ^ 32 / 2

/-- `mes->aggregated_doorbells`. -/
def aggregatedDoorbells (cfg : Config) : List Nat :=
  (List.range priorityNumLevels).map (doorbellIndex cfg)

def mesDoorbellInit : Bitmap :=
  (List.range priorityNumLevels).foldl (fun map i => insert i map) ∅

def mesKernelDoorbellGet (cfg : Config) (ipType : RingType) (map : Bitmap) :
    Except Errno (Nat × Bitmap) :=
  let offset := if ipType = .sdma then cfg.sdmaEngine0 else 0
  let found := findNextZeroBit map cfg.numMesDbs offset
  if cfg.numMesDbs ≤ found then .error .enospc
  else .ok (doorbellIndex cfg found, insert found map)

def mesKernelDoorbellFree (cfg : Config) (doorbellIndex : Nat) (map : Bitmap) : Bitmap :=
  map.erase (relIndex cfg doorbellIndex)

/-! ## Id maps -/

def intMax : Nat := 2 ^ 31 - 1

/-- `idr_find`. An id below zero is none of the map. -/
def idrFind (idr : Nat → Option Nat) (id : Int) : Option Nat :=
  if id < 0 then none else idr id.toNat

/-- `idr_alloc(idr, ptr, id, id + 1)`: this id or none. -/
def idrAllocAt (memory : Bool) (idr : Nat → Option Nat) (id : Int) : Except Errno Nat :=
  if id < 0 then .error .einval
  else if !memory then .error .enomem
  else if (idr id.toNat).isSome then .error .enospc
  else .ok id.toNat

/-- `idr_alloc(idr, ptr, 1, 0)`: the lowest id from 1 to `INT_MAX` that is not taken. -/
def idrAlloc (memory : Bool) (idr : Nat → Option Nat) : Except Errno Nat :=
  if !memory then .error .enomem
  else match (List.range' 1 intMax).find? fun id => (idr id).isNone with
    | none => .error .enospc
    | some id => .ok id

/-- `idr_find`, and the object at the address found. -/
def find {β : Type} (idr : Nat → Option Nat) (heap : Nat → Option β) (id : Int) :
    Option (Nat × β) :=
  (idrFind idr id).bind fun a => (heap a).map (a, ·)

/-- The heap when the object at `a` changes. -/
def modifyAt {β : Type} (heap : Nat → Option β) (a : Nat) (f : β → β) : Nat → Option β :=
  update heap a ((heap a).map f)

/-! ## Processes -/

/-- The answers to an operation that adds an object: the memory for it, its context or MQD buffer,
the memory of the id map, and the firmware. -/
structure Answers where
  memory : Bool
  bo : Option Errno
  idr : Bool
  addHwQueue : Option Errno

def mesCreateProcess (cfg : Config) (ans : Answers) (pasid : Int) (m : AmdgpuMes) :
    AmdgpuMes × Except Errno Unit :=
  if !ans.memory then (m, .error .enomem)
  else match ans.bo with
    | some e => (m, .error e)
    | none =>
      match idrAllocAt ans.idr m.pasidIdr pasid with
      | .error e => (m, .error e)
      | .ok id =>
        let process : Process := ⟨id, cfg.defaultProcessQuantum, []⟩
        ({ m with
            processes := update m.processes m.next (some process)
            next := m.next + 1
            pasidIdr := update m.pasidIdr id (some m.next) }, .ok ())

/-- The first pass of `amdgpu_mes_destroy_process` over a queue: its id goes and it leaves the
hardware. A queue that the firmware does not remove is only reported. -/
def unlinkQueue (m : AmdgpuMes) (q : Nat) : AmdgpuMes :=
  match m.queues q with
  | none => m
  | some queue => { m with queueIdIdr := update m.queueIdIdr queue.queueId none }

/-- The first pass over a gang: its queues, then its own id. -/
def unlinkGang (m : AmdgpuMes) (a : Nat) : AmdgpuMes :=
  match m.gangs a with
  | none => m
  | some gang =>
    let m := gang.queueList.foldl unlinkQueue m
    { m with gangIdIdr := update m.gangIdIdr gang.gangId none }

/-- The second pass of `amdgpu_mes_destroy_process` over a queue of the gang at `a`: it leaves the
list of the gang and is freed. -/
def freeQueue (a : Nat) (m : AmdgpuMes) (q : Nat) : AmdgpuMes :=
  { m with
    gangs := modifyAt m.gangs a fun gang => { gang with queueList := gang.queueList.erase q }
    queues := update m.queues q none }

/-- The second pass over a gang of the process at `p`: its queues, then it leaves the list of the
process and is freed. -/
def freeGang (p : Nat) (m : AmdgpuMes) (a : Nat) : AmdgpuMes :=
  match m.gangs a with
  | none => m
  | some gang =>
    let m := gang.queueList.foldl (freeQueue a) m
    { m with
      processes := modifyAt m.processes p fun r => { r with gangList := r.gangList.erase a }
      gangs := update m.gangs a none }

def mesDestroyProcess (pasid : Int) (m : AmdgpuMes) : AmdgpuMes :=
  match find m.pasidIdr m.processes pasid with
  | none => m
  | some (p, process) =>
    let m := process.gangList.foldl unlinkGang m
    let m := { m with pasidIdr := update m.pasidIdr pasid.toNat none }
    let m := process.gangList.foldl (freeGang p) m
    { m with processes := update m.processes p none }

/-! ## Gangs -/

structure GangProperties where
  priority : Int
  gangQuantum : Nat
  inprocessGangPriority : Int
  globalPriorityLevel : Int

/-- The gang that `amdgpu_mes_add_gang` sets up under an id for the process at `p`. -/
def newGang (cfg : Config) (gprops : GangProperties) (id p : Nat) : Gang :=
  { gangId := id
    process := p
    priority := gprops.priority
    gangQuantum := if gprops.gangQuantum ≠ 0 then gprops.gangQuantum else cfg.defaultGangQuantum
    globalPriorityLevel := gprops.globalPriorityLevel
    inprocessGangPriority := gprops.inprocessGangPriority
    queueList := [] }

def mesAddGang (cfg : Config) (ans : Answers) (pasid : Int) (gprops : GangProperties)
    (m : AmdgpuMes) : AmdgpuMes × Except Errno Nat :=
  if !ans.memory then (m, .error .enomem)
  else match ans.bo with
    | some e => (m, .error e)
    | none =>
      match find m.pasidIdr m.processes pasid with
      | none => (m, .error .einval)
      | some (p, _) =>
        match idrAlloc ans.idr m.gangIdIdr with
        | .error e => (m, .error e)
        | .ok id =>
          ({ m with
              processes := modifyAt m.processes p fun r =>
                { r with gangList := r.gangList ++ [m.next] }
              gangs := update m.gangs m.next (some (newGang cfg gprops id p))
              next := m.next + 1
              gangIdIdr := update m.gangIdIdr id (some m.next) }, .ok id)

def mesRemoveGang (gangId : Int) (m : AmdgpuMes) : AmdgpuMes × Except Errno Unit :=
  match find m.gangIdIdr m.gangs gangId with
  | none => (m, .error .einval)
  | some (a, gang) =>
    if gang.queueList ≠ [] then (m, .error .ebusy)
    else
      ({ m with
          processes := modifyAt m.processes gang.process fun r =>
            { r with gangList := r.gangList.erase a }
          gangs := update m.gangs a none
          gangIdIdr := update m.gangIdIdr gang.gangId none }, .ok ())

/-! ## Queues -/

structure QueueProperties where
  queueType : RingType
  wptrGpuAddr : Nat
  paging : Bool

/-- The queue that `amdgpu_mes_add_hw_queue` sets up under an id for the gang at `g`. -/
def newQueue (qprops : QueueProperties) (id g doorbellOff : Nat) : Queue :=
  { queueId := id
    gang := g
    doorbellOff := doorbellOff
    wptrGpuAddr := qprops.wptrGpuAddr
    queueType := qprops.queueType
    paging := qprops.paging }

/-- `amdgpu_mes_add_hw_queue`. The id and the doorbell are taken one after the other, and each step
that fails gives back those before it. -/
def mesAddHwQueue (cfg : Config) (ans : Answers) (gangId : Int) (qprops : QueueProperties)
    (m : AmdgpuMes) : AmdgpuMes × Except Errno Nat :=
  if !ans.memory then (m, .error .enomem)
  else match ans.bo with
    | some e => (m, .error e)
    | none =>
      match find m.gangIdIdr m.gangs gangId with
      | none => (m, .error .einval)
      | some (g, _) =>
        match idrAlloc ans.idr m.queueIdIdr with
        | .error e => (m, .error e)
        | .ok id =>
          let m := { m with queueIdIdr := update m.queueIdIdr id (some m.next) }
          match mesKernelDoorbellGet cfg qprops.queueType m.doorbellBitmap with
          | .error e => ({ m with queueIdIdr := update m.queueIdIdr id none }, .error e)
          | .ok (doorbellOff, map) =>
            let m := { m with doorbellBitmap := map }
            match ans.addHwQueue with
            | some e =>
              let m := { m with
                doorbellBitmap := mesKernelDoorbellFree cfg doorbellOff m.doorbellBitmap }
              ({ m with queueIdIdr := update m.queueIdIdr id none }, .error e)
            | none =>
              ({ m with
                  gangs := modifyAt m.gangs g fun r =>
                    { r with queueList := r.queueList ++ [m.next] }
                  queues := update m.queues m.next (some (newQueue qprops id g doorbellOff))
                  next := m.next + 1 }, .ok id)

def mesRemoveHwQueue (cfg : Config) (queueId : Int) (m : AmdgpuMes) :
    AmdgpuMes × Except Errno Unit :=
  match find m.queueIdIdr m.queues queueId with
  | none => (m, .error .einval)
  | some (a, queue) =>
    ({ m with
        queueIdIdr := update m.queueIdIdr queueId.toNat none
        gangs := modifyAt m.gangs queue.gang fun r => { r with queueList := r.queueList.erase a }
        doorbellBitmap := mesKernelDoorbellFree cfg queue.doorbellOff m.doorbellBitmap
        queues := update m.queues a none }, .ok ())

/-! ## Runs -/

/-- The operations, each with what it is asked for and the answers it gets. -/
inductive Op
  | createProcess (ans : Answers) (pasid : Int)
  | destroyProcess (pasid : Int)
  | addGang (ans : Answers) (pasid : Int) (gprops : GangProperties)
  | removeGang (gangId : Int)
  | addHwQueue (ans : Answers) (gangId : Int) (qprops : QueueProperties)
  | removeHwQueue (queueId : Int)

/-- One operation: the state after it, and the id of what it added. -/
def exec (cfg : Config) (m : AmdgpuMes) : Op → AmdgpuMes × Except Errno Nat
  | .createProcess ans pasid =>
    ((mesCreateProcess cfg ans pasid m).1, (mesCreateProcess cfg ans pasid m).2.map fun _ => 0)
  | .destroyProcess pasid => (mesDestroyProcess pasid m, .ok 0)
  | .addGang ans pasid gprops => mesAddGang cfg ans pasid gprops m
  | .removeGang gangId => ((mesRemoveGang gangId m).1, (mesRemoveGang gangId m).2.map fun _ => 0)
  | .addHwQueue ans gangId qprops => mesAddHwQueue cfg ans gangId qprops m
  | .removeHwQueue queueId =>
    ((mesRemoveHwQueue cfg queueId m).1, (mesRemoveHwQueue cfg queueId m).2.map fun _ => 0)

def step (cfg : Config) (m : AmdgpuMes) (op : Op) : AmdgpuMes := (exec cfg m op).1

def init : AmdgpuMes :=
  { processes := fun _ => none
    gangs := fun _ => none
    queues := fun _ => none
    next := 0
    pasidIdr := fun _ => none
    gangIdIdr := fun _ => none
    queueIdIdr := fun _ => none
    doorbellBitmap := mesDoorbellInit }

end Amdkfd.Mes

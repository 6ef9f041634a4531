import Amdkfd.Lib.Bitmap
import Amdkfd.QueueManager.Model

/-!
# Scheduling without the hardware scheduler

The nocpsch paths of `kfd_device_queue_manager.c`: the allocators of VMIDs, HQD slots,
SDMA queues and doorbells, and creating and destroying queues, terminating, evicting and
restoring a process, and stopping and starting the scheduler.

Operations run under `dqm_lock`. `create_queue_nocpsch` releases it while it allocates
the MQD, so it is two steps here, and a queue between them is on `pending`.
`process_termination_nocpsch` releases it after each queue, so one step is one iteration
of its loop. The lock of the process keeps a creation and another creation, destruction
or termination of the same process apart.
-/

namespace Amdkfd.NoHws

open Lib Function
open QueueManager (QueueType)

/-! ## Data -/

def maxSdmaQueues : Nat := 128

def maxQueuesPerProcess : Nat := 1024

def doorbellMirrorOffset : Nat := 512

/-- The device, and the processes by number. The bits of a pipe fit an `unsigned int`
and the SDMA queues fit their bitmaps; a process has a nonzero PASID; the doorbells of
the SDMA engines do not overlap and are among those reserved, as in the tables of the
device. -/
structure Device where
  pipes : Nat
  queuesPerPipe : Nat
  cpQueueBitmap : Bitmap
  firstVmid : Nat
  lastVmid : Nat
  sdmaEngines : Nat
  xgmiEngines : Nat
  queuesPerEngine : Nat
  reservedSdma : Bitmap
  soc15 : Bool
  nodeId : Nat
  sdmaDoorbellIdx : Nat → Nat
  nonCpStart : Nat
  nonCpEnd : Nat
  maxQueues : Nat
  pasid : Nat → Nat
  queuesPerPipe_le : queuesPerPipe ≤ 32
  sdma_le : sdmaEngines * queuesPerEngine ≤ maxSdmaQueues
  xgmi_le : xgmiEngines * queuesPerEngine ≤ maxSdmaQueues
  pasid_ne : ∀ p, pasid p ≠ 0
  spaced : ∀ e < sdmaEngines + xgmiEngines, ∀ e' < e,
    let idx := fun e => sdmaDoorbellIdx (nodeId * (sdmaEngines + xgmiEngines) + e)
    idx e + (queuesPerEngine + 1) / 2 ≤ idx e' ∨ idx e' + (queuesPerEngine + 1) / 2 ≤ idx e
  reserved : ∀ e < sdmaEngines + xgmiEngines,
    let idx := fun e => sdmaDoorbellIdx (nodeId * (sdmaEngines + xgmiEngines) + e)
    nonCpStart ≤ idx e ∧ idx e + (queuesPerEngine + 1) / 2 ≤ nonCpEnd + 1
  reserved_lt : nonCpEnd < doorbellMirrorOffset

/-- `struct queue`: the process, the properties, and what it was given. -/
structure Queue extends QueueManager.Queue where
  process : Nat
  queueId : Nat
  pipe : Nat
  queue : Nat
  sdmaId : Nat
  sdmaEngineId : Nat
  sdmaQueueId : Nat
  doorbellId : Nat
  deriving DecidableEq

/-- `struct qcm_process_device`, without the list of queues. -/
structure Qpd where
  vmid : Nat
  evicted : Nat
  queueCount : Int
  mappedGwsQueue : Bool
  resetWavefronts : Bool
  doorbellBitmap : Bitmap

/-- `struct device_queue_manager`. `queues` has the queues of all processes, so that
`queues_list` of one is its part of it, in the same order. `pending` has the queues whose
creation has released the lock. -/
structure Dqm where
  schedRunning : Bool
  nextPipe : Nat
  allocatedQueues : Nat → Bitmap
  sdmaBitmap : Bitmap
  xgmiSdmaBitmap : Bitmap
  vmidPasid : Nat → Nat
  totalQueueCount : Int
  activeQueueCount : Int
  activeCpQueueCount : Int
  gwsQueueCount : Int
  qpd : Nat → Qpd
  queues : List Queue
  pending : List Queue

/-- `qpd->queues_list`. -/
def Dqm.queuesList (s : Dqm) (p : Nat) : List Queue :=
  s.queues.filter (·.process = p)

def Dqm.mapQpd (s : Dqm) (p : Nat) (f : Qpd → Qpd) : Dqm :=
  { s with qpd := update s.qpd p (f (s.qpd p)) }

def Device.numSdmaQueues (d : Device) : Nat :=
  d.sdmaEngines * d.queuesPerEngine

def Device.numXgmiSdmaQueues (d : Device) : Nat :=
  d.xgmiEngines * d.queuesPerEngine

def isSdma (type : QueueType) : Bool :=
  type = .sdma || type = .sdmaXgmi

/-! ## Initialization -/

/-- The queues of a pipe that `initialize_nocpsch` makes free. -/
def Device.pipeQueues (d : Device) (pipe : Nat) : Bitmap :=
  if pipe < d.pipes then
    (Finset.range d.queuesPerPipe).filter fun queue =>
      pipe * d.queuesPerPipe + queue ∈ d.cpQueueBitmap
  else ∅

def Device.reservedDoorbells (d : Device) : Bitmap :=
  if d.soc15 then
    (Finset.range maxQueuesPerProcess).filter fun i =>
      d.nonCpStart ≤ i % doorbellMirrorOffset ∧ i % doorbellMirrorOffset ≤ d.nonCpEnd
  else ∅

def Device.init (d : Device) : Dqm :=
  { schedRunning := false
    nextPipe := 0
    allocatedQueues := d.pipeQueues
    sdmaBitmap := Finset.range d.numSdmaQueues \ d.reservedSdma
    xgmiSdmaBitmap := Finset.range d.numXgmiSdmaQueues
    vmidPasid := fun _ => 0
    totalQueueCount := 0
    activeQueueCount := 0
    activeCpQueueCount := 0
    gwsQueueCount := 0
    qpd := fun _ =>
      { vmid := 0, evicted := 0, queueCount := 0, mappedGwsQueue := false
        resetWavefronts := false, doorbellBitmap := d.reservedDoorbells }
    queues := []
    pending := [] }

/-! ## VMIDs -/

def allocateVmid (d : Device) (s : Dqm) (p : Nat) : Except Errno Dqm :=
  match (List.range' d.firstVmid (d.lastVmid + 1 - d.firstVmid)).find? (s.vmidPasid · = 0) with
  | none => .error .enospc
  | some vmid =>
    .ok ({ s with vmidPasid := update s.vmidPasid vmid (d.pasid p) }.mapQpd p
      ({ · with vmid := vmid }))

def deallocateVmid (s : Dqm) (p : Nat) : Dqm :=
  { s with vmidPasid := update s.vmidPasid (s.qpd p).vmid 0 }.mapQpd p
    ({ · with vmid := 0 })

/-! ## HQD slots -/

def isPipeEnabled (d : Device) (pipe : Nat) : Bool :=
  (List.range d.queuesPerPipe).any fun i => pipe * d.queuesPerPipe + i ∈ d.cpQueueBitmap

/-- The loop of `allocate_hqd`, with `left` pipes to look at. -/
def findPipe (d : Device) (allocated : Nat → Bitmap) : Nat → Nat → Option Nat
  | _, 0 => none
  | pipe, left + 1 =>
    if isPipeEnabled d pipe ∧ allocated pipe ≠ ∅ then some pipe
    else findPipe d allocated ((pipe + 1) % d.pipes) left

def allocateHqd (d : Device) (s : Dqm) (q : Queue) : Except Errno (Dqm × Queue) :=
  match findPipe d s.allocatedQueues s.nextPipe d.pipes with
  | none => .error .ebusy
  | some pipe =>
    -- ffs
    let bit := findFirstBit (s.allocatedQueues pipe) 32
    .ok ({ s with
        allocatedQueues :=
          update s.allocatedQueues pipe (s.allocatedQueues pipe \ {bit})
        nextPipe := (pipe + 1) % d.pipes },
      { q with pipe := pipe, queue := bit })

def deallocateHqd (s : Dqm) (q : Queue) : Dqm :=
  { s with
    allocatedQueues :=
      update s.allocatedQueues q.pipe (insert q.queue (s.allocatedQueues q.pipe)) }

/-! ## SDMA queues -/

/-- One of the two branches of `allocate_sdma_queue`: the bitmap without the bit that is
taken, and the bit. A restored id beyond the bitmap is looked up outside of it, where
`stray` is found and nothing of the bitmap is changed. -/
def takeSdma (map : Bitmap) (size : Nat) (restoreId : Option Nat) (stray : Bool) :
    Except Errno (Bitmap × Nat) :=
  if map = ∅ then .error .enomem
  else
    match restoreId with
    | some id =>
      if (if id < maxSdmaQueues then decide (id ∈ map) else stray) then .ok (map \ {id}, id)
      else .error .ebusy
    | none => .ok (map \ {findFirstBit map size}, findFirstBit map size)

def allocateSdmaQueue (d : Device) (s : Dqm) (q : Queue) (restoreId : Option Nat) (stray : Bool) :
    Except Errno (Dqm × Queue) :=
  match q.type with
  | .sdma =>
    (takeSdma s.sdmaBitmap d.numSdmaQueues restoreId stray).map fun r =>
      ({ s with sdmaBitmap := r.1 },
        { q with
          sdmaId := r.2
          sdmaEngineId := r.2 % d.sdmaEngines
          sdmaQueueId := r.2 / d.sdmaEngines })
  | .sdmaXgmi =>
    (takeSdma s.xgmiSdmaBitmap d.numXgmiSdmaQueues restoreId stray).map fun r =>
      ({ s with xgmiSdmaBitmap := r.1 },
        { q with
          sdmaId := r.2
          sdmaEngineId := d.sdmaEngines + r.2 % d.xgmiEngines
          sdmaQueueId := r.2 / d.xgmiEngines })
  | _ => .ok (s, q)

def deallocateSdmaQueue (d : Device) (s : Dqm) (q : Queue) : Dqm :=
  match q.type with
  | .sdma =>
    if d.numSdmaQueues ≤ q.sdmaId then s
    else { s with sdmaBitmap := insert q.sdmaId s.sdmaBitmap }
  | .sdmaXgmi =>
    if d.numXgmiSdmaQueues ≤ q.sdmaId then s
    else { s with xgmiSdmaBitmap := insert q.sdmaId s.xgmiSdmaBitmap }
  | _ => s

/-! ## Doorbells -/

def Device.sdmaDoorbell (d : Device) (engine queue : Nat) : Nat :=
  d.sdmaDoorbellIdx (d.nodeId * (d.sdmaEngines + d.xgmiEngines) + engine) +
    queue % 2 * doorbellMirrorOffset + queue / 2

def allocateDoorbell (d : Device) (s : Dqm) (q : Queue) (restoreId : Option Nat) (stray : Bool) :
    Except Errno (Dqm × Queue) :=
  let fixed := fun id : Nat =>
    if restoreId.any (· ≠ id) then .error .einval else .ok (s, { q with doorbellId := id })
  let bitmap := (s.qpd q.process).doorbellBitmap
  if d.soc15 = false then fixed q.queueId
  else if isSdma q.type then fixed (d.sdmaDoorbell q.sdmaEngineId q.sdmaQueueId)
  else
    match restoreId with
    | some id =>
      if (if id < maxQueuesPerProcess then decide (id ∈ bitmap) else stray) then .error .einval
      else
        .ok (s.mapQpd q.process fun qpd =>
            { qpd with
              doorbellBitmap := if id < maxQueuesPerProcess then insert id bitmap else bitmap },
          { q with doorbellId := id })
    | none =>
      let found := findNextZeroBit bitmap maxQueuesPerProcess 0
      if maxQueuesPerProcess ≤ found then .error .ebusy
      else
        .ok (s.mapQpd q.process ({ · with doorbellBitmap := insert found bitmap }),
          { q with doorbellId := found })

def deallocateDoorbell (d : Device) (s : Dqm) (q : Queue) : Dqm :=
  if d.soc15 = false ∨ isSdma q.type then s
  else
    s.mapQpd q.process fun qpd => { qpd with doorbellBitmap := qpd.doorbellBitmap \ {q.doorbellId} }

/-! ## Counters -/

/-- `qpd->queue_count` changes. -/
def Dqm.countQueue (s : Dqm) (p : Nat) (n : Int) : Dqm :=
  s.mapQpd p fun qpd => { qpd with queueCount := qpd.queueCount + n }

/-- `qpd->reset_wavefronts`. -/
def Dqm.setReset (s : Dqm) (p : Nat) (b : Bool) : Dqm :=
  s.mapQpd p ({ · with resetWavefronts := b })

def incrementQueueCount (s : Dqm) (q : Queue) : Dqm :=
  { s with
    activeQueueCount := s.activeQueueCount + 1
    activeCpQueueCount := s.activeCpQueueCount + if q.type.isCp then 1 else 0
    gwsQueueCount := s.gwsQueueCount + if q.isGws then 1 else 0 }.mapQpd q.process fun qpd =>
      { qpd with mappedGwsQueue := q.isGws || qpd.mappedGwsQueue }

def decrementQueueCount (s : Dqm) (q : Queue) : Dqm :=
  { s with
    activeQueueCount := s.activeQueueCount - 1
    activeCpQueueCount := s.activeCpQueueCount - if q.type.isCp then 1 else 0
    gwsQueueCount := s.gwsQueueCount - if q.isGws then 1 else 0 }.mapQpd q.process fun qpd =>
      { qpd with mappedGwsQueue := !q.isGws && qpd.mappedGwsQueue }

/-! ## Creating queues -/

/-- The arguments of `create_queue_nocpsch`: the properties of the queue, its process and
id, the ids to restore (`qd`), and what is found where these are beyond a bitmap. -/
structure CreateArgs where
  props : QueueManager.Queue
  process : Nat
  queueId : Nat
  restore : Option (Nat × Nat)
  straySdma : Bool
  strayDoorbell : Bool

/-- The queue before it is given anything. `init_mqd` and `restore_mqd` set `is_active`
later, from properties that do not change any more. -/
def CreateArgs.queue (a : CreateArgs) (evicted : Nat) : Queue :=
  let props := { a.props with isEvicted := 0 < evicted }
  { props with
    isActive := if a.restore.isSome then false else QueueManager.queueIsActive props
    process := a.process, queueId := a.queueId, pipe := 0, queue := 0, sdmaId := 0
    sdmaEngineId := 0, sdmaQueueId := 0, doorbellId := 0 }

def allocateSlot (d : Device) (s : Dqm) (q : Queue) (a : CreateArgs) : Except Errno (Dqm × Queue) :=
  if q.type = .compute then allocateHqd d s q
  else if isSdma q.type then allocateSdmaQueue d s q (a.restore.map (·.1)) a.straySdma
  else .ok (s, q)

def deallocateSlot (d : Device) (s : Dqm) (q : Queue) : Dqm :=
  if q.type = .compute then deallocateHqd s q
  else if isSdma q.type then deallocateSdmaQueue d s q
  else s

def releaseVmid (s : Dqm) (p : Nat) : Dqm :=
  if s.queuesList p = [] then deallocateVmid s p else s

/-- `create_queue_nocpsch` up to the point where it releases the lock. -/
def createQueueBegin (d : Device) (s : Dqm) (a : CreateArgs) : Dqm × Option Errno :=
  if (d.maxQueues : Int) ≤ s.totalQueueCount then (s, some .eperm)
  else
    match if s.queuesList a.process = [] then allocateVmid d s a.process else .ok s with
    | .error e => (s, some e)
    | .ok s =>
      match allocateSlot d s (a.queue (s.qpd a.process).evicted) a with
      | .error e => (releaseVmid s a.process, some e)
      | .ok (s, q) =>
        match allocateDoorbell d s q (a.restore.map (·.2)) a.strayDoorbell with
        | .error e => (releaseVmid (deallocateSlot d s q) a.process, some e)
        | .ok (s, q) => ({ s with pending := q :: s.pending }, none)

def undoCreate (d : Device) (s : Dqm) (q : Queue) : Dqm :=
  releaseVmid (deallocateSlot d (deallocateDoorbell d s q) q) q.process

def addQueueToList (s : Dqm) (q : Queue) : Dqm :=
  let s := { s with queues := q :: s.queues, totalQueueCount := s.totalQueueCount + 1 }.countQueue
    q.process 1
  if q.isActive then incrementQueueCount s q else s

/-- `create_queue_nocpsch` from there on, for the queue at `i` of `pending`. `mqd` tells
whether the MQD was allocated, `load` is the result of loading it. -/
def createQueueEnd (d : Device) (s : Dqm) (i : Nat) (mqd : Bool) (load : Option Errno) :
    Dqm × Option Errno :=
  match s.pending[i]? with
  | none => (s, some .einval)
  | some q =>
    let s := { s with pending := s.pending.eraseIdx i }
    let loaded := if q.isActive ∧ s.schedRunning then load else none
    match if mqd then loaded else some .enomem with
    | some e => (undoCreate d s q, some e)
    | none => (addQueueToList s q, none)

/-! ## Destroying queues -/

/-- The part of `destroy_queue_nocpsch_locked` from `destroy_mqd` on, for the queue at `i`
of the queues. -/
def unlinkQueue (s : Dqm) (i : Nat) (q : Queue) (retval : Option Errno) : Dqm :=
  let s := { s with queues := s.queues.eraseIdx i }
  let s := if retval = some .etime then s.setReset q.process true else s
  let s :=
    if s.queuesList q.process = [] then deallocateVmid (s.setReset q.process false) q.process
    else s
  let s := s.countQueue q.process (-1)
  if q.isActive then decrementQueueCount s q else s

def destroyQueueNocpschLocked (d : Device) (s : Dqm) (i : Nat) (q : Queue)
    (retval : Option Errno) : Dqm × Option Errno :=
  if q.type ≠ .compute ∧ isSdma q.type = false then (s, some .einval)
  else
    let s := deallocateSlot d s q
    let s := deallocateDoorbell d { s with totalQueueCount := s.totalQueueCount - 1 } q
    if s.schedRunning = false then (s, none)
    else (unlinkQueue s i q retval, retval)

def Dqm.busy (s : Dqm) (p : Nat) : Bool :=
  s.pending.any (·.process = p)

def destroyQueueNocpsch (d : Device) (s : Dqm) (i : Nat) (retval : Option Errno) : Dqm :=
  match s.queues[i]? with
  | none => s
  | some q => if s.busy q.process then s else (destroyQueueNocpschLocked d s i q retval).1

def terminateOne (d : Device) (s : Dqm) (p : Nat) (retval : Option Errno) : Dqm :=
  match s.queues.findIdx? (·.process = p) with
  | none => s
  | some i => destroyQueueNocpsch d s i retval

/-! ## Eviction -/

def evictProcessQueuesNocpsch (s : Dqm) (p : Nat) : Dqm :=
  let evicted := (s.qpd p).evicted
  let s := s.mapQpd p fun qpd => { qpd with evicted := qpd.evicted + 1 }
  if 0 < evicted then s
  else
    let s := ((s.queuesList p).filter (·.isActive)).foldl decrementQueueCount s
    { s with
      queues := s.queues.map fun q =>
        if q.process = p then { q with isEvicted := true, isActive := false } else q }

def Queue.restored (q : Queue) : Queue :=
  let q := { q with isEvicted := false }
  if QueueManager.queueIsActive q.toQueue then { q with isActive := true } else q

def restoreProcessQueuesNocpsch (s : Dqm) (p : Nat) (mm : Bool) : Dqm :=
  if (s.qpd p).evicted = 0 then s
  else if 1 < (s.qpd p).evicted then
    s.mapQpd p fun qpd => { qpd with evicted := qpd.evicted - 1 }
  else if mm = false then s
  else
    let active := (s.queuesList p).filter fun q =>
      QueueManager.queueIsActive { q.toQueue with isEvicted := false }
    let s := active.foldl incrementQueueCount s
    { s with
      queues := s.queues.map fun q : Queue => if q.process = p then q.restored else q }.mapQpd p
        ({ · with evicted := 0 })

/-! ## Steps -/

/-- A step of the manager. -/
inductive Op
  | createBegin (a : CreateArgs)
  | createEnd (i : Nat) (mqd : Bool) (load : Option Errno)
  | destroy (i : Nat) (retval : Option Errno)
  | terminate (p : Nat) (retval : Option Errno)
  | evict (p : Nat)
  | restore (p : Nat) (mm : Bool)
  | stop
  | start (ok : Bool)

def step (d : Device) (s : Dqm) : Op → Dqm
  | .createBegin a => if s.busy a.process then s else (createQueueBegin d s a).1
  | .createEnd i mqd load => (createQueueEnd d s i mqd load).1
  | .destroy i retval => destroyQueueNocpsch d s i retval
  | .terminate p retval => terminateOne d s p retval
  | .evict p => evictProcessQueuesNocpsch s p
  | .restore p mm => restoreProcessQueuesNocpsch s p mm
  | .stop => { s with schedRunning := false }
  | .start ok => if ok then { s with schedRunning := true } else s

end Amdkfd.NoHws

import Amdkfd.Basic
import Amdkfd.Lib.Run

/-!
# The device queue manager

The hardware-scheduler (cpsch) paths of `kfd_device_queue_manager.c`, with and
without MES: creating, updating and destroying user queues, kernel queues,
evicting and restoring the queues of a process, suspending and resuming them
for the debugger, and process termination.

Every operation runs under `dqm_lock`, so it is one function from the manager
and the process' queues to the same and the returned error. What the hardware
and the packet manager answer is an input, `Hw`. Queues are addressed by their
position in the queue list.
-/

namespace Amdkfd.QueueManager

/-! ## Data -/

inductive QueueType
  | compute
  | sdma
  | hiq
  | diq
  | sdmaXgmi
  deriving DecidableEq, Repr

/-- The CP-type queues that `increment_queue_count` counts apart. -/
def QueueType.isCp : QueueType → Bool
  | .compute => true
  | .diq => true
  | _ => false

/-- `struct queue` with the properties that scheduling depends on. `isNew` is
`EC_QUEUE_NEW` in `exception_status`; `gws` tells whether `q->gws` is set. -/
structure Queue where
  type : QueueType
  queueSize : Nat
  queueAddress : Nat
  queuePercent : Nat
  isActive : Bool
  isEvicted : Bool
  isSuspended : Bool
  isBeingDestroyed : Bool
  isNew : Bool
  isGws : Bool
  gws : Bool
  deriving DecidableEq, Repr

def queueIsActive (q : Queue) : Bool :=
  0 < q.queueSize && q.queueAddress != 0 && 0 < q.queuePercent && !q.isEvicted && !q.isSuspended

/-- A debug interface queue (DIQ) on `qpd->priv_queue_list`. -/
structure PrivQueue where
  isActive : Bool
  deriving DecidableEq, Repr

/-- `struct qcm_process_device`. A queue whose destruction failed with an error
that `pqm_destroy_queue` does not tolerate is off `queues_list` but still known
to the process: it is kept in `orphans`. -/
structure Qpd where
  drmPriv : Bool
  queues : List Queue
  privQueues : List PrivQueue
  orphans : List Queue
  queueCount : UInt32
  evicted : Nat
  isDebug : Bool
  mappedGwsQueue : Bool
  numGws : Nat
  deriving DecidableEq, Repr

instance (priority := 2000) maxQueues_neZero : NeZero (512 * 1024 + 1) := ⟨by decide⟩

/-- `struct device_queue_manager`. `queues` are the processes on `dqm->queues`,
`maxQueues` is `max_num_of_queues_per_device`, which `kfd_init` bounds by
`KFD_MAX_NUM_OF_QUEUES_PER_DEVICE`. -/
structure Dqm where
  enableMes : Bool
  maxQueues : Fin (512 * 1024 + 1)
  schedRunning : Bool
  isHwsHang : Bool
  isResetting : Bool
  activeRunlist : Bool
  queues : List Nat
  processesCount : UInt32
  activeQueueCount : UInt32
  activeCpQueueCount : UInt32
  gwsQueueCount : UInt32
  totalQueueCount : UInt32
  deriving DecidableEq, Repr

/-- The manager and the process an operation works on. -/
structure Ctx where
  dqm : Dqm
  qpd : Qpd
  deriving DecidableEq, Repr

inductive QueueRef
  | listed (i : Nat)
  | orphan (i : Nat)
  deriving DecidableEq, Repr

def Qpd.queue? (qpd : Qpd) : QueueRef → Option Queue
  | .listed i => qpd.queues[i]?
  | .orphan i => qpd.orphans[i]?

def Ctx.setQueue (c : Ctx) (ref : QueueRef) (q : Queue) : Ctx :=
  match ref with
  | .listed i => { c with qpd := { c.qpd with queues := c.qpd.queues.set i q } }
  | .orphan i => { c with qpd := { c.qpd with orphans := c.qpd.orphans.set i q } }

/-- The answers of the hardware to one operation. The MES requests are per
queue; `sendUnmap` and `sendRunlist` are the packet manager's results, and
`preempted` tells whether all queues were preempted in time. -/
structure Hw where
  addHwQueue : Nat → Option Errno
  removeHwQueue : Nat → Option Errno
  sendUnmap : Option Errno
  preempted : Bool
  sendRunlist : Option Errno

/-- Hardware that answers every request. -/
def Hw.good : Hw :=
  { addHwQueue := fun _ => none
    removeHwQueue := fun _ => none
    sendUnmap := none
    preempted := true
    sendRunlist := none }

/-! ## Scheduler requests -/

def addQueueMes (hw : Option Errno) (dqm : Dqm) (q : Queue) : Dqm × Option Errno :=
  if dqm.isHwsHang then (dqm, some .eio)
  else if q.type ≠ .compute ∧ q.type ≠ .sdma then (dqm, some .einval)
  else
    match hw with
    | none => (dqm, none)
    | some e => ({ dqm with isHwsHang := true }, some e)

def removeQueueMes (hw : Option Errno) (dqm : Dqm) : Dqm × Option Errno :=
  if dqm.isHwsHang then (dqm, some .eio)
  else
    match hw with
    | none => (dqm, none)
    | some e => ({ dqm with isHwsHang := true }, some e)

def mapQueuesCpsch (hw : Hw) (dqm : Dqm) : Dqm × Option Errno :=
  if dqm.schedRunning = false then (dqm, none)
  else if dqm.activeQueueCount = 0 ∨ dqm.processesCount = 0 then (dqm, none)
  else if dqm.activeRunlist then (dqm, none)
  else
    match hw.sendRunlist with
    | some e => (dqm, some e)
    | none => ({ dqm with activeRunlist := true }, none)

def unmapQueuesCpsch (hw : Hw) (dqm : Dqm) : Dqm × Option Errno :=
  if dqm.schedRunning = false then (dqm, none)
  else if dqm.isHwsHang ∨ dqm.isResetting then (dqm, some .eio)
  else if dqm.activeRunlist = false then (dqm, none)
  else
    match hw.sendUnmap with
    | some e => (dqm, some e)
    | none =>
      if hw.preempted then ({ dqm with activeRunlist := false }, none)
      else ({ dqm with isHwsHang := true }, some .etime)

def executeQueuesCpsch (hw : Hw) (dqm : Dqm) : Dqm × Option Errno :=
  if dqm.isHwsHang then (dqm, some .eio)
  else
    match unmapQueuesCpsch hw dqm with
    | (dqm, some e) => (dqm, some e)
    | (dqm, none) => mapQueuesCpsch hw dqm

def addQueueIfMes (hw : Hw) (i : Nat) (dqm : Dqm) (q : Queue) : Dqm × Option Errno :=
  if dqm.enableMes then addQueueMes (hw.addHwQueue i) dqm q else (dqm, none)

def removeQueueIfMes (hw : Hw) (i : Nat) (dqm : Dqm) : Dqm × Option Errno :=
  if dqm.enableMes then removeQueueMes (hw.removeHwQueue i) dqm else (dqm, none)

/-- Schedule a queue that was activated: through MES, or with a new run list. -/
def scheduleQueue (hw : Hw) (dqm : Dqm) (q : Queue) : Dqm × Option Errno :=
  if dqm.enableMes then addQueueMes (hw.addHwQueue 0) dqm q else executeQueuesCpsch hw dqm

/-- Take a deactivated queue off the hardware: through MES, or with a new run
list. -/
def unscheduleQueue (hw : Hw) (dqm : Dqm) : Dqm × Option Errno :=
  if dqm.enableMes then removeQueueMes (hw.removeHwQueue 0) dqm else executeQueuesCpsch hw dqm

/-- The scheduler request that ends an operation when MES is off. -/
def Ctx.executeUnlessMes (hw : Hw) (c : Ctx) (r : Option Errno) : Ctx × Option Errno :=
  if c.dqm.enableMes then (c, r)
  else ({ c with dqm := (executeQueuesCpsch hw c.dqm).1 }, (executeQueuesCpsch hw c.dqm).2)

/-! ## Counters -/

def incrementQueueCount (c : Ctx) (type : QueueType) (isGws : Bool) : Ctx :=
  { dqm := { c.dqm with
      activeQueueCount := c.dqm.activeQueueCount + 1
      activeCpQueueCount :=
        if type.isCp then c.dqm.activeCpQueueCount + 1 else c.dqm.activeCpQueueCount
      gwsQueueCount := if isGws then c.dqm.gwsQueueCount + 1 else c.dqm.gwsQueueCount }
    qpd := { c.qpd with mappedGwsQueue := if isGws then true else c.qpd.mappedGwsQueue } }

def decrementQueueCount (c : Ctx) (type : QueueType) (isGws : Bool) : Ctx :=
  { dqm := { c.dqm with
      activeQueueCount := c.dqm.activeQueueCount - 1
      activeCpQueueCount :=
        if type.isCp then c.dqm.activeCpQueueCount - 1 else c.dqm.activeCpQueueCount
      gwsQueueCount := if isGws then c.dqm.gwsQueueCount - 1 else c.dqm.gwsQueueCount }
    qpd := { c.qpd with mappedGwsQueue := if isGws then false else c.qpd.mappedGwsQueue } }

/-! ## Processes -/

def registerProcess (kzalloc : Bool) (dqm : Dqm) (pid : Nat) : Dqm × Option Errno :=
  if kzalloc then
    ({ dqm with queues := pid :: dqm.queues, processesCount := dqm.processesCount + 1 }, none)
  else (dqm, some .enomem)

/-- `unregister_process`, and the loop of `process_termination_cpsch` that does
the same. -/
def unregisterProcess (dqm : Dqm) (pid : Nat) : Dqm :=
  if pid ∈ dqm.queues then
    { dqm with queues := dqm.queues.erase pid, processesCount := dqm.processesCount - 1 }
  else dqm

/-! ## User queues -/

/-- The part of `create_queue_cpsch` from `list_add` on: put the queue on the
list and schedule it, or clean up. -/
def enqueueQueue (hw : Hw) (c : Ctx) (q : Queue) : Ctx × Option Errno :=
  let c1 : Ctx := { c with qpd := { c.qpd with
    queues := q :: c.qpd.queues
    queueCount := c.qpd.queueCount + 1 } }
  if q.isActive then
    let c2 := incrementQueueCount c1 q.type q.isGws
    let r := scheduleQueue hw c2.dqm q
    match r.2 with
    | some e =>
      -- cleanup_queue
      let c3 : Ctx :=
        { dqm := r.1
          qpd := { c2.qpd with
            queues := c2.qpd.queues.tail
            queueCount := c2.qpd.queueCount - 1 } }
      (decrementQueueCount c3 q.type q.isGws, some e)
    | none =>
      ({ c2 with dqm := { r.1 with totalQueueCount := r.1.totalQueueCount + 1 } }, none)
  else
    ({ c1 with dqm := { c1.dqm with totalQueueCount := c1.dqm.totalQueueCount + 1 } }, none)

/-- `create_queue_cpsch` for a queue with the given properties. `resources` is
the result of allocating the doorbell, the SDMA engine and the MQD. A queue
restored from a checkpoint (`criu`) starts inactive: `restore_mqd` clears
`is_active`, `init_mqd` computes it. -/
def createQueueCpsch (hw : Hw) (resources : Option Errno) (criu : Bool) (c : Ctx) (q : Queue) :
    Ctx × Option Errno :=
  if c.dqm.maxQueues.val ≤ c.dqm.totalQueueCount.toNat then (c, some .eperm)
  else
    match resources with
    | some e => (c, some e)
    | none =>
      let q := { q with isEvicted := 0 < c.qpd.evicted }
      enqueueQueue hw c { q with isActive := if criu then false else queueIsActive q }

/-- What `destroy_queue_cpsch` did: it refused, with the queue as it was, or it
took the queue off the list and returned an error or none. -/
inductive DestroyResult
  | refused (e : Errno)
  | removed (r : Option Errno)
  deriving DecidableEq, Repr

/-- `list_del` and `queue_count--`. For an orphan `list_del` has no entry to
take off. -/
def Ctx.removeQueue (c : Ctx) (ref : QueueRef) : Ctx :=
  { c with qpd := { c.qpd with
    queues := match ref with
      | .listed i => c.qpd.queues.eraseIdx i
      | .orphan _ => c.qpd.queues
    queueCount := c.qpd.queueCount - 1 } }

/-- `destroy_queue_cpsch`. A suspended queue of a debugged process is waited
for: until it is resumed the call has only marked it, and goes on as a call on
the resumed queue does. -/
def destroyQueueCpsch (hw : Hw) (debugTrapEnabled : Bool) (c : Ctx) (ref : QueueRef) :
    Ctx × DestroyResult :=
  match c.qpd.queue? ref with
  | none => (c, .refused .einval)
  | some q =>
    if c.qpd.isDebug then (c, .refused .ebusy)
    else
      let c := c.setQueue ref { q with isBeingDestroyed := true }
      if debugTrapEnabled && q.isSuspended then (c, .refused .erestartsys)
      else
        let c := c.removeQueue ref
        let c := if q.isActive then decrementQueueCount c q.type q.isGws else c
        let r := if q.isActive then unscheduleQueue hw c.dqm else (c.dqm, none)
        ({ c with dqm := { r.1 with totalQueueCount := r.1.totalQueueCount - 1 } }, .removed r.2)

/-- `pqm_destroy_queue`: an error other than `-ETIME` and `-EIO` leaves the
queue known to the process. -/
def pqmDestroyQueue (hw : Hw) (debugTrapEnabled : Bool) (c : Ctx) (ref : QueueRef) : Ctx :=
  match c.qpd.queue? ref with
  | none => c
  | some q =>
    let d := destroyQueueCpsch hw debugTrapEnabled c ref
    match d.2 with
    | .refused _ => d.1
    | .removed r =>
      if r = none ∨ r = some .etime ∨ r = some .eio then
        { d.1 with qpd := { d.1.qpd with
          orphans := match ref with
            | .listed _ => d.1.qpd.orphans
            | .orphan i => d.1.qpd.orphans.eraseIdx i
          numGws := if q.gws then 0 else d.1.qpd.numGws } }
      else
        { d.1 with qpd := { d.1.qpd with
          orphans := match ref with
            | .listed _ => { q with isBeingDestroyed := true } :: d.1.qpd.orphans
            | .orphan _ => d.1.qpd.orphans } }

/-- The counter part of `update_queue`, after `update_mqd` has recomputed
`is_active`. -/
def updateCounters (c : Ctx) (ref : QueueRef) (prevActive : Bool) (q : Queue) : Ctx :=
  if q.isActive && !prevActive then
    incrementQueueCount (c.setQueue ref q) q.type q.isGws
  else if !q.isActive && prevActive then
    decrementQueueCount (c.setQueue ref q) q.type q.isGws
  else if q.gws && !q.isGws then
    let c := c.setQueue ref { q with isGws := true }
    if q.isActive then
      { dqm := { c.dqm with gwsQueueCount := c.dqm.gwsQueueCount + 1 }
        qpd := { c.qpd with mappedGwsQueue := true } }
    else c
  else if !q.gws && q.isGws then
    let c := c.setQueue ref { q with isGws := false }
    if q.isActive then
      { dqm := { c.dqm with gwsQueueCount := c.dqm.gwsQueueCount - 1 }
        qpd := { c.qpd with mappedGwsQueue := false } }
    else c
  else c.setQueue ref q

/-- The step of `update_queue` that unmaps the queue before its MQD changes. -/
def unmapForUpdate (hw : Hw) (dqm : Dqm) (q : Queue) : Dqm × Option Errno :=
  if dqm.enableMes then
    if q.isActive then removeQueueMes (hw.removeHwQueue 0) dqm else (dqm, none)
  else unmapQueuesCpsch hw dqm

def mapAfterUpdate (hw : Hw) (dqm : Dqm) (q : Queue) : Dqm × Option Errno :=
  if dqm.enableMes then
    if q.isActive then addQueueMes (hw.addHwQueue 0) dqm q else (dqm, none)
  else mapQueuesCpsch hw dqm

def updateQueue (hw : Hw) (c : Ctx) (ref : QueueRef) : Ctx × Option Errno :=
  match c.qpd.queue? ref with
  | none => (c, some .einval)
  | some q =>
    let r := unmapForUpdate hw c.dqm q
    match r.2 with
    | some e => ({ c with dqm := r.1 }, some e)
    | none =>
      -- update_mqd
      let q' := { q with isActive := queueIsActive q }
      let c := updateCounters { c with dqm := r.1 } ref q.isActive q'
      let r := mapAfterUpdate hw c.dqm q'
      ({ c with dqm := r.1 }, r.2)

/-- The part of `pqm_update_queue_properties` before `update_queue`. -/
def setProperties (c : Ctx) (ref : QueueRef) (size address percent : Nat) : Ctx :=
  match c.qpd.queue? ref with
  | none => c
  | some q =>
    c.setQueue ref { q with queueSize := size, queueAddress := address, queuePercent := percent }

/-- The part of `pqm_set_gws` before `update_queue`. `gwsSize` is zero to take
GWS away; `attach` is the result of attaching it to the process. -/
def setGws (attach : Option Errno) (c : Ctx) (ref : QueueRef) (gwsSize : Nat) :
    Ctx × Option Errno :=
  match c.qpd.queue? ref with
  | none => (c, some .einval)
  | some q =>
    if gwsSize ≠ 0 ∧ c.qpd.numGws ≠ 0 then (c, some .ebusy)
    else if gwsSize = 0 ∧ c.qpd.numGws = 0 then (c, some .einval)
    else
      match attach with
      | some e => (c, some e)
      | none =>
        let c := c.setQueue ref { q with gws := gwsSize ≠ 0 }
        ({ c with qpd := { c.qpd with numGws := gwsSize } }, none)

/-! ## Eviction -/

/-- The body of the queue loop of `evict_process_queues_cpsch`. -/
def evictQueue (hw : Hw) (s : Ctx × Option Errno) (i : Nat) : Ctx × Option Errno :=
  match s.1.qpd.queues[i]? with
  | none => s
  | some q =>
    if q.isActive then
      let c := decrementQueueCount
        (s.1.setQueue (.listed i) { q with isEvicted := true, isActive := false }) q.type q.isGws
      let r := removeQueueIfMes hw i c.dqm
      ({ c with dqm := r.1 }, if r.2 = none then s.2 else r.2)
    else (s.1.setQueue (.listed i) { q with isEvicted := true }, s.2)

def evictProcessQueuesCpsch (hw : Hw) (c : Ctx) : Ctx × Option Errno :=
  let evicted := c.qpd.evicted
  let c : Ctx := { c with qpd := { c.qpd with evicted := evicted + 1 } }
  if 0 < evicted then (c, none)
  else if c.qpd.drmPriv = false then (c, none)
  else
    let s := (List.range c.qpd.queues.length).foldl (evictQueue hw) (c, none)
    s.1.executeUnlessMes hw s.2

/-- The body of the queue loop of `restore_process_queues_cpsch`. An error ends
the loop. -/
def restoreQueue (hw : Hw) (s : Ctx × Option Errno) (i : Nat) : Ctx × Option Errno :=
  match s.2, s.1.qpd.queues[i]? with
  | none, some q =>
    let q := { q with isEvicted := false }
    if queueIsActive q then
      let c := incrementQueueCount (s.1.setQueue (.listed i) { q with isActive := true })
        q.type q.isGws
      let r := addQueueIfMes hw i c.dqm q
      ({ c with dqm := r.1 }, r.2)
    else (s.1.setQueue (.listed i) q, none)
  | _, _ => s

/-- `restore_process_queues_cpsch`. With MES, a queue that cannot be added ends
the call with `evicted` still at one. -/
def restoreProcessQueuesCpsch (hw : Hw) (c : Ctx) : Ctx × Option Errno :=
  if c.qpd.evicted = 0 then (c, none)
  else if 1 < c.qpd.evicted then
    ({ c with qpd := { c.qpd with evicted := c.qpd.evicted - 1 } }, none)
  else if c.qpd.drmPriv = false then ({ c with qpd := { c.qpd with evicted := 0 } }, none)
  else
    let s := (List.range c.qpd.queues.length).foldl (restoreQueue hw) (c, none)
    match s.2 with
    | some e => (s.1, some e)
    | none =>
      let r := s.1.executeUnlessMes hw none
      ({ r.1 with qpd := { r.1.qpd with evicted := 0 } }, r.2)

/-! ## Suspension -/

def suspendSingleQueue (hw : Hw) (c : Ctx) (i : Nat) (q : Queue) : Ctx × Option Errno :=
  if q.isSuspended then (c, none)
  else if q.isNew || q.isBeingDestroyed then (c, some .ebusy)
  else
    let q := { q with isSuspended := true }
    let c := c.setQueue (.listed i) q
    if q.isActive then
      let r := removeQueueIfMes hw i c.dqm
      let c := { c with dqm := r.1 }
      match r.2 with
      | some e => (c, some e)
      | none =>
        (decrementQueueCount (c.setQueue (.listed i) { q with isActive := false }) q.type q.isGws,
          none)
    else (c, none)

/-- The body of the queue loop of `suspend_queues`: an error other than `-EBUSY`
ends it. The number counts the queues suspended. -/
def suspendQueue (hw : Hw) (requested : Nat → Bool) (s : Ctx × Option Errno × Nat) (i : Nat) :
    Ctx × Option Errno × Nat :=
  match s.2.1, s.1.qpd.queues[i]? with
  | none, some q =>
    if requested i then
      let r := suspendSingleQueue hw s.1 i q
      match r.2 with
      | none => (r.1, none, s.2.2 + 1)
      | some e => (r.1, if e = .ebusy then none else some e, s.2.2)
    else s
  | _, _ => s

/-- The part of `suspend_queues` for one device. -/
def suspendQueues (hw : Hw) (requested : Nat → Bool) (c : Ctx) : Ctx :=
  let s := (List.range c.qpd.queues.length).foldl (suspendQueue hw requested) (c, none, 0)
  if s.2.2 = 0 then s.1 else (s.1.executeUnlessMes hw s.2.1).1

def resumeSingleQueue (hw : Hw) (c : Ctx) (i : Nat) (q : Queue) : Ctx × Option Errno :=
  if q.isSuspended then
    let q := { q with isSuspended := false }
    let c := c.setQueue (.listed i) q
    if queueIsActive q then
      let r := addQueueIfMes hw i c.dqm q
      let c := { c with dqm := r.1 }
      match r.2 with
      | some e => (c, some e)
      | none =>
        (incrementQueueCount (c.setQueue (.listed i) { q with isActive := true }) q.type q.isGws,
          none)
    else (c, none)
  else (c, none)

/-- The body of the queue loop of `resume_queues`: an error ends it when the
caller named the queues, and is dropped when all queues are resumed. -/
def resumeQueue (hw : Hw) (requested : Option (Nat → Bool)) (s : Ctx × Option Errno × Nat)
    (i : Nat) : Ctx × Option Errno × Nat :=
  match s.2.1, s.1.qpd.queues[i]? with
  | none, some q =>
    match requested with
    | some ids =>
      if ids i then
        let r := resumeSingleQueue hw s.1 i q
        (r.1, r.2, if r.2 = none then s.2.2 + 1 else s.2.2)
      else s
    | none => ((resumeSingleQueue hw s.1 i q).1, none, s.2.2 + 1)
  | _, _ => s

/-- The part of `resume_queues` for one device. -/
def resumeQueues (hw : Hw) (requested : Option (Nat → Bool)) (c : Ctx) : Ctx :=
  let s := (List.range c.qpd.queues.length).foldl (resumeQueue hw requested) (c, none, 0)
  if s.2.2 = 0 then s.1 else (s.1.executeUnlessMes hw s.2.1).1

section
variable {P : Ctx → Prop} {hw : Hw}

theorem suspendQueues_inv
    (hone : ∀ c i q, P c → c.qpd.queues[i]? = some q → P (suspendSingleQueue hw c i q).1)
    (hexecute : ∀ c r, P c → P (c.executeUnlessMes hw r).1) (requested : Nat → Bool) {c : Ctx}
    (h : P c) : P (suspendQueues hw requested c) := by
  have hloop := Lib.foldl_range_inv (f := suspendQueue hw requested) (P := fun _ s => P s.1)
    (fun i s hs => by
      unfold suspendQueue
      split
      · next q _ hq =>
        split
        · have hsuspended := hone s.1 i q hs hq
          simp only
          split
          · exact hsuspended
          · exact hsuspended
        · exact hs
      · exact hs) (s := (c, none, 0)) h c.qpd.queues.length
  unfold suspendQueues
  simp only
  split
  · exact hloop
  · exact hexecute _ _ hloop

theorem resumeQueues_inv
    (hone : ∀ c i q, P c → c.qpd.queues[i]? = some q → P (resumeSingleQueue hw c i q).1)
    (hexecute : ∀ c r, P c → P (c.executeUnlessMes hw r).1) (requested : Option (Nat → Bool))
    {c : Ctx} (h : P c) : P (resumeQueues hw requested c) := by
  have hloop := Lib.foldl_range_inv (f := resumeQueue hw requested) (P := fun _ s => P s.1)
    (fun i s hs => by
      unfold resumeQueue
      split
      · next q _ hq =>
        have hresumed := hone s.1 i q hs hq
        split
        · split
          · exact hresumed
          · exact hs
        · exact hresumed
      · exact hs) (s := (c, none, 0)) h c.qpd.queues.length
  unfold resumeQueues
  simp only
  split
  · exact hloop
  · exact hexecute _ _ hloop

end

/-! ## Kernel queues and termination -/

def createKernelQueueCpsch (hw : Hw) (c : Ctx) (kq : PrivQueue) : Ctx × Option Errno :=
  if c.dqm.maxQueues.val ≤ c.dqm.totalQueueCount.toNat then (c, some .eperm)
  else
    let c : Ctx :=
      { dqm := { c.dqm with totalQueueCount := c.dqm.totalQueueCount + 1 }
        qpd := { c.qpd with privQueues := kq :: c.qpd.privQueues } }
    let c := incrementQueueCount c .diq false
    let c : Ctx := { c with qpd := { c.qpd with isDebug := true } }
    ({ c with dqm := (executeQueuesCpsch hw c.dqm).1 }, none)

def destroyKernelQueueCpsch (hw : Hw) (c : Ctx) (i : Nat) : Ctx :=
  match c.qpd.privQueues[i]? with
  | none => c
  | some _ =>
    let c : Ctx := { c with qpd := { c.qpd with privQueues := c.qpd.privQueues.eraseIdx i } }
    let c := decrementQueueCount c .diq false
    let c : Ctx := { c with qpd := { c.qpd with isDebug := false } }
    let dqm := (executeQueuesCpsch hw c.dqm).1
    { c with dqm := { dqm with totalQueueCount := dqm.totalQueueCount - 1 } }

/-- The loop of `process_termination_cpsch` over the kernel queues. -/
def cleanKernelQueues (c : Ctx) : Ctx :=
  c.qpd.privQueues.foldl
    (fun c _ =>
      let c : Ctx := { c with qpd := { c.qpd with privQueues := c.qpd.privQueues.tail } }
      let c := decrementQueueCount c .diq false
      { dqm := { c.dqm with totalQueueCount := c.dqm.totalQueueCount - 1 }
        qpd := { c.qpd with isDebug := false } })
    c

/-- The body of the loop of `process_termination_cpsch` over the user queues,
with the later `list_del` and `queue_count--` of the queue. -/
def clearQueue (hw : Hw) (s : Ctx × Nat) (q : Queue) : Ctx × Nat :=
  let c := s.1.removeQueue (.listed 0)
  let c :=
    if q.isActive then
      let c := decrementQueueCount c q.type q.isGws
      { c with dqm := (removeQueueIfMes hw s.2 c.dqm).1 }
    else c
  ({ c with dqm := { c.dqm with totalQueueCount := c.dqm.totalQueueCount - 1 } }, s.2 + 1)

def processTerminationCpsch (hw : Hw) (c : Ctx) (pid : Nat) : Ctx :=
  let c := cleanKernelQueues c
  let c := (c.qpd.queues.foldl (clearQueue hw) (c, 0)).1
  let c : Ctx := { c with dqm := unregisterProcess c.dqm pid }
  (c.executeUnlessMes hw none).1

/-! ## The scheduler -/

/-- The flags that `start_cpsch` sets, then its run list. -/
def startCpsch (hw : Hw) (dqm : Dqm) : Dqm :=
  let dqm := { dqm with isHwsHang := false, isResetting := false, schedRunning := true }
  if dqm.enableMes then dqm else (executeQueuesCpsch hw dqm).1

/-- `stop_cpsch`. With MES the active queues are removed one by one, up to the
first failure (`mesRemove`). -/
def stopCpsch (hw : Hw) (mesRemove : Option Errno) (dqm : Dqm) : Dqm :=
  if dqm.schedRunning = false then dqm
  else
    let dqm :=
      if dqm.isHwsHang then dqm
      else if dqm.enableMes then (removeQueueMes mesRemove dqm).1
      else (unmapQueuesCpsch hw dqm).1
    { dqm with schedRunning := false }

/-! ## The system -/

def initUserQueue (type : QueueType) (size address percent : Nat) : Queue :=
  { type := type
    queueSize := size
    queueAddress := address
    queuePercent := percent
    isActive := false
    isEvicted := false
    isSuspended := false
    isBeingDestroyed := false
    isNew := true
    isGws := false
    gws := false }

def QueueType.isUser : QueueType → Bool
  | .compute => true
  | .sdma => true
  | .sdmaXgmi => true
  | _ => false

/-- An operation on one process. -/
inductive ProcOp
  | register (kzalloc : Bool)
  | unregister
  | acquireVm
  | createQueue (hw : Hw) (resources : Option Errno) (criu : Bool) (type : QueueType)
      (size address percent : Nat)
  | destroyQueue (hw : Hw) (debugTrapEnabled : Bool) (ref : QueueRef)
  | setProperties (ref : QueueRef) (size address percent : Nat)
  | setGws (attach : Option Errno) (ref : QueueRef) (gwsSize : Nat)
  | updateQueue (hw : Hw) (ref : QueueRef)
  | clearException (ref : QueueRef)
  | evict (hw : Hw)
  | restore (hw : Hw)
  | suspend (hw : Hw) (requested : Nat → Bool)
  | resume (hw : Hw) (requested : Option (Nat → Bool))
  | createKernelQueue (hw : Hw) (kq : PrivQueue)
  | destroyKernelQueue (hw : Hw) (i : Nat)
  | terminate (hw : Hw)

def ProcOp.apply (pid : Nat) (c : Ctx) : ProcOp → Ctx
  | .register kzalloc => { c with dqm := (registerProcess kzalloc c.dqm pid).1 }
  | .unregister => { c with dqm := unregisterProcess c.dqm pid }
  | .acquireVm => { c with qpd := { c.qpd with drmPriv := true } }
  | .createQueue hw resources criu type size address percent =>
    if type.isUser then
      (createQueueCpsch hw resources criu c (initUserQueue type size address percent)).1
    else c
  | .destroyQueue hw debugTrapEnabled ref => pqmDestroyQueue hw debugTrapEnabled c ref
  | .setProperties ref size address percent => QueueManager.setProperties c ref size address percent
  | .setGws attach ref gwsSize => (QueueManager.setGws attach c ref gwsSize).1
  | .updateQueue hw ref => (QueueManager.updateQueue hw c ref).1
  | .clearException ref =>
    match c.qpd.queue? ref with
    | none => c
    | some q => c.setQueue ref { q with isNew := false }
  | .evict hw => (evictProcessQueuesCpsch hw c).1
  | .restore hw => (restoreProcessQueuesCpsch hw c).1
  | .suspend hw requested => suspendQueues hw requested c
  | .resume hw requested => resumeQueues hw requested c
  | .createKernelQueue hw kq => (createKernelQueueCpsch hw c kq).1
  | .destroyKernelQueue hw i => destroyKernelQueueCpsch hw c i
  | .terminate hw => processTerminationCpsch hw c pid

/-- A device: its queue manager and the processes that use it. -/
structure State where
  dqm : Dqm
  qpds : List Qpd

inductive Op
  | newProcess (drmPriv : Bool)
  | proc (pid : Nat) (op : ProcOp)
  | start (hw : Hw)
  | stop (hw : Hw) (mesRemove : Option Errno)
  | preReset

def newQpd (drmPriv : Bool) : Qpd :=
  { drmPriv := drmPriv
    queues := []
    privQueues := []
    orphans := []
    queueCount := 0
    evicted := 0
    isDebug := false
    mappedGwsQueue := false
    numGws := 0 }

def step (s : State) : Op → State
  | .newProcess drmPriv => { s with qpds := s.qpds ++ [newQpd drmPriv] }
  | .proc pid op =>
    match s.qpds[pid]? with
    | none => s
    | some qpd =>
      let c := op.apply pid ⟨s.dqm, qpd⟩
      { dqm := c.dqm, qpds := s.qpds.set pid c.qpd }
  | .start hw => { s with dqm := startCpsch hw s.dqm }
  | .stop hw mesRemove => { s with dqm := stopCpsch hw mesRemove s.dqm }
  | .preReset => { s with dqm := { s.dqm with isResetting := true } }

/-- A manager that `initialize_cpsch` has set up. -/
def init (enableMes : Bool) (maxQueues : Fin (512 * 1024 + 1)) : State :=
  { dqm :=
      { enableMes := enableMes
        maxQueues := maxQueues
        schedRunning := false
        isHwsHang := false
        isResetting := false
        activeRunlist := false
        queues := []
        processesCount := 0
        activeQueueCount := 0
        activeCpQueueCount := 0
        gwsQueueCount := 0
        totalQueueCount := 0 }
    qpds := [] }

end Amdkfd.QueueManager

import Amdkfd.Basic
import Amdkfd.Lib.Run

/-!
# The VMIDs of a hub

`amdgpu_vmid_grab` of `amdgpu_ids.c` with the three ways to find a VMID, the reservation of a
VMID, `amdgpu_sync_fence` and `amdgpu_sync_peek_fence` of `amdgpu_sync.c`, and what
`amdgpu_vm_flush` of `amdgpu_vm.c` does to a VMID.

A job that was given a VMID has a number, in the order in which they were given. VMs are named by
their fence context, rings by their index and scheduler entities by theirs. A ring signals its
fences in order, so a fence of a ring is its place among those that were emitted. What the
environment decides is an argument: whether an allocation succeeds, and how far a ring gets.
-/

namespace Amdkfd.Vmid

open Function

/-! ## Data -/

/-- The GDS, GWS and OA resources of a job or a VMID. -/
structure Gds where
  gdsBase : Nat
  gdsSize : Nat
  gwsBase : Nat
  gwsSize : Nat
  oaBase : Nat
  oaSize : Nat
  deriving DecidableEq

/-- A VM flush on a ring: the place of its fence, the VM and the page directory that it loads, and
the `tlb_seq` of the VM when it was emitted. -/
structure Flush where
  ring : Nat
  pos : Nat
  vm : Nat
  pd : Nat
  seq : Nat
  deriving DecidableEq

/-- `struct amdgpu_vmid`. `active` names jobs, by their `finished` fences. `lastEmitted` is the
last flush of the VMID that was emitted; unlike `last_flush` it stays when a flush is asked
for. -/
structure Id where
  active : List Nat
  lastFlush : Option Flush
  owner : Nat
  pdGpuAddr : Nat
  flushedUpdates : Nat
  currentGpuResetCount : Nat
  gds : Gds
  lastEmitted : Option Flush
  deriving DecidableEq

/-- A job has its VMID, or is on its ring, with the place of its fence. -/
inductive Progress
  | granted
  | running (pos : Nat)
  deriving DecidableEq

/-- What a job comes with. -/
structure Request where
  vm : Nat
  pd : Nat
  gds : Gds
  entity : Nat
  ring : Nat
  useCpuForUpdate : Bool
  deriving DecidableEq

/-- `struct amdgpu_job` with a VMID. `updates` is the `tlb_seq` that was seen when it was given the
VMID, `flushBefore` the last flush of the VMID then, with whether it was signalled, and `ranOn`
the last flush of the VMID when the job was put on the ring. -/
structure Job where
  req : Request
  vmid : Nat
  vmNeedsFlush : Bool
  updates : Nat
  flushBefore : Option Flush
  flushSignaled : Bool
  ranOn : Option Flush
  progress : Progress
  deriving DecidableEq

/-- The two fences of a job in `struct drm_sched_fence`. -/
inductive Fence
  | scheduled (job : Nat)
  | finished (job : Nat)
  deriving DecidableEq

/-- The device: the rings that can flush, and what does not change. -/
structure Device where
  concurrentFlush : Bool
  enforceIsolation : Bool
  gpuResetCounter : Nat
  emitVmFlush : Nat → Bool

/-- `struct amdgpu_vmid_mgr` with the VMs, the jobs and the rings. `vmidWait` is the array of
fences in `ring->vmid_wait`, one of which has to signal. -/
structure State where
  ids : Nat → Id
  idsLru : List Nat
  reserved : Option Nat
  reservedUseCount : Nat
  reservedVmid : Nat → Bool
  tlbSeq : Nat → Nat
  vmidWait : Nat → Option (List Fence)
  job : Nat → Job
  jobs : Nat
  emitted : Nat → Nat
  completed : Nat → Nat

def State.setId (s : State) (v : Nat) (id : Id) : State :=
  { s with ids := update s.ids v id }

/-- The `finished` fence of a job is signalled. -/
def State.finished (s : State) (n : Nat) : Bool :=
  match (s.job n).progress with
  | .granted => false
  | .running pos => pos ≤ s.completed (s.job n).req.ring

/-- The `scheduled` fence of a job is signalled. -/
def State.scheduled (s : State) (n : Nat) : Bool :=
  (s.job n).progress ≠ .granted

def State.signaled (s : State) : Fence → Bool
  | .scheduled n => s.scheduled n
  | .finished n => s.finished n

def State.flushSignaled (s : State) (f : Flush) : Bool := f.pos ≤ s.completed f.ring

/-! ## Fences -/

/-- `amdgpu_sync_peek_fence`: the next fence that is not signalled, and the entries that stay. -/
def peekFence (s : State) (ring : Option Nat) : List Nat → Option Fence × List Nat
  | [] => (none, [])
  | n :: ns =>
    if s.finished n then peekFence s ring ns
    else if ring = some (s.job n).req.ring then
      if s.scheduled n then ((peekFence s ring ns).1, n :: (peekFence s ring ns).2)
      else (some (.scheduled n), n :: ns)
    else (some (.finished n), n :: ns)

/-- `amdgpu_sync_add_later` with `amdgpu_sync_keep_later`, for job `n` of an entity. -/
def addLater (s : State) (entity n : Nat) : List Nat → Option (List Nat)
  | [] => none
  | e :: es =>
    if (s.job e).req.entity = entity then some ((if n < e then e else n) :: es)
    else (addLater s entity n es).map (e :: ·)

def syncFence (s : State) (entity n : Nat) (active : List Nat) (alloc : Bool) :
    Except Errno (List Nat) :=
  match addLater s entity n active with
  | some active => .ok active
  | none => if alloc then .ok (n :: active) else .error .enomem

/-! ## Finding a VMID -/

/-- The allocations of `amdgpu_vmid_grab` that succeed. -/
structure Alloc where
  fences : Bool
  array : Bool
  entry : Bool
  deriving DecidableEq

/-- What a search for a VMID gives: the VMID, fences one of which has to signal first, or an
error. -/
inductive Found
  | id (v : Nat)
  | wait (fences : List Fence)
  | error (e : Errno)
  deriving DecidableEq

/-- `NULL` or the ring, for `amdgpu_sync_peek_fence`. -/
def Device.peekRing (d : Device) (ring : Nat) : Option Nat :=
  if d.concurrentFlush then none else some ring

/-- The loop of `amdgpu_vmid_grab_idle`. -/
def idleLoop (ring : Option Nat) : State → List Nat → State × Option Nat × List Fence
  | s, [] => (s, none, [])
  | s, v :: vs =>
    let peek := peekFence s ring (s.ids v).active
    let s := s.setId v { s.ids v with active := peek.2 }
    match peek.1 with
    | none => (s, some v, [])
    | some f =>
      let rest := idleLoop ring s vs
      (rest.1, rest.2.1, f :: rest.2.2)

def vmidGrabIdle (d : Device) (s : State) (ring : Nat) (alloc : Alloc) : State × Found :=
  match (s.vmidWait ring).filter fun fs => !fs.any s.signaled with
  | some fs => (s, .wait fs)
  | none =>
    if alloc.fences then
      match idleLoop (d.peekRing ring) s s.idsLru with
      | (s, some v, _) => (s, .id v)
      | (s, none, fs) =>
        if alloc.array then
          ({ s with vmidWait := update s.vmidWait ring (some fs) }, .wait fs)
        else (s, .error .enomem)
    else (s, .error .enomem)

def Id.compatible (id : Id) (req : Request) : Bool :=
  id.pdGpuAddr = req.pd && id.gds = req.gds

def State.flushOrdered (s : State) (id : Id) (ring : Nat) : Bool :=
  match id.lastFlush with
  | none => false
  | some f => f.ring = ring || s.flushSignaled f

/-- The reserved VMID `v` can be used without a flush. -/
def State.reservedFits (s : State) (v : Nat) (req : Request) : Bool :=
  (s.ids v).owner = req.vm && (s.ids v).compatible req &&
    !((s.ids v).flushedUpdates < s.tlbSeq req.vm) && s.flushOrdered (s.ids v) req.ring

/-- `amdgpu_vmid_grab_reserved` up to `amdgpu_sync_fence`: whether a flush is needed. -/
def vmidGrabReserved (d : Device) (s : State) (req : Request) (v : Nat) :
    State × Except Fence Bool :=
  if s.reservedFits v req then (s, .ok req.useCpuForUpdate)
  else
    let peek := peekFence s (d.peekRing req.ring) (s.ids v).active
    let s := s.setId v { s.ids v with pdGpuAddr := 0, active := peek.2 }
    match peek.1 with
    | some f => (s, .error f)
    | none => (s, .ok true)

/-- `needs_flush` of `amdgpu_vmid_grab_used` for a VMID. -/
def State.usedNeedsFlush (s : State) (id : Id) (req : Request) : Bool :=
  req.useCpuForUpdate || !s.flushOrdered id req.ring || id.flushedUpdates < s.tlbSeq req.vm

def State.usable (d : Device) (s : State) (req : Request) (v : Nat) : Bool :=
  (s.ids v).owner = req.vm && (s.ids v).compatible req &&
    !(s.usedNeedsFlush (s.ids v) req && !d.concurrentFlush)

/-- `amdgpu_vmid_grab_used` up to `amdgpu_sync_fence`: the VMID. -/
def vmidGrabUsed (d : Device) (s : State) (req : Request) : Option Nat :=
  s.idsLru.reverse.find? (s.usable d req)

/-- The VMID already assigned to the VM, or else the idle one, and whether it is flushed. -/
def State.usedOrIdle (d : Device) (s : State) (req : Request) (idle : Nat) : Nat × Bool :=
  match vmidGrabUsed d s req with
  | some v => (v, s.usedNeedsFlush (s.ids v) req)
  | none => (idle, true)

def State.newJob (s : State) (req : Request) (v : Nat) (needsFlush : Bool) : Job :=
  { req := req, vmid := v, vmNeedsFlush := needsFlush, updates := s.tlbSeq req.vm
    flushBefore := (s.ids v).lastEmitted
    flushSignaled := (s.ids v).lastEmitted.any s.flushSignaled
    ranOn := none, progress := .granted }

/-- The end of `amdgpu_vmid_grab`: the job is given VMID `v`. -/
def State.grant (s : State) (req : Request) (v : Nat) (needsFlush : Bool) (active : List Nat) :
    State :=
  let id := s.ids v
  { s with
    ids := update s.ids v
      { id with
        active := active
        lastFlush := if needsFlush then none else id.lastFlush
        owner := req.vm
        pdGpuAddr := req.pd
        flushedUpdates := if needsFlush then s.tlbSeq req.vm else id.flushedUpdates
        gds := req.gds }
    job := update s.job s.jobs (s.newJob req v needsFlush)
    jobs := s.jobs + 1 }

/-- The job is remembered as a user of the VMID, and given it. -/
def State.use (s : State) (req : Request) (v : Nat) (needsFlush : Bool) (alloc : Alloc) :
    State × Found :=
  match syncFence s req.entity s.jobs (s.ids v).active alloc.entry with
  | .error e => (s, .error e)
  | .ok active => (s.grant req v needsFlush active, .id v)

def State.usesReserved (d : Device) (s : State) (vm : Nat) : Bool :=
  s.reservedVmid vm || d.enforceIsolation

def vmidGrab (d : Device) (s : State) (req : Request) (alloc : Alloc) : State × Found :=
  match vmidGrabIdle d s req.ring alloc with
  | (s, .error e) => (s, .error e)
  | (s, .wait fs) => (s, .wait fs)
  | (s, .id idle) =>
    if s.usesReserved d req.vm then
      match s.reserved with
      | none => (s, .error .einval)
      | some v =>
        match vmidGrabReserved d s req v with
        | (s, .error f) => (s, .wait [f])
        | (s, .ok needsFlush) => s.use req v needsFlush alloc
    else
      match s.use req (s.usedOrIdle d req idle).1 (s.usedOrIdle d req idle).2 alloc with
      | (s, .id v) => ({ s with idsLru := s.idsLru.erase v ++ [v] }, .id v)
      | (s, r) => (s, r)

/-! ## Reservation -/

def vmidAllocReserved (s : State) : State :=
  let s := { s with reservedUseCount := s.reservedUseCount + 1 }
  match s.reserved, s.idsLru with
  | none, v :: vs => { s with idsLru := vs, reserved := some v }
  | _, _ => s

def vmidFreeReserved (s : State) : State :=
  let s := { s with reservedUseCount := s.reservedUseCount - 1 }
  match s.reservedUseCount, s.reserved with
  | 0, some v => { s with idsLru := v :: s.idsLru, reserved := none }
  | _, _ => s

/-- `AMDGPU_VM_OP_RESERVE_VMID` of `amdgpu_vm_ioctl`. -/
def vmReserve (s : State) (vm : Nat) : State :=
  if s.reservedVmid vm then s
  else { vmidAllocReserved s with reservedVmid := update s.reservedVmid vm true }

/-- `AMDGPU_VM_OP_UNRESERVE_VMID` of `amdgpu_vm_ioctl`, and the end of `amdgpu_vm_fini`. -/
def vmUnreserve (s : State) (vm : Nat) : State :=
  if s.reservedVmid vm then
    { vmidFreeReserved s with reservedVmid := update s.reservedVmid vm false }
  else s

/-! ## Running a job -/

def boInvalidOffset : Nat := 2 ^ 64 - 1

def State.vmFlushNeeded (d : Device) (s : State) (j : Job) : Bool :=
  (j.vmNeedsFlush || (s.ids j.vmid).currentGpuResetCount ≠ d.gpuResetCounter) &&
    (d.emitVmFlush j.req.ring && j.req.pd ≠ boInvalidOffset)

def vmFlush (d : Device) (s : State) (n : Nat) : State :=
  let j := s.job n
  let id := s.ids j.vmid
  let ring := j.req.ring
  let pos := s.emitted ring
  if s.vmFlushNeeded d j then
    let f : Flush :=
      { ring := ring, pos := pos + 1, vm := j.req.vm, pd := j.req.pd, seq := s.tlbSeq j.req.vm }
    { s with
      ids := update s.ids j.vmid
        { id with
          lastFlush := some f, lastEmitted := some f, currentGpuResetCount := d.gpuResetCounter }
      job := update s.job n
        { j with ranOn := id.lastEmitted, progress := .running (pos + 2) }
      emitted := update s.emitted ring (pos + 2) }
  else
    { s with
      job := update s.job n
        { j with ranOn := id.lastEmitted, progress := .running (pos + 1) }
      emitted := update s.emitted ring (pos + 1) }

/-! ## The system -/

/-- What happens on the hub. -/
inductive Op
  | grab (req : Request) (alloc : Alloc)
  | run (n : Nat)
  | complete (ring pos : Nat)
  | update (vm : Nat)
  | reserve (vm : Nat)
  | unreserve (vm : Nat)
  deriving DecidableEq

def step (d : Device) (s : State) : Op → State
  | .grab req alloc => (vmidGrab d s req alloc).1
  | .run n => vmFlush d s n
  | .complete ring pos =>
    { s with
      completed := update s.completed ring
        (max (s.completed ring) (min pos (s.emitted ring))) }
  | .update vm => { s with tlbSeq := update s.tlbSeq vm (s.tlbSeq vm + 1) }
  | .reserve vm => vmReserve s vm
  | .unreserve vm => vmUnreserve s vm

/-- The scheduler runs the job of a ring that was given a VMID before the next one of the ring
asks, and moves an entity to another ring only when its jobs are finished. A job has a page
directory, so its address is not 0. A job that runs was given its VMID. -/
def Allowed (s : State) : Op → Prop
  | .grab req _ =>
    req.pd ≠ 0 ∧
      (∀ n < s.jobs, (s.job n).req.ring = req.ring → s.scheduled n) ∧
      ∀ n < s.jobs, (s.job n).req.entity = req.entity → ¬ s.finished n →
        (s.job n).req.ring = req.ring
  | .run n => n < s.jobs ∧ ¬ s.scheduled n
  | _ => True

instance (s : State) : ∀ op, Decidable (Allowed s op)
  | .grab _ _ => inferInstanceAs (Decidable (_ ∧ _ ∧ _))
  | .run _ => inferInstanceAs (Decidable (_ ∧ _))
  | .complete _ _ => inferInstanceAs (Decidable True)
  | .update _ => inferInstanceAs (Decidable True)
  | .reserve _ => inferInstanceAs (Decidable True)
  | .unreserve _ => inferInstanceAs (Decidable True)

/-- A VMID after `amdgpu_vmid_mgr_init`. -/
def Id.init : Id :=
  { active := [], lastFlush := none, owner := 0, pdGpuAddr := 0, flushedUpdates := 0
    currentGpuResetCount := 0, gds := ⟨0, 0, 0, 0, 0, 0⟩, lastEmitted := none }

/-- A place without a job. -/
def Job.none : Job :=
  { req := { vm := 0, pd := 0, gds := ⟨0, 0, 0, 0, 0, 0⟩, entity := 0, ring := 0
             useCpuForUpdate := false }
    vmid := 0, vmNeedsFlush := false, updates := 0, flushBefore := .none, flushSignaled := false
    ranOn := .none, progress := .granted }

/-- `amdgpu_vmid_mgr_init` for a hub with `numIds` VMIDs. -/
def State.init (d : Device) (numIds : Nat) (tlbSeq : Nat → Nat) : State :=
  let s : State :=
    { ids := fun _ => Id.init, idsLru := (List.range numIds).tail, reserved := none
      reservedUseCount := 0, reservedVmid := fun _ => false, tlbSeq := tlbSeq
      vmidWait := fun _ => none, job := fun _ => Job.none, jobs := 0
      emitted := fun _ => 0, completed := fun _ => 0 }
  if d.enforceIsolation then vmidAllocReserved s else s

end Amdkfd.Vmid

import Amdkfd.Basic
import Amdkfd.Lib.Run

/-!
# The context manager

`amdgpu_ctx.c`: an entity numbers the fences that `amdgpu_ctx_add_fence` gives it and keeps the
last `amdgpu_sched_jobs` of them in a ring of slots. The run time of a fence is read from its slot,
and goes to the sum of the manager with the fence that takes the slot or with the context. The
calls follow one another.

Results are in `CtxMgr/History.lean` and `CtxMgr/Usage.lean`.
-/

namespace Amdkfd.CtxMgr

open Lib

/-- `amdgpu_sched_jobs`, an `int` that `amdgpu_device_check_arguments` rounds up to a power of
two. -/
structure SchedJobs where
  shift : Nat
  int : shift < 31

def SchedJobs.jobs (j : SchedJobs) : Nat := 2 ^ j.shift

def SchedJobs.default : SchedJobs := ⟨5, by decide⟩

/-- `struct drm_sched_fence`, with the timestamps that its two fences have. -/
structure SFence where
  scheduled : Option Nat
  finished : Option Nat
  deriving DecidableEq, Repr

/-- `struct amdgpu_ctx_entity`. A fence is named by its index among the fences of the manager.
`history` has the fences that were added, in the order of their numbers. -/
structure Entity where
  hwIp : Nat
  sequence : Nat
  fences : List (Option Nat)
  history : List Nat
  deriving DecidableEq, Repr

/-- `struct amdgpu_ctx`. `handle` tells whether `ctx_handles` has it, and `endedAt` is the time of
`amdgpu_ctx_fini`; its entities are freed then, and stay here for the specification only. -/
structure Ctx where
  refcount : Nat
  handle : Bool
  entities : Nat → List (Option Entity)
  endedAt : Option Nat

/-- `struct amdgpu_ctx_mgr`, with all contexts and fences there have been and the clock. -/
structure Mgr where
  now : Nat
  fences : List SFence
  ctxs : List Ctx
  timeSpend : Nat → Nat

def hwIpNum : Nat := 10

def maxEntityNum : Nat := 4

def amdgpuCtxNumEntities : List Nat := [1, 4, 2, 1, 1, 1, 1, 1, 1, 1]

def numEntities (hwIp : Nat) : Nat := amdgpuCtxNumEntities[hwIp]?.getD 0

/-! ## Time -/

def amdgpuCtxFenceTime (s : Mgr) (fence : Option Nat) : Nat :=
  match fence.bind (s.fences[·]?) with
  | none => 0
  | some sFence =>
    match sFence.scheduled, sFence.finished with
    | none, _ => 0
    | some began, none => s.now - began
    | some began, some ended => ended - began

def amdgpuCtxEntityTime (s : Mgr) (e : Entity) : Nat :=
  (e.fences.map (amdgpuCtxFenceTime s)).sum

/-- The sum over the entities that a row of the table `entities` has. -/
def rowSum (f : Entity → Nat) (row : List (Option Entity)) : Nat :=
  (row.map fun e => e.elim 0 f).sum

def amdgpuCtxMgrUsage (s : Mgr) (hwIp : Nat) : Nat :=
  s.timeSpend hwIp + (s.ctxs.map fun c =>
    if c.handle then
      rowSum (amdgpuCtxEntityTime s) ((c.entities hwIp).take (numEntities hwIp))
    else 0).sum

/-! ## Fences -/

def signalled (fences : List SFence) (fence : Nat) : Bool :=
  (fences[fence]?.bind SFence.finished).isSome

def amdgpuCtxWaitPrevFence (j : SchedJobs) (s : Mgr) (e : Entity) : Bool :=
  match (e.fences[e.sequence &&& (j.jobs - 1)]?).join with
  | none => true
  | some other => signalled s.fences other

/-- `amdgpu_ctx_add_fence`: the entity behind it, the time that it adds to `time_spend`, and the
number of the fence. -/
def amdgpuCtxAddFence (j : SchedJobs) (s : Mgr) (e : Entity) (fence : Nat) : Entity × Nat × Nat :=
  let seq := e.sequence
  let idx := seq &&& (j.jobs - 1)
  let other := (e.fences[idx]?).join
  ({ e with
    fences := e.fences.set idx (some fence)
    sequence := (e.sequence + 1) % 2 ^ 64
    history := e.history ++ [fence] }, amdgpuCtxFenceTime s other, seq)

def amdgpuCtxGetFence (j : SchedJobs) (e : Entity) (seq : Nat) : Except Errno (Option Nat) :=
  let seq := if seq = 2 ^ 64 - 1 then (e.sequence + (2 ^ 64 - 1)) % 2 ^ 64 else seq
  if e.sequence ≤ seq then .error .einval
  else if (seq + j.jobs) % 2 ^ 64 < e.sequence then .ok none
  else .ok (e.fences[seq &&& (j.jobs - 1)]?).join

/-! ## Contexts -/

def Ctx.entity? (c : Ctx) (hwIp ring : Nat) : Option Entity := ((c.entities hwIp)[ring]?).join

def Ctx.setEntity (c : Ctx) (hwIp ring : Nat) (e : Entity) : Ctx :=
  { c with entities := Function.update c.entities hwIp ((c.entities hwIp).set ring (some e)) }

/-- The context behind `amdgpu_ctx_init`. -/
def Ctx.init : Ctx where
  refcount := 1
  handle := true
  entities := fun _ => List.replicate maxEntityNum none
  endedAt := none

def Entity.init (j : SchedJobs) (hwIp : Nat) : Entity where
  hwIp := hwIp
  sequence := 1
  fences := List.replicate j.jobs none
  history := []

/-- `amdgpu_ctx_get_entity`. `r` is the error of `amdgpu_ctx_init_entity`, if it has one. The state
of the scheduler entity, which may be an error too, does not matter here. -/
def amdgpuCtxGetEntity (j : SchedJobs) (c : Ctx) (hwIp inst ring : Nat) (r : Option Errno) :
    Except Errno Ctx :=
  if hwIpNum ≤ hwIp then .error .einval
  else if inst ≠ 0 then .error .einval
  else if numEntities hwIp ≤ ring then .error .einval
  else
    match c.entity? hwIp ring, r with
    | some _, _ => .ok c
    | none, some err => .error err
    | none, none => .ok (c.setEntity hwIp ring (Entity.init j hwIp))

def amdgpuCtxFini (s : Mgr) (i : Nat) (c : Ctx) : Mgr :=
  { s with
    ctxs := s.ctxs.set i { c with refcount := 0, endedAt := some s.now }
    timeSpend := fun hwIp =>
      s.timeSpend hwIp + rowSum (amdgpuCtxEntityTime s) (c.entities hwIp) }

def krefPut (s : Mgr) (i : Nat) (c : Ctx) : Mgr :=
  if c.refcount = 1 then amdgpuCtxFini s i c
  else { s with ctxs := s.ctxs.set i { c with refcount := c.refcount - 1 } }

/-- A call on a context. -/
inductive CtxOp
  | get
  | put
  | free
  | getEntity (hwIp inst ring : Nat) (r : Option Errno)
  | addFence (hwIp ring : Nat)

/-- A call, a step of the scheduler, or time that goes by. Contexts are named in the order in which
they were allocated. -/
inductive Op
  | tick (ns : Nat)
  | schedule (fence : Nat)
  | finish (fence : Nat)
  | alloc
  | ctx (i : Nat) (op : CtxOp)

def drmSchedFenceScheduled (s : Mgr) (i : Nat) (f : SFence) : Mgr :=
  match f.scheduled, f.finished with
  | none, none => { s with fences := s.fences.set i { f with scheduled := some s.now } }
  | _, _ => s

def drmSchedFenceFinished (s : Mgr) (i : Nat) (f : SFence) : Mgr :=
  match f.finished with
  | none => { s with fences := s.fences.set i { f with finished := some s.now } }
  | some _ => s

/-- What `amdgpu_cs_submit` does to an entity: `amdgpu_ctx_wait_prev_fence`, and when it is
successful `amdgpu_ctx_add_fence` with the fence of the new job. -/
def submit (j : SchedJobs) (s : Mgr) (i : Nat) (c : Ctx) (hwIp ring : Nat) (e : Entity) : Mgr :=
  if amdgpuCtxWaitPrevFence j s e then
    let added := amdgpuCtxAddFence j s e s.fences.length
    { s with
      fences := s.fences ++ [⟨none, none⟩]
      ctxs := s.ctxs.set i (c.setEntity hwIp ring added.1)
      timeSpend := Function.update s.timeSpend e.hwIp (s.timeSpend e.hwIp + added.2.1) }
  else s

/-- A call on a context that has not ended. `amdgpu_ctx_put` comes only from a caller of
`amdgpu_ctx_get`, so it leaves the reference of the handle. -/
def ctxStep (j : SchedJobs) (s : Mgr) (i : Nat) (c : Ctx) : CtxOp → Mgr
  | .get =>
    if c.handle then { s with ctxs := s.ctxs.set i { c with refcount := c.refcount + 1 } } else s
  | .put => if c.handle ∧ c.refcount = 1 then s else krefPut s i c
  | .free => if c.handle then krefPut s i { c with handle := false } else s
  | .getEntity hwIp inst ring r =>
    match amdgpuCtxGetEntity j c hwIp inst ring r with
    | .ok c => { s with ctxs := s.ctxs.set i c }
    | .error _ => s
  | .addFence hwIp ring =>
    match c.entity? hwIp ring with
    | some e => submit j s i c hwIp ring e
    | none => s

def step (j : SchedJobs) (s : Mgr) : Op → Mgr
  | .tick ns => { s with now := s.now + ns }
  | .schedule f => (s.fences[f]?).elim s (drmSchedFenceScheduled s f)
  | .finish f => (s.fences[f]?).elim s (drmSchedFenceFinished s f)
  | .alloc => { s with ctxs := s.ctxs ++ [Ctx.init] }
  | .ctx i op =>
    match s.ctxs[i]? with
    | some c => if c.refcount = 0 then s else ctxStep j s i c op
    | none => s

def Mgr.init : Mgr where
  now := 0
  fences := []
  ctxs := []
  timeSpend := fun _ => 0

end Amdkfd.CtxMgr

import Amdkfd.Basic
import Amdkfd.Lib.Run

/-!
# Sync objects

`amdgpu_sync.c`: a sync object is a hash table of fences, with one entry for each fence context.
A fence is known by its context and its sequence number; the fences of a context signal in the
order of their numbers.
-/

namespace Amdkfd.AmdgpuSync

/-! ## Fences -/

/-- What `dma_fence_is_later` and `dma_fence_is_signaled` read of a fence. -/
structure FenceId where
  context : Nat
  seqno : Nat
  deriving DecidableEq

/-- `struct drm_sched_fence`. The owner is a pointer value. -/
structure SchedFence where
  owner : Nat
  adev : Nat
  ring : Nat
  scheduled : FenceId
  deriving DecidableEq

/-- `struct dma_fence`, with what `to_drm_sched_fence` and `to_amdgpu_amdkfd_fence` find. -/
structure Fence extends FenceId where
  sFence : Option SchedFence := none
  kfdFence : Bool := false
  deriving DecidableEq

/-- The signalled fences: those of context `c` whose number is below `upTo c`. -/
abbrev Signals := Nat → Nat

def Signaled (upTo : Signals) (f : FenceId) : Prop := f.seqno < upTo f.context
  deriving Decidable

def signal (upTo : Signals) (f : FenceId) : Signals :=
  fun c => if c = f.context then max (upTo c) (f.seqno + 1) else upTo c

def NotLater (f e : FenceId) : Prop := f.context = e.context ∧ f.seqno ≤ e.seqno
  deriving Decidable

def isLater (f e : FenceId) : Bool := e.seqno < f.seqno

/-! ## The table -/

/-- What happened to a sync object. -/
inductive Event
  | add (f : Fence)
  | handOut (f : Fence)
  deriving DecidableEq

def added : List Event → List Fence
  | [] => []
  | .add f :: log => f :: added log
  | .handOut _ :: log => added log

/-- The fences that `amdgpu_sync_get_fence` handed out. -/
def handedOut : List Event → List Fence
  | [] => []
  | .add _ :: log => handedOut log
  | .handOut f :: log => f :: handedOut log

/-- The fences that were added, without those of which the same or a later one was handed out
afterwards. -/
def owed : List Event → List Fence
  | [] => []
  | .add f :: log => f :: owed log
  | .handOut f :: log => (owed log).filter fun g => ¬ NotLater g.toFenceId f.toFenceId

/-- The bits of `DECLARE_HASHTABLE(fences, 4)`. -/
def hashBits : Nat := 4

def hash (context : Nat) : Nat := hash64 context hashBits

theorem hash_lt (context : Nat) : hash context < 2 ^ hashBits := hash64_lt context (by decide)

/-- `struct amdgpu_sync`. The log is a ghost. -/
structure Sync where
  fences : Nat → List Fence
  log : List Event

def create : Sync := { fences := fun _ => [], log := [] }

def Sync.entries (s : Sync) : List Fence := (List.range (2 ^ hashBits)).flatMap s.fences

def Sync.setBucket (s : Sync) (i : Nat) (es : List Fence) : Sync :=
  { s with fences := fun k => if k = i then es else s.fences k }

def Sync.entryFree (s : Sync) (e : Fence) : Sync :=
  s.setBucket (hash e.context) ((s.fences (hash e.context)).erase e)

def keepLater (keep fence : Fence) : Fence :=
  if isLater keep.toFenceId fence.toFenceId then keep else fence

/-- The loop of `amdgpu_sync_add_later` over a bucket. -/
def addLater (f : Fence) : List Fence → Option (List Fence)
  | [] => none
  | e :: es =>
    if e.context ≠ f.context then (addLater f es).map (e :: ·) else some (keepLater e f :: es)

/-- `amdgpu_sync_fence`. `alloc` is what `kmem_cache_alloc` does. -/
def syncFence (s : Sync) (f : Option Fence) (alloc : Fence → Bool) : Sync × Option Errno :=
  match f with
  | none => (s, none)
  | some f =>
    let i := hash f.context
    match addLater f (s.fences i) with
    | some es => ({ s.setBucket i es with log := .add f :: s.log }, none)
    | none =>
      if alloc f then ({ s.setBucket i (f :: s.fences i) with log := .add f :: s.log }, none)
      else (s, some .enomem)

/-! ## Reservation objects -/

/-- `AMDGPU_FENCE_OWNER_UNDEFINED`, `AMDGPU_FENCE_OWNER_VM` and `AMDGPU_FENCE_OWNER_KFD`. -/
def ownerUndefined : Nat := 0
def ownerVm : Nat := 1
def ownerKfd : Nat := 2

/-- `amdgpu_sync_same_dev`. -/
def sameDev (adev : Nat) (f : Fence) : Bool :=
  match f.sFence with
  | some s => s.adev = adev
  | none => false

/-- `amdgpu_sync_get_owner`. -/
def getOwner (f : Fence) : Nat :=
  match f.sFence with
  | some s => s.owner
  | none => if f.kfdFence then ownerKfd else ownerUndefined

/-- `enum amdgpu_sync_mode`. -/
inductive Mode
  | always
  | neOwner
  | eqOwner
  | explicit
  deriving DecidableEq

def testFence (adev : Nat) (mode : Mode) (owner : Nat) (f : Fence) : Bool :=
  let fenceOwner := getOwner f
  if fenceOwner = ownerUndefined then true
  else if fenceOwner = ownerKfd ∧ owner ≠ ownerUndefined then false
  else if fenceOwner = ownerVm ∧ owner ≠ ownerUndefined ∧ owner ≠ ownerKfd then false
  else
    match mode with
    | .always => true
    | .neOwner => ¬ (sameDev adev f ∧ fenceOwner = owner)
    | .eqOwner => ¬ (sameDev adev f ∧ fenceOwner ≠ owner)
    | .explicit => false

/-- A fence on the walk of `dma_fence_chain_for_each`, with the one it contains. -/
structure Link where
  fence : Fence
  contained : Fence
  deriving DecidableEq

/-- The walk of one fence of the reservation object. -/
def resvChain (adev : Nat) (mode : Mode) (owner : Nat) (alloc : Fence → Bool) :
    List Link → Sync → Sync × Option Errno
  | [], s => (s, none)
  | l :: ls, s =>
    if testFence adev mode owner l.contained then syncFence s (some l.fence) alloc
    else resvChain adev mode owner alloc ls s

def resvLoop (adev : Nat) (mode : Mode) (owner : Nat) (alloc : Fence → Bool) :
    List (List Link) → Sync → Sync × Option Errno
  | [], s => (s, none)
  | c :: cs, s =>
    match resvChain adev mode owner alloc c s with
    | (s, some r) => (s, some r)
    | (s, none) => resvLoop adev mode owner alloc cs s

def syncResv (adev : Nat) (s : Sync) (resv : Option (List (List Link))) (mode : Mode)
    (owner : Nat) (alloc : Fence → Bool) : Sync × Option Errno :=
  match resv with
  | none => (s, some .einval)
  | some cs => resvLoop adev mode owner alloc cs s

/-! ## Taking fences out -/

def peekLoop (upTo : Signals) (ring : Option Nat) : List Fence → Sync → Sync × Option FenceId
  | [], s => (s, none)
  | f :: es, s =>
    if Signaled upTo f.toFenceId then peekLoop upTo ring es (s.entryFree f)
    else
      match ring, f.sFence with
      | some r, some sf =>
        -- a fence of the same ring only has to be scheduled
        if sf.ring = r then
          if Signaled upTo sf.scheduled then peekLoop upTo ring es s else (s, some sf.scheduled)
        else (s, some f.toFenceId)
      | _, _ => (s, some f.toFenceId)

def peekFence (upTo : Signals) (s : Sync) (ring : Option Nat) : Sync × Option FenceId :=
  peekLoop upTo ring s.entries s

def getLoop (upTo : Signals) : List Fence → Sync → Sync × Option Fence
  | [], s => (s, none)
  | f :: es, s =>
    let s := s.entryFree f
    if ¬ Signaled upTo f.toFenceId then ({ s with log := .handOut f :: s.log }, some f)
    else getLoop upTo es s

def getFence (upTo : Signals) (s : Sync) : Sync × Option Fence := getLoop upTo s.entries s

/-- The loop of `amdgpu_sync_wait`. `wait` is what `dma_fence_wait` returns; it returns without an
error when the fence is signalled. -/
def waitLoop (wait : Fence → Option Errno) :
    List Fence → Signals × Sync → (Signals × Sync) × Option Errno
  | [], x => (x, none)
  | e :: es, (upTo, s) =>
    match wait e with
    | some r => ((upTo, s), some r)
    | none => waitLoop wait es (signal upTo e.toFenceId, s.entryFree e)

def syncWait (upTo : Signals) (s : Sync) (wait : Fence → Option Errno) :
    (Signals × Sync) × Option Errno :=
  waitLoop wait s.entries (upTo, s)

/-! ## Copies -/

structure State where
  sync : Nat → Sync
  deps : Nat → List FenceId
  upTo : Signals

def State.setSync (st : State) (i : Nat) (s : Sync) : State :=
  { st with sync := fun k => if k = i then s else st.sync k }

def cloneLoop (source clone : Nat) (alloc : Fence → Bool) :
    List Fence → State → State × Option Errno
  | [], st => (st, none)
  | f :: es, st =>
    if ¬ Signaled st.upTo f.toFenceId then
      match syncFence (st.sync clone) (some f) alloc with
      | (c, some r) => (st.setSync clone c, some r)
      | (c, none) => cloneLoop source clone alloc es (st.setSync clone c)
    else cloneLoop source clone alloc es (st.setSync source ((st.sync source).entryFree f))

/-- `amdgpu_sync_clone`. A copy that succeeds stands for all that was added to the source. -/
def syncClone (st : State) (source clone : Nat) (alloc : Fence → Bool) : State × Option Errno :=
  match cloneLoop source clone alloc (st.sync source).entries st with
  | (st', some r) => (st', some r)
  | (st', none) =>
    let c := st'.sync clone
    (st'.setSync clone { c with log := (owed (st.sync source).log).map Event.add ++ c.log }, none)

/-- `drm_sched_job_add_dependency`: the dependencies of a job after a fence is added, if that
succeeds. -/
abbrev AddDependency := List FenceId → FenceId → Option (List FenceId)

def pushLoop (add : AddDependency) (upTo : Signals) :
    List Fence → Sync × List FenceId → (Sync × List FenceId) × Option Errno
  | [], x => (x, none)
  | f :: es, (s, deps) =>
    if Signaled upTo f.toFenceId then pushLoop add upTo es (s.entryFree f, deps)
    else
      match add deps f.toFenceId with
      | none => ((s, deps), some .enomem)
      | some deps => pushLoop add upTo es (s, deps)

def pushToJob (add : AddDependency) (upTo : Signals) (s : Sync) (deps : List FenceId) :
    (Sync × List FenceId) × Option Errno :=
  pushLoop add upTo s.entries (s, deps)

/-! ## Runs -/

/-- The calls, with what the kernel around them answers, and the signalling of a fence. -/
inductive Op
  | fence (i : Nat) (f : Option Fence) (alloc : Fence → Bool)
  | resv (adev i : Nat) (resv : Option (List (List Link))) (mode : Mode) (owner : Nat)
      (alloc : Fence → Bool)
  | peek (i : Nat) (ring : Option Nat)
  | get (i : Nat)
  | clone (source clone : Nat) (alloc : Fence → Bool)
  | pushToJob (i job : Nat)
  | wait (i : Nat) (wait : Fence → Option Errno)
  | signal (f : FenceId)

def step (add : AddDependency) (st : State) : Op → State
  | .fence i f alloc => st.setSync i (syncFence (st.sync i) f alloc).1
  | .resv adev i resv mode owner alloc =>
    st.setSync i (syncResv adev (st.sync i) resv mode owner alloc).1
  | .peek i ring => st.setSync i (peekFence st.upTo (st.sync i) ring).1
  | .get i => st.setSync i (getFence st.upTo (st.sync i)).1
  | .clone source clone alloc => (syncClone st source clone alloc).1
  | .pushToJob i job =>
    let r := (pushToJob add st.upTo (st.sync i) (st.deps job)).1
    { st.setSync i r.1 with deps := fun k => if k = job then r.2 else st.deps k }
  | .wait i wait =>
    let r := (syncWait st.upTo (st.sync i) wait).1
    { st.setSync i r.2 with upTo := r.1 }
  | .signal f => { st with upTo := signal st.upTo f }

def init (upTo : Signals) : State :=
  { sync := fun _ => create, deps := fun _ => [], upTo := upTo }

end Amdkfd.AmdgpuSync

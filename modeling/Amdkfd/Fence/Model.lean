import Amdkfd.Lib.Run
import Mathlib.Algebra.Ring.Nat

/-!
# The fence driver of a ring

`amdgpu_fence.c`: a ring numbers its fences with a 32-bit counter and keeps the ones that are not
signalled in a table of twice `num_hw_submission` slots. The hardware writes the number of the
last fence it has reached, and `amdgpu_fence_process` signals what lies in between.

An emission, the calls of `amdgpu_fence_process` and those of `amdgpu_fence_wait_empty` run at the
same time: one step of the model is one access to what they share. Emissions of one ring exclude
each other.
-/

namespace Amdkfd.FenceDriver

open Lib

/-- `num_hw_submission` of a ring. `amdgpu_fence_driver_init_ring` checks that it is a power of
two; `amdgpu_ring_init` has it from an `int`. -/
structure Ring where
  numHwSubmission : Nat
  isPowerOf2 : ∃ k, numHwSubmission = 2 ^ k
  isInt : numHwSubmission < 2 ^ 31

/-- With the default of `amdgpu_sched_hw_submission`. -/
def Ring.default : Ring := ⟨2, ⟨1, rfl⟩, by decide⟩

def Ring.numFencesMask (r : Ring) : Nat := r.numHwSubmission * 2 - 1

def Ring.slots (r : Ring) : Nat := r.numHwSubmission * 2

/-- A hardware fence: a separate one, or the one in a job. `num` is the number that it would have
if the counter had no end; it tells the fences of a run apart. -/
structure Fence where
  num : Nat
  seqno : Nat
  embedded : Bool
  deriving DecidableEq

/-- `amdgpu_fence_emit` on its way: it has taken a number; it has read the slot. -/
inductive Emit
  | idle
  | begun (fence : Fence)
  | loaded (fence : Fence) (old : Option Fence)
  deriving DecidableEq

/-- A call of `amdgpu_fence_process`: before its loop or one turn of it, after each of the reads,
in the slots, with a fence in its hands, and through. `last` and `hw` are the numbers behind
`lastSeq` and `seq` without end, `cur` and `upto` those behind the masked ones. -/
inductive Process
  | idle
  | readLast (lastSeq last : Nat)
  | readSeq (lastSeq seq last hw : Nat)
  | scan (lastSeq seq cur upto : Nat)
  | taken (lastSeq seq : Nat) (fence : Fence) (cur upto : Nat)
  | done
  deriving DecidableEq

/-- A call of `amdgpu_fence_wait_empty`. `num` fences were emitted before it. -/
inductive Wait
  | idle
  | read (seq num : Nat)
  | waiting (fence : Fence) (num : Nat)
  | done
  deriving DecidableEq

/-- `struct amdgpu_fence_driver` with the value at `cpu_addr`, and the calls on it. `signals` lists
the fences of the `dma_fence_signal` calls. The rest is the record of the run: how many fences have
a number, have their slot, are committed; the numbers the hardware wrote last and `last_seq` stands
for; which calls of `amdgpu_fence_process` came out of their loop with which number, latest first;
the unsignalled fences that lost their slot; and for each `0` of `amdgpu_fence_wait_empty` the
fences emitted before the call. -/
structure State where
  syncSeq : Nat
  lastSeq : Nat
  cpu : Nat
  fences : Nat → Option Fence
  emit : Emit
  process : Nat → Process
  wait : Nat → Wait
  signals : List Nat
  emitted : Nat
  stored : Nat
  committed : Nat
  written : Nat
  passed : Nat
  reads : List (Nat × Nat)
  overwritten : List Nat
  returned : List Nat

/-- After `amdgpu_fence_driver_init_ring` and `amdgpu_fence_driver_start_ring`. -/
def init : State :=
  { syncSeq := 0, lastSeq := 0, cpu := 0, fences := fun _ => none, emit := .idle
    process := fun _ => .idle, wait := fun _ => .idle, signals := [], emitted := 0, stored := 0
    committed := 0, written := 0, passed := 0, reads := [], overwritten := [], returned := [] }

def State.setFence (s : State) (k : Nat) (f : Option Fence) : State :=
  { s with fences := fun i => if i = k then f else s.fences i }

def State.setProcess (s : State) (i : Nat) (p : Process) : State :=
  { s with process := fun j => if j = i then p else s.process j }

def State.setWait (s : State) (w : Nat) (p : Wait) : State :=
  { s with wait := fun j => if j = w then p else s.wait j }

/-! ## `amdgpu_fence_emit` -/

/-- Up to the packet in the ring. Without a job the fence has to be allocated; `job` is the
`job_run_counter` of the job. A job that is run again brings a fence that has left its slot. -/
def emitBegin (s : State) (job : Option Nat) (alloc : Bool) : State :=
  match s.emit with
  | .idle =>
    if job = none ∧ alloc = false then s
    else
      let seq := (s.syncSeq + 1) % 2 ^ 32
      { s with syncSeq := seq, emitted := s.emitted + 1
               emit := .begun { num := s.emitted + 1, seqno := seq, embedded := job.isSome } }
  | _ => s

/-- The read of the slot. -/
def emitLoad (r : Ring) (s : State) : State :=
  match s.emit with
  | .begun f => { s with emit := .loaded f (s.fences (f.seqno &&& r.numFencesMask)) }
  | _ => s

def Signalled (s : State) (f : Fence) : Prop := f.num ∈ s.signals
  deriving Decidable

/-- The fences that an overwrite of the slot would lose. -/
def lostAt (s : State) (k : Nat) : List Nat :=
  match s.fences k with
  | some g => if Signalled s g then [] else [g.num]
  | none => []

/-- The end of `dma_fence_wait` for the old fence, and the write of the slot. -/
def emitStore (r : Ring) (s : State) : State :=
  match s.emit with
  | .loaded f old =>
    if ∀ o ∈ old, Signalled s o then
      let k := f.seqno &&& r.numFencesMask
      { s.setFence k (some f) with
          emit := .idle, stored := f.num, overwritten := lostAt s k ++ s.overwritten }
    else s
  | _ => s

/-- `amdgpu_ring_commit`, which the emitter calls between its emissions. -/
def commit (s : State) : State :=
  match s.emit with
  | .idle => { s with committed := s.stored }
  | _ => s

def hwWrite (s : State) (n : Nat) : State :=
  if s.written ≤ n ∧ n ≤ s.committed then { s with written := n, cpu := n % 2 ^ 32 } else s

/-! ## `amdgpu_fence_process` -/

def processReadLast (s : State) (i : Nat) : State :=
  match s.process i with
  | .idle => s.setProcess i (.readLast s.lastSeq s.passed)
  | _ => s

def processReadSeq (s : State) (i : Nat) : State :=
  match s.process i with
  | .readLast lastSeq last => s.setProcess i (.readSeq lastSeq s.cpu last s.written)
  | _ => s

/-- `atomic_cmpxchg`, and what follows up to the slots. -/
def processXchg (r : Ring) (s : State) (i : Nat) : State :=
  match s.process i with
  | .readSeq lastSeq seq last hw =>
    if s.lastSeq = lastSeq then
      let s := { s with lastSeq := seq, passed := hw, reads := (i, hw) :: s.reads }
      if seq = lastSeq then s.setProcess i .done
      else s.setProcess i (.scan (lastSeq &&& r.numFencesMask) (seq &&& r.numFencesMask) last hw)
    else s.setProcess i .idle
  | _ => s

/-- `while (last_seq != seq)`. -/
def nextSlot (lastSeq seq cur upto : Nat) : Process :=
  if lastSeq ≠ seq then .scan lastSeq seq cur upto else .done

def processSlot (r : Ring) (s : State) (i : Nat) : State :=
  match s.process i with
  | .scan lastSeq seq cur upto =>
    let lastSeq := (lastSeq + 1) % 2 ^ 32 &&& r.numFencesMask
    let fence := s.fences lastSeq
    let s := s.setFence lastSeq none
    match fence with
    | none => s.setProcess i (nextSlot lastSeq seq (cur + 1) upto)
    | some f => s.setProcess i (.taken lastSeq seq f (cur + 1) upto)
  | _ => s

def processSignal (s : State) (i : Nat) : State :=
  match s.process i with
  | .taken lastSeq seq f cur upto =>
    { s.setProcess i (nextSlot lastSeq seq cur upto) with signals := f.num :: s.signals }
  | _ => s

/-! ## `amdgpu_fence_wait_empty` and `amdgpu_fence_count_emitted` -/

/-- `amdgpu_fence_wait_empty` returns `0`. -/
def waitReturn (s : State) (w num : Nat) : State :=
  { s.setWait w .done with returned := num :: s.returned }

def waitStart (s : State) (w : Nat) : State :=
  match s.wait w with
  | .idle =>
    if s.syncSeq = 0 then waitReturn s w s.emitted
    else s.setWait w (.read s.syncSeq s.emitted)
  | _ => s

/-- Reads the slot. A `dma_fence_get_rcu` that fails has met a signalled fence. -/
def waitSlot (r : Ring) (s : State) (w : Nat) : State :=
  match s.wait w with
  | .read seq num =>
    match s.fences (seq &&& r.numFencesMask) with
    | none => waitReturn s w num
    | some f => s.setWait w (.waiting f num)
  | _ => s

/-- The end of `dma_fence_wait`. -/
def waitDone (s : State) (w : Nat) : State :=
  match s.wait w with
  | .waiting f num => if Signalled s f then waitReturn s w num else s
  | _ => s

def countEmitted (s : State) : Nat := (0x100000000 - s.lastSeq + s.syncSeq) % 2 ^ 32

/-! ## Runs -/

inductive Op
  | emitBegin (job : Option Nat) (alloc : Bool)
  | emitLoad
  | emitStore
  | commit
  | hwWrite (n : Nat)
  | processReadLast (i : Nat)
  | processReadSeq (i : Nat)
  | processXchg (i : Nat)
  | processSlot (i : Nat)
  | processSignal (i : Nat)
  | waitStart (w : Nat)
  | waitSlot (w : Nat)
  | waitDone (w : Nat)
  deriving DecidableEq

def step (r : Ring) (s : State) : Op → State
  | .emitBegin job alloc => emitBegin s job alloc
  | .emitLoad => emitLoad r s
  | .emitStore => emitStore r s
  | .commit => commit s
  | .hwWrite n => hwWrite s n
  | .processReadLast i => processReadLast s i
  | .processReadSeq i => processReadSeq s i
  | .processXchg i => processXchg r s i
  | .processSlot i => processSlot r s i
  | .processSignal i => processSignal s i
  | .waitStart w => waitStart s w
  | .waitSlot w => waitSlot r s w
  | .waitDone w => waitDone s w

/-! ## What the fence driver promises -/

/-- The first call of `amdgpu_fence_process` that came out of its loop with a number from `n` on. -/
def firstReader (n : Nat) : List (Nat × Nat) → Option Nat
  | [] => none
  | (i, m) :: older =>
    match firstReader n older with
    | some j => some j
    | none => if n ≤ m then some i else none

/-- What holds in every state: no fence is signalled twice or before the hardware wrote its number
or a later one; one that a finished call was the first to read about is signalled; no unsignalled
fence has lost its slot; the count is that of the fences that `last_seq` has not passed; and when
`amdgpu_fence_wait_empty` returned `0` the fences emitted before it were signalled. -/
structure Right (s : State) : Prop where
  once : s.signals.Nodup
  notEarly : ∀ n ∈ s.signals, 0 < n ∧ n ≤ s.written
  inTime : ∀ n i, 0 < n → n ≤ s.emitted → firstReader n s.reads = some i →
    s.process i = .done → n ∈ s.signals
  kept : s.overwritten = []
  count : countEmitted s = s.emitted - s.passed ∧ s.passed ≤ s.emitted
  empty : ∀ m ∈ s.returned, ∀ n, 0 < n → n ≤ m → n ∈ s.signals

end Amdkfd.FenceDriver

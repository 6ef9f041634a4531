import Amdkfd.Lib.Run
import Mathlib.Algebra.Ring.Nat

/-!
# The eviction of userptr BOs

`amdgpu_amdkfd_gpuvm.c`: an MMU notification about a userptr BO stops the user queues of the
process, and a worker fetches the pages again, updates the page tables and starts the queues. The
notifications only take `notifier_lock`; the worker, the calls that allocate, map or free a BO and
those of CRIU hold the lock of the process, and exclude each other. One step of the model is what
happens under `notifier_lock`, or between two such parts.
-/

namespace Amdkfd.Userptr

open Lib

/-- What a mapped address of a BO leads to: nothing; the user pages as they were after so many
invalidations; or what is in a page list without pages. -/
inductive Pte
  | clear
  | page (n : Nat)
  | wild
  deriving DecidableEq

/-- `KFD_MEM_ATT_SHARED` uses the DMA mapping of the BO, `KFD_MEM_ATT_USERPTR` makes one from its
page list. -/
inductive AttType
  | shared
  | userptr
  deriving DecidableEq

/-- An attachment whose VM has a mapping of the BO. `isMapped` stays false where `vm_update_pds` has
failed behind the page table entries; the worker and an unmap pass over such an attachment. -/
structure Att where
  vm : Nat
  type : AttType
  pte : Pte
  isMapped : Bool
  deriving DecidableEq

/-- A userptr BO with its `kgd_mem`. `gen` counts the invalidations of its pages, `seq` is the
sequence number of its notifier. `range` has the sequence number of the HMM range, `pages` the
`gen` of the pages in `ttm->pages`, `bound` that of the pages with a DMA address; `inSystem` is
`TTM_PL_SYSTEM`. -/
structure Mem where
  gen : Nat
  seq : Nat
  invalid : Nat
  range : Option Nat
  pages : Option Nat
  inSystem : Bool
  bound : Option Nat
  atts : List Att
  deriving DecidableEq

/-- The part of `amdgpu_amdkfd_restore_userptr_worker` that comes next. `saved` is its
`evicted_bos`. -/
inductive Worker
  | idle
  | started (saved : Nat)
  | update (saved : Nat) (todo : List Nat)
  | fetching (saved b invalid : Nat) (todo : List Nat)
  | fetched (saved b invalid : Nat) (todo : List Nat)
  | validate (saved : Nat) (todo : List Nat)
  | final (saved : Nat)
  deriving DecidableEq

/-- The worker holds the lock of the process. -/
def Worker.Locked : Worker → Bool
  | .idle => false
  | .started _ => false
  | _ => true

/-- The other calls that hold the lock of the process while notifications come: a map call, which
has read whether the BO is invalid, and `init_user_pages`. -/
inductive Task
  | none
  | map (b vm : Nat) (type : AttType) (isInvalid : Bool)
  | init (b : Nat)
  | initFetched (b : Nat)
  deriving DecidableEq

/-- `struct amdkfd_process_info` and its userptr BOs. `refs` counts the evictions of the user queues
by the notifications and by a CRIU restore, `credits` those of a CRIU restore that has not blocked
the notifications yet; `gone` says that the process has exited; `outstanding` that there was a
notification since the queues were last resumed. `detached` has the BOs that a free has taken off the
lists, `freeing` the one of them that still has its notifier. -/
structure State where
  evictedBos : Nat
  blocked : Bool
  validList : List Nat
  invalList : List Nat
  detached : List Nat
  freeing : Option Nat
  mem : Nat → Mem
  refs : Nat
  credits : Nat
  pending : Bool
  worker : Worker
  task : Task
  gone : Bool
  outstanding : Bool

def Mem.empty : Mem :=
  { gen := 0, seq := 0, invalid := 0, range := none, pages := none, inSystem := true
    bound := none, atts := [] }

def init : State :=
  { evictedBos := 0, blocked := false, validList := [], invalList := [], detached := []
    freeing := none, mem := fun _ => Mem.empty, refs := 0, credits := 0, pending := false
    worker := .idle, task := .none, gone := false, outstanding := false }

def State.setMem (s : State) (b : Nat) (m : Mem) : State :=
  { s with mem := fun i => if i = b then m else s.mem i }

def Live (s : State) (b : Nat) : Prop := b ∈ s.validList ∨ b ∈ s.invalList
  deriving Decidable

/-- A notification about the BO gets to the driver. -/
def Notified (s : State) (b : Nat) : Prop := Live s b ∨ s.freeing = some b
  deriving Decidable

def Unlocked (s : State) : Prop := s.worker.Locked = false ∧ s.task = .none
  deriving Decidable

/-! ## Notifications -/

/-- `amdgpu_amdkfd_evict_userptr`, with the change of the pages that it is about. Without a notifier
the pages change all the same. -/
def evictUserptr (s : State) (b : Nat) (quiesceOk : Bool) : State :=
  let m := s.mem b
  if ¬ Notified s b ∨ s.blocked then s.setMem b { m with gen := m.gen + 1 }
  else
    let evicted := (s.evictedBos + 1) % 2 ^ 32
    let s := s.setMem b
      { m with gen := m.gen + 1, seq := m.seq + 1, invalid := (m.invalid + 1) % 2 ^ 32 }
    let s := { s with evictedBos := evicted, outstanding := true }
    if evicted = 1 then
      { s with pending := true, refs := if quiesceOk then s.refs + 1 else s.refs }
    else s

/-! ## `init_user_pages` and the end of a BO -/

/-- Up to the registration of the notifier; a BO that CRIU restores is left for the worker. -/
def initBegin (s : State) (b : Nat) (criuResume : Bool) : State :=
  if Live s b ∨ b ∈ s.detached ∨ s.freeing ≠ none ∨ ¬ Unlocked s then s
  else
    let s := { s with validList := s.validList ++ [b] }
    if criuResume then s.setMem b { Mem.empty with invalid := 1 }
    else { s.setMem b Mem.empty with task := .init b }

/-- A BO whose pages or whose validation fails does not come to be. -/
def removeBo (s : State) (b : Nat) : State :=
  { s with validList := s.validList.filter (· ≠ b), invalList := s.invalList.filter (· ≠ b) }

def initFetch (s : State) (ok : Bool) : State :=
  match s.task with
  | .init b =>
    if ok then
      { s.setMem b { s.mem b with pages := some (s.mem b).gen } with task := .initFetched b }
    else { removeBo s b with task := .none }
  | _ => s

/-- `ttm_bo_validate` to the GTT domain: a BO in the system domain gets its DMA addresses. -/
def Mem.bind (m : Mem) : Mem :=
  if m.inSystem then { m with inSystem := false, bound := m.pages } else m

def initValidate (s : State) (ok : Bool) : State :=
  match s.task with
  | .initFetched b =>
    if ok then { s.setMem b (s.mem b).bind with task := .none }
    else { removeBo s b with task := .none }
  | _ => s

/-- `amdgpu_amdkfd_gpuvm_free_memory_of_gpu` up to `list_del`: not while the BO is mapped. From here to
`freeEnd` the mutex of the process keeps out the calls that allocate and map. A second free of a BO
that has stayed would take it off a list that it is not on; there is no such step. -/
def freeBegin (s : State) (b : Nat) : State :=
  if Live s b ∧ Unlocked s ∧ s.freeing = none ∧ ∀ a ∈ (s.mem b).atts, a.isMapped = false then
    { removeBo s b with detached := b :: s.detached, freeing := some b }
  else s

/-- `amdgpu_hmm_unregister`, and `reserve_bo_and_cond_vms`. When that fails the BO stays, with its
handle and without a notifier. -/
def freeEnd (s : State) (ok : Bool) : State :=
  match s.freeing with
  | some b =>
    { s with
      freeing := none, detached := if ok then s.detached.filter (· ≠ b) else s.detached }
  | none => s

/-! ## Mapping -/

/-- What `update_gpuvm_pte` writes. -/
def Mem.pte (m : Mem) : AttType → Pte
  | .shared =>
    if m.inSystem then .clear
    else
      match m.bound with
      | some n => .page n
      | none => .wild
  | .userptr =>
    match m.pages with
    | some n => .page n
    | none => .wild

/-- `amdgpu_amdkfd_gpuvm_map_memory_to_gpu`, up to the look at `mem->invalid`. -/
def mapBegin (s : State) (b vm : Nat) (type : AttType) : State :=
  if (Live s b ∨ b ∈ s.detached) ∧ s.freeing = none ∧ Unlocked s then
    { s with task := .map b vm type (decide ((s.mem b).invalid ≠ 0)) }
  else s

/-- The page table entries of a BO that is invalid or not validated are left for the worker. -/
def Mem.mapPte (m : Mem) (type : AttType) (isInvalid : Bool) : Pte :=
  if isInvalid || m.inSystem then .clear else m.pte type

/-- How the rest of the call ends: it fails and has taken back what it did, `vm_update_pds` fails, it
succeeds. -/
inductive MapEnd
  | fails
  | pdsFails
  | ok
  deriving DecidableEq

/-- A VM that has a mapping of the BO gets no second one. -/
def mapEnd (s : State) (r : MapEnd) : State :=
  match s.task with
  | .map b vm type isInvalid =>
    let m := s.mem b
    if r = .fails ∨ m.atts.any (·.vm = vm) then { s with task := .none }
    else
      let a := { vm := vm, type := type, pte := m.mapPte type isInvalid, isMapped := r = .ok }
      { s.setMem b { m with atts := a :: m.atts } with task := .none }
  | _ => s

/-- `amdgpu_amdkfd_gpuvm_unmap_memory_from_gpu`, which does not take the lock of the process. -/
def unmap (s : State) (b vm : Nat) : State :=
  s.setMem b
    { s.mem b with atts := (s.mem b).atts.filter fun a => ¬ (a.vm = vm ∧ a.isMapped = true) }

/-! ## CRIU -/

/-- `criu_restore` evicts the queues. -/
def criuRestore (s : State) : State := { s with refs := s.refs + 1, credits := s.credits + 1 }

/-- `amdgpu_amdkfd_block_mmu_notifications`, later in `criu_restore`. -/
def blockMmuNotifications (s : State) : State :=
  if 0 < s.credits ∧ Unlocked s then { s with blocked := true, credits := s.credits - 1 } else s

def criuResume (s : State) : State :=
  if ¬ Unlocked s then s
  else
    let s := { s with evictedBos := (s.evictedBos + 1) % 2 ^ 32 }
    if ¬ s.blocked then s else { s with blocked := false, pending := true }

/-! ## `amdgpu_amdkfd_restore_userptr_worker` -/

/-- Up to the lock of the process. A process that has exited is left alone. -/
def workerStart (s : State) : State :=
  match s.worker with
  | .idle =>
    if s.pending = false then s
    else if s.evictedBos = 0 ∨ s.gone then { s with pending := false }
    else { s with pending := false, worker := .started s.evictedBos }
  | _ => s

/-- The lock of the process, and the first part of `update_invalid_user_pages`. -/
def workerLock (s : State) : State :=
  match s.worker with
  | .started saved =>
    if s.task ≠ .none then s
    else
      let inval := s.invalList ++ s.validList.filter fun b => (s.mem b).invalid ≠ 0
      { s with
        validList := s.validList.filter fun b => (s.mem b).invalid = 0
        invalList := inval, worker := .update saved inval }
  | _ => s

/-- The next BO of `update_invalid_user_pages`; behind the last one, `validate_invalid_user_pages`
is called if the list has BOs. -/
def workerNext (s : State) : State :=
  match s.worker with
  | .update saved [] =>
    { s with worker := if s.invalList = [] then .final saved else .validate saved s.invalList }
  | .update saved (b :: todo) =>
    let m := s.mem b
    if m.invalid = 0 then { s with worker := .update saved todo }
    else { s.setMem b { m with range := none } with worker := .fetching saved b m.invalid todo }
  | _ => s

def retry (s : State) : State := { s with worker := .idle, pending := true }

/-- How the move to the system domain and `amdgpu_ttm_tt_get_user_pages` end: the first fails, the
second fails, it fails with `-EFAULT`, both succeed. -/
inductive Fetch
  | moveFails
  | fails
  | fault
  | ok
  deriving DecidableEq

/-- Without `notifier_lock`. -/
def workerFetch (s : State) (r : Fetch) : State :=
  match s.worker with
  | .fetching saved b invalid todo =>
    let m := s.mem b
    let moved := { m with inSystem := true, bound := none }
    match r with
    | .moveFails => retry s
    | .fails => retry (s.setMem b moved)
    | .fault => { s.setMem b moved with worker := .fetched saved b invalid todo }
    | .ok =>
      { s.setMem b { moved with pages := some m.gen, range := some m.seq } with
        worker := .fetched saved b invalid todo }
  | _ => s

/-- Under `notifier_lock` again. -/
def workerRelock (s : State) : State :=
  match s.worker with
  | .fetched saved b invalid todo =>
    let m := s.mem b
    if m.invalid ≠ invalid then retry s
    else
      let s := if m.range ≠ none then s.setMem b { m with invalid := 0 } else s
      { s with worker := .update saved todo }
  | _ => s

/-- How the validation of one BO ends: `ttm_bo_validate` fails, the update of an attachment fails
behind the first `n`, all succeed. -/
inductive Validate
  | boFails
  | pteFails (n : Nat)
  | ok
  deriving DecidableEq

def Mem.validated (m : Mem) : Mem := if m.pages = none then m else m.bind

/-- The first `n` attachments get new page table entries, where they are mapped. -/
def Mem.updatePtes (m : Mem) (n : Nat) : Mem :=
  { m with
    atts := (m.atts.take n).map (fun a => if a.isMapped then { a with pte := m.pte a.type } else a) ++
      m.atts.drop n }

def workerValidate (s : State) (r : Validate) : State :=
  match s.worker with
  | .validate _ [] => s
  | .validate saved (b :: todo) =>
    let m := s.mem b
    match r with
    | .boFails => retry s
    | .pteFails n =>
      let m := m.validated.updatePtes n
      retry (s.setMem b { m with invalid := (m.invalid + 1) % 2 ^ 32 })
    | .ok =>
      { s.setMem b (m.validated.updatePtes m.atts.length) with worker := .validate saved todo }
  | _ => s

/-- The reservations, `process_validate_vms` and `process_update_pds`. -/
def workerTables (s : State) (ok : Bool) : State :=
  match s.worker with
  | .validate saved todo =>
    if ¬ ok then retry s
    else if todo = [] then { s with worker := .final saved }
    else s
  | _ => s

/-- `confirm_valid_user_pages_locked` for one BO: nothing when it has no range. -/
def Mem.confirmed (m : Mem) : Bool := m.range = some m.seq ∧ m.invalid = 0

def confirmValidUserPages (s : State) : State :=
  { s with
    validList := s.validList ++ s.invalList.filter fun b => (s.mem b).confirmed
    invalList := s.invalList.filter fun b => ¬ (s.mem b).confirmed
    mem := fun b => if b ∈ s.invalList then { s.mem b with range := none } else s.mem b }

/-- The final check, and `kgd2kfd_resume_mm`. -/
def workerFinal (s : State) (resumeOk : Bool) : State :=
  match s.worker with
  | .final saved =>
    if s.evictedBos ≠ saved then retry s
    else if ∃ b ∈ s.invalList, (s.mem b).range ≠ none ∧ ¬ (s.mem b).confirmed then
      retry (confirmValidUserPages s)
    else
      { confirmValidUserPages s with
        evictedBos := 0, refs := if resumeOk then s.refs - 1 else s.refs, outstanding := false
        worker := .idle }
  | _ => s

/-! ## Runs -/

inductive Op
  | evict (b : Nat) (quiesceOk : Bool)
  | initBegin (b : Nat) (criuResume : Bool)
  | initFetch (ok : Bool)
  | initValidate (ok : Bool)
  | freeBegin (b : Nat)
  | freeEnd (ok : Bool)
  | mapBegin (b vm : Nat) (type : AttType)
  | mapEnd (r : MapEnd)
  | unmap (b vm : Nat)
  | criuRestore
  | block
  | criuResume
  | exit
  | workerStart
  | workerLock
  | workerNext
  | workerFetch (r : Fetch)
  | workerRelock
  | workerValidate (r : Validate)
  | workerTables (ok : Bool)
  | workerFinal (resumeOk : Bool)
  deriving DecidableEq

def step (s : State) : Op → State
  | .evict b quiesceOk => evictUserptr s b quiesceOk
  | .initBegin b criu => initBegin s b criu
  | .initFetch ok => initFetch s ok
  | .initValidate ok => initValidate s ok
  | .freeBegin b => freeBegin s b
  | .freeEnd ok => freeEnd s ok
  | .mapBegin b vm type => mapBegin s b vm type
  | .mapEnd r => mapEnd s r
  | .unmap b vm => unmap s b vm
  | .criuRestore => criuRestore s
  | .block => blockMmuNotifications s
  | .criuResume => criuResume s
  | .exit => { s with gone := true }
  | .workerStart => workerStart s
  | .workerLock => workerLock s
  | .workerNext => workerNext s
  | .workerFetch r => workerFetch s r
  | .workerRelock => workerRelock s
  | .workerValidate r => workerValidate s r
  | .workerTables ok => workerTables s ok
  | .workerFinal resumeOk => workerFinal s resumeOk

/-! ## What the protocol promises -/

/-- Nowhere, or to the pages as they are. -/
def Mem.Leads (m : Mem) (p : Pte) : Prop := p = .clear ∨ p = .page m.gen
  deriving Decidable

/-- While the user queues run no BO is mapped to pages that are not its pages any more; and from a
notification until the queues are resumed they do not run, and a restore is on its way. -/
structure Right (s : State) : Prop where
  safe : s.refs = 0 → ∀ b, Live s b ∨ b ∈ s.detached → ∀ a ∈ (s.mem b).atts, (s.mem b).Leads a.pte
  quiesced : s.outstanding = true → 0 < s.refs
  restoring : s.outstanding = true → s.pending = true ∨ s.worker ≠ .idle ∨ s.gone = true

end Amdkfd.Userptr

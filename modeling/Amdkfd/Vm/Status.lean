import Amdkfd.Basic

/-!
# The status lists of a GPU VM

`amdgpu_vm_validate_pt_bos`, `amdgpu_vm_update_pdes` and `amdgpu_vm_handle_moved` of
`amdgpu_vm.c`, with what they use: the functions that move a `vm_bo` from one status list to
another, `amdgpu_vm_bo_update` and `amdgpu_vm_bo_invalidate`. A `vm_bo` is named by a number.

What the environment decides is an argument: whether a range of page table entries can be
written, what a validation moves and returns, whether a reservation can be taken.
-/

namespace Amdkfd.VmStatus

/-! ## Data -/

/-- The status lists of `struct amdgpu_vm`. -/
inductive Status
  | evicted
  | relocated
  | moved
  | idle
  | invalidated
  | done
  deriving DecidableEq

/-- `struct amdgpu_bo_va_mapping`. `stale` tells whether its page table entries show where the
BO no longer is. -/
structure Mapping where
  stale : Bool
  deriving DecidableEq

/-- `struct amdgpu_vm_bo_base` with what is used of its BO and of the `amdgpu_bo_va` around it.
`hasBo`: `bo` is not NULL; `kernel`: its type is `ttm_bo_type_kernel`, a page table; `hasParent`:
`bo->parent` is not NULL; `perVm`: it shares the reservation of the root; `displaced`: it has a
resource outside of its preferred domains. `pdeStale` tells whether the entry of the parent
directory shows where the table no longer is. -/
structure VmBo where
  hasBo : Bool
  kernel : Bool
  hasParent : Bool
  perVm : Bool
  displaced : Bool
  moved : Bool
  cleared : Bool
  valids : List Mapping
  invalids : List Mapping
  pdeStale : Bool
  deriving DecidableEq

/-- `struct amdgpu_vm`. -/
structure Vm where
  lists : Status → List Nat
  bo : Nat → VmBo
  generation : Nat
  tlbSeq : Nat
  evicting : Bool

def Vm.listMove (vm : Vm) (id : Nat) (st : Status) : Vm :=
  { vm with
    lists := fun s => if s = st then id :: (vm.lists s).erase id else (vm.lists s).erase id }

def Vm.listMoveTail (vm : Vm) (id : Nat) (st : Status) : Vm :=
  { vm with
    lists := fun s => if s = st then (vm.lists s).erase id ++ [id] else (vm.lists s).erase id }

def Vm.setBo (vm : Vm) (id : Nat) (b : VmBo) : Vm :=
  { vm with bo := Function.update vm.bo id b }

/-! ## The state machine -/

def boEvicted (vm : Vm) (id : Nat) : Vm :=
  let vm := vm.setBo id { vm.bo id with moved := true }
  if (vm.bo id).kernel then vm.listMove id .evicted else vm.listMoveTail id .evicted

def boMoved (vm : Vm) (id : Nat) : Vm :=
  vm.listMove id .moved

def boIdle (vm : Vm) (id : Nat) : Vm :=
  (vm.setBo id { vm.bo id with moved := false }).listMove id .idle

def boInvalidated (vm : Vm) (id : Nat) : Vm :=
  vm.listMove id .invalidated

def boRelocated (vm : Vm) (id : Nat) : Vm :=
  if (vm.bo id).hasParent then vm.listMove id .relocated else boIdle vm id

def boDone (vm : Vm) (id : Nat) : Vm :=
  vm.listMove id .done

def resetIdle (vm : Vm) (id : Nat) : Vm :=
  let b := vm.bo id
  let vm := vm.setBo id { b with moved := true }
  if b.hasBo = false ∨ b.kernel = false then vm.listMove id .moved
  else if b.hasParent then vm.listMove id .relocated
  else vm

def spliceDone (vm : Vm) : Vm :=
  let invalidated := vm.lists .done ++ vm.lists .invalidated
  { vm with
    lists := fun
      | .invalidated => invalidated
      | .done => []
      | s => vm.lists s
    bo := fun id => if id ∈ invalidated then { vm.bo id with moved := true } else vm.bo id }

def boResetStateMachine (vm : Vm) : Vm :=
  (vm.lists .idle).foldl resetIdle (spliceDone vm)

/-- The mappings of a BO that has moved. Entries that were cleared show nothing. -/
def VmBo.displace (b : VmBo) : VmBo :=
  { b with
    valids := b.valids.map fun m => { m with stale := m.stale || !b.cleared }
    invalids := b.invalids.map fun m => { m with stale := true }
    pdeStale := true }

def boInvalidate (vm : Vm) (id : Nat) (evicted : Bool) : Vm :=
  let b := vm.bo id
  if b.hasBo = false then vm
  else
    let vm := vm.setBo id b.displace
    if evicted ∧ b.perVm then boEvicted vm id
    else if b.moved then vm
    else
      let vm := vm.setBo id { vm.bo id with moved := true }
      if b.kernel then boRelocated vm id
      else if b.perVm then boMoved vm id
      else boInvalidated vm id

/-! ## Validation -/

/-- What the calls of `validate` do, by number: the BOs of the VM that they move, each with
whether it is evicted, and what they return. `shadowed` tells which BOs have a shadow. -/
structure Validation where
  moves : Nat → List (Nat × Bool)
  result : Nat → Option Errno
  shadowed : Nat → Bool
  newGeneration : Nat
  initEntities : Option Errno

def Validation.call (v : Validation) (k : Nat) (vm : Vm) : Vm :=
  (v.moves k).foldl (fun vm e => boInvalidate vm e.1 e.2) vm

/-- The loop of `amdgpu_vm_validate_pt_bos` with `n` rounds at most. -/
def validateLoop (v : Validation) : Nat → Nat → Vm → Option (Vm × Option Errno)
  | 0, _, _ => none
  | n + 1, k, vm =>
    match vm.lists .evicted with
    | [] => some ({ vm with evicting := false }, none)
    | id :: _ =>
      let vm := v.call k vm
      match v.result k with
      | some e => some (vm, some e)
      | none =>
        let vm := if v.shadowed id then v.call (k + 1) vm else vm
        match if v.shadowed id then v.result (k + 1) else none with
        | some e => some (vm, some e)
        | none =>
          validateLoop v n (k + 2)
            (if (vm.bo id).kernel = false then boMoved vm id else boRelocated vm id)

def validatePtBos (v : Validation) (n : Nat) (vm : Vm) : Option (Vm × Option Errno) :=
  if vm.generation = v.newGeneration then validateLoop v n 0 vm
  else
    let vm := boResetStateMachine { vm with generation := v.newGeneration }
    match v.initEntities with
    | some e => some (vm, some e)
    | none => validateLoop v n 0 vm

/-! ## Page directories -/

/-- Where `amdgpu_vm_update_pdes` can fail. -/
structure PdeUpdate where
  devEnter : Bool
  prepare : Option Errno
  pdeUpdate : Nat → Option Errno
  commit : Option Errno

def PdeUpdate.updates (u : PdeUpdate) (entries : List Nat) : Option Errno :=
  entries.findSome? u.pdeUpdate

/-- `amdgpu_vm_update_pdes`. The entries that are taken from `relocated` are on the local list,
which is gone on return. -/
def updatePdes (u : PdeUpdate) (vm : Vm) : Vm × Option Errno :=
  let entries := vm.lists .relocated
  let vm := { vm with lists := Function.update vm.lists .relocated [] }
  if entries = [] then (vm, none)
  else if u.devEnter = false then (vm, some .enodev)
  else
    match u.prepare with
    | some e => (vm, some e)
    | none =>
      match u.updates entries with
      | some e => (vm, some e)
      | none =>
        match u.commit with
        | some e => (vm, some e)
        | none =>
          let flushTlbNeeded := entries.any fun id => (vm.bo id).moved
          let vm :=
            { vm with
              tlbSeq := if flushTlbNeeded then vm.tlbSeq + 1 else vm.tlbSeq
              -- the entries of the parents are written
              bo := fun id =>
                if id ∈ entries then { vm.bo id with pdeStale := false } else vm.bo id }
          (entries.foldl boIdle vm, none)

/-! ## Updates of page tables -/

/-- The mappings that `amdgpu_vm_bo_update` writes: those of `invalids`, and those of `valids` if
the BO has moved or is to be cleared. -/
def VmBo.spliced (b : VmBo) (clear : Bool) : VmBo :=
  if (clear = false ∧ b.moved) ∨ b.cleared ≠ clear then
    { b with valids := [], invalids := b.valids ++ b.invalids }
  else b

/-- Whether the update of `id` fails, where `failAt` is the mapping whose range cannot be
written. -/
def VmBo.updateFails (b : VmBo) (clear : Bool) (failAt : Option Nat) : Bool :=
  failAt.any (· < (b.spliced clear).invalids.length)

def writeFirst (n : Nat) (l : List Mapping) : List Mapping :=
  (l.take n).map (fun m => { m with stale := false }) ++ l.drop n

def boUpdate (vm : Vm) (id : Nat) (clear : Bool) (failAt : Option Nat) : Vm × Option Errno :=
  let b := (vm.bo id).spliced clear
  match failAt.filter (· < b.invalids.length) with
  | some n => (vm.setBo id { b with invalids := writeFirst n b.invalids }, some .einval)
  | none =>
    let written := writeFirst b.invalids.length b.invalids
    let vm := vm.setBo id { b with invalids := written }
    let vm :=
      if b.hasBo ∧ b.perVm then
        if b.displaced then boEvicted vm id else boIdle vm id
      else boDone vm id
    (vm.setBo id
      { vm.bo id with
        valids := written ++ (vm.bo id).valids, invalids := [], cleared := clear, moved := false },
      none)

/-- What `amdgpu_vm_handle_moved` finds: the mapping whose range cannot be written, the
reservations that can be taken, and those that the caller holds with its ticket. -/
structure Moving where
  failAt : Nat → Option Nat
  debugVm : Bool
  trylock : Nat → Bool
  ticketHeld : Nat → Bool

def Moving.taken (e : Moving) (id : Nat) : Bool :=
  !e.debugVm && e.trylock id

def Moving.clear (e : Moving) (id : Nat) : Bool :=
  !e.taken id && !e.ticketHeld id

/-- The first loop of `amdgpu_vm_handle_moved`, of `n` rounds. -/
def movedLoop (e : Moving) : Nat → Vm → Vm × Option Errno
  | 0, vm => (vm, none)
  | n + 1, vm =>
    match vm.lists .moved with
    | [] => (vm, none)
    | id :: _ =>
      match boUpdate vm id false (e.failAt id) with
      | (vm, some r) => (vm, some r)
      | (vm, none) => movedLoop e n vm

/-- How `amdgpu_vm_handle_moved` ends: `held` has the reservations that it still holds. -/
structure Outcome where
  vm : Vm
  ret : Option Errno
  held : List Nat

/-- The second loop, of `n` rounds. There is no outcome when the reservation of a BO that is
NULL is read. -/
def invalidatedLoop (e : Moving) : Nat → Vm → Option Outcome
  | 0, vm => some { vm := vm, ret := none, held := [] }
  | n + 1, vm =>
    match vm.lists .invalidated with
    | [] => some { vm := vm, ret := none, held := [] }
    | id :: _ =>
      if (vm.bo id).hasBo = false then none
      else
        match boUpdate vm id (e.clear id) (e.failAt id) with
        | (vm, some r) =>
          some { vm := vm, ret := some r, held := if e.taken id then [id] else [] }
        | (vm, none) => invalidatedLoop e n vm

def handleMoved (e : Moving) (vm : Vm) : Option Outcome :=
  match movedLoop e (vm.lists .moved).length vm with
  | (vm, some r) => some { vm := vm, ret := some r, held := [] }
  | (vm, none) => invalidatedLoop e (vm.lists .invalidated).length vm

end Amdkfd.VmStatus

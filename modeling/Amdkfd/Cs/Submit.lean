import Amdkfd.Cs.Model

/-!
# Command submission after the two passes

`amdgpu_cs_parser_bos`, `amdgpu_cs_submit`, `amdgpu_cs_parser_fini` and `amdgpu_cs_ioctl`. A HMM
range is on record in its entry of the BO list, which outlives the call when the list was found by
its handle. `amdgpu_cs_patch_jobs`, `amdgpu_cs_vm_handling` and `amdgpu_cs_sync_rings` take and give
back nothing that is followed here; they answer with their error.
-/

namespace Amdkfd.Cs

open Lib

/-! ## The entries with a user pointer -/

def amdgpuTtmTtGetUserPagesDone (i : Nat) (e : Entry) (p : Parser) : Parser × Bool :=
  if e.bo.userptr = 0 ∨ e.range = false then (p, false) else (p.give (.range i), e.bo.valid)

/-- The first loop of `amdgpu_cs_parser_bos`: the user pages of the entries from the `i`th on. -/
def getUserPages : Nat → List Entry → Parser → (Parser × List Entry) × Option Errno
  | _, [], p => ((p, []), none)
  | i, e :: es, p =>
    if e.bo.userPages = false then ((p, { e with userPages := false } :: es), some .enomem)
    else match e.bo.getUserPages with
      | some err => ((p, { e with userPages := false, range := false } :: es), some err)
      | none =>
        let rest := getUserPages (i + 1) es (p.take (.range i))
        ((rest.1.1, { e with userPages := true, range := true } :: rest.1.2), rest.2)

/-- The error of the second loop of `amdgpu_cs_parser_bos` at an entry. -/
def entryError (e : Entry) : Option Errno :=
  if e.bo.current = false then some .eperm
  else if e.bo.userptr ≠ 0 ∧ e.bo.invalidated ∧ e.userPages then e.bo.validate
  else none

/-- The second loop of `amdgpu_cs_parser_bos`: the user pages go into the buffers. -/
def setUserPages : List Entry → List Entry × Option Errno
  | [] => ([], none)
  | e :: es =>
    match entryError e with
    | some err => (e :: es, some err)
    | none =>
      let rest := setUserPages es
      ({ e with userPages := false } :: rest.1, rest.2)

def freeUserPages : Nat → List Entry → Parser → Parser × List Entry
  | _, [], p => (p, [])
  | i, e :: es, p =>
    if e.userPages = false then
      let rest := freeUserPages (i + 1) es p
      (rest.1, e :: rest.2)
    else
      let rest := freeUserPages (i + 1) es (amdgpuTtmTtGetUserPagesDone i e p).1
      (rest.1, { e with userPages := false, range := false } :: rest.2)

/-- The loop of `amdgpu_cs_submit` that ends the tracking of all ranges, with the answer whether all
of them were still valid. -/
def userPagesDone : Nat → List Entry → Parser → (Parser × List Entry) × Bool
  | _, [], p => ((p, []), true)
  | i, e :: es, p =>
    let d := amdgpuTtmTtGetUserPagesDone i e p
    let rest := userPagesDone (i + 1) es d.1
    ((rest.1.1, { e with range := false } :: rest.1.2), d.2 && rest.2)

/-! ## `amdgpu_cs_parser_bos` -/

def Parser.entries (p : Parser) : List Entry := (p.boList.map (·.entries)).getD []

def Parser.setEntries (es : List Entry) (p : Parser) : Parser :=
  { p with boList := p.boList.map fun l => { l with entries := es } }

def getBoList (call : Call) (p : Parser) : Parser × Option Errno :=
  match call.boListHandle with
  | some handle =>
    if p.boList ≠ none then (p, some .einval)
    else match handle with
      | none => (p, some .enoent)
      | some us =>
        let list : BoList := { bos := [], entries := us.map fun u => { bo := u } }
        ({ p.take .list with boList := some list }, none)
  | none =>
    if p.boList = none then amdgpuBoListCreate call.emptyList (fun _ => none) 0 p else (p, none)

/-- What follows the second loop, up to the end of `amdgpu_cs_parser_bos`. -/
def validateError (call : Call) (p : Parser) : Option Errno :=
  call.validatePtBos.or (call.boValidate.or (if p.ufBo ≠ none then call.allocGart else none))

def lockedBos (call : Call) (p : Parser) : Parser × Option Errno :=
  let got := getUserPages 0 p.entries (p.take .mutex)
  let p := got.1.1.setEntries got.1.2
  match got.2.or call.lockAll with
  | some e => (p, some e)
  | none =>
    let set := setUserPages p.entries
    let p := p.setEntries set.1
    (p, set.2.or (validateError call p))

def amdgpuCsParserBos (call : Call) (p : Parser) : Parser × Option Errno :=
  andThen (getBoList call p) fun p =>
    match lockedBos call p with
    | (p, none) => (p, none)
    | (p, some e) =>
      let freed := freeUserPages 0 p.entries p
      ((freed.1.setEntries freed.2).give .mutex, some e)

/-! ## `amdgpu_cs_submit` -/

/-- The first error of the loop that makes the leader depend on the others. -/
def dependencyError (call : Call) (p : Parser) : Option Errno :=
  (List.range p.gang.length).findSome? fun i =>
    if p.gangLeader = some i then none else call.addDependency i

/-- `amdgpu_cs_post_dependencies`: a chain goes to its syncobj. -/
def postDependencies : List PostDep → Parser → Parser × List PostDep
  | [], p => (p, [])
  | d :: ds, p =>
    match d.chain with
    | some k =>
      if d.point ≠ 0 then
        let rest := postDependencies ds (p.give (.chain k))
        (rest.1, { d with chain := none } :: rest.2)
      else
        let rest := postDependencies ds p
        (rest.1, d :: rest.2)
    | none =>
      let rest := postDependencies ds p
      (rest.1, d :: rest.2)

def amdgpuCsPostDependencies (p : Parser) : Parser :=
  match p.postDeps with
  | none => p
  | some ds =>
    let done := postDependencies ds p
    { done.1 with postDeps := some done.2 }

/-- `drm_sched_entity_push_job` on every job: they belong to the scheduler. -/
def pushJobs (p : Parser) : Parser :=
  { p.giveAll ((List.range p.jobs.length).map .job) with jobs := [] }

def amdgpuCsSubmit (call : Call) (p : Parser) : Parser × Option Errno :=
  match dependencyError call p with
  | some e => (p, some e)
  | none =>
    let done := userPagesDone 0 p.entries p
    let p := done.1.1.setEntries done.1.2
    if done.2 = false then (p, some .eagain)
    else ((pushJobs (amdgpuCsPostDependencies p)).give .mutex, none)

/-! ## `amdgpu_cs_ioctl` -/

def PostDep.res (d : PostDep) : List Res := .syncobj d.syncobj :: (d.chain.map Res.chain).toList

/-- What `amdgpu_bo_list_put` gives back: the list, and the buffers of a list that this call
made. -/
def BoList.res (l : BoList) : List Res := .list :: l.bos.map .bo

def amdgpuCsParserFini (p : Parser) : Parser :=
  let p := p.giveAll ((p.postDeps.getD []).flatMap PostDep.res)
  let p := p.give .ctx
  let p := p.giveAll ((p.boList.map BoList.res).getD [])
  if p.chunksNull then { p with fault := true }
  else
    let p := p.giveAll ((List.range p.jobs.length).map .job)
    match p.ufBo with
    | none => p
    | some bo => p.give (.bo bo.id)

/-- `amdgpu_cs_parser_init`; nothing is kept when it fails. -/
def amdgpuCsParserInit (call : Call) : Parser × Option Errno :=
  if call.chunks = [] then ({}, some .einval)
  else if call.ctx = false then ({}, some .einval)
  else if call.guilty then (Parser.start.give .ctx, some .other)
  else (.start, none)

def parse (call : Call) (p : Parser) : Parser × Option Errno :=
  andThen (andThen (amdgpuCsPass1 call p) (amdgpuCsPass2 call)) (amdgpuCsParserBos call)

/-- What is done with `bo_list_mutex` locked. -/
def process (call : Call) (p : Parser) : Parser × Option Errno :=
  andThen (p, call.patchJobs.or (call.vmHandling.or call.syncRings)) (amdgpuCsSubmit call)

def amdgpuCsIoctl (call : Call) : Parser × Option Errno :=
  if call.rasIntrTriggered then ({}, some .other)
  else if call.accelWorking = false then ({}, some .ebusy)
  else
    andThen (amdgpuCsParserInit call) fun p =>
      match parse call p with
      | (p, some e) => (amdgpuCsParserFini p, some e)
      | (p, none) =>
        match process call p with
        | (p, some e) => (amdgpuCsParserFini (p.give .mutex), some e)
        | (p, none) => (amdgpuCsParserFini p, none)

end Amdkfd.Cs

import Amdkfd.Basic
import Amdkfd.Lib.FirstError
import Amdkfd.Lib.Ledger

/-!
# Command submission

`amdgpu_cs_ioctl` with the two passes over the chunks (`amdgpu_cs_pass1`, `amdgpu_cs_pass2`),
`amdgpu_cs_parser_bos`, `amdgpu_cs_submit` and `amdgpu_cs_parser_fini`, and what they call in
`amdgpu_bo_list.c`, `amdgpu_job.c`, `amdgpu_ctx.c` and `amdgpu_ttm.c`. What user space passes in and
what the rest of the kernel answers (a lookup, an allocation, a lock) is part of the call. Beside
the state of the parser stand a ledger of the references, objects and HMM ranges it holds, and the
dwords that pass 2 reads of each chunk.
-/

namespace Amdkfd.Cs

open Lib

/-! ## The call -/

/-- The values of `chunk_id` that the driver knows, and the others. -/
inductive ChunkId
  | ib | fence | dependencies | syncobjIn | syncobjOut | boHandles | scheduledDependencies
  | syncobjTimelineWait | syncobjTimelineSignal | cpGfxShadow | unknown
  deriving DecidableEq, Repr

/-- The answers to one user pointer object in this call, beside its address `gtt->userptr`. -/
structure Userptr where
  userptr : Nat
  /-- `usermm == current->mm`. -/
  current : Bool := true
  /-- The `kvcalloc` of `user_pages`. -/
  userPages : Bool := true
  /-- `amdgpu_ttm_tt_get_user_pages`. -/
  getUserPages : Option Errno := none
  invalidated : Bool := false
  /-- `ttm_bo_validate`. -/
  validate : Option Errno := none
  /-- `!mmu_interval_read_retry`. -/
  valid : Bool := true
  deriving DecidableEq

/-- A buffer object; `userptr` when `amdgpu_ttm_tt_get_usermm` finds an owner. -/
structure Bo where
  id : Nat
  size : Nat := 4096
  userptr : Option Userptr := none
  deriving DecidableEq

/-- The answers while an element of an array of dependencies or syncobjs is handled. -/
structure Item where
  /-- `amdgpu_ctx_get`. -/
  ctx : Bool := true
  /-- An error of `amdgpu_ctx_init_entity` or `drm_sched_entity_error`. -/
  entity : Option Errno := none
  /-- `amdgpu_ctx_get_fence`: an error, or whether there is a fence. -/
  fence : Except Errno Bool := .ok true
  /-- `amdgpu_sync_fence`. -/
  sync : Option Errno := none
  /-- `drm_syncobj_find_fence`. -/
  findFence : Option Errno := none
  /-- `drm_syncobj_find`. -/
  syncobj : Option Nat := some 0
  /-- `dma_fence_chain_alloc`. -/
  chain : Bool := true

/-- The answers to an IB chunk in one of the passes. -/
structure Lookup where
  /-- An error of `amdgpu_ctx_init_entity` or `drm_sched_entity_error`. -/
  entity : Option Errno := none
  /-- `entity->rq != NULL`. -/
  rq : Bool := true

/-- A chunk of user space. `dw` is the memory from `kdata` on: what was copied comes first, and
fills `lengthDw` dwords. -/
structure Chunk where
  id : ChunkId
  lengthDw : Nat
  dw : Nat → Nat := fun _ => 0
  /-- The `copy_from_user` of the header. -/
  header : Bool := true
  /-- The `kvmalloc_array` of `kdata`. -/
  kdata : Bool := true
  /-- The `copy_from_user` of the data. -/
  copied : Bool := true
  lookup1 : Lookup := {}
  /-- `drm_gem_object_lookup` for a user fence. -/
  bo : Option Bo := none
  /-- `amdgpu_bo_create_list_entry_array`. -/
  info : Option Errno := none
  /-- The `kvzalloc` of `amdgpu_bo_list_create`. -/
  listAlloc : Bool := true
  /-- `drm_gem_object_lookup` for an entry of the list. -/
  entry : Nat → Option Bo := fun _ => none
  lookup2 : Lookup := {}
  /-- `ring->funcs->no_user_fence`. -/
  noUserFence : Bool := false
  /-- `ring->funcs->parse_cs != NULL`. -/
  parseCs : Bool := false
  /-- `amdgpu_ib_get`. -/
  ibGet : Option Errno := none
  /-- The `kmalloc_array` of `post_deps`. -/
  postDeps : Bool := true
  item : Nat → Item := fun _ => {}

/-- What `amdgpu_bo_list_get` finds: the user pointer entries of a list. -/
abbrev Handle := List Userptr

/-- A call of the ioctl. -/
structure Call where
  chunks : List Chunk
  rasIntrTriggered : Bool := false
  accelWorking : Bool := true
  /-- `amdgpu_ctx_get`. -/
  ctx : Bool := true
  guilty : Bool := false
  /-- The `kvmalloc_array` of `chunk_array`. -/
  chunkArray : Bool := true
  /-- Its `copy_from_user`. -/
  chunkCopy : Bool := true
  /-- The `kvmalloc_array` of `p->chunks`. -/
  chunkMem : Bool := true
  sriovVf : Bool := false
  /-- The `kzalloc` of `amdgpu_job_alloc`, for each member of the gang. -/
  jobAlloc : Nat → Bool := fun _ => true
  /-- `drm_sched_job_init`. -/
  jobInit : Nat → Option Errno := fun _ => none
  /-- `p->ctx->generation == p->gang_leader->generation`; the error is `-ECANCELED`. -/
  generation : Bool := true
  /-- `cs->in.bo_list_handle`, when it is not zero, with what is found under it. -/
  boListHandle : Option (Option Handle) := none
  /-- The `kvzalloc` of the empty list. -/
  emptyList : Bool := true
  /-- The first error in the loop of `drm_exec_until_all_locked`. -/
  lockAll : Option Errno := none
  /-- `amdgpu_vm_validate_pt_bos`. -/
  validatePtBos : Option Errno := none
  /-- The first error of `amdgpu_cs_bo_validate` over the locked objects. -/
  boValidate : Option Errno := none
  /-- `amdgpu_ttm_alloc_gart`, for the user fence. -/
  allocGart : Option Errno := none
  /-- `amdgpu_cs_patch_jobs`. -/
  patchJobs : Option Errno := none
  /-- `amdgpu_cs_vm_handling`. -/
  vmHandling : Option Errno := none
  /-- `amdgpu_cs_sync_rings`. -/
  syncRings : Option Errno := none
  /-- `drm_sched_job_add_dependency`, for each member of the gang but the leader. -/
  addDependency : Nat → Option Errno := fun _ => none

/-! ## The parser -/

abbrev Entity := Nat × Nat

/-- What is taken and given back: references, objects, HMM ranges and the mutex of the list. -/
inductive Res
  | ctx | list | bo (id : Nat) | syncobj (id : Nat) | chain (index : Nat) | job (index : Nat)
  | range (index : Nat) | mutex
  deriving DecidableEq, Repr

/-- `struct amdgpu_ib`. -/
structure Ib where
  gpuAddr : Nat := 0
  lengthDw : Nat := 0
  flags : Nat := 0
  deriving DecidableEq

/-- `struct amdgpu_job`; `num_ibs` is the length of `ibs`, `alloc` how many of them fit. -/
structure Job where
  alloc : Nat
  ibs : List Ib := []
  ufAddr : Nat := 0
  preamble : Bool := false
  shadowVa : Nat := 0
  csaVa : Nat := 0
  gdsVa : Nat := 0
  initShadow : Bool := false
  deriving DecidableEq

/-- An entry of a BO list with a user pointer, with what the parser keeps in it. -/
structure Entry where
  bo : Userptr
  userPages : Bool := false
  range : Bool := false
  deriving DecidableEq

/-- `struct amdgpu_bo_list`. `bos` are the buffers that the call itself looked up for it; a list
found by its handle belongs to an earlier call. -/
structure BoList where
  bos : List Nat
  entries : List Entry
  deriving DecidableEq

/-- `struct amdgpu_cs_post_dep`. -/
structure PostDep where
  syncobj : Nat
  chain : Option Nat
  point : Nat
  deriving DecidableEq

/-- `struct amdgpu_cs_parser`: `gang` is `entities` up to `gang_size`, `jobs` the jobs up to the
first null pointer, `post_deps` an array of `num_post_deps` elements. -/
structure Parser where
  /-- `nchunks` is set and `chunks` is null. -/
  chunksNull : Bool := false
  gang : List Entity := []
  gangLeaderIdx : Nat := 0
  jobs : List Job := []
  gangLeader : Option Nat := none
  ufBo : Option Bo := none
  boList : Option BoList := none
  postDeps : Option (List PostDep) := none
  ledger : Ledger Res := {}
  /-- The dwords that pass 2 read, each with its chunk. -/
  reads : List (Chunk × Nat) := []
  /-- A null pointer was followed. -/
  fault : Bool := false

namespace Parser

/-- The parser as `amdgpu_cs_parser_init` leaves it: it holds the context. -/
def start : Parser := { ledger := Ledger.take .ctx {} }

def take (r : Res) (p : Parser) : Parser := { p with ledger := p.ledger.take r }

def give (r : Res) (p : Parser) : Parser := { p with ledger := p.ledger.give r }

def giveAll (rs : List Res) (p : Parser) : Parser := { p with ledger := p.ledger.giveAll rs }

def read (c : Chunk) (ds : List Nat) (p : Parser) : Parser :=
  { p with reads := p.reads ++ ds.map fun d => (c, d) }

end Parser

/-! ## Constants and structures of the user interface, in dwords -/

/-- `AMDGPU_CS_GANG_SIZE` -/
def gangSize : Nat := 4

def hwIpNum : Nat := 10

def hwIpGfx : Nat := 0

def amdgpuCtxNumEntities : Nat → Nat
  | 1 => 4
  | 2 => 2
  | _ => 1

def amdgpuRingMaxIbs : Nat → Nat
  | 0 => 192
  | 1 => 125
  | 8 => 16
  | _ => 49

/-- `sizeof(struct drm_amdgpu_cs_chunk_ib)` -/
def ibDw : Nat := 8

/-- `sizeof(struct drm_amdgpu_cs_chunk_fence)` -/
def fenceDw : Nat := 2

/-- `sizeof(struct drm_amdgpu_bo_list_in)` -/
def boListInDw : Nat := 6

/-- `sizeof(struct drm_amdgpu_cs_chunk_dep)` -/
def depDw : Nat := 6

/-- `sizeof(struct drm_amdgpu_cs_chunk_sem)` -/
def semDw : Nat := 1

/-- `sizeof(struct drm_amdgpu_cs_chunk_syncobj)` -/
def syncobjDw : Nat := 4

/-- `sizeof(struct drm_amdgpu_cs_chunk_cp_gfx_shadow)` -/
def shadowDw : Nat := 8

namespace Chunk

variable (c : Chunk)

/-- The 64-bit value at dword `i`. -/
def qw (i : Nat) : Nat := c.dw i + 2 ^ 32 * c.dw (i + 1)

/-! The fields of `struct drm_amdgpu_cs_chunk_ib`. -/

def flags : Nat := c.dw 1
def vaStart : Nat := c.qw 2
def ibBytes : Nat := c.dw 4
def ipType : Nat := c.dw 5
def ipInstance : Nat := c.dw 6
def ring : Nat := c.dw 7

def entity : Entity := (c.ipType, c.ring)

/-- `AMDGPU_IB_FLAG_CE` -/
def isCe : Bool := c.flags.testBit 0

/-- `AMDGPU_IB_FLAG_PREAMBLE` -/
def isPreamble : Bool := c.flags.testBit 1

/-- `AMDGPU_IB_FLAG_PREEMPT` -/
def isPreempt : Bool := c.flags.testBit 2

/-- `num_deps`, for elements of `size` dwords; the product with 4 is one of 32 bits. -/
def numDeps (size : Nat) : Nat := c.lengthDw * 4 % 2 ^ 32 / (4 * size)

end Chunk

/-! ## Pass 1 -/

def amdgpuCtxGetEntity (hwIp inst ring : Nat) (err : Option Errno) : Except Errno Entity :=
  if hwIpNum ≤ hwIp then .error .einval
  else if inst ≠ 0 then .error .einval
  else if amdgpuCtxNumEntities hwIp ≤ ring then .error .einval
  else match err with
    | some e => .error e
    | none => .ok (hwIp, ring)

def amdgpuCsJobIdx (look : Lookup) (c : Chunk) (p : Parser) : Parser × Except Errno Nat :=
  match amdgpuCtxGetEntity c.ipType c.ipInstance c.ring look.entity with
  | .error e => (p, .error e)
  | .ok entity =>
    let i := p.gang.idxOf entity
    if look.rq = false then (p, .error .einval)
    else if i < p.gang.length then (p, .ok i)
    else if i = gangSize then (p, .error .einval)
    else ({ p with gang := p.gang ++ [entity] }, .ok i)

/-- The parser and the local variables of pass 1. -/
structure Pass1 where
  p : Parser
  numIbs : Nat → Nat := fun _ => 0
  ufOffset : Nat := 0

def amdgpuCsP1Ib (c : Chunk) (s : Pass1) : Pass1 × Option Errno :=
  match amdgpuCsJobIdx c.lookup1 c s.p with
  | (p, .error e) => ({ s with p }, some e)
  | (p, .ok r) =>
    if amdgpuRingMaxIbs c.ipType ≤ s.numIbs r then ({ s with p }, some .einval)
    else
      ({ s with
          p := { p with gangLeaderIdx := r }
          numIbs := Function.update s.numIbs r (s.numIbs r + 1) }, none)

def pageSize : Nat := 4096

def amdgpuCsP1UserFence (c : Chunk) (s : Pass1) : Pass1 × Option Errno :=
  match c.bo with
  | none => (s, some .einval)
  | some bo =>
    let s := { s with p := { s.p.take (.bo bo.id) with ufBo := some bo } }
    if bo.size ≠ pageSize ∨ bo.size - 8 < c.dw 1 then (s, some .einval)
    else if bo.userptr ≠ none then (s, some .einval)
    else ({ s with ufOffset := c.dw 1 }, none)

/-- The local variables of `amdgpu_bo_list_create`: the entries at the front of the array, those at
its end (the last one found comes first), and the parser. -/
structure ListLoop where
  p : Parser
  front : List Nat := []
  back : List (Nat × Userptr) := []

/-- The body of the loop of `amdgpu_bo_list_create`. -/
def addEntry (entry : Nat → Option Bo) (i : Nat) (s : ListLoop) : ListLoop × Option Errno :=
  match entry i with
  | none => (s, some .enoent)
  | some bo =>
    let s := { s with p := s.p.take (.bo bo.id) }
    match bo.userptr with
    | none => ({ s with front := s.front ++ [bo.id] }, none)
    | some u =>
      if u.current then ({ s with back := (bo.id, u) :: s.back }, none)
      else ({ s with p := s.p.give (.bo bo.id) }, some .eperm)

/-- `amdgpu_bo_list_create`. The order that `sort` gives to the entries without a user pointer
is left out: nothing here depends on it. -/
def amdgpuBoListCreate (alloc : Bool) (entry : Nat → Option Bo) (numEntries : Nat) (p : Parser) :
    Parser × Option Errno :=
  if alloc = false then (p, some .enomem)
  else
    match eachUntil (addEntry entry) (List.range numEntries) { p := p.take .list } with
    | (s, none) =>
      let list : BoList :=
        { bos := s.front ++ s.back.map (·.1), entries := s.back.map fun b => { bo := b.2 } }
      ({ s.p with boList := some list }, none)
    | (s, some e) =>
      (((s.p.giveAll (s.front.map .bo)).giveAll (s.back.map fun b => .bo b.1)).give .list, some e)

def amdgpuCsP1BoHandles (c : Chunk) (s : Pass1) : Pass1 × Option Errno :=
  match c.info with
  | some e => (s, some e)
  | none =>
    let x := amdgpuBoListCreate c.listAlloc c.entry (c.dw 2) s.p
    ({ s with p := x.1 }, x.2)

def pass1Chunk (c : Chunk) (s : Pass1) : Pass1 × Option Errno :=
  if c.header = false then (s, some .efault)
  else if c.kdata = false then (s, some .enomem)
  else if c.copied = false then (s, some .efault)
  else match c.id with
    | .ib => if c.lengthDw < ibDw then (s, some .einval) else amdgpuCsP1Ib c s
    | .fence => if c.lengthDw < fenceDw then (s, some .einval) else amdgpuCsP1UserFence c s
    | .boHandles =>
      if c.lengthDw < boListInDw then (s, some .einval)
      else if s.p.boList ≠ none then (s, some .einval)
      else amdgpuCsP1BoHandles c s
    | .unknown => (s, some .einval)
    | _ => (s, none)

def amdgpuJobAlloc (call : Call) (numIbs : Nat → Nat) (i : Nat) (p : Parser) :
    Parser × Option Errno :=
  if numIbs i = 0 then (p, some .einval)
  else if call.jobAlloc i = false then (p, some .enomem)
  else
    ({ p.take (.job p.jobs.length) with jobs := p.jobs ++ [{ alloc := numIbs i }] }, call.jobInit i)

/-- `amdgpu_cs_pass1` after the loop over the chunks. -/
def pass1Jobs (call : Call) (s : Pass1) : Parser × Option Errno :=
  if s.p.gang = [] ∨ (call.sriovVf ∧ 1 < s.p.gang.length) then (s.p, some .einval)
  else
    andThen (eachUntil (amdgpuJobAlloc call s.numIbs) (List.range s.p.gang.length) s.p) fun p =>
      let p := { p with gangLeader := some p.gangLeaderIdx }
      if call.generation = false then (p, some .other)
      else if p.ufBo ≠ none then
        ({ p with jobs := p.jobs.modify p.gangLeaderIdx fun j => { j with ufAddr := s.ufOffset } },
          none)
      else (p, none)

def amdgpuCsPass1 (call : Call) (p : Parser) : Parser × Option Errno :=
  if call.chunkArray = false then (p, some .enomem)
  else if call.chunkCopy = false then (p, some .efault)
  else if call.chunkMem = false then ({ p with chunksNull := true }, some .enomem)
  else
    let s := eachUntil pass1Chunk call.chunks { p }
    match s.2 with
    | some e => (s.1.p, some e)
    | none => pass1Jobs call s.1

/-! ## Pass 2 -/

/-- The parser and the local variables of pass 2. -/
structure Pass2 where
  p : Parser
  cePreempt : Nat := 0
  dePreempt : Nat := 0

/-- Changes job `i`. -/
def Parser.setJob (i : Nat) (f : Job → Job) (p : Parser) : Parser :=
  { p with jobs := p.jobs.modify i f }

/-- What `amdgpu_cs_p2_ib` does to a counter of preemptible IBs. -/
def countPreempt (c : Chunk) (s : Pass2) : Pass2 :=
  if c.ipType = hwIpGfx ∧ c.isPreempt then
    if c.isCe then { s with cePreempt := s.cePreempt + 1 }
    else { s with dePreempt := s.dePreempt + 1 }
  else s

/-- The fields of an IB as `amdgpu_cs_p2_ib` sets them. -/
def ibOf (c : Chunk) : Ib := { gpuAddr := c.vaStart, lengthDw := c.ibBytes / 4, flags := c.flags }

/-- `amdgpu_cs_p2_ib` once the job is found and its next IB taken. -/
def fillIb (c : Chunk) (r : Nat) (s : Pass2) : Pass2 × Option Errno :=
  if s.p.ufBo ≠ none ∧ c.noUserFence then (s, some .einval)
  else
    let s := countPreempt c { s with p := s.p.read c [5, 1] }
    if c.ipType = hwIpGfx ∧ c.isPreempt ∧ (1 < s.cePreempt ∨ 1 < s.dePreempt) then
      (s, some .einval)
    else
      let p := s.p.read c (if c.parseCs then [1, 4] else [1])
      let p := if c.isPreamble then p.setJob r fun j => { j with preamble := true } else p
      match c.ibGet with
      | some e => ({ s with p }, some e)
      | none =>
        let p := (p.read c [2, 3, 4, 1]).setJob r fun j =>
          { j with ibs := j.ibs.dropLast ++ [ibOf c] }
        ({ s with p }, none)

def amdgpuCsP2Ib (c : Chunk) (s : Pass2) : Pass2 × Option Errno :=
  match amdgpuCsJobIdx c.lookup2 c (s.p.read c [5, 6, 7]) with
  | (p, .error e) => ({ s with p }, some e)
  | (p, .ok r) => fillIb c r { s with p := p.setJob r fun j => { j with ibs := j.ibs ++ [{}] } }

/-- The body of the loop of `amdgpu_cs_p2_dependencies`. The references to the context and the
fence are given back before the body is left, on every path. -/
def dependency (c : Chunk) (i : Nat) (p : Parser) : Parser × Option Errno :=
  let a := c.item i
  let b := depDw * i
  let p := p.read c [b + 3]
  if a.ctx = false then (p, some .einval)
  else
    let p := p.read c [b, b + 1, b + 2]
    match amdgpuCtxGetEntity (c.dw b) (c.dw (b + 1)) (c.dw (b + 2)) a.entity with
    | .error e => (p, some e)
    | .ok _ =>
      let p := p.read c [b + 4, b + 5]
      match a.fence with
      | .error e => (p, some e)
      | .ok false => (p, none)
      | .ok true => (p, a.sync)

def amdgpuCsP2Dependencies (c : Chunk) (p : Parser) : Parser × Option Errno :=
  eachUntil (dependency c) (List.range (c.numDeps depDw)) p

/-- `amdgpu_syncobj_lookup_and_add` with the dwords `ds` as its arguments. -/
def lookupAndAdd (c : Chunk) (ds : Nat → List Nat) (i : Nat) (p : Parser) : Parser × Option Errno :=
  (p.read c (ds i), (c.item i).findFence.or (c.item i).sync)

def amdgpuCsP2SyncobjIn (c : Chunk) (p : Parser) : Parser × Option Errno :=
  eachUntil (lookupAndAdd c fun i => [semDw * i]) (List.range (c.numDeps semDw)) p

def amdgpuCsP2SyncobjTimelineWait (c : Chunk) (p : Parser) : Parser × Option Errno :=
  eachUntil
    (lookupAndAdd c fun i =>
      [syncobjDw * i, syncobjDw * i + 2, syncobjDw * i + 3, syncobjDw * i + 1])
    (List.range (c.numDeps syncobjDw)) p

/-- Records a post dependency: `p->num_post_deps++`. -/
def Parser.addPostDep (d : PostDep) (p : Parser) : Parser :=
  { p.take (.syncobj d.syncobj) with postDeps := p.postDeps.map (· ++ [d]) }

/-- The body of the loop of `amdgpu_cs_p2_syncobj_out`. -/
def syncobjOut (c : Chunk) (i : Nat) (p : Parser) : Parser × Option Errno :=
  let p := p.read c [semDw * i]
  match (c.item i).syncobj with
  | none => (p, some .einval)
  | some syncobj => (p.addPostDep { syncobj, chain := none, point := 0 }, none)

/-- The body of the loop of `amdgpu_cs_p2_syncobj_timeline_signal`. -/
def syncobjTimelineSignal (c : Chunk) (i : Nat) (p : Parser) : Parser × Option Errno :=
  let b := syncobjDw * i
  let p := p.read c [b + 2, b + 3]
  let point := c.qw (b + 2)
  if point ≠ 0 ∧ (c.item i).chain = false then (p, some .enomem)
  else
    let chain := if point ≠ 0 then some i else none
    let p := p.read c [b]
    match (c.item i).syncobj with
    | none =>
      -- the chain just allocated is freed again
      (match chain with
        | none => p
        | some k => (p.take (.chain k)).give (.chain k), some .einval)
    | some syncobj =>
      let p := match chain with
        | none => p
        | some k => p.take (.chain k)
      ((p.read c [b + 2, b + 3]).addPostDep { syncobj, chain, point }, none)

/-- The frame of the two functions that fill `post_deps`. -/
def fillPostDeps (c : Chunk) (size : Nat) (body : Nat → Parser → Parser × Option Errno)
    (p : Parser) : Parser × Option Errno :=
  if p.postDeps ≠ none then (p, some .einval)
  else if c.postDeps = false then (p, some .enomem)
  else eachUntil body (List.range (c.numDeps size)) { p with postDeps := some [] }

def amdgpuCsP2SyncobjOut (c : Chunk) (p : Parser) : Parser × Option Errno :=
  fillPostDeps c semDw (syncobjOut c) p

def amdgpuCsP2SyncobjTimelineSignal (c : Chunk) (p : Parser) : Parser × Option Errno :=
  fillPostDeps c syncobjDw (syncobjTimelineSignal c) p

/-- `amdgpu_cs_p2_shadow`; the only flag is `..._FLAGS_INIT_SHADOW`. -/
def amdgpuCsP2Shadow (c : Chunk) (p : Parser) : Parser × Option Errno :=
  let p := p.read c [6, 7]
  if 1 < c.qw 6 then (p, some .einval)
  else
    let p := p.read c [0, 1, 2, 3, 4, 5, 6, 7]
    ({ p with jobs := p.jobs.map fun j =>
        { j with
          shadowVa := c.qw 0
          csaVa := c.qw 2
          gdsVa := c.qw 4
          initShadow := c.qw 6 == 1 } }, none)

/-- Runs a function of the parser under the local variables of pass 2. -/
def Pass2.lift (f : Parser → Parser × Option Errno) (s : Pass2) : Pass2 × Option Errno :=
  ({ s with p := (f s.p).1 }, (f s.p).2)

def pass2Chunk (c : Chunk) (s : Pass2) : Pass2 × Option Errno :=
  match c.id with
  | .ib => amdgpuCsP2Ib c s
  | .dependencies | .scheduledDependencies => s.lift (amdgpuCsP2Dependencies c)
  | .syncobjIn => s.lift (amdgpuCsP2SyncobjIn c)
  | .syncobjOut => s.lift (amdgpuCsP2SyncobjOut c)
  | .syncobjTimelineWait => s.lift (amdgpuCsP2SyncobjTimelineWait c)
  | .syncobjTimelineSignal => s.lift (amdgpuCsP2SyncobjTimelineSignal c)
  | .cpGfxShadow => s.lift (amdgpuCsP2Shadow c)
  | .fence | .boHandles | .unknown => (s, none)

def amdgpuCsPass2 (call : Call) (p : Parser) : Parser × Option Errno :=
  let s := eachUntil pass2Chunk call.chunks { p }
  (s.1.p, s.2)

end Amdkfd.Cs
